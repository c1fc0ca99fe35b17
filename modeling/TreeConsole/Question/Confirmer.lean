import TreeConsole.Question.Basic

/-!
# Confirmers

Whoever answers the questions of a shell: nobody, so that the default is taken; a list of answers;
or a user at a terminal. A confirmer answers over a state of its own.

Main statement: `recorded_ask_fst`.
-/

namespace TreeConsole

/-- Answers questions over a state. -/
structure Confirmer (κ : Type) where
  ask : Question → κ → Bool × κ

namespace Confirmer

variable {κ ι : Type}

/-- Takes the default of every question. -/
def assumeDefault : Confirmer κ where
  ask q k := (q.default, k)

/-- Gives the answers of a list, then defaults. -/
def scripted : Confirmer (List Bool) where
  ask q
    | [] => (q.default, [])
    | answer :: answers => (answer, answers)

/-- Asks the user at a terminal. -/
def onTerminal : Confirmer Terminal where
  ask := Question.ask

/-- The confirmer that keeps a list of the questions put to another. -/
def recorded (c : Confirmer κ) : Confirmer (κ × List Question) where
  ask q s :=
    let r := c.ask q s.1
    (r.1, r.2, s.2 ++ [q])

/-- A confirmer over the first part of a state. -/
def onFirst (c : Confirmer κ) : Confirmer (κ × ι) where
  ask q s :=
    let r := c.ask q s.1
    (r.1, r.2, s.2)

/-- A confirmer over the second part of a state. -/
def onSecond (c : Confirmer κ) : Confirmer (ι × κ) where
  ask q s :=
    let r := c.ask q s.2
    (r.1, s.1, r.2)

@[simp] theorem recorded_ask_fst (c : Confirmer κ) (q : Question) (k : κ) (log : List Question) :
    (c.recorded.ask q (k, log)).1 = (c.ask q k).1 := rfl

@[simp] theorem assumeDefault_ask (q : Question) (k : κ) :
    assumeDefault.ask q k = (q.default, k) := rfl

end Confirmer
end TreeConsole
