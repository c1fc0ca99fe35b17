import TreeConsole.Token
import TreeConsole.ShellError

/-!
# Commands and their argument positions

Each command asks for a fixed list of arguments, some of which may be left out. A line is accepted
when its first chunk is a command word and the remaining chunks, every one of them, fill the
positions of that command in order.

Main statement: `Command.ofTokens?_eq_some_iff`, the reading of a command from tokens.
-/

namespace TreeConsole

/-- A position for an argument. -/
structure Slot where
  kind : TokenKind
  /-- Whether the argument may be left out. -/
  optional : Bool
  deriving DecidableEq, Repr, Inhabited

namespace Slot

/-- A position that has to be filled. -/
def required (kind : TokenKind) : Slot := ⟨kind, false⟩

/-- A position that may stay empty. -/
def allowed (kind : TokenKind) : Slot := ⟨kind, true⟩

end Slot

/-- The argument positions of a command, the command word left out. -/
def Keyword.slots : Keyword → List Slot
  | .ls | .get | .stat | .create | .delete | .rmr | .edit => [.required .path]
  | .set => [.required .path, .allowed .quotedString]
  | .help => [.allowed .command]
  | .raw => [.required .adminWord]
  | .quit | .exit | .close | .toggleWrite => []

/-- Whether tokens fill positions in order, with no token left over and no required position
left empty. -/
def fills : List Slot → List Token → Bool
  | [], tokens => tokens.isEmpty
  | slot :: slots, tokens =>
    (match tokens with
      | [] => false
      | token :: rest => token.isKind slot.kind && fills slots rest) ||
      (slot.optional && fills slots tokens)

/-- A command with its arguments as they were typed. -/
structure Command where
  keyword : Keyword
  args : List String
  deriving DecidableEq, Repr, Inhabited

/-- The command word a token spells. -/
def Token.keyword? (t : Token) : Option Keyword :=
  if t.isKind .command then Keyword.ofWord? t.text else none

namespace Command

/-- The command that tokens spell: a command word, then the arguments. -/
def ofTokens? : List Token → Option Command
  | [] => none
  | token :: rest => token.keyword?.map fun keyword => ⟨keyword, rest.map Token.text⟩

/-- An argument by its position. -/
def arg? (c : Command) (i : Nat) : Option String := c.args[i]?

theorem ofTokens?_eq_some_iff {tokens : List Token} {c : Command} :
    ofTokens? tokens = some c ↔
      ∃ token rest, tokens = token :: rest ∧ token.keyword? = some c.keyword ∧
        c.args = rest.map Token.text := by
  cases tokens with
  | nil => simp [ofTokens?]
  | cons token rest =>
    rcases c with ⟨keyword, args⟩
    simp only [ofTokens?, Option.map_eq_some_iff, mk.injEq, List.cons.injEq]
    constructor
    · rintro ⟨k, hk, rfl, rfl⟩
      exact ⟨token, rest, ⟨rfl, rfl⟩, hk, rfl⟩
    · rintro ⟨_, _, ⟨rfl, rfl⟩, hk, hargs⟩
      exact ⟨keyword, hk, rfl, hargs.symm⟩

end Command

/-- Splits a line into its command word and the chunks after it. -/
def leading (line : String) : Except ShellError (Keyword × List Token) :=
  match scan line with
  | [] => .error (.unknownCommand line)
  | token :: rest =>
    match token.keyword? with
    | some keyword => .ok (keyword, rest)
    | none => .error (.unknownCommand line)

/-- What is said of a line whose arguments do not fit. -/
def malformed (line : String) : String := "Command '" ++ Text.trimmed line ++ "' is invalid"

/-- The command word of a line that is well formed. -/
def validate (line : String) : Except ShellError Keyword :=
  match leading line with
  | .error e => .error e
  | .ok (keyword, arguments) =>
    if fills keyword.slots arguments then .ok keyword
    else .error (.invalidArguments keyword (malformed line))

end TreeConsole
