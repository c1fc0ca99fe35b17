/-!
# Failures with causes

A failure as it reaches the user: a sentence, and below it the failures that led to it, the nearest
first.
-/

namespace TreeConsole

/-- A failure and what it was caused by. -/
structure Failure where
  text : String
  /-- The causes, the nearest first. -/
  causes : List String
  deriving DecidableEq, Repr, Inhabited

namespace Failure

/-- A failure without a cause. -/
def of (text : String) : Failure := ⟨text, []⟩

/-- The failure of some greater work, caused by another. -/
def within (f : Failure) (text : String) : Failure := ⟨text, f.text :: f.causes⟩

/-- The causes as a numbered list, or alone when there is only one. -/
def causeLines : List String → String
  | [] => ""
  | [cause] => "\n\nCaused by:\n    " ++ cause
  | causes =>
    "\n\nCaused by:" ++ String.join (causes.zipIdx.map fun c =>
      "\n    " ++ toString c.2 ++ ": " ++ c.1)

/-- The sentence with its causes below it. -/
def report (f : Failure) : String := f.text ++ causeLines f.causes

end Failure
end TreeConsole
