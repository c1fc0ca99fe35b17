import TreeConsole.Keyword
import TreeConsole.Text.Blank
import TreeConsole.Text.Utf8

/-!
# Tokens of a line

A line falls into chunks: a text between two quotes of one sort, or else a run of characters that
are not blank. A quote that is never closed is an ordinary character. A chunk that follows another
without a blank between them is glued to it, and no argument position accepts it.

`scan` keeps every chunk, so that a reader of the line can reject the ones it does not expect;
`tokenize` keeps those that some argument position could accept.

Main statements: `chunk_append` and `length_chunk_snd_le`, that a chunk is cut off the front of the
line and leaves less behind; `scanFrom_cons` for one step of `scan`.
-/

namespace TreeConsole

open Text

/-- Whether a character opens a quoted text. -/
def isQuote (c : Char) : Bool := c == '\'' || c == '"'

/-- The rest of a quoted text after the quote that opened it: what is quoted, and what follows the
closing quote. -/
def closing (q : Char) (cs : List Char) : Option (List Char × List Char) :=
  match cs.dropWhile (· != q) with
  | [] => none
  | _ :: rest => some (cs.takeWhile (· != q), rest)

/-- The first chunk of a line that starts with the character `c`, which is not blank, and what
follows it. -/
def chunk (c : Char) (cs : List Char) : List Char × List Char :=
  match if isQuote c then closing c cs else none with
  | some (body, rest) => (c :: (body ++ [c]), rest)
  | none => (c :: cs.takeWhile isInk, cs.dropWhile isInk)

theorem closing_eq_some {q : Char} {cs body rest : List Char}
    (h : closing q cs = some (body, rest)) : cs = body ++ q :: rest := by
  unfold closing at h
  split at h
  · simp at h
  · rename_i x xs hdrop
    simp only [Option.some.injEq, Prod.mk.injEq] at h
    obtain ⟨rfl, rfl⟩ := h
    have hx : x = q := by
      have := List.head?_dropWhile_not (· != q) cs
      rw [hdrop] at this
      simpa using this
    have := List.takeWhile_append_dropWhile (p := (· != q)) (l := cs)
    rw [hdrop, hx] at this
    exact this.symm

theorem chunk_append (c : Char) (cs : List Char) :
    (chunk c cs).1 ++ (chunk c cs).2 = c :: cs := by
  unfold chunk
  split
  · rename_i body rest h
    split at h
    · simp [closing_eq_some h]
    · simp at h
  · simp

theorem length_chunk_snd_le (c : Char) (cs : List Char) :
    (chunk c cs).2.length ≤ cs.length := by
  have hlen := congrArg List.length (chunk_append c cs)
  have hne : (chunk c cs).1 ≠ [] := by unfold chunk; split <;> simp
  have := List.length_pos_iff.mpr hne
  simp only [List.length_append, List.length_cons] at hlen
  omega

/-- The shape of a chunk, before an argument position gives it a meaning. -/
inductive Lexeme where
  /-- A bare word. -/
  | word
  /-- A node path. -/
  | path
  /-- A quoted text. -/
  | quoted
  /-- A chunk glued to the one before it. -/
  | unrecognized
  deriving DecidableEq, Repr, Inhabited

/-- The name of a shape. -/
def Lexeme.title : Lexeme → String
  | .word => "Word"
  | .path => "Path"
  | .quoted => "Quoted"
  | .unrecognized => "Unrecognized"

/-- A slash, then anything without a blank. -/
def isPathShape : List Char → Bool
  | '/' :: cs => cs.all isInk
  | _ => false

/-- A quote, then the same quote at the very end and nowhere between. -/
def isQuotedShape : List Char → Bool
  | q :: cs => isQuote q && (closing q cs).any fun r => r.2.isEmpty
  | [] => false

/-- The shape of a chunk that is not glued. -/
def Lexeme.ofChunk (cs : List Char) : Lexeme :=
  if isQuotedShape cs then .quoted else if isPathShape cs then .path else .word

/-- Whether a text is, as a whole, of a kind. -/
def TokenKind.accepts : TokenKind → String → Bool
  | .command, s => (Keyword.ofWord? s).isSome
  | .path, s => isPathShape s.toList
  | .quotedString, s => isQuotedShape s.toList
  | .adminWord, s => adminWords.contains s

/-- A chunk of a line, with the number of bytes before it. -/
structure Token where
  lexeme : Lexeme
  text : String
  start : Nat
  deriving DecidableEq, Repr, Inhabited

namespace Token

/-- The number of bytes of the line up to the end of the token. -/
def stop (t : Token) : Nat := t.start + Utf8.width t.text.toList

/-- Whether a token can stand where a kind is asked for. Paths and quoted texts are known by their
shape, words by what they spell. -/
def isKind (t : Token) (kind : TokenKind) : Bool :=
  match t.lexeme, kind with
  | .word, .command | .word, .adminWord => kind.accepts t.text
  | .path, .path | .quoted, .quotedString => true
  | _, _ => false

/-- Whether a token can stand anywhere at all. -/
def isRecognized (t : Token) : Bool :=
  match t.lexeme with
  | .path | .quoted => true
  | .word => TokenKind.command.accepts t.text || TokenKind.adminWord.accepts t.text
  | .unrecognized => false

theorem isRecognized_iff {t : Token} : t.isRecognized = true ↔ ∃ k, t.isKind k = true := by
  rcases t with ⟨lexeme, text, start⟩
  cases lexeme <;> simp only [isRecognized, isKind, Bool.or_eq_true]
  · constructor
    · rintro (h | h)
      · exact ⟨.command, h⟩
      · exact ⟨.adminWord, h⟩
    · rintro ⟨k, h⟩
      cases k <;> simp_all
  · exact ⟨fun _ => ⟨.path, rfl⟩, fun _ => trivial⟩
  · exact ⟨fun _ => ⟨.quotedString, rfl⟩, fun _ => trivial⟩
  · simp

end Token

/-- The chunks of the rest of a line, from a byte position on; `glued` when a chunk ends there. -/
def scanFrom (position : Nat) (glued : Bool) : List Char → List Token
  | [] => []
  | c :: cs =>
    if isBlank c then scanFrom (position + c.utf8Size) false cs
    else
      -- A quoted text right behind another chunk is glued to it, whatever its shape.
      { lexeme := if glued then .unrecognized else .ofChunk (chunk c cs).1
        text := String.ofList (chunk c cs).1
        start := position } ::
      scanFrom (position + Utf8.width (chunk c cs).1) true (chunk c cs).2
termination_by cs => cs.length
decreasing_by
  · simp
  · exact Nat.lt_succ_of_le (length_chunk_snd_le c cs)

theorem scanFrom_nil (position : Nat) (glued : Bool) : scanFrom position glued [] = [] := by
  unfold scanFrom
  rfl

theorem scanFrom_cons (position : Nat) (glued : Bool) (c : Char) (cs : List Char) :
    scanFrom position glued (c :: cs) =
      if isBlank c then scanFrom (position + c.utf8Size) false cs
      else
        { lexeme := if glued then .unrecognized else .ofChunk (chunk c cs).1
          text := String.ofList (chunk c cs).1
          start := position } ::
        scanFrom (position + Utf8.width (chunk c cs).1) true (chunk c cs).2 := by
  conv => lhs; unfold scanFrom

/-- Every chunk of a line, from left to right. -/
def scan (line : String) : List Token := scanFrom 0 false line.toList

/-- The chunks of a line that can stand somewhere in a command. -/
def tokenize (line : String) : List Token := (scan line).filter Token.isRecognized

end TreeConsole
