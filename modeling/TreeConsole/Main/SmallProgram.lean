import TreeConsole.Editor.External
import TreeConsole.Main.LineEdit.Reader

/-!
# Small programs

What the command starts as an editor. It cannot start what is really under `/bin`, and has stand-ins
for the programs there that work on a file without asking anybody, as far as an editor can be one of
them: those that succeed or fail, the test of a file, its removal, a shell with one word, and the
line editor. Some files are there that are no programs.

Nothing but the command knows of these. Everywhere else the programs are given from outside.
-/

namespace TreeConsole.Console.SmallProgram

/-- Ends with a status and leaves the file as it is. -/
def ending (status : Nat) : FileProgram := fun _ file => ⟨status, some file⟩

/-- The status that says whether something holds. -/
def verdict (holds : Bool) : Nat := if holds then 0 else 1

/-- The answer of a test of a regular file that can be read and written but not run. -/
def fileTest (file : Bytes) : String → Option Bool
  | "-e" | "-f" | "-r" | "-w" | "-n" | "-O" | "-G" => some true
  | "-s" => some (!file.isEmpty)
  | "-d" | "-x" | "-z" | "-L" | "-h" | "-p" | "-S" | "-b" | "-c" | "-g" | "-k" | "-u" => some false
  | _ => none

/-- Tests the file. -/
def test : FileProgram := fun args file =>
  let status := match args with
    | [] => some true
    | ["!"] => some false
    | [op] => fileTest file op
    | ["!", op] => (fileTest file op).map (!·)
    | [_, "="] | [_, "=="] => some false
    | [_, "!="] | [_, "-o"] => some true
    | [word, "-a"] => some (word ≠ "")
    | _ => none
  ⟨(status.map verdict).getD 2, some file⟩

/-- Removes the file, and others that are not there, unless a letter among the arguments is not
known. -/
def remove : FileProgram := fun args file =>
  let options := args.filter fun a => a.startsWith "-"
  let others := args.filter fun a => !a.startsWith "-"
  let letters := options.flatMap fun
    | "--" => []
    | "--force" => ['f']
    | "--recursive" => ['r']
    | option => option.toList.drop 1
  if letters.all "dfrRvI".toList.contains then
    ⟨verdict (others.isEmpty || letters.contains 'f'), none⟩
  else ⟨1, some file⟩

/-- The status of the last line of a shell script, given that of the line before it. Only the words
that set a status are known. -/
def scriptStatus : Nat → List (List String) → Nat
  | status, [] => status
  | status, [] :: lines => scriptStatus status lines
  | status, ("exit" :: args) :: _ => (args.head?.bind String.toNat?).getD status % 256
  | _, ("true" :: _) :: lines | _, (":" :: _) :: lines | _, ("echo" :: _) :: lines =>
    scriptStatus 0 lines
  | _, ("false" :: _) :: lines => scriptStatus 1 lines
  | status, (word :: _) :: lines =>
    scriptStatus (if word.startsWith "#" then status else 127) lines

/-- Whether a quote in a script is never closed. -/
def isUnclosed (script : String) : Bool :=
  ['\'', '"'].any fun quote => script.toList.count quote % 2 = 1

/-- The status of a script that a shell runs. -/
def runScript (script : String) : Nat :=
  if isUnclosed script then 2
  else
    let bare := String.ofList (script.toList.filter fun c => c ≠ '\'' && c ≠ '"')
    scriptStatus 0 ((bare.splitOn "\n").map words)

/-- Runs one word, or the file as a script. -/
def shell : FileProgram := fun args file =>
  match args with
  | [] => ⟨runScript (Utf8.toText file), some file⟩
  | "-c" :: script :: _ => ⟨runScript (script.replace ";" "\n"), some file⟩
  | ["-c"] => ⟨126, some file⟩
  | _ => ⟨2, some file⟩

/-- What the line editor was asked for. -/
structure LineRequest where
  inPlace : Bool
  quiet : Bool
  extended : Bool
  scripts : List String
  others : List String

/-- The request of no arguments. -/
def LineRequest.plain : LineRequest := ⟨false, false, false, [], []⟩

/-- Reads the letters of an argument, before the arguments behind it. A letter with a script takes
it from what follows; what follows the letter for working in place names a copy. -/
def lineLetters : List Char → List String → Option (LineRequest → LineRequest) × List String
  | [], args => (some id, args)
  | 'i' :: _, args => (some fun r => { r with inPlace := true }, args)
  | ['e'], script :: args => (some fun r => { r with scripts := script :: r.scripts }, args)
  | ['e'], [] => (none, [])
  | 'e' :: script, args =>
    (some fun r => { r with scripts := String.ofList script :: r.scripts }, args)
  | c :: cs, args =>
    let change : Option (LineRequest → LineRequest) := match c with
      | 'n' => some fun r => { r with quiet := true }
      | 'E' | 'r' => some fun r => { r with extended := true }
      | 's' | 'u' => some id
      | _ => none
    let r := lineLetters cs args
    (change.bind fun f => r.1.map fun g => f ∘ g, r.2)

/-- Reads the arguments of the line editor; the number bounds how many there are. -/
def lineRequest : Nat → List String → Option LineRequest
  | 0, _ | _, [] => some .plain
  | n + 1, arg :: args =>
    match arg.toList with
    | '-' :: '-' :: name =>
      let name := String.ofList name
      if name = "quiet" || name = "silent" then
        (lineRequest n args).map fun r => { r with quiet := true }
      else if name = "regexp-extended" then
        (lineRequest n args).map fun r => { r with extended := true }
      else if name = "in-place" || name.startsWith "in-place=" then
        (lineRequest n args).map fun r => { r with inPlace := true }
      else if name = "expression" then
        args.head?.bind fun script => (lineRequest n (args.drop 1)).map fun r =>
          { r with scripts := script :: r.scripts }
      else none
    | '-' :: c :: cs =>
      let (change, args) := lineLetters (c :: cs) args
      change.bind fun f => (lineRequest n args).map f
    | _ => (lineRequest n args).map fun r => { r with others := arg :: r.others }

/-- Edits the file line by line. A script that cannot be read ends with a failure, as does another
file that is not there. -/
def lineEditor : FileProgram := fun args file =>
  match lineRequest args.length args with
  | none => ⟨1, some file⟩
  | some r =>
    let (scripts, others) := match r.scripts, r.others with
      | [], script :: others => ([script], others)
      | scripts, others => (scripts, others)
    match scripts, LineEdit.script? r.extended ("\n".intercalate scripts) with
    | [], _ | _, none => ⟨1, some file⟩
    | _, some instructions =>
      let (status, new) := LineEdit.editAll instructions r.quiet file
      ⟨if others.isEmpty then status else 2, some (if r.inPlace then new else file)⟩

/-- The programs by their names. -/
def table : List (String × FileProgram) :=
  [("true", ending 0), ("false", ending 1), ("test", test), ("rm", remove), ("sh", shell),
    ("sed", lineEditor)]

/-- The folders in which programs are. -/
def folders : List String := ["/bin/", "/usr/bin/"]

/-- Files and folders that are there and no programs. -/
def others : List String :=
  ["/", "/bin", "/etc", "/tmp", "/usr", "/usr/bin", "/dev", "/dev/null", "/etc/passwd",
    "/etc/hostname", "/etc/hosts"]

/-- The program of a name. A name without a folder is looked for nowhere. -/
def find : Programs := fun name =>
  match (folders.flatMap fun folder => table.map fun e => (folder ++ e.1, e.2)).lookup name with
  | some program => .ok program
  | none =>
    if others.contains name then .error .permissionDenied
    else if name.startsWith "/etc/passwd/" then .error .notDirectory
    else .error .notFound

end TreeConsole.Console.SmallProgram
