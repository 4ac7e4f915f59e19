import TieredVolume.Fault

/-!
The command line of the packer. Two options name directories and have to be given, a third sets the
size of the image. A value follows its option in the next word or stands in the same word; no option
may be given twice, and no word may be left over.
-/
namespace TieredVolume
namespace Packer

structure Options where
  /-- The directory whose files are packed. -/
  source : String
  /-- The directory in which the image is made. -/
  outDir : String
  /-- The size of the image in units of 2^20 bytes. -/
  size : Nat := 16
  deriving DecidableEq, Repr

/-- The options that take a value. -/
inductive Name where
  | source
  | outDir
  | size
  deriving DecidableEq, Repr

def Name.long : Name → String
  | .source => "source"
  | .outDir => "out-dir"
  | .size => "size"

def Name.ofLong? (text : String) : Option Name :=
  [Name.source, .outDir, .size].find? (·.long = text)

/-- Two options have a short name. -/
def Name.ofShort? : Char → Option Name
  | 's' => some .source
  | 'O' => some .outDir
  | _ => none

theorem Name.ofLong?_long (name : Name) : Name.ofLong? name.long = some name := by
  cases name <;> decide

/-- What is wrong with a command line. -/
inductive UsageError where
  /-- A word that no option calls for. -/
  | unexpected (word : String)
  | missingValue (name : Name)
  | badValue (name : Name) (value : String)
  | repeated (name : Name)
  | missing (name : Name)
  deriving DecidableEq, Repr

def UsageError.message : UsageError → String
  | .unexpected word => s!"unexpected argument '{word}'"
  | .missingValue name => s!"a value is required for '--{name.long}'"
  | .badValue name value => s!"invalid value '{value}' for '--{name.long}'"
  | .repeated name => s!"the argument '--{name.long}' cannot be used multiple times"
  | .missing name => s!"the argument '--{name.long}' was not provided"

/-- What a command line asks for. -/
inductive Request where
  | help
  | pack (options : Options)
  deriving DecidableEq, Repr

/-- A word of a command line, read by itself. -/
inductive Word where
  | plain
  /-- Two dashes, after which there are no options. -/
  | endOfOptions
  | help
  | option (name : Name) (value : Option String)
  | unknown
  deriving DecidableEq, Repr

/-- The value in a long option, which an equals sign announces. -/
def longValue : List Char → Option String
  | '=' :: value => some (String.ofList value)
  | _ => none

/-- The value in a short option, with or without an equals sign. -/
def shortValue : List Char → Option String
  | [] => none
  | '=' :: value => some (String.ofList value)
  | value => some (String.ofList value)

/-- Reads a word. A single dash is a plain word. -/
def Word.ofChars : List Char → Word
  | ['-', '-'] => .endOfOptions
  | '-' :: '-' :: text =>
    let name := String.ofList (text.takeWhile (· ≠ '='))
    let value := longValue (text.dropWhile (· ≠ '='))
    match Name.ofLong? name with
    | some name => .option name value
    | none => if name = "help" ∧ value = none then .help else .unknown
  | '-' :: 'h' :: _ => .help
  | '-' :: c :: rest =>
    match Name.ofShort? c with
    | some name => .option name (shortValue rest)
    | none => .unknown
  | _ => .plain

/-- The number that a row of digits writes, with a plus sign in front or without. -/
def digits? (text : List Char) : Option Nat :=
  let digits := match text with
    | '+' :: rest => rest
    | _ => text
  if digits ≠ [] ∧ digits.all Char.isDigit then
    some (digits.foldl (fun n c => 10 * n + (c.toNat - '0'.toNat)) 0)
  else none

/-- A size is a number that fits a word of 64 bits. -/
def readSize (value : String) : Option Nat :=
  match digits? value.toList with
  | some n => if n < offsetLimit then some n else none
  | none => none

/-- The options met so far. -/
structure Given where
  source : Option String := none
  outDir : Option String := none
  size : Option Nat := none

namespace Given

def has (given : Given) : Name → Bool
  | .source => given.source.isSome
  | .outDir => given.outDir.isSome
  | .size => given.size.isSome

/-- Takes an option with its value. -/
def put (given : Given) (name : Name) (value : String) : Except UsageError Given :=
  if given.has name then .error (.repeated name)
  else
    match name, value.isEmpty, readSize value with
    | .source, false, _ => .ok { given with source := some value }
    | .outDir, false, _ => .ok { given with outDir := some value }
    | .size, _, some size => .ok { given with size := some size }
    | _, _, _ => .error (.badValue name value)

/-- The options, if those that have to be given were given. -/
def options (given : Given) : Except UsageError Options :=
  match given.source, given.outDir with
  | some source, some outDir => .ok { source, outDir, size := given.size.getD 16 }
  | none, _ => .error (.missing .source)
  | _, none => .error (.missing .outDir)

end Given

/-- Reads the words that are left. Every word is judged when its turn comes, so that a call for help
counts only if nothing before it was wrong. -/
def readWords (given : Given) : List String → Except UsageError Request
  | [] => return .pack (← given.options)
  | word :: rest =>
    match Word.ofChars word.toList with
    | .plain | .unknown => .error (.unexpected word)
    | .help => .ok .help
    | .endOfOptions =>
      match rest with
      | [] => return .pack (← given.options)
      | word :: _ => .error (.unexpected word)
    | .option name (some value) => do readWords (← given.put name value) rest
    | .option name none =>
      match rest with
      | [] => .error (.missingValue name)
      | value :: rest =>
        match Word.ofChars value.toList with
        | .plain => do readWords (← given.put name value) rest
        | _ => .error (.missingValue name)

/-- Reads a command line. -/
def Request.ofWords (words : List String) : Except UsageError Request := readWords {} words

section Examples

private def packs (words : List String) (options : Options) : Bool :=
  match Request.ofWords words with
  | .ok (.pack found) => found = options
  | _ => false

private def refuses (words : List String) (error : UsageError) : Bool :=
  match Request.ofWords words with
  | .error found => found = error
  | _ => false

example : packs ["--source", "in", "--out-dir", "."] ⟨"in", ".", 16⟩ := by decide +kernel
example : packs ["-sin", "-O=.", "--size=+2", "--"] ⟨"in", ".", 2⟩ := by decide +kernel
example : refuses ["-s", "in", "-O"] (.missingValue .outDir) := by decide +kernel
example : refuses ["-s", "in", "-o", "."] (.unexpected "-o") := by decide +kernel
example : refuses ["-s", "in", "-s", "in"] (.repeated .source) := by decide +kernel
example : refuses ["-s", "", "-O", "."] (.badValue .source "") := by decide +kernel
example : refuses ["-O", ".", "--size", "-1"] (.missingValue .size) := by decide +kernel
example : refuses ["-O", "."] (.missing .source) := by decide +kernel

end Examples

end Packer
end TieredVolume
