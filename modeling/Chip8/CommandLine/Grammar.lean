import Chip8.CommandLine.Unsigned
import Chip8.Text.Numeral

/-!
# Command lines

A command line has options, each with a long and a short name, and one free argument, the file to
work on. The arguments are read one after the other (`Grammar.advance`), and the first mistake
decides the message.

* A short option is a letter behind one hyphen. Options without a value may share a hyphen, and the
  value of an option is the rest of its argument or else the next argument, whatever that is.
* A long option is a word behind two hyphens. Its value follows an equals sign, or is the next
  argument.
* Two hyphens alone end the options; a single hyphen is a free argument.
-/

namespace Chip8.CommandLine

open Text

/-! ## Options -/

/-- What an option does to the settings `σ`. -/
inductive Action (σ : Type)
  /-- Ask for the usage text. -/
  | help
  /-- Change the settings. -/
  | flag (set : σ → σ)
  /-- Take a value and change the settings by it. The usage text shows the placeholder for the value
  and the text of its default. -/
  | value (placeholder : String) (default : Option String)
      (read : String → Except NumeralFault (σ → σ))

/-- An option of a command line. -/
structure Switch (σ : Type) where
  short : Char
  long : String
  action : Action σ
  /-- The line that explains the option. -/
  about : String

/-- The grammar of a command line: its options, and the line that explains its free argument. -/
structure Grammar (σ : Type) where
  name : String
  fileAbout : String
  switches : List (Switch σ)

/-! ## Mistakes -/

/-- What is wrong with a command line. Options are named as they were written. -/
inductive Mistake
  | missingFile
  | missingValue (option : String)
  | unrecognized (option : String)
  | superfluousValue (option : String)
  | unexpectedFree (argument : String)
  | invalidValue (option : String) (fault : NumeralFault)
  deriving DecidableEq, Repr

/-- The text for the user. -/
def Mistake.message : Mistake → String
  | missingFile => "missing required free argument"
  | missingValue option => "missing argument to option `" ++ option ++ "`"
  | unrecognized option => "unrecognized option `" ++ option ++ "`"
  | superfluousValue option => "option `" ++ option ++ "` does not accept an argument"
  | unexpectedFree argument => "unexpected free argument `" ++ argument ++ "`"
  | invalidValue option fault =>
    "invalid argument to option `" ++ option ++ "`: " ++ fault.message

/-! ## Reading arguments -/

/-- What the next argument will be taken for. -/
inductive Expectation (σ : Type)
  /-- An option or a free argument. -/
  | anything
  /-- The value of an option. -/
  | value (option : String) (read : String → Except NumeralFault (σ → σ))
  /-- A free argument. -/
  | free

/-- What has been read from a command line. -/
structure Progress (σ : Type) where
  settings : σ
  file : Option String := none
  help : Bool := false
  expectation : Expectation σ := .anything

namespace Progress

variable {σ : Type}

/-- Take the value of an option. -/
def takeValue (p : Progress σ) (option : String) (read : String → Except NumeralFault (σ → σ))
    (text : String) : Except Mistake (Progress σ) :=
  match read text with
  | .ok set => .ok { p with settings := set p.settings, expectation := .anything }
  | .error fault => .error (.invalidValue option fault)

/-- Take a free argument. There is room for one. -/
def takeFree (p : Progress σ) (argument : String) : Except Mistake (Progress σ) :=
  match p.file with
  | none => .ok { p with file := some argument }
  | some _ => .error (.unexpectedFree argument)

end Progress

namespace Grammar

variable {σ : Type} (g : Grammar σ)

/-- Read the letters behind a hyphen. -/
def takeShort (p : Progress σ) : List Char → Except Mistake (Progress σ)
  | [] => .ok p
  | c :: rest =>
    let option := "-" ++ c.toString
    match (g.switches.find? fun s => s.short == c).map Switch.action with
    | none => .error (.unrecognized option)
    | some .help => takeShort { p with help := true } rest
    | some (.flag set) => takeShort { p with settings := set p.settings } rest
    | some (.value _ _ read) =>
      if rest.isEmpty then .ok { p with expectation := .value option read }
      else p.takeValue option read (String.ofList rest)

/-- Read the word behind two hyphens, with the value behind its equals sign if there is one. -/
def takeLong (p : Progress σ) (word : String) (value : Option String) :
    Except Mistake (Progress σ) :=
  let option := "--" ++ word
  match (g.switches.find? fun s => s.long == word).map Switch.action, value with
  | none, _ => .error (.unrecognized option)
  | some .help, none => .ok { p with help := true }
  | some (.flag set), none => .ok { p with settings := set p.settings }
  | some .help, some _ | some (.flag _), some _ => .error (.superfluousValue option)
  | some (.value _ _ read), none => .ok { p with expectation := .value option read }
  | some (.value _ _ read), some text => p.takeValue option read text

/-- The part before the first equals sign, and the part behind it if there is one. -/
def splitAtEquals (text : List Char) : String × Option String :=
  let word := text.takeWhile (· != '=')
  match text.drop word.length with
  | [] => (String.ofList word, none)
  | _ :: value => (String.ofList word, some (String.ofList value))

/-- Read one argument. -/
def advance (p : Progress σ) (argument : String) : Except Mistake (Progress σ) :=
  match p.expectation with
  | .value option read => p.takeValue option read argument
  | .free => p.takeFree argument
  | .anything =>
    match argument.toList with
    | ['-', '-'] => .ok { p with expectation := .free }
    | '-' :: '-' :: rest =>
      let (word, value) := splitAtEquals rest
      g.takeLong p word value
    | '-' :: c :: rest => g.takeShort p (c :: rest)
    | _ => p.takeFree argument

/-- What a command line asks for. -/
inductive Request (σ : Type)
  /-- The usage text. -/
  | help
  /-- Work on a file. -/
  | work (file : String) (settings : σ)

/-- Read a command line, starting from the default settings. -/
def parse (defaults : σ) (arguments : List String) : Except Mistake (Request σ) := do
  let p ← arguments.foldlM g.advance { settings := defaults }
  match p.expectation, p.help, p.file with
  | .value option _, _, _ => .error (.missingValue option)
  | _, true, _ => .ok .help
  | _, false, some file => .ok (.work file p.settings)
  | _, false, none => .error .missingFile

/-! ## The usage text -/

end Grammar

/-- The names of an option and the placeholder for its value. -/
def Switch.heading {σ : Type} (s : Switch σ) : String :=
  "-" ++ s.short.toString ++ ", --" ++ s.long ++
    match s.action with
    | .value placeholder _ _ => " " ++ placeholder
    | _ => ""

/-- What the usage text says about an option. -/
def Switch.explanation {σ : Type} (s : Switch σ) : String :=
  s.about ++
    match s.action with
    | .value _ (some default) _ => " (default: " ++ default ++ ")"
    | _ => ""

namespace Grammar

variable {σ : Type} (g : Grammar σ)

/-- The usage text: a table of the free argument and the options. -/
def usage : String :=
  let width := (g.switches.map fun s => s.heading.length).foldl max 0
  let line (heading about : String) : String :=
    "  " ++ padded width heading ++ "  " ++ about ++ "\n"
  "Usage: " ++ g.name ++ " [OPTIONS]\n\nPositional arguments:\n" ++ line "file" g.fileAbout
    ++ "\nOptional arguments:\n"
    ++ String.join (g.switches.map fun s => line s.heading s.explanation)

end Grammar

/-! ## Programs -/

/-- What a program leaves: its exit code and what it wrote. -/
structure Output where
  exit : UInt32 := 0
  stdout : String := ""
  stderr : String := ""
  deriving DecidableEq, Repr

/-- Run a program on a command line: a mistake and the usage text go to the error output. -/
def Grammar.run {σ : Type} (g : Grammar σ) (defaults : σ) (arguments : List String)
    (program : String → σ → Output) : Output :=
  match g.parse defaults arguments with
  | .error mistake => { exit := 2, stderr := g.name ++ ": " ++ mistake.message ++ "\n" }
  | .ok .help => { stderr := g.usage }
  | .ok (.work file settings) => program file settings

end Chip8.CommandLine
