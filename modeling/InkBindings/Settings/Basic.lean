import InkBindings.Settings.Assignments
import InkBindings.Text.Case
import InkBindings.Text.Truth
/-!
The settings of the generator, told by variables or by a file of assignments. The variables win,
and the case of names does not matter.
-/

namespace InkBindings

inductive LogLevel
  | debug
  | info
  | warning
  | error
  | critical
  deriving DecidableEq, Repr

namespace LogLevel

def all : List LogLevel := [debug, info, warning, error, critical]

def name : LogLevel → String
  | debug => "DEBUG"
  | info => "INFO"
  | warning => "WARNING"
  | error => "ERROR"
  | critical => "CRITICAL"

/-- Blanks around the name and the case of its letters do not matter. -/
def ofText? (s : String) : Option LogLevel :=
  all.find? (·.name = Text.upper (Text.strip s))

end LogLevel

inductive LogFormat
  | console
  | json
  deriving DecidableEq, Repr

namespace LogFormat

def all : List LogFormat := [console, json]

def name : LogFormat → String
  | console => "console"
  | json => "json"

/-- Blanks around the name and the case of its letters do not matter. -/
def ofText? (s : String) : Option LogFormat :=
  all.find? (·.name = Text.lower (Text.strip s))

end LogFormat

structure Settings where
  logLevel : LogLevel := .warning
  logFormat : LogFormat := .console
  /-- Whether emitted text begins with a notice that it is generated. -/
  headerComment : Bool := true
  deriving DecidableEq, Repr

namespace Settings

inductive Fault
  | logLevel
  | logFormat
  | headerComment
  deriving DecidableEq, Repr

namespace Fault

def location : Fault → String
  | logLevel => "log_level"
  | logFormat => "log_format"
  | headerComment => "header_comment"

def message : Fault → String
  | logLevel =>
    "Value error, log_level must be one of " ++ ", ".intercalate (LogLevel.all.map LogLevel.name)
  | logFormat =>
    "Value error, log_format must be one of " ++
      ", ".intercalate (LogFormat.all.map LogFormat.name)
  | headerComment => "Input should be a valid boolean, unable to interpret input"

end Fault

def variableStem : String := "ink_wrapper_"

/-- The value of the last entry with a name, whatever its case. -/
def last? {α : Type} (name : String) (entries : List (String × α)) : Option α :=
  (entries.reverse.find? fun e => Text.lower e.1 = name).map (·.2)

/-- The text given for a setting. A name without a value does not count. -/
def textOf? (environment : Variables) (assigned : Assignment.Assigned) (setting : String) :
    Option String :=
  let name := variableStem ++ setting
  match last? name environment with
  | some s => some s
  | none => (last? name assigned).join

def readField {α : Type} (fault : Fault) (read? : String → Option α) (default : α) :
    Option String → Except Fault α
  | none => .ok default
  | some s =>
    match read? s with
    | some a => .ok a
    | none => .error fault

def faults {α : Type} : Except Fault α → List Fault
  | .ok _ => []
  | .error f => [f]

def read (environment : Variables) (file : String) : Except (List Fault) Settings :=
  let assigned := Assignment.values environment file
  let text (fault : Fault) : Option String := textOf? environment assigned fault.location
  let defaults : Settings := {}
  let level := readField .logLevel LogLevel.ofText? defaults.logLevel (text .logLevel)
  let format := readField .logFormat LogFormat.ofText? defaults.logFormat (text .logFormat)
  let header := readField .headerComment Text.truth? defaults.headerComment (text .headerComment)
  match level, format, header with
  | .ok level, .ok format, .ok header => .ok ⟨level, format, header⟩
  | level, format, header => .error (faults level ++ faults format ++ faults header)

end Settings

end InkBindings
