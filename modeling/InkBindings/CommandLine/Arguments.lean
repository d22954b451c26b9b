import InkBindings.Text.Quoted
/-!
Reading the arguments of a command: options with a value, attached or in the next argument, and
words. Two hyphens alone end the options.
-/

namespace InkBindings.CommandLine

inductive Parameter
  | metadata
  | wasmPath
  | output
  | logLevel
  | logFormat
  deriving DecidableEq, Repr

namespace Parameter

def all : List Parameter := [metadata, wasmPath, output, logLevel, logFormat]

def longName : Parameter → String
  | metadata => "--metadata"
  | wasmPath => "--wasm-path"
  | output => "--output"
  | logLevel => "--log-level"
  | logFormat => "--log-format"

def letter? : Parameter → Option Char
  | metadata => some 'm'
  | output => some 'o'
  | _ => none

end Parameter

inductive ArgumentError
  | noSuchOption (name : String)
  | valueMissing (name : String)
  | valueUnwanted (name : String)
  deriving DecidableEq, Repr

def ArgumentError.message : ArgumentError → String
  | .noSuchOption name => "No such option: " ++ Text.escapeControls name
  | .valueMissing name => s!"Option {Text.quote name} requires an argument."
  | .valueUnwanted name => s!"Option {Text.quote name} does not take a value."

inductive Token
  | word
  | endOfOptions
  | help
  | attached (p : Parameter) (value : String)
  /-- The value is the next argument; the option was named so. -/
  | separate (p : Parameter) (name : String)
  deriving DecidableEq, Repr

namespace Token

def helpName : String := "--help"

/-- An option of several letters. Its value may follow an equals sign. -/
def ofLong (known : List Parameter) (arg : List Char) : Except ArgumentError Token :=
  let name := String.ofList (arg.takeWhile (· ≠ '='))
  let value? := (arg.dropWhile (· ≠ '=')).tail?.map String.ofList
  match known.find? (·.longName = name), value? with
  | some p, some value => .ok (.attached p value)
  | some p, none => .ok (.separate p name)
  | none, value? =>
    if name = helpName then
      if value?.isSome then .error (.valueUnwanted name) else .ok .help
    else .error (.noSuchOption name)

/-- An option of one letter. Its value may follow at once. -/
def ofShort (known : List Parameter) (letter : Char) (value : List Char) :
    Except ArgumentError Token :=
  let name := String.ofList ['-', letter]
  match known.find? (·.letter? = some letter) with
  | some p => .ok (if value.isEmpty then .separate p name else .attached p (String.ofList value))
  | none => .error (.noSuchOption name)

def ofArgument (known : List Parameter) (arg : String) : Except ArgumentError Token :=
  match arg.toList with
  | ['-', '-'] => .ok .endOfOptions
  | '-' :: '-' :: rest => ofLong known ('-' :: '-' :: rest)
  | '-' :: letter :: value => ofShort known letter value
  | _ => .ok .word

end Token

/-- Arguments that have been read: the options in the order in which they first occur, whether
help is asked for, and the words. -/
structure Arguments where
  values : List (Parameter × String) := []
  help : Bool := false
  words : List String := []
  deriving DecidableEq, Repr

namespace Arguments

/-- The value of an option that occurs again is replaced. -/
def put (p : Parameter) (value : String) :
    List (Parameter × String) → List (Parameter × String)
  | [] => [(p, value)]
  | entry :: rest => if entry.1 = p then (p, value) :: rest else entry :: put p value rest

def value? (a : Arguments) (p : Parameter) : Option String :=
  (a.values.find? (·.1 = p)).map (·.2)

/-- Where arguments cannot be read on: why, and the arguments that are left. -/
structure Stop where
  error : ArgumentError
  remaining : List String
  deriving DecidableEq, Repr

/-- Reads further arguments. If options lead, the first word ends them. -/
def readFrom (known : List Parameter) (optionsLead : Bool) (a : Arguments) :
    List String → Except Stop Arguments
  | [] => .ok a
  | arg :: rest =>
    match Token.ofArgument known arg with
    | .error e => .error ⟨e, rest⟩
    | .ok .endOfOptions => .ok { a with words := a.words ++ rest }
    | .ok .word =>
      if optionsLead then .ok { a with words := arg :: rest }
      else readFrom known optionsLead { a with words := a.words ++ [arg] } rest
    | .ok .help => readFrom known optionsLead { a with help := true } rest
    | .ok (.attached p value) =>
      readFrom known optionsLead { a with values := put p value a.values } rest
    | .ok (.separate p name) =>
      match rest with
      | [] => .error ⟨.valueMissing name, []⟩
      | value :: rest => readFrom known optionsLead { a with values := put p value a.values } rest

def read (known : List Parameter) (optionsLead : Bool) (args : List String) :
    Except Stop Arguments :=
  readFrom known optionsLead {} args

end Arguments

end InkBindings.CommandLine
