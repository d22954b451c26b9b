import InkBindings.Bindings.Making
import InkBindings.Bindings.Printer
import InkBindings.CommandLine.Error
import InkBindings.Metadata.Reading
import InkBindings.Text.Lines
import InkBindings.Text.Similarity
/-!
The command: it makes bindings of the metadata in a file and prints them or writes them to another
file. What stands at a path is asked for as it is needed; nothing else is done on the way, so that
a command that fails has no effect.
-/

namespace InkBindings.CommandLine

structure Writing where
  path : String
  text : String
  deriving DecidableEq, Repr

/-- What a command that succeeds asks to be done. -/
structure Effect where
  printed : String := ""
  written : Option Writing := none
  deriving DecidableEq, Repr

def Effect.applyTo (e : Effect) (d : Directory) : Directory :=
  match e.written with
  | none => d
  | some w => d.write w.path (Bytes.ofText w.text)

/-- What a command learns from its surroundings: the variables, and what stands at a path. -/
structure Surroundings (m : Type → Type) where
  environment : Settings.Variables
  look : String → m Entry

abbrev Command (m : Type → Type) := ExceptT Failure m

def versionCommand : String := "version"

def settingsFile : String := ".env"

def usage : String :=
  "Usage: [OPTIONS] COMMAND [ARGS]...\n\nOptions: " ++
    ", ".intercalate (Parameter.all.map Parameter.longName ++ [Token.helpName]) ++
    "\nCommands: " ++ versionCommand ++ "\n"

section

variable {m : Type → Type} [Monad m] (s : Surroundings m)

def refuse {α : Type} (e : UsageError) : Command m α :=
  throw (.usage e)

def readArguments (known : List Parameter) (optionsLead : Bool) (args : List String) :
    Command m Arguments :=
  match Arguments.read known optionsLead args with
  | .ok a => pure a
  | .error stop => refuse (.argument stop.error)

/-- What stands at a path as it is written shortest; a slash at its end does not count. -/
def lookAt (path : String) : Command m Entry :=
  if path.toList.contains '\x00' then refuse .zeroInPath
  else ExceptT.lift (s.look (Path.normalize path))

/-- The metadata must be a readable file, and the output must be one if it is anything. -/
def checkPath (given : Parameter × String) : Command m Unit := do
  let (p, path) := given
  if p = .metadata || p = .output then
    match ← lookAt s path with
    | .file _ => return
    | .directory => refuse (.isDirectory path)
    | .unreadable => refuse (.notReadable path)
    | _ => if p = .metadata then refuse (.noFile path)

def textOf (content : Bytes) : Command m String :=
  match Utf8.decode content with
  | .ok text => pure (String.ofList (Text.plainLineEnds text.toList))
  | .error fault => throw (.notText fault)

/-- The text of a file, empty if there is none. -/
def fileText (path : String) : Command m String := do
  match ← lookAt s path with
  | .file content => textOf content
  | _ => return ""

def readSettings : Command m Settings := do
  match Settings.read s.environment (← fileText s settingsFile) with
  | .ok settings => return settings
  | .error faults => throw (.settings faults)

def levelNames : List String :=
  ["CRITICAL", "FATAL", "ERROR", "WARN", "WARNING", "INFO", "DEBUG", "NOTSET"]

/-- A level that is given replaces the one of the settings; an empty one does not count. -/
def checkLevel (given : Option String) : Command m Unit :=
  match given.map Text.upper with
  | none | some "" => pure ()
  | some name => if levelNames.contains name then pure () else throw (.unknownLevel name)

def makeBindings (settings : Settings) (wasmPath : Option String) (document : String) :
    Command m String := do
  match Metadata.ofText document with
  | .error f => throw (.read f)
  | .ok metadata =>
    match Bindings.within? .usual metadata with
    | .error f => throw (.bindings f)
    | .ok bindings => return bindings.text ⟨settings.headerComment, wasmPath⟩

def deliver (output : Option String) (text : String) : Command m Effect := do
  match output.map Path.normalize with
  | none => return { printed := Text.plain text }
  | some path =>
    match (← lookAt s path).problem? with
    | none => return { written := some ⟨path, text⟩ }
    | some problem => throw (.write problem path)

def generate (settings : Settings) (a : Arguments) : Command m Effect := do
  match a.value? .metadata with
  | none => refuse .metadataMissing
  | some path =>
    deliver s (a.value? .output)
      (← makeBindings settings (a.value? .wasmPath) (← fileText s path))

def runVersion (args : List String) : Command m Effect := do
  let a ← readArguments [] false args
  if a.help then return { printed := usage }
  else if a.words.isEmpty then return { printed := Bindings.formVersion ++ "\n" }
  else refuse (.extraWords a.words)

/-- A usage error with the name of the command that the word was perhaps meant for. -/
def suggest (word? : Option String) : Failure → Failure
  | .usage e =>
    .usage (match word? with
      | some word => if Text.isSimilar versionCommand word then .suggesting e versionCommand else e
      | none => e)
  | f => f

def firstLeft? (args : List String) : Option String :=
  match Arguments.read Parameter.all true args with
  | .ok a => a.words.head?
  | .error stop => stop.remaining.head?

/-- A word that no command is named by. If it looks like an option, what is wrong with it as one
comes first. Tells whether it asks for help. -/
def refuseCommand (name : String) (rest : List String) : Command m Bool :=
  if name.toList.head? = some '-' then
    ExceptT.adapt (suggest (firstLeft? (name :: rest))) do
      let a ← readArguments Parameter.all true (name :: rest)
      if a.help then return true
      a.values.forM (checkPath s)
      refuse (.noSuchCommand name)
  else ExceptT.adapt (suggest (some name)) (refuse (.noSuchCommand name))

def run (args : List String) : Command m Effect := do
  let a ← readArguments Parameter.all true args
  if a.help then return { printed := usage }
  a.values.forM (checkPath s)
  match a.words with
  | name :: rest =>
    if name ≠ versionCommand then
      if ← refuseCommand s name rest then return { printed := usage }
    let _ ← readSettings s
    checkLevel (a.value? .logLevel)
    runVersion rest
  | [] =>
    let settings ← readSettings s
    checkLevel (a.value? .logLevel)
    generate s settings a

end

end InkBindings.CommandLine
