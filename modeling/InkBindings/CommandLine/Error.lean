import InkBindings.Bindings.Error
import InkBindings.CommandLine.Arguments
import InkBindings.CommandLine.Files
import InkBindings.Metadata.Integer
import InkBindings.Settings.Basic
import InkBindings.Text.Styling
import InkBindings.Text.Utf8
/-!
Why a command fails.
-/

namespace InkBindings.CommandLine

inductive UsageError
  | argument (e : ArgumentError)
  | noFile (path : String)
  | isDirectory (path : String)
  | notReadable (path : String)
  | zeroInPath
  | noSuchCommand (name : String)
  | extraWords (words : List String)
  | metadataMissing
  /-- An error about the name of a command that is close to another name. -/
  | suggesting (e : UsageError) (name : String)

def pluralMark (count : Nat) : String :=
  if count = 1 then "" else "s"

def withoutLastPoints (s : String) : String :=
  String.ofList (Text.dropEndWhile (· = '.') s.toList)

def UsageError.message : UsageError → String
  | .argument e => e.message
  | .noFile path => s!"file {Text.quote path} does not exist."
  | .isDirectory path => s!"file {Text.quote path} is a directory."
  | .notReadable path => s!"file {Text.quote path} is not readable."
  | .zeroInPath => "Value error, embedded null byte"
  | .noSuchCommand name => s!"No such command {Text.quote name}."
  | .extraWords words =>
    "Got unexpected extra argument(s) (" ++ Text.escapeControls (" ".intercalate words) ++ ")"
  | .metadataMissing => "--metadata is required"
  | .suggesting e name => withoutLastPoints e.message ++ s!". Did you mean {Text.quote name}?"

inductive WriteProblem
  | noDirectory
  | forbidden
  | throughFile
  | isDirectory
  | nameTooLong
  deriving DecidableEq, Repr

def WriteProblem.message : WriteProblem → String
  | .noDirectory => "[Errno 2] No such file or directory"
  | .forbidden => "[Errno 13] Permission denied"
  | .throughFile => "[Errno 20] Not a directory"
  | .isDirectory => "[Errno 21] Is a directory"
  | .nameTooLong => "[Errno 36] File name too long"

def Entry.problem? : Entry → Option WriteProblem
  | .file _ | .free => none
  | .directory => some .isDirectory
  | .unreadable => some .forbidden
  | .noDirectory => some .noDirectory
  | .throughFile => some .throughFile
  | .nameTooLong => some .nameTooLong

inductive Failure
  | usage (e : UsageError)
  | settings (faults : List Settings.Fault)
  | unknownLevel (name : String)
  | notText (fault : Utf8.Fault)
  | read (f : Metadata.ReadFailure)
  | bindings (f : Bindings.Failure)
  | write (problem : WriteProblem) (path : String)

def Failure.message : Failure → String
  | .usage e => e.message
  | .settings faults =>
    s!"{faults.length} validation error" ++ pluralMark faults.length ++ " for Settings"
  | .unknownLevel name => s!"Unknown level: {Text.quote name}"
  | .notText fault => fault.message
  | .read f => f.message
  | .bindings f => f.message
  | .write problem path => s!"{problem.message}: {Text.quote path}"

def Failure.report (f : Failure) : String :=
  Text.plain ("error: " ++ f.message)

end InkBindings.CommandLine
