import InkBindings.CommandLine.Run
/-!
The program: it looks at the files the command asks for, prints and writes what the command
yields, and tells of a failure on the error stream.
-/

namespace InkBindings

open CommandLine (Entry Surroundings)

def startVariables : IO Settings.Variables := do
  match ← (IO.FS.readBinFile "/proc/self/environ").toBaseIO with
  | .error _ => return []
  | .ok content =>
    let assignments := (String.fromUTF8? content).getD "" |>.splitOn "\x00"
    return assignments.filterMap fun a =>
      match a.splitOn "=" with
      | name :: value@(_ :: _) => some (name, "=".intercalate value)
      | _ => none

def isDirectoryCode (code : UInt32) : Bool := code = 21 || code = 0 - 21

def standsAt (path : String) : IO Entry := do
  match ← (IO.FS.readBinFile path).toBaseIO with
  | .ok content => return .file content.toList
  | .error (.noFileOrDirectory ..) =>
    match ← (IO.FS.readBinFile (Path.parent path)).toBaseIO with
    | .error (.inappropriateType _ code _) =>
      return if isDirectoryCode code then .free else .noDirectory
    | _ => return .noDirectory
  | .error (.inappropriateType _ code _) =>
    return if isDirectoryCode code then .directory else .throughFile
  | .error (.invalidArgument ..) => return .nameTooLong
  | .error _ => return .unreadable

def runProgram (args : List String) : IO UInt32 := do
  let surroundings : Surroundings IO := ⟨← startVariables, standsAt⟩
  match ← (CommandLine.run surroundings args).run with
  | .ok effect =>
    IO.print effect.printed
    if let some w := effect.written then IO.FS.writeFile w.path w.text
    return 0
  | .error f =>
    IO.eprintln f.report
    return 1

end InkBindings

def main (args : List String) : IO UInt32 := do
  try InkBindings.runProgram args
  catch e =>
    IO.eprintln s!"error: {e}"
    return 1
