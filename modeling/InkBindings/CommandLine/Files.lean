import InkBindings.Bytes.Basic
/-!
Paths of files. Empty components and those that stay in place are left out.
-/

namespace InkBindings.Path

def splitChars : List Char → List (List Char)
  | [] => [[]]
  | c :: rest =>
    if c = '/' then [] :: splitChars rest
    else
      match splitChars rest with
      | [] => [[c]]
      | part :: more => (c :: part) :: more

def components (path : String) : List String :=
  ((splitChars path.toList).map String.ofList).filter fun c => c ≠ "" && c ≠ "."

/-- The slashes that lead a path: none, one, or exactly two. -/
def root (path : String) : String :=
  match path.toList with
  | '/' :: '/' :: '/' :: _ => "/"
  | ['/', '/'] => "//"
  | '/' :: '/' :: _ => "//"
  | '/' :: _ => "/"
  | _ => ""

def ofComponents (root : String) (components : List String) : String :=
  let plain := root ++ "/".intercalate components
  if plain.isEmpty then "." else plain

def normalize (path : String) : String :=
  ofComponents (root path) (components path)

def parent (path : String) : String :=
  ofComponents (root path) (components path).dropLast

end InkBindings.Path

/-!
What a path leads to, and a directory of files in which paths can be looked up. Of what lies
outside of it only the directories above it and those that every system has are known.
-/

namespace InkBindings.CommandLine

inductive Entry
  | file (content : Bytes)
  | directory
  | unreadable
  | free
  | noDirectory
  | throughFile
  | nameTooLong
  deriving DecidableEq, Repr

def maxNameBytes : Nat := 255

/-- Files by the components of their paths. -/
structure Directory where
  files : List (List String × Bytes)

namespace Directory

/-- A place below the directory or above it. -/
inductive Place
  | inside (components : List String)
  | above
  deriving DecidableEq, Repr

def file? (d : Directory) (place : List String) : Option Bytes :=
  (d.files.find? (·.1 = place)).map (·.2)

/-- A directory holds the files whose paths lead through it. -/
def hasDirectory (d : Directory) (place : List String) : Bool :=
  place.isEmpty || d.files.any fun f => place.isPrefixOf f.1 && f.1 ≠ place

def entryAt (d : Directory) (place : List String) : Entry :=
  match d.file? place with
  | some content => .file content
  | none => if d.hasDirectory place then .directory else .free

/-- Goes from a directory along components; gives the place with what stands there. -/
def follow (d : Directory) : Place → List String → Option Place × Entry
  | place, [] => (some place, .directory)
  | .above, ".." :: rest => follow d .above rest
  | .above, _ :: rest => (none, if rest.isEmpty then .free else .noDirectory)
  | .inside here, ".." :: rest =>
    follow d (if here.isEmpty then .above else .inside here.dropLast) rest
  | .inside here, name :: rest =>
    let next := here ++ [name]
    if maxNameBytes < name.utf8ByteSize then (none, .nameTooLong)
    else
      match d.entryAt next, rest with
      | .directory, rest => follow d (.inside next) rest
      | entry, [] => (some (.inside next), entry)
      | .file _, _ => (none, .throughFile)
      | _, _ => (none, .noDirectory)

/-- The directories that a system has at its root. -/
def systemDirectories : List String :=
  ["bin", "dev", "etc", "home", "lib", "opt", "proc", "root", "run", "sbin", "sys", "tmp", "usr",
    "var"]

/-- What stands at a path from the root of the system, by its components. Only what is the same
everywhere is told. -/
def systemEntry : List String → Entry
  | [] => .directory
  | ["dev", "null"] => .file []
  | [name] => if systemDirectories.contains name then .directory else .free
  | [top, _] => if systemDirectories.contains top then .free else .noDirectory
  | _ => .noDirectory

def look (d : Directory) (path : String) : Entry :=
  if Path.root path ≠ "" then systemEntry (Path.components path)
  else (d.follow (.inside []) (Path.components path)).2

/-- The directory with a file written at a path, if a file can stand there. -/
def write (d : Directory) (path : String) (content : Bytes) : Directory :=
  if Path.root path ≠ "" then d
  else
    match d.follow (.inside []) (Path.components path) with
    | (some (.inside place), .file _) =>
      ⟨d.files.map fun f => if f.1 = place then (place, content) else f⟩
    | (some (.inside place), .free) => ⟨d.files ++ [(place, content)]⟩
    | _ => d

def changes (old new : Directory) : List (List String × Bytes) :=
  new.files.filter fun f => old.file? f.1 ≠ some f.2

end Directory

end InkBindings.CommandLine
