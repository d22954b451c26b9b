import InkBindings.Text.Lines
/-!
Files of assignments, one to a line. A value may stand in quotes, and then span lines; a comment
begins with a hash sign. A line that is no assignment is passed over. Values may refer to
variables and to names that are assigned before.
-/

namespace InkBindings.Settings

abbrev Variables := List (String × String)

/-- The value is absent if there is no equals sign. -/
structure Assignment where
  name : String
  value : Option String

namespace Assignment

/-! ### Reading -/

/-- What follows the place where reading stopped. -/
abbrev Stop := List Char

abbrev Reading (α : Type) := Except Stop (α × List Char)

/-- A blank that does not end the line. -/
def isInline (c : Char) : Bool := Text.isBlank c && c ≠ '\n'

def skipInline (cs : List Char) : List Char := cs.dropWhile isInline

def skipLine (cs : List Char) : List Char :=
  (cs.dropWhile (· ≠ '\n')).drop 1

/-- The word that may stand before a name, with the blanks after it. -/
def skipExport (cs : List Char) : List Char :=
  match cs with
  | 'e' :: 'x' :: 'p' :: 'o' :: 'r' :: 't' :: rest =>
    if (rest.head?.map isInline).getD false then skipInline rest else cs
  | _ => cs

def isNameChar (c : Char) : Bool :=
  c ≠ '=' && c ≠ '#' && !Text.isBlank c

/-- A name, plain or in single quotes. A comment stands for no name at all. -/
def name? (cs : List Char) : Reading (Option String) :=
  match cs with
  | '#' :: _ => .ok (none, cs)
  | '\'' :: rest =>
    match rest.takeWhile (· ≠ '\''), rest.dropWhile (· ≠ '\'') with
    | c :: name, _ :: after => .ok (some (String.ofList (c :: name)), after)
    | _, _ => .error cs
  | _ =>
    match cs.takeWhile isNameChar with
    | [] => .error cs
    | name => .ok (some (String.ofList name), cs.dropWhile isNameChar)

/-- The content of a quoted value and what follows it. A backslash takes the next character
along. -/
def quoted? (mark : Char) : List Char → Option (List Char × List Char)
  | [] => none
  | ['\\'] => none
  | '\\' :: c :: rest =>
    (quoted? mark rest).map fun (content, after) => ('\\' :: c :: content, after)
  | c :: rest =>
    if c = mark then some ([], rest)
    else (quoted? mark rest).map fun (content, after) => (c :: content, after)

def singleEscapes : List (Char × Char) := [('\\', '\\'), ('\'', '\'')]

def doubleEscapes : List (Char × Char) :=
  singleEscapes ++ [('"', '"'), ('a', '\x07'), ('b', '\x08'), ('f', '\x0c'), ('n', '\n'),
    ('r', '\r'), ('t', '\t'), ('v', '\x0b')]

/-- A backslash before any other character stands for itself. -/
def unescape (escapes : List (Char × Char)) : List Char → List Char
  | [] => []
  | '\\' :: c :: rest =>
    match escapes.find? (·.1 = c) with
    | some (_, meaning) => meaning :: unescape escapes rest
    | none => '\\' :: unescape escapes (c :: rest)
  | c :: rest => c :: unescape escapes rest

/-- A plain value ends at a hash sign after a blank. -/
def cutComment : List Char → List Char
  | [] => []
  | c :: rest =>
    if Text.isBlank c && (rest.dropWhile Text.isBlank).head? = some '#' then []
    else c :: cutComment rest

def plainValue (cs : List Char) : String :=
  Text.strip (String.ofList (cutComment (cs.takeWhile (· ≠ '\n'))))

def quotedValue (mark : Char) (escapes : List (Char × Char)) (cs : List Char) : Reading String :=
  match quoted? mark (cs.drop 1) with
  | some (content, after) => .ok (String.ofList (unescape escapes content), after)
  | none => .error cs

def value? (cs : List Char) : Reading (Option String) :=
  match cs with
  | '=' :: rest =>
    let start := skipInline rest
    match start.head? with
    | some '\'' => (quotedValue '\'' singleEscapes start).map fun (v, after) => (some v, after)
    | some '"' => (quotedValue '"' doubleEscapes start).map fun (v, after) => (some v, after)
    | _ => .ok (some (plainValue rest), start.dropWhile (· ≠ '\n'))
  | _ => .ok (none, cs)

def skipComment (cs : List Char) : List Char :=
  match skipInline cs with
  | '#' :: rest => rest.dropWhile (· ≠ '\n')
  | _ => cs

def lineEnd (cs : List Char) : Reading Unit :=
  match skipInline cs with
  | [] => .ok ((), [])
  | '\n' :: rest => .ok ((), rest)
  | _ => .error cs

/-- One assignment or comment, from its first character to the end of its last line. -/
def line (cs : List Char) : Except Stop (Option Assignment × List Char) := do
  let (name, cs) ← name? (skipExport cs)
  let (value, cs) ← value? (skipInline cs)
  let (_, cs) ← lineEnd (skipComment cs)
  return (name.map fun n => ⟨n, value⟩, cs)

/-- The assignments in order. Every line is shorter than what is left of the text, so that the
reading comes to an end. -/
def list (cs : List Char) : List Assignment :=
  match cs.dropWhile Text.isBlank with
  | [] => []
  | text =>
    let (found, rest) :=
      match line text with
      | .ok r => r
      | .error place => (none, skipLine place)
    found.toList ++ (if rest.length < cs.length then list rest else [])
termination_by cs.length

/-! ### References -/

/-- A reference after its dollar sign and brace: the name, and the text to use if there is no such
name. -/
def reference? (cs : List Char) : Option (String × Option String × List Char) :=
  let inName (c : Char) : Bool := c ≠ '\x7d' && c ≠ ':'
  let name := String.ofList (cs.takeWhile inName)
  match cs.dropWhile inName with
  | '\x7d' :: rest => some (name, none, rest)
  | ':' :: '-' :: rest =>
    match rest.dropWhile (· ≠ '\x7d') with
    | _ :: after => some (name, some (String.ofList (rest.takeWhile (· ≠ '\x7d'))), after)
    | [] => none
  | _ => none

def expand (meaning : String → Option String → String) (cs : List Char) : String :=
  match cs with
  | [] => ""
  | '$' :: '\x7b' :: body =>
    match reference? body with
    | some (name, default?, rest) =>
      meaning name default? ++
        (if rest.length ≤ body.length then expand meaning rest else "")
    | none => "$" ++ expand meaning ('\x7b' :: body)
  | c :: rest => String.singleton c ++ expand meaning rest
termination_by cs.length

abbrev Assigned := List (String × Option String)

/-- A name that is assigned again keeps its place. -/
def put (name : String) (value : Option String) : Assigned → Assigned
  | [] => [(name, value)]
  | entry :: rest =>
    if entry.1 = name then (name, value) :: rest else entry :: put name value rest

/-- A reference means what is assigned, else the variable of that name, else its own text. -/
def meaning (environment : Variables) (assigned : Assigned) (name : String)
    (default? : Option String) : String :=
  match assigned.find? (·.1 = name) with
  | some (_, value) => value.getD ""
  | none =>
    match environment.find? (·.1 = name) with
    | some (_, value) => value
    | none => default?.getD ""

/-- A byte order mark before the first line is no part of it. -/
def dropMark : List Char → List Char
  | '\ufeff' :: rest => rest
  | cs => cs

def values (environment : Variables) (text : String) : Assigned :=
  (list (dropMark text.toList)).foldl
    (fun assigned a =>
      put a.name (a.value.map fun v => expand (meaning environment assigned) v.toList) assigned)
    []

end Assignment

end InkBindings.Settings
