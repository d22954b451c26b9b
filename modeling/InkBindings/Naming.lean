/-!
Names for the emitted Python module. A name is made an identifier by replacing what cannot stand in
one; a clash with a keyword or a name in use is settled by appending underscores until it is gone.
-/

namespace InkBindings.Naming

def keywords : List String :=
  ["False", "None", "True", "and", "as", "assert", "async", "await", "break", "class", "continue",
    "def", "del", "elif", "else", "except", "finally", "for", "from", "global", "if", "import",
    "in", "is", "lambda", "nonlocal", "not", "or", "pass", "raise", "return", "try", "while",
    "with", "yield"]

def isNameChar (c : Char) : Bool :=
  c.isAlphanum || c == '_'

/-- The characters of a name with underscores for those that cannot stand in an identifier; at
least one, and no digit first. -/
def sanitizeChars (cs : List Char) : List Char :=
  match cs.map fun c => if isNameChar c then c else '_' with
  | [] => ['_']
  | c :: rest => if c.isDigit then '_' :: c :: rest else c :: rest

def sanitize (name : String) : String :=
  String.ofList (sanitizeChars name.toList)

/-- The name with the fewest underscores appended that is not taken, of those with at most
`tries`. -/
def firstFree (taken : String → Bool) : (tries : Nat) → String → String
  | 0, name => name
  | tries + 1, name => if taken name then firstFree taken tries (name ++ "_") else name

/-- The identifier for a name, different from the keywords and from what is reserved. No keyword
ends in an underscore, so one try more than there are reserved names finds it. -/
def identifier (name : String) (reserved : List String) : String :=
  firstFree (fun s => keywords.contains s || reserved.contains s) (reserved.length + 1)
    (sanitize name)

/-- The name itself, or with underscores appended, such that it is none of those taken. -/
def fresh (name : String) (taken : List String) : String :=
  firstFree (fun s => taken.contains s) taken.length name

/-- Different identifiers for names, in order: earlier names keep their spelling. -/
def uniqueNames : (names reserved : List String) → List String
  | [], _ => []
  | name :: rest, reserved =>
    let chosen := identifier name reserved
    chosen :: uniqueNames rest (chosen :: reserved)

end InkBindings.Naming
