import InkBindings.Text.Lines
/-!
Documentation in the emitted module: a string in triple quotes.
-/

namespace InkBindings.Bindings

def tripleQuote : String := "\"\"\""

def escapeBackslash (c : Char) : List Char :=
  if c = '\\' then ['\\', '\\'] else [c]

/-- Puts a backslash before each of three quotes in a row. -/
def escapeTriples : List Char → List Char
  | '"' :: '"' :: '"' :: rest => ['\\', '"', '\\', '"', '\\', '"'] ++ escapeTriples rest
  | c :: rest => c :: escapeTriples rest
  | [] => []

/-- Puts a backslash before a quote at the end. -/
def escapeLast : List Char → List Char
  | [] => []
  | ['"'] => ['\\', '"']
  | c :: rest => c :: escapeLast rest

def docLine (line : String) : String :=
  String.ofList (escapeTriples ((Text.strip line).toList.flatMap escapeBackslash))

/-- Drops empty lines from both ends. -/
def trimLines (ls : List String) : List String :=
  ((ls.dropWhile (·.isEmpty)).reverse.dropWhile (·.isEmpty)).reverse

/-- The documentation that the lines make up, unless they are all blank. -/
def docstring? (docs : List String) : Option String :=
  match trimLines (docs.map docLine) with
  | [] => none
  | [line] =>
    some (tripleQuote ++ String.ofList (escapeLast line.toList) ++ tripleQuote)
  | ls => some (tripleQuote ++ "\n" ++ Text.unlines ls ++ "\n" ++ tripleQuote)

end InkBindings.Bindings
