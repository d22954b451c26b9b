/-!
Blank characters, cutting them from the ends of a text, and shifting the lines of a text to the
right.
-/

namespace InkBindings.Text

/-- The Unicode property White_Space. -/
def isWhiteSpace (c : Char) : Bool :=
  let n := c.toNat
  (9 ≤ n && n ≤ 13) || n == 0x20 || n == 0x85 || n == 0xa0 || n == 0x1680 ||
    (0x2000 ≤ n && n ≤ 0x200a) || n == 0x2028 || n == 0x2029 || n == 0x202f || n == 0x205f ||
    n == 0x3000

/-- White space and the four ASCII separators of files, groups, records and units. -/
def isBlank (c : Char) : Bool :=
  isWhiteSpace c || (0x1c ≤ c.toNat && c.toNat ≤ 0x1f)

def dropEndWhile (p : Char → Bool) : List Char → List Char
  | [] => []
  | c :: rest =>
    match dropEndWhile p rest with
    | [] => if p c then [] else [c]
    | kept => c :: kept

def trimChars (p : Char → Bool) (cs : List Char) : List Char :=
  dropEndWhile p (cs.dropWhile p)

def strip (s : String) : String :=
  String.ofList (trimChars isBlank s.toList)

def splitLines : List Char → List (List Char)
  | [] => [[]]
  | c :: rest =>
    if c = '\n' then [] :: splitLines rest
    else
      match splitLines rest with
      | [] => [[c]]
      | line :: more => (c :: line) :: more

/-- The lines of a text: one more than it has line feeds. -/
def lines (s : String) : List String :=
  (splitLines s.toList).map String.ofList

/-- A carriage return ends a line too, alone or with the line feed after it. -/
def plainLineEnds : List Char → List Char
  | [] => []
  | '\r' :: '\n' :: rest => '\n' :: plainLineEnds rest
  | c :: rest => (if c = '\r' then '\n' else c) :: plainLineEnds rest

def unlines (ls : List String) : String :=
  "\n".intercalate ls

def margin : String := "    "

def indentLine (line : String) : String :=
  if line.toList.all isBlank then "" else margin ++ line

/-- The text one level further to the right. Blank lines become empty. -/
def indent (s : String) : String :=
  unlines ((lines s).map indentLine)

end InkBindings.Text
