import InkBindings.Json.Reader
/-!
JSON values as text on one line, in ASCII: other characters are escaped by their UTF-16 units.
-/

namespace InkBindings.Json

def unitEscape (n : Nat) : List Char :=
  ['\\', 'u'] ++ Text.paddedHex 4 n

/-- The high and the low surrogate of a character beyond the first plane. -/
def surrogates (c : Char) : Nat × Nat :=
  let n := c.toNat - 0x10000
  (0xd800 + n / 0x400, 0xdc00 + n % 0x400)

def escapeChar (c : Char) : List Char :=
  if c = '"' then ['\\', '"']
  else if c = '\\' then ['\\', '\\']
  else if 0x20 ≤ c.toNat ∧ c.toNat < 0x7f then [c]
  else if c.toNat < 0x10000 then unitEscape c.toNat
  else unitEscape (surrogates c).1 ++ unitEscape (surrogates c).2

def stringText (s : String) : String :=
  "\"" ++ String.ofList (s.toList.flatMap escapeChar) ++ "\""

mutual

def text : Json → String
  | .null => "null"
  | .bool b => if b then "true" else "false"
  | .int n => toString n
  | .float x => x.text
  | .str s => stringText s
  | .array items => "[" ++ ",".intercalate (itemTexts items) ++ "]"
  | .object members => "\x7b" ++ ",".intercalate (memberTexts members) ++ "\x7d"
  termination_by structural j => j

def itemTexts : List Json → List String
  | [] => []
  | j :: rest => text j :: itemTexts rest
  termination_by structural js => js

def memberTexts : List (String × Json) → List String
  | [] => []
  | (n, j) :: rest => (stringText n ++ ":" ++ text j) :: memberTexts rest
  termination_by structural ms => ms

end

end InkBindings.Json
