import InkBindings.Bytes.Hex
import InkBindings.Text.Printable
/-!
Text and byte strings as quoted literals. A literal stands in single quotes unless its content has
a single quote and no double one. The quote, the backslash and what cannot be shown are escaped.
-/

namespace InkBindings.Text

def quoteMark (content : List Char) : Char :=
  if content.contains '\'' && !content.contains '"' then '"' else '\''

def paddedHex (width n : Nat) : List Char :=
  let digits := Nat.toDigits 16 n
  List.replicate (width - digits.length) '0' ++ digits

/-- The escapes that text and byte strings share. -/
def commonEscape? (mark c : Char) : Option (List Char) :=
  if c = mark || c = '\\' then some ['\\', c]
  else if c = '\n' then some ['\\', 'n']
  else if c = '\r' then some ['\\', 'r']
  else if c = '\t' then some ['\\', 't']
  else none

def escapeChar (mark c : Char) : List Char :=
  match commonEscape? mark c with
  | some escaped => escaped
  | none =>
    if isPrintable c then [c]
    else if c.toNat < 0x100 then ['\\', 'x'] ++ paddedHex 2 c.toNat
    else if c.toNat < 0x10000 then ['\\', 'u'] ++ paddedHex 4 c.toNat
    else ['\\', 'U'] ++ paddedHex 8 c.toNat

def quoteChars (cs : List Char) : List Char :=
  let mark := quoteMark cs
  mark :: cs.flatMap (escapeChar mark) ++ [mark]

def quote (s : String) : String :=
  String.ofList (quoteChars s.toList)

/-- The control characters of ASCII and of its extension by another 128. -/
def isControl (c : Char) : Bool :=
  c.toNat < 0x20 || (0x7f ≤ c.toNat && c.toNat < 0xa0)

/-- A text with nothing but its control characters escaped, each by its number. -/
def escapeControls (s : String) : String :=
  String.ofList (s.toList.flatMap fun c =>
    if isControl c then ['\\', 'x'] ++ paddedHex 2 c.toNat else [c])

def escapeByte (mark : Char) (b : UInt8) : List Char :=
  match commonEscape? mark (Char.ofNat b.toNat) with
  | some escaped => escaped
  | none =>
    if 0x20 ≤ b.toNat && b.toNat < 0x7f then [Char.ofNat b.toNat]
    else ['\\', 'x'] ++ paddedHex 2 b.toNat

def quoteBytes (b : Bytes) : String :=
  let mark := quoteMark (b.map fun x => Char.ofNat x.toNat)
  String.ofList ('b' :: mark :: b.flatMap (escapeByte mark) ++ [mark])

end InkBindings.Text
