import InkBindings.Json.Basic
import InkBindings.Number.Numeral
import InkBindings.Text.Numeral
/-!
Reading JSON text. A failure tells the problem and the character where it was met. Besides the
standard values the names of the infinities and of no number are read.
-/

namespace InkBindings.Json

inductive Problem
  | valueExpected
  | nameExpected
  | colonExpected
  | commaExpected
  | extraData
  | byteOrderMark
  | unterminated
  | controlCharacter
  | invalidEscape
  | invalidUnicodeEscape
  deriving DecidableEq, Repr

def Problem.message : Problem → String
  | .valueExpected => "Expecting value"
  | .nameExpected => "Expecting property name enclosed in double quotes"
  | .colonExpected => "Expecting ':' delimiter"
  | .commaExpected => "Expecting ',' delimiter"
  | .extraData => "Extra data"
  | .byteOrderMark => "Unexpected UTF-8 BOM (decode using utf-8-sig)"
  | .unterminated => "Unterminated string starting at"
  | .controlCharacter => "Invalid control character at"
  | .invalidEscape => "Invalid \\escape"
  | .invalidUnicodeEscape => "Invalid \\uXXXX escape"

inductive Container
  | array
  | object
  deriving DecidableEq, Repr

def Container.name : Container → String
  | array => "array"
  | object => "object"

inductive ReadError
  | malformed (problem : Problem) (position : Nat)
  | tooManyDigits (count : Nat)
  | tooDeep (container : Container)
  deriving DecidableEq, Repr

def maxNesting : Nat := 989

/-- The message of a problem at a place in the text, by line, column and character. -/
def Problem.messageAt (problem : Problem) (position : Nat) (text : String) : String :=
  let before := text.toList.take position
  let line := before.count '\n' + 1
  let column := (before.reverse.takeWhile (· ≠ '\n')).length + 1
  s!"{problem.message}: line {line} column {column} (char {position})"

/-- What has been read, the text after it and where that starts. -/
structure Read (α : Type) where
  value : α
  position : Nat
  rest : List Char

abbrev Reader (α : Type) := Nat → List Char → Except ReadError (Read α)

def fail (problem : Problem) (position : Nat) : Except ReadError α :=
  .error (.malformed problem position)

def isSpace (c : Char) : Bool :=
  c == ' ' || c == '\t' || c == '\n' || c == '\r'

def skipSpace : Nat → List Char → Nat × List Char
  | position, [] => (position, [])
  | position, c :: rest => if isSpace c then skipSpace (position + 1) rest else (position, c :: rest)

def simpleEscape? : Char → Option Char
  | '"' => some '"'
  | '\\' => some '\\'
  | '/' => some '/'
  | 'b' => some '\x08'
  | 'f' => some '\x0c'
  | 'n' => some '\n'
  | 'r' => some '\r'
  | 't' => some '\t'
  | _ => none

def hexValue? (digits : List Char) : Option Nat :=
  digits.foldlM (fun n c => (Hex.digit? c).map (16 * n + ·)) 0

def isHighSurrogate (n : Nat) : Bool := 0xd800 ≤ n && n < 0xdc00
def isLowSurrogate (n : Nat) : Bool := 0xdc00 ≤ n && n < 0xe000

def joinSurrogates (high low : Nat) : Nat :=
  0x10000 + 0x400 * (high - 0xd800) + (low - 0xdc00)

/-- The character of an escape; a surrogate without its partner is replaced. -/
def charOfUnit (n : Nat) : Char :=
  if n.isValidChar then Char.ofNat n else '\ufffd'

/-- Reads the characters of a string up to the closing quote. `start` is the opening one. -/
def stringFrom (start : Nat) (seen : List Char) (position : Nat) :
    List Char → Except ReadError (Read String)
  | [] => fail .unterminated start
  | '"' :: rest => .ok ⟨String.ofList seen.reverse, position + 1, rest⟩
  | ['\\'] => fail .unterminated start
  | '\\' :: 'u' :: a :: b :: c :: d :: '\\' :: 'u' :: e :: f :: g :: h :: i :: rest =>
    match hexValue? [a, b, c, d] with
    | none => fail .invalidUnicodeEscape (position + 1)
    | some high =>
      if isHighSurrogate high then
        match hexValue? [e, f, g, h] with
        | none => fail .invalidUnicodeEscape (position + 7)
        | some low =>
          if isLowSurrogate low then
            stringFrom start (charOfUnit (joinSurrogates high low) :: seen) (position + 12)
              (i :: rest)
          else
            stringFrom start (charOfUnit high :: seen) (position + 6)
              ('\\' :: 'u' :: e :: f :: g :: h :: i :: rest)
      else
        stringFrom start (charOfUnit high :: seen) (position + 6)
          ('\\' :: 'u' :: e :: f :: g :: h :: i :: rest)
  | '\\' :: 'u' :: a :: b :: c :: d :: e :: rest =>
    match hexValue? [a, b, c, d] with
    | none => fail .invalidUnicodeEscape (position + 1)
    | some n => stringFrom start (charOfUnit n :: seen) (position + 6) (e :: rest)
  | '\\' :: 'u' :: _ => fail .invalidUnicodeEscape (position + 1)
  | '\\' :: c :: rest =>
    match simpleEscape? c with
    | none => fail .invalidEscape position
    | some c => stringFrom start (c :: seen) (position + 2) rest
  | c :: rest =>
    if c.toNat ≤ 0x1f then fail .controlCharacter position
    else stringFrom start (c :: seen) (position + 1) rest

/-- The digits of the integer part: a zero, or a run that starts with another digit. -/
def wholePart : List Char → List Char × List Char
  | '0' :: rest => (['0'], rest)
  | cs => (cs.takeWhile Char.isDigit, cs.dropWhile Char.isDigit)

/-- The digits after a point; without any the point is not part of the number. -/
def fractionPart : List Char → List Char × List Char
  | '.' :: rest =>
    let digits := rest.takeWhile Char.isDigit
    if digits.isEmpty then ([], '.' :: rest) else (digits, rest.dropWhile Char.isDigit)
  | cs => ([], cs)

/-- The power of ten, and how many characters wrote it. -/
def exponentPart (cs : List Char) : Option (Int × Nat × List Char) :=
  match cs with
  | e :: rest =>
    if e = 'e' ∨ e = 'E' then
      let (signed, negative, ds) :=
        match rest with
        | '-' :: ds => (1, true, ds)
        | '+' :: ds => (1, false, ds)
        | ds => (0, false, ds)
      let digits := ds.takeWhile Char.isDigit
      if digits.isEmpty then none
      else
        let n := Binary64.digitsAfter 0 digits
        some (if negative then -(n : Int) else n, 1 + signed + digits.length,
          ds.dropWhile Char.isDigit)
    else none
  | [] => none

def number : Reader Json := fun position cs =>
  let (negative, unsigned) := Binary64.splitMinus cs
  let (whole, rest) := wholePart unsigned
  if whole.isEmpty then fail .valueExpected position
  else
    let (fraction, rest) := fractionPart rest
    let length := (if negative then 1 else 0) + whole.length +
      (if fraction.isEmpty then 0 else fraction.length + 1)
    match exponentPart rest with
    | some (exponent, more, rest) =>
      .ok ⟨.float (Binary64.ofParts negative whole fraction exponent), position + length + more,
        rest⟩
    | none =>
      if fraction.isEmpty then
        if Text.maxDigits < whole.length then .error (.tooManyDigits whole.length)
        else .ok ⟨.int (Text.applySign negative (Binary64.digitsAfter 0 whole)),
          position + length, rest⟩
      else .ok ⟨.float (Binary64.ofParts negative whole fraction 0), position + length, rest⟩

def names : List (String × Json) :=
  [("null", .null), ("true", .bool true), ("false", .bool false), ("NaN", .float .nan),
    ("Infinity", .float (.infinity false)), ("-Infinity", .float (.infinity true))]

def named? (cs : List Char) : Option (String × Json) :=
  names.find? fun n => n.1.toList.isPrefixOf cs

def scalar : Reader Json := fun position cs =>
  match named? cs with
  | some (name, value) => .ok ⟨value, position + name.length, cs.drop name.length⟩
  | none => number position cs

mutual

/-- Reads a value in which containers may be nested to `levels`. Every nested value takes at least
one character, so `fuel` characters of text need no more steps than that. -/
def value : (levels fuel : Nat) → Reader Json
  | _, 0, position, _ => fail .valueExpected position
  | levels, fuel + 1, position, cs =>
    match cs with
    | '"' :: rest => do
      let s ← stringFrom position [] (position + 1) rest
      return { s with value := .str s.value }
    | '[' :: rest =>
      match levels with
      | 0 => .error (.tooDeep .array)
      | levels + 1 =>
        let (position, rest) := skipSpace (position + 1) rest
        match rest with
        | ']' :: rest => .ok ⟨.array [], position + 1, rest⟩
        | rest => do
          let r ← items levels fuel position rest
          return { r with value := .array r.value }
    | '\x7b' :: rest =>
      match levels with
      | 0 => .error (.tooDeep .object)
      | levels + 1 =>
        let (position, rest) := skipSpace (position + 1) rest
        match rest with
        | '\x7d' :: rest => .ok ⟨.object [], position + 1, rest⟩
        | rest => do
          let r ← members levels fuel [] position rest
          return { r with value := .object r.value }
    | cs => scalar position cs
  termination_by structural _ fuel => fuel

/-- Reads the items of an array up to the closing bracket. -/
def items : (levels fuel : Nat) → Reader (List Json)
  | _, 0, position, _ => fail .valueExpected position
  | levels, fuel + 1, position, cs => do
    let first ← value levels fuel position cs
    let (position, rest) := skipSpace first.position first.rest
    match rest with
    | ']' :: rest => return ⟨[first.value], position + 1, rest⟩
    | ',' :: rest =>
      let (position, rest) := skipSpace (position + 1) rest
      let more ← items levels fuel position rest
      return { more with value := first.value :: more.value }
    | _ => fail .commaExpected position
  termination_by structural _ fuel => fuel

/-- Reads the members of an object up to the closing brace and adds them to those `seen`. -/
def members : (levels fuel : Nat) → Members → Reader Members
  | _, 0, _, position, _ => fail .valueExpected position
  | levels, fuel + 1, seen, position, cs =>
    match cs with
    | '"' :: rest => do
      let name ← stringFrom position [] (position + 1) rest
      let (position, rest) := skipSpace name.position name.rest
      match rest with
      | ':' :: rest =>
        let (position, rest) := skipSpace (position + 1) rest
        let content ← value levels fuel position rest
        let seen := insertMember seen name.value content.value
        let (position, rest) := skipSpace content.position content.rest
        match rest with
        | '\x7d' :: rest => return ⟨seen, position + 1, rest⟩
        | ',' :: rest =>
          let (position, rest) := skipSpace (position + 1) rest
          members levels fuel seen position rest
        | _ => fail .commaExpected position
      | _ => fail .colonExpected position
    | _ => fail .nameExpected position
  termination_by structural _ fuel => fuel

end

/-- Reads characters that hold one value and nothing else. -/
def readChars (cs : List Char) : Except ReadError Json := do
  let (position, rest) := skipSpace 0 cs
  let r ← value maxNesting (2 * cs.length + 2) position rest
  let (position, rest) := skipSpace r.position r.rest
  if rest.isEmpty then return r.value else fail .extraData position

/-- Reads a text, which must not start with a byte order mark. -/
def read (text : String) : Except ReadError Json :=
  let cs := text.toList
  if cs.head? = some '\ufeff' then fail .byteOrderMark 0 else readChars cs

end InkBindings.Json
