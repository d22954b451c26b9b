import InkBindings.Text.Lines
/-!
Integers written in decimal: white space around, one sign, digits of any script, and single underscores
between digits.
-/

namespace InkBindings.Text

/-! ### Digits

Each script has its ten digits in a row, so the zeros tell all. -/

/-- The code points of the digits zero, in ascending order. -/
def zeros : List Nat :=
  [ 0x30, 0x660, 0x6f0, 0x7c0, 0x966, 0x9e6, 0xa66, 0xae6,
   0xb66, 0xbe6, 0xc66, 0xce6, 0xd66, 0xde6, 0xe50, 0xed0,
   0xf20, 0x1040, 0x1090, 0x17e0, 0x1810, 0x1946, 0x19d0, 0x1a80,
   0x1a90, 0x1b50, 0x1bb0, 0x1c40, 0x1c50, 0xa620, 0xa8d0, 0xa900,
   0xa9d0, 0xa9f0, 0xaa50, 0xabf0, 0xff10, 0x104a0, 0x10d30, 0x11066,
   0x110f0, 0x11136, 0x111d0, 0x112f0, 0x11450, 0x114d0, 0x11650, 0x116c0,
   0x11730, 0x118e0, 0x11950, 0x11c50, 0x11d50, 0x11da0, 0x16a60, 0x16ac0,
   0x16b50, 0x1d7ce, 0x1d7d8, 0x1d7e2, 0x1d7ec, 0x1d7f6, 0x1e140, 0x1e2f0,
   0x1e950, 0x1fbf0 ]

def digitValue? (c : Char) : Option Nat :=
  (zeros.find? fun first => first ≤ c.toNat && c.toNat < first + 10).map (c.toNat - ·)

/-! ### Numerals -/

inductive NumeralError
  | notANumeral
  | tooManyDigits (count : Nat)
  deriving DecidableEq, Repr

def maxDigits : Nat := 4300

/-- The value of digits that single underscores may separate, after `seen`. The flag says whether
the last character was a digit. -/
def digitsValue? (digit? : Char → Option Nat) (seen : Nat) : Bool → List Char → Option Nat
  | afterDigit, [] => if afterDigit then some seen else none
  | afterDigit, c :: rest =>
    if c = '_' then
      if afterDigit then digitsValue? digit? seen false rest else none
    else
      match digit? c with
      | some d => digitsValue? digit? (10 * seen + d) true rest
      | none => none

/-- Splits off a leading sign; true stands for minus. -/
def splitSign : List Char → Bool × List Char
  | '-' :: rest => (true, rest)
  | '+' :: rest => (false, rest)
  | cs => (false, cs)

def applySign (negative : Bool) (n : Nat) : Int :=
  if negative then -(n : Int) else n

/-- Reads an integer from characters without blanks around. That there are too many digits is seen
before what follows them. -/
def readSigned (digit? : Char → Option Nat) (cs : List Char) : Except NumeralError Int :=
  let (negative, rest) := splitSign cs
  let numeral := rest.takeWhile fun c => c = '_' || (digit? c).isSome
  match digitsValue? digit? 0 false numeral with
  | none => .error .notANumeral
  | some n =>
    let count := (numeral.filter (· ≠ '_')).length
    if maxDigits < count then .error (.tooManyDigits count)
    else if numeral = rest then .ok (applySign negative n)
    else .error .notANumeral

def readInteger (s : String) : Except NumeralError Int :=
  readSigned digitValue? (trimChars isWhiteSpace s.toList)

/-! ### What is said of a text that is none -/

def shownLength : Nat := 200

def NumeralError.message (literal : String) : NumeralError → String
  | .notANumeral =>
    "invalid literal for int() with base 10: " ++
      String.ofList (literal.toList.take shownLength)
  | .tooManyDigits count =>
    "Exceeds the limit (4300 digits) for integer string conversion: " ++
      s!"value has {count} digits; use sys.set_int_max_str_digits() to increase the limit"

end InkBindings.Text
