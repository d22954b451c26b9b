import InkBindings.Number.Binary64
import InkBindings.Text.Numeral
/-!
Decimal numerals of floating-point numbers: digits, a fraction and a power of ten, each optional
but the first.
-/

namespace InkBindings.Binary64

/-- The value of ASCII digits after `seen`. -/
def digitsAfter (seen : Nat) (ds : List Char) : Nat :=
  ds.foldl (fun n c => 10 * n + (c.toNat - 48)) seen

def ofParts (negative : Bool) (whole fraction : List Char) (exponent : Int) : Binary64 :=
  ofDecimal negative (digitsAfter (digitsAfter 0 whole) fraction) (exponent - fraction.length)

def splitMinus : List Char → Bool × List Char
  | '-' :: rest => (true, rest)
  | cs => (false, cs)

def readExponent? : List Char → Option Int
  | [] => some 0
  | e :: rest =>
    if e = 'e' ∨ e = 'E' then
      let (negative, ds) :=
        match rest with
        | '-' :: ds => (true, ds)
        | '+' :: ds => (false, ds)
        | ds => (false, ds)
      if ds.isEmpty || !ds.all Char.isDigit then none
      else some (if negative then -(digitsAfter 0 ds : Int) else digitsAfter 0 ds)
    else none

/-- Underscores are left out where each stands between two digits. -/
def dropUnderscores? : (afterDigit : Bool) → List Char → Option (List Char)
  | _, [] => some []
  | afterDigit, '_' :: rest =>
    match rest with
    | c :: _ => if afterDigit && c.isDigit then dropUnderscores? false rest else none
    | [] => none
  | _, c :: rest => (dropUnderscores? c.isDigit rest).map (c :: ·)

/-- Reads a numeral without a sign, or the name of an infinity or of no number. -/
def ofUnsigned? (negative : Bool) (cs : List Char) : Option Binary64 :=
  let name := String.ofList (cs.map Char.toLower)
  if name = "nan" then some .nan
  else if name = "inf" || name = "infinity" then some (.infinity negative)
  else
    let whole := cs.takeWhile Char.isDigit
    let rest := cs.dropWhile Char.isDigit
    let (fraction, rest) :=
      match rest with
      | '.' :: rest => (rest.takeWhile Char.isDigit, rest.dropWhile Char.isDigit)
      | rest => ([], rest)
    if whole.isEmpty && fraction.isEmpty then none
    else (readExponent? rest).map (ofParts negative whole fraction ·)

/-- Reads a number with white space around, a sign, digits of any script and underscores between
digits. -/
def ofText? (s : String) : Option Binary64 := do
  let cs := (Text.trimChars Text.isWhiteSpace s.toList).map fun c =>
    match Text.digitValue? c with
    | some d => Char.ofNat (48 + d)
    | none => c
  let (negative, unsigned) := Text.splitSign (← dropUnderscores? false cs)
  ofUnsigned? negative unsigned

end InkBindings.Binary64
