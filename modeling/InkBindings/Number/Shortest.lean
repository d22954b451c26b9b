import InkBindings.Number.Binary64
/-!
Floating-point numbers as decimal text: the fewest digits that read back as the number, and of
those the nearest. Numbers from one ten-thousandth up to ten to the sixteenth are written with a
point, the others with a power of ten. In hexadecimal numbers are written exactly.
-/

namespace InkBindings.Binary64

structure Decimal where
  digits : Nat
  exponent : Int

def fraction (mantissa : Nat) (exponent : Int) : Nat × Nat :=
  if 0 ≤ exponent then (mantissa * 2 ^ exponent.toNat, 1)
  else (mantissa, 2 ^ (-exponent).toNat)

def leadingPower (numerator denominator : Nat) : Int :=
  let guess : Int :=
    ((Nat.toDigits 10 numerator).length : Int) - (Nat.toDigits 10 denominator).length
  let reaches (p : Int) : Bool :=
    if 0 ≤ p then denominator * 10 ^ p.toNat ≤ numerator
    else denominator ≤ numerator * 10 ^ (-p).toNat
  if reaches guess then guess else guess - 1

/-- Of the two neighbours on the grid of `10 ^ exponent`, one that reads back, the nearer first. -/
def onGrid? (mantissa : Nat) (binary : Int) (exponent : Int) : Option Decimal :=
  let (numerator, denominator) := fraction mantissa binary
  let (numerator, denominator) :=
    if 0 ≤ exponent then (numerator, denominator * 10 ^ exponent.toNat)
    else (numerator * 10 ^ (-exponent).toNat, denominator)
  let below := numerator / denominator
  let remainder := numerator % denominator
  let candidates :=
    if 2 * remainder < denominator ∨ (2 * remainder = denominator ∧ below % 2 = 0)
    then [below, below + 1] else [below + 1, below]
  (candidates.find? fun d =>
    decide (ofDecimal false d exponent = .finite false mantissa binary)).map (⟨·, exponent⟩)

/-- Seventeen digits always read back, so the search ends within them. -/
def shortest (mantissa : Nat) (exponent : Int) : Decimal :=
  let (numerator, denominator) := fraction mantissa exponent
  let first := leadingPower numerator denominator
  ((List.range 17).findSome? fun (k : Nat) => onGrid? mantissa exponent (first - k)).getD ⟨0, 0⟩

def dropTrailingZeros (ds : List Char) : List Char :=
  (ds.reverse.dropWhile (· = '0')).reverse

/-- The text of `0.d₁d₂… * 10 ^ point`. -/
def layout (ds : List Char) (point : Int) : String :=
  let exponent := point - 1
  if -4 ≤ exponent ∧ exponent < 16 then
    if point ≤ 0 then "0." ++ String.ofList (List.replicate (-point).toNat '0' ++ ds)
    else
      let whole := ds.take point.toNat
      let padding := List.replicate (point.toNat - ds.length) '0'
      let rest := ds.drop point.toNat
      String.ofList (whole ++ padding) ++ "." ++
        (if rest.isEmpty then "0" else String.ofList rest)
  else
    let mantissa :=
      match ds with
      | [] => "0"
      | [d] => String.ofList [d]
      | d :: rest => String.ofList (d :: '.' :: rest)
    let digits := toString exponent.natAbs
    mantissa ++ "e" ++ (if exponent < 0 then "-" else "+") ++
      (if digits.length < 2 then "0" ++ digits else digits)

def text : Binary64 → String
  | .nan => "nan"
  | .infinity negative => if negative then "-inf" else "inf"
  | .finite negative m e =>
    let sign := if negative then "-" else ""
    if m = 0 then sign ++ "0.0"
    else
      let d := shortest m e
      let ds := Nat.toDigits 10 d.digits
      sign ++ layout (dropTrailingZeros ds) (ds.length + d.exponent)

/-! ### In hexadecimal

One digit, thirteen after the point, and a power of two tell a number exactly. -/

def fractionHex (n : Nat) : String :=
  let digits := Nat.toDigits 16 n
  String.ofList (List.replicate (13 - digits.length) '0' ++ digits)

def hexText : Binary64 → String
  | .finite negative m e =>
    let sign := if negative then "-" else ""
    let one := 2 ^ (mantissaBits - 1)
    if m = 0 then sign ++ "0x0.0p+0"
    else
      let (lead, fraction) := if one ≤ m then ("1", m - one) else ("0", m)
      let power := e + mantissaBits - 1
      sign ++ "0x" ++ lead ++ "." ++ fractionHex fraction ++ "p" ++
        (if power < 0 then "-" else "+") ++ toString power.natAbs
  | x => x.text

end InkBindings.Binary64
