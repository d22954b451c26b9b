import InkBindings.Number.Power
/-!
Binary floating-point numbers of 64 bits as exact dyadic numbers. Reading a decimal rounds to the
nearest number, a tie to the even mantissa. Comparison with integers is exact.
-/

namespace InkBindings

/-- A finite number is `mantissa * 2 ^ exponent` with its sign, the mantissa below `2 ^ 53`, the
exponent at least `-1074`, and one of them least possible. -/
inductive Binary64
  | nan
  | infinity (negative : Bool)
  | finite (negative : Bool) (mantissa : Nat) (exponent : Int)
  deriving DecidableEq, Repr, Inhabited

namespace Binary64

def leastExponent : Int := -1074
def greatestExponent : Int := 971
def mantissaBits : Nat := 53

/-- The quotient rounded to the nearest natural number, a tie to the even one. -/
def roundedQuotient (numerator denominator : Nat) : Nat :=
  let q := numerator / denominator
  let twice := 2 * (numerator % denominator)
  if twice < denominator then q
  else if denominator < twice then q + 1
  else if q % 2 = 0 then q else q + 1

def scaledQuotient (numerator denominator : Nat) (exponent : Int) : Nat :=
  if 0 ≤ exponent then roundedQuotient numerator (denominator * 2 ^ exponent.toNat)
  else roundedQuotient (numerator * 2 ^ (-exponent).toNat) denominator

def ofFraction (negative : Bool) (numerator denominator : Nat) : Binary64 :=
  let guess : Int := (numerator.log2 : Int) - denominator.log2 - mantissaBits
  let settle (e : Int) : Nat × Int :=
    let e := max e leastExponent
    (scaledQuotient numerator denominator e, e)
  let candidates := [settle guess, settle (guess + 1), settle (guess + 2)]
  match candidates.find? fun (m, _) => m ≤ 2 ^ mantissaBits with
  | none => .infinity negative
  | some (m, e) =>
    let (m, e) := if m = 2 ^ mantissaBits then (m / 2, e + 1) else (m, e)
    if greatestExponent < e then .infinity negative else .finite negative m e

/-- The number nearest to `digits * 10 ^ exponent`. Powers far out of range are settled before
they are computed. -/
def ofDecimal (negative : Bool) (digits : Nat) (exponent : Int) : Binary64 :=
  if digits = 0 then .finite negative 0 leastExponent
  else
    let size : Int := exponent + (Nat.toDigits 10 digits).length
    if 400 < size then .infinity negative
    else if size < -400 then .finite negative 0 leastExponent
    else if 0 ≤ exponent then ofFraction negative (digits * 10 ^ exponent.toNat) 1
    else ofFraction negative digits (10 ^ (-exponent).toNat)

def isNan : Binary64 → Bool
  | .nan => true
  | _ => false

def isZero : Binary64 → Bool
  | .finite _ 0 _ => true
  | _ => false

/-- The integer part, rounded toward zero; none where there is no number. -/
def truncate? : Binary64 → Option Int
  | .finite negative m e =>
    let n : Nat := if 0 ≤ e then m * 2 ^ e.toNat else m / 2 ^ (-e).toNat
    some (if negative then -(n : Int) else n)
  | _ => none

def toInt? (x : Binary64) : Option Int :=
  match x with
  | .finite _ m e =>
    if 0 ≤ e ∨ m % 2 ^ (-e).toNat = 0 then x.truncate? else none
  | _ => none

/-- The finite number times `2 ^ 1074`, which is an integer. -/
def scaled (negative : Bool) (mantissa : Nat) (exponent : Int) : Int :=
  let n : Nat := mantissa * 2 ^ (exponent - leastExponent).toNat
  if negative then -(n : Int) else n

/-- Comparison of two numbers; nothing compares with what is no number. -/
def compare? : Binary64 → Binary64 → Option Ordering
  | .nan, _ | _, .nan => none
  | .infinity a, .infinity b =>
    some (if a = b then .eq else if a then .lt else .gt)
  | .infinity a, .finite .. => some (if a then .lt else .gt)
  | .finite .., .infinity b => some (if b then .gt else .lt)
  | .finite s m e, .finite s' m' e' => some (compare (scaled s m e) (scaled s' m' e'))

def compareInt? (x : Binary64) (n : Int) : Option Ordering :=
  match x with
  | .nan => none
  | .infinity a => some (if a then .lt else .gt)
  | .finite s m e => some (compare (scaled s m e) (n * 2 ^ (-leastExponent).toNat))

end Binary64
end InkBindings
