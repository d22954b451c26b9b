import InkBindings.Number.Power
/-!
Byte strings, and natural numbers written in a fixed count of bytes with the least significant
byte first.
-/

namespace InkBindings

abbrev Bytes := List UInt8

namespace Bytes

def ofText (s : String) : Bytes :=
  s.toByteArray.data.toList

/-- The text whose UTF-8 bytes these are, if they are well-formed. -/
def toText? (b : Bytes) : Option String :=
  String.fromUTF8? ⟨b.toArray⟩

/-- The `width` least significant base-256 digits of `n`, least significant first. -/
def ofNat : (width n : Nat) → Bytes
  | 0, _ => []
  | width + 1, n => UInt8.ofNat (n % 256) :: ofNat width (n / 256)

def toNat : Bytes → Nat
  | [] => 0
  | b :: rest => b.toNat + 256 * toNat rest

/-- The place that an index means among `size` bytes: one below zero counts from their end, and one
out of bounds means the nearest place. -/
def place (size : Nat) (index : Int) : Nat :=
  if index < 0 then (index + size).toNat else min index.toNat size

@[simp] theorem length_ofNat (width n : Nat) : (ofNat width n).length = width := by
  induction width generalizing n with
  | zero => rfl
  | succ width ih => simp only [ofNat, List.length_cons, ih]

theorem place_ofNat {size n : Nat} (h : n ≤ size) : place size n = n := by
  have hn : ¬ (n : Int) < 0 := by omega
  simp only [place, hn, if_false, Int.toNat_natCast]
  omega

theorem toNat_lt (b : Bytes) : toNat b < 256 ^ b.length := by
  induction b with
  | nil => simp [toNat]
  | cons x rest ih =>
    have hx : x.toNat < 256 := x.toNat_lt
    simp only [toNat, List.length_cons, Nat.pow_succ]
    omega

theorem toNat_ofNat {width n : Nat} (h : n < 256 ^ width) : toNat (ofNat width n) = n := by
  induction width generalizing n with
  | zero =>
    have : n = 0 := by simpa using h
    simp [ofNat, toNat, this]
  | succ width ih =>
    have hn : n / 256 < 256 ^ width := by
      rw [Nat.pow_succ] at h
      exact Nat.div_lt_of_lt_mul (by omega)
    have hb : (UInt8.ofNat (n % 256)).toNat = n % 256 := by
      simp [UInt8.toNat_ofNat']
    simp only [ofNat, toNat, ih hn, hb]
    omega

theorem ofNat_toNat (b : Bytes) : ofNat b.length (toNat b) = b := by
  induction b with
  | nil => rfl
  | cons x rest ih =>
    have hx : x.toNat < 256 := x.toNat_lt
    have h1 : (x.toNat + 256 * toNat rest) % 256 = x.toNat := by omega
    have h2 : (x.toNat + 256 * toNat rest) / 256 = toNat rest := by omega
    simp only [List.length_cons, ofNat, toNat, h1, h2, ih, UInt8.ofNat_toNat]

end Bytes
end InkBindings
