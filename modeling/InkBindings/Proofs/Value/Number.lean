import InkBindings.Value.Order
import Mathlib.Data.Prod.Lex
import Mathlib.Order.Compare

/-!
The place of a number in the order of numbers. Integers and finite floating-point numbers stand at a
multiple of the least step of the latter, and the infinities before and behind them; what is no
number has no place.
-/

namespace InkBindings

/-- Before, among or behind the finite numbers, and where among these. -/
abbrev Place := Int ×ₗ Int

namespace Place

def finite (n : Int) : Place := toLex (0, n)

def infinite (negative : Bool) : Place := toLex (if negative then -1 else 1, 0)

theorem finite_lt_finite {m n : Int} (h : m < n) : finite m < finite n :=
  Prod.Lex.toLex_lt_toLex.mpr (.inr ⟨rfl, h⟩)

theorem finite_lt_infinite (n : Int) : finite n < infinite false :=
  Prod.Lex.toLex_lt_toLex.mpr (.inl (by simp))

theorem infinite_lt_finite (n : Int) : infinite true < finite n :=
  Prod.Lex.toLex_lt_toLex.mpr (.inl (by simp))

end Place

theorem compare_of_strictMono {α β : Type} [LinearOrder α] [LinearOrder β] {f : α → β}
    (hf : StrictMono f) (a b : α) : compare (f a) (f b) = compare a b := by
  rcases lt_trichotomy a b with h | rfl | h
  · rw [compare_lt_iff_lt.mpr h, compare_lt_iff_lt.mpr (hf h)]
  · rw [compare_eq_iff_eq.mpr rfl, compare_eq_iff_eq.mpr rfl]
  · rw [compare_gt_iff_gt.mpr h, compare_gt_iff_gt.mpr (hf h)]

namespace Number

/-- Steps between integers, each the least of a floating-point number. -/
def steps : Int := 2 ^ (-Binary64.leastExponent).toNat

theorem steps_lt_steps {m n : Int} (h : m < n) :
    Place.finite (m * steps) < Place.finite (n * steps) :=
  Place.finite_lt_finite (Int.mul_lt_mul_of_pos_right h (Int.pow_pos (by decide)))

def place? : Number → Option Place
  | .int n => some (.finite (n * steps))
  | .float .nan => none
  | .float (.infinity negative) => some (.infinite negative)
  | .float (.finite negative mantissa exponent) =>
    some (.finite (Binary64.scaled negative mantissa exponent))

/-- Numbers compare by their places. -/
theorem compare_eq_place (x y : Number) :
    x.compare? y = x.place?.bind fun a => y.place?.map (compare a ·) := by
  have hinfinite (a b : Bool) : compare (Place.infinite a) (Place.infinite b) =
      if a = b then .eq else if a then .lt else .gt := by
    cases a <;> cases b <;> rfl
  have hbefore (a : Bool) (n : Int) : compare (Place.infinite a) (Place.finite n) =
      if a then .lt else .gt := by
    cases a with
    | true => exact compare_lt_iff_lt.mpr (Place.infinite_lt_finite n)
    | false => exact compare_gt_iff_gt.mpr (Place.finite_lt_infinite n)
  have hbehind (a : Bool) (n : Int) : compare (Place.finite n) (Place.infinite a) =
      if a then .gt else .lt := by
    cases a with
    | true => exact compare_gt_iff_gt.mpr (Place.infinite_lt_finite n)
    | false => exact compare_lt_iff_lt.mpr (Place.finite_lt_infinite n)
  have hfinite := compare_of_strictMono fun _ _ h => Place.finite_lt_finite h
  have hsteps := compare_of_strictMono fun _ _ h => steps_lt_steps h
  match x, y with
  | .int a, .int b => simp [compare?, place?, hsteps]
  | .int n, .float .nan => simp [compare?, place?, Binary64.compareInt?]
  | .int n, .float (.infinity a) =>
      cases a <;> simp [compare?, place?, Binary64.compareInt?, hbehind]
  | .int n, .float (.finite s m e) =>
      simp only [compare?, place?, Binary64.compareInt?, hfinite, steps, Option.map_some,
        Option.bind_some]
      exact congrArg some Std.OrientedCmp.eq_swap.symm
  | .float .nan, .int _ | .float .nan, .float _ =>
      simp [compare?, place?, Binary64.compareInt?, Binary64.compare?]
  | .float (.infinity a), .int n => simp [compare?, place?, Binary64.compareInt?, hbefore]
  | .float (.finite s m e), .int n =>
      simp [compare?, place?, Binary64.compareInt?, hfinite, steps]
  | .float (.infinity _), .float .nan | .float (.finite ..), .float .nan =>
      simp [compare?, place?, Binary64.compare?]
  | .float (.infinity a), .float (.infinity b) =>
      simp [compare?, place?, Binary64.compare?, hinfinite]
  | .float (.infinity a), .float (.finite ..) =>
      simp [compare?, place?, Binary64.compare?, hbefore]
  | .float (.finite ..), .float (.infinity a) =>
      simp [compare?, place?, Binary64.compare?, hbehind]
  | .float (.finite ..), .float (.finite ..) =>
      simp [compare?, place?, Binary64.compare?, hfinite]

/-- Two numbers are the same if they have the same place. -/
theorem compare_eq_iff {x y : Number} :
    x.compare? y = some .eq ↔ ∃ a, x.place? = some a ∧ y.place? = some a := by
  rw [compare_eq_place]
  constructor
  · intro h
    obtain ⟨a, ha, h⟩ := Option.bind_eq_some_iff.mp h
    obtain ⟨b, hb, h⟩ := Option.map_eq_some_iff.mp h
    obtain rfl := compare_eq_iff_eq.mp h
    exact ⟨a, ha, hb⟩
  · rintro ⟨a, ha, hb⟩
    simp [ha, hb]

theorem compare_lt_iff {x y : Number} :
    x.compare? y = some .lt ↔ ∃ a b, x.place? = some a ∧ y.place? = some b ∧ a < b := by
  rw [compare_eq_place]
  constructor
  · intro h
    obtain ⟨a, ha, h⟩ := Option.bind_eq_some_iff.mp h
    obtain ⟨b, hb, h⟩ := Option.map_eq_some_iff.mp h
    exact ⟨a, b, ha, hb, compare_lt_iff_lt.mp h⟩
  · rintro ⟨a, b, ha, hb, hlt⟩
    simp [ha, hb, compare_lt_iff_lt.mpr hlt]

end Number
end InkBindings
