import InkBindings.Sorting.Search
import Mathlib.Data.List.Basic

/-!
What searching finds. The places that hold one property lie before those that hold another, and the
answers tell which of them a place holds; what is found is the bound between the two.
-/

namespace InkBindings.Sorting

section
variable {beyond? : Nat → Option Bool} {low high n : Nat}

theorem bisect_none (h : bisect? beyond? low high = none) : ∃ i, beyond? i = none := by
  fun_induction bisect? beyond? low high with
  | case1 low high hlt middle hnone => exact ⟨middle, hnone⟩
  | case2 low high hlt middle htrue ih => exact ih h
  | case3 low high hlt middle hfalse ih => exact ih h
  | case4 low high hle => cases h

theorem bisect_some {P Q : Nat → Prop} (hP : ∀ i, beyond? i = some false → P i)
    (hQ : ∀ i, beyond? i = some true → Q i) (hdown : ∀ i j, i ≤ j → P j → P i)
    (hup : ∀ i j, i ≤ j → Q i → Q j) (hle : low ≤ high)
    (h : bisect? beyond? low high = some n) :
    low ≤ n ∧ n ≤ high ∧ (∀ i, low ≤ i → i < n → P i) ∧ ∀ i, n ≤ i → i < high → Q i := by
  fun_induction bisect? beyond? low high with
  | case1 low high hlt middle hnone => cases h
  | case2 low high hlt middle htrue ih =>
      obtain ⟨hlow, hhigh, hbefore, hbehind⟩ := ih (by omega) h
      refine ⟨hlow, by omega, hbefore, fun i hi hihigh => ?_⟩
      by_cases him : i < middle
      · exact hbehind i hi him
      · exact hup middle i (by omega) (hQ middle htrue)
  | case3 low high hlt middle hfalse ih =>
      obtain ⟨hlow, hhigh, hbefore, hbehind⟩ := ih (by omega) h
      refine ⟨by omega, hhigh, fun i hi hin => ?_, hbehind⟩
      by_cases him : middle < i
      · exact hbefore i him hin
      · exact hdown i middle (by omega) (hP middle hfalse)
  | case4 low high hge =>
      cases h
      exact ⟨Nat.le_refl _, hle, by omega, by omega⟩

end

section
variable {holds? : Nat → Option Bool} {limit last step : Nat} {found : Nat × Nat}

theorem stride_none (h : stride? holds? limit last step = none) : ∃ s, holds? s = none := by
  fun_induction stride? holds? limit last step with
  | case1 last step hlt hnone => exact ⟨step, hnone⟩
  | case2 last step hlt htrue ih => exact ih h
  | case3 last step hlt hfalse => cases h
  | case4 last step hge => cases h

theorem stride_some {H N : Nat → Prop} (hH : ∀ s, holds? s = some true → H s)
    (hN : ∀ s, holds? s = some false → N s) (hlast : H last) (hstep : last < step)
    (hlimit : last < limit) (h : stride? holds? limit last step = some found) :
    H found.1 ∧ found.1 < found.2 ∧ found.2 ≤ limit ∧ (found.2 = limit ∨ N found.2) := by
  fun_induction stride? holds? limit last step with
  | case1 last step hlt hnone => cases h
  | case2 last step hlt htrue ih => exact ih (hH step htrue) (by omega) hlt h
  | case3 last step hlt hfalse =>
      cases h
      exact ⟨hlast, hstep, by omega, .inr (hN step hfalse)⟩
  | case4 last step hge =>
      cases h
      exact ⟨hlast, hlimit, Nat.le_refl _, .inl rfl⟩

end

section
variable {beyond? : Nat → Option Bool} {size hint n : Nat}

theorem gallop_none (h : gallop? beyond? size hint = none) : ∃ i, beyond? i = none := by
  simp only [gallop?, bind, Option.bind_eq_none_iff] at h
  cases hhint : beyond? hint with
  | none => exact ⟨hint, hhint⟩
  | some b =>
      specialize h b hhint
      by_contra hall
      have hanswered (i : Nat) : ∃ a, beyond? i = some a :=
        Option.ne_none_iff_exists'.mp fun hnone => hall ⟨i, hnone⟩
      split at h
      · simp only [Option.bind_eq_none_iff] at h
        cases hstride : stride? (fun s => beyond? (hint - s)) (hint + 1) 0 1 with
        | none => exact hall ((stride_none hstride).imp' (hint - ·) fun _ => id)
        | some found => exact hall (bisect_none (h found hstride))
      · simp only [Option.bind_eq_none_iff] at h
        cases hstride : stride? (fun s => (beyond? (hint + s)).map not) (size - hint) 0 1 with
        | none =>
            refine hall ((stride_none hstride).imp' (hint + ·) fun s hs => ?_)
            simpa using hs
        | some found => exact hall (bisect_none (h found hstride))

theorem gallop_some {P Q : Nat → Prop} (hP : ∀ i, beyond? i = some false → P i ∧ i < size)
    (hQ : ∀ i, beyond? i = some true → Q i) (hdown : ∀ i j, i ≤ j → P j → P i)
    (hup : ∀ i j, i ≤ j → Q i → Q j) (hhint : hint ≤ size)
    (h : gallop? beyond? size hint = some n) :
    n ≤ size ∧ (∀ i, i < n → P i) ∧ ∀ i, n ≤ i → i < size → Q i := by
  simp only [gallop?, bind, Option.bind_eq_some_iff] at h
  obtain ⟨b, hb, h⟩ := h
  cases b with
  | true =>
      simp only [if_true, Option.bind_eq_some_iff] at h
      obtain ⟨found, hstride, h⟩ := h
      obtain ⟨hlast, hlt, hlimit, hstep⟩ := stride_some (H := fun s => Q (hint - s))
        (N := fun s => P (hint - s)) (fun s hs => hQ _ hs) (fun s hs => (hP _ hs).1)
        (by simpa using hQ hint hb) Nat.zero_lt_one (Nat.succ_pos _) hstride
      obtain ⟨hlow, hhigh, hbefore, hbehind⟩ :=
        bisect_some (fun i hi => (hP i hi).1) hQ hdown hup (by omega) h
      refine ⟨by omega, fun i hi => ?_, fun i hi hsize => ?_⟩
      · by_cases hfirst : hint + 1 - found.2 ≤ i
        · exact hbefore i hfirst hi
        · -- the answer at the last step settles all places before it
          exact hdown i _ (by omega) (hstep.resolve_left (by omega))
      · by_cases hsecond : i < hint - found.1
        · exact hbehind i hi hsecond
        · exact hup _ i (by omega) hlast
  | false =>
      obtain ⟨hPhint, hin⟩ := hP hint hb
      simp only [Bool.false_eq_true, if_false, Option.bind_eq_some_iff] at h
      obtain ⟨found, hstride, h⟩ := h
      obtain ⟨hlast, hlt, hlimit, hstep⟩ := stride_some (H := fun s => P (hint + s))
        (N := fun s => Q (hint + s)) (fun s hs => (hP _ (by simpa using hs)).1)
        (fun s hs => hQ _ (by simpa using hs)) (by simpa using hPhint) Nat.zero_lt_one (by omega)
        hstride
      obtain ⟨hlow, hhigh, hbefore, hbehind⟩ :=
        bisect_some (fun i hi => (hP i hi).1) hQ hdown hup (by omega) h
      refine ⟨by omega, fun i hi => ?_, fun i hi hsize => ?_⟩
      · by_cases hfirst : hint + found.1 + 1 ≤ i
        · exact hbefore i hfirst hi
        · exact hdown i _ (by omega) hlast
      · by_cases hsecond : i < hint + found.2
        · exact hbehind i hi hsecond
        · exact hup _ i (by omega) (hstep.resolve_left (by omega))

end

/-! ### Searching among items -/

variable {α : Type}

/-- The items before the place hold `P`, and those from it on hold `Q`. -/
structure Cut (P Q : α → Prop) (items : List α) (n : Nat) : Prop where
  le : n ≤ items.length
  before : ∀ x ∈ items.take n, P x
  behind : ∀ x ∈ items.drop n, Q x

variable {P Q : α → Prop} {items : List α} {ask : α → Option Bool} {n : Nat}

theorem exists_of_atPlace_none {i : Nat} (h : atPlace? items.toArray ask i = none) :
    ∃ x ∈ items, ask x = none := by
  simp only [atPlace?, List.getElem?_toArray] at h
  split at h
  · next x hx => exact ⟨x, List.mem_of_getElem? hx, h⟩
  · cases h

/-- The items lie so that those with `P` come first and those with `Q` last, and the answers tell
them apart. -/
structure Separates (P Q : α → Prop) (ask : α → Option Bool) (items : List α) : Prop where
  down : items.Pairwise fun x y => P y → P x
  up : items.Pairwise fun x y => Q x → Q y
  of_false : ∀ x ∈ items, ask x = some false → P x
  of_true : ∀ x ∈ items, ask x = some true → Q x

/-- There is an item at the place, and it holds `P`. -/
def HoldsAt (P : α → Prop) (items : List α) (i : Nat) : Prop := ∃ x, items[i]? = some x ∧ P x

/-- If there is an item at the place, it holds `Q`. -/
def AllowsAt (Q : α → Prop) (items : List α) (i : Nat) : Prop := ∀ x, items[i]? = some x → Q x

namespace Separates

variable (h : Separates P Q ask items)
include h

theorem holdsAt_of_false {i : Nat} (hi : atPlace? items.toArray ask i = some false) :
    HoldsAt P items i ∧ i < items.length := by
  simp only [atPlace?, List.getElem?_toArray] at hi
  split at hi
  · next x hx =>
      exact ⟨⟨x, hx, h.of_false x (List.mem_of_getElem? hx) hi⟩, (List.getElem?_eq_some_iff.mp hx).1⟩
  · cases hi

theorem allowsAt_of_true {i : Nat} (hi : atPlace? items.toArray ask i = some true) :
    AllowsAt Q items i := by
  intro x hx
  simp only [atPlace?, List.getElem?_toArray, hx] at hi
  exact h.of_true x (List.mem_of_getElem? hx) hi

theorem holdsAt_down {i j : Nat} (hij : i ≤ j) (hj : HoldsAt P items j) : HoldsAt P items i := by
  obtain ⟨y, hy, hPy⟩ := hj
  obtain rfl | hlt := Nat.eq_or_lt_of_le hij
  · exact ⟨y, hy, hPy⟩
  obtain ⟨hjlen, rfl⟩ := List.getElem?_eq_some_iff.mp hy
  have hilen : i < items.length := Nat.lt_trans hlt hjlen
  exact ⟨items[i], List.getElem?_eq_getElem hilen,
    List.pairwise_iff_getElem.mp h.down i j hilen hjlen hlt hPy⟩

theorem allowsAt_up {i j : Nat} (hij : i ≤ j) (hi : AllowsAt Q items i) : AllowsAt Q items j := by
  obtain rfl | hlt := Nat.eq_or_lt_of_le hij
  · exact hi
  intro y hy
  obtain ⟨hjlen, rfl⟩ := List.getElem?_eq_some_iff.mp hy
  have hilen : i < items.length := Nat.lt_trans hlt hjlen
  exact List.pairwise_iff_getElem.mp h.up i j hilen hjlen hlt
    (hi items[i] (List.getElem?_eq_getElem hilen))

omit h in
theorem cut_of_places (hle : n ≤ items.length) (hbefore : ∀ i, i < n → HoldsAt P items i)
    (hbehind : ∀ i, n ≤ i → i < items.length → AllowsAt Q items i) : Cut P Q items n := by
  refine ⟨hle, fun x hx => ?_, fun x hx => ?_⟩
  · obtain ⟨i, hi, rfl⟩ := List.mem_take_iff_getElem.mp hx
    obtain ⟨y, hy, hPy⟩ := hbefore i (by omega)
    obtain ⟨hlen, rfl⟩ := List.getElem?_eq_some_iff.mp hy
    exact hPy
  · obtain ⟨i, hi, rfl⟩ := List.mem_drop_iff_getElem.mp hx
    exact hbehind (i + n) (by omega) (by omega) _
      (by rw [Nat.add_comm, List.getElem?_eq_getElem])

theorem cut_of_bisect
    (hfound : bisect? (atPlace? items.toArray ask) 0 items.length = some n) :
    Cut P Q items n := by
  obtain ⟨-, hle, hbefore, hbehind⟩ := bisect_some (fun i hi => (h.holdsAt_of_false hi).1)
    (fun i hi => h.allowsAt_of_true hi) (fun i j => h.holdsAt_down) (fun i j => h.allowsAt_up)
    (Nat.zero_le _) hfound
  exact cut_of_places hle (fun i => hbefore i (Nat.zero_le _)) hbehind

theorem cut_of_gallop {hint : Nat} (hhint : hint ≤ items.length)
    (hfound : gallop? (atPlace? items.toArray ask) items.length hint = some n) :
    Cut P Q items n := by
  obtain ⟨hle, hbefore, hbehind⟩ := gallop_some (fun i hi => h.holdsAt_of_false hi)
    (fun i hi => h.allowsAt_of_true hi) (fun i j => h.holdsAt_down) (fun i j => h.allowsAt_up) hhint
    hfound
  exact cut_of_places hle hbefore hbehind

end Separates
end InkBindings.Sorting
