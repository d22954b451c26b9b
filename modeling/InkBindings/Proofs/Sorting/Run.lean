import InkBindings.Proofs.Sorting.Search
import InkBindings.Sorting.Run
import Mathlib.Data.List.Pairwise

/-!
Runs come out sorted. The order is any transitive relation that the answers tell, a yes and a no
alike; this is asked of each two items as they are given, and holds of them in every arrangement.
-/

namespace InkBindings.Sorting

variable {α : Type} {less? : α → α → Option Bool} {R : α → α → Prop}

/-- Whichever item is asked about the other, there is an answer. -/
def Comparable (less? : α → α → Option Bool) (a b : α) : Prop :=
  less? a b ≠ none ∧ less? b a ≠ none

/-- Each answer about the two items tells which of them comes first. -/
structure Told (less? : α → α → Option Bool) (R : α → α → Prop) (a b : α) : Prop where
  yes : less? a b = some true → R a b
  no : less? a b = some false → R b a
  yes' : less? b a = some true → R b a
  no' : less? b a = some false → R a b

theorem Comparable.symm {a b : α} (h : Comparable less? a b) : Comparable less? b a := And.symm h

theorem Told.symm {a b : α} (h : Told less? R a b) : Told less? R b a :=
  ⟨h.yes', h.no', h.yes, h.no⟩

/-- The items, in order if it is clear which. -/
structure Arranged (R : α → α → Prop) (clear : Prop) (given items : List α) : Prop where
  perm : items.Perm given
  sorted : clear → items.Pairwise R

/-- The items, two of which have no order. -/
structure Stuck (less? : α → α → Option Bool) (given items : List α) : Prop where
  perm : items.Perm given
  incomparable : ¬ given.Pairwise (Comparable less?)

theorem told_of_perm {items items' : List α} (h : items.Perm items')
    (htold : items.Pairwise (Told less? R)) : items'.Pairwise (Told less? R) :=
  (h.pairwise_iff Told.symm).mp htold

theorem comparable_of_perm {items items' : List α} (h : items.Perm items')
    (hall : items.Pairwise (Comparable less?)) : items'.Pairwise (Comparable less?) :=
  (h.pairwise_iff Comparable.symm).mp hall

theorem Stuck.mono {given given' items items' : List α} (h : Stuck less? given items)
    (hpart : ∃ rest, (given ++ rest).Perm given') (hperm : items'.Perm given') :
    Stuck less? given' items' := by
  obtain ⟨rest, hrest⟩ := hpart
  refine ⟨hperm, fun hall => h.incomparable ?_⟩
  exact (List.pairwise_append.mp (comparable_of_perm hrest.symm hall)).1

/-! ### Searching a place among sorted items -/

section
variable (htrans : ∀ a b c, R a b → R b c → R a c)
  {x : α} {items : List α}
include htrans

theorem separates_of_asked (hsorted : items.Pairwise R)
    (htold : ∀ y ∈ items, Told less? R x y) :
    Separates (R · x) (R x) (less? x) items where
  down := hsorted.imp fun hab hbx => htrans _ _ _ hab hbx
  up := hsorted.imp fun hab hxa => htrans _ _ _ hxa hab
  of_false y hy hanswer := (htold y hy).no hanswer
  of_true y hy hanswer := (htold y hy).yes hanswer

theorem separates_of_asking (hsorted : items.Pairwise R)
    (htold : ∀ y ∈ items, Told less? R x y) :
    Separates (R · x) (R x) (fun y => (less? y x).map not) items where
  down := hsorted.imp fun hab hbx => htrans _ _ _ hab hbx
  up := hsorted.imp fun hab hxa => htrans _ _ _ hxa hab
  of_false y hy hanswer := (htold y hy).yes' (by simpa using hanswer)
  of_true y hy hanswer := (htold y hy).no' (by simpa using hanswer)

end

/-! ### Putting items in their places -/

theorem insertAll_error {sorted rest left : List α}
    (h : insertAll less? sorted rest = .error left) : Stuck less? (sorted ++ rest) left := by
  induction rest generalizing sorted with
  | nil => cases h
  | cons x rest ih =>
      simp only [insertAll] at h
      split at h
      · next hnone =>
          cases h
          refine ⟨.rfl, fun hall => ?_⟩
          obtain ⟨i, hi⟩ := bisect_none hnone
          obtain ⟨y, hy, hanswer⟩ := exists_of_atPlace_none hi
          exact ((List.pairwise_append.mp hall).2.2 y hy x List.mem_cons_self).2 hanswer
      · next i _ =>
          have hperm : (sorted.take i ++ x :: sorted.drop i ++ rest).Perm (sorted ++ x :: rest) := by
            rw [List.append_assoc, List.cons_append]
            refine List.perm_middle.trans ?_
            rw [← List.append_assoc, List.take_append_drop]
            exact List.perm_middle.symm
          have hstuck := ih h
          exact hstuck.mono ⟨[], by simpa using hperm⟩ (hstuck.perm.trans hperm)

/-- What is inserted is found in its place, and what was sorted stays so. -/
theorem insertAll_ok (htrans : ∀ a b c, R a b → R b c → R a c)
    {sorted rest run : List α} (h : insertAll less? sorted rest = .ok run) :
    run.Perm (sorted ++ rest) ∧ ((sorted ++ rest).Pairwise (Told less? R) →
      sorted.Pairwise R → run.Pairwise R) := by
  induction rest generalizing sorted with
  | nil =>
      cases h
      exact ⟨by simp, fun _ hsorted => hsorted⟩
  | cons x rest ih =>
      simp only [insertAll] at h
      split at h
      · cases h
      · next i hi =>
          have hperm : (sorted.take i ++ x :: sorted.drop i ++ rest).Perm (sorted ++ x :: rest) := by
            rw [List.append_assoc, List.cons_append]
            refine List.perm_middle.trans ?_
            rw [← List.append_assoc, List.take_append_drop]
            exact List.perm_middle.symm
          obtain ⟨hrun, hrunSorted⟩ := ih h
          refine ⟨hrun.trans hperm, fun htold hsorted => ?_⟩
          have hx := (List.pairwise_append.mp htold).2.2
          have hcut := (separates_of_asked htrans hsorted
            fun y hy => (hx y hy x List.mem_cons_self).symm).cut_of_bisect hi
          refine hrunSorted (told_of_perm hperm.symm htold) ?_
          rw [← List.take_append_drop i sorted, List.pairwise_append] at hsorted
          refine List.pairwise_append.mpr ⟨hsorted.1,
            List.pairwise_cons.mpr ⟨hcut.behind, hsorted.2.1⟩, fun y hy z hz => ?_⟩
          obtain rfl | hz := List.mem_cons.mp hz
          · exact hcut.before y hy
          · exact hsorted.2.2 y hy z hz

/-! ### The run at the front -/

/-- How two items of a run lie, whichever way it goes. -/
def Following (R : α → α → Prop) (falling : Bool) (a b : α) : Prop :=
  if falling then R b a else R a b

theorem runLength_none {falling : Bool} {last : α} {rest : List α}
    (h : runLength? less? falling last rest = none) :
    ¬ (last :: rest).Pairwise (Comparable less?) := by
  intro hall
  induction rest generalizing last with
  | nil => cases h
  | cons x rest ih =>
      obtain ⟨hlast, hrest⟩ := List.pairwise_cons.mp hall
      simp only [runLength?] at h
      split at h
      · next hnone => exact (hlast x List.mem_cons_self).2 hnone
      · split at h
        · exact ih (by simpa using h) hrest
        · cases h

section
variable (htrans : ∀ a b c, R a b → R b c → R a c)
  {falling : Bool}
include htrans

theorem Following.trans {a b c : α} (hab : Following R falling a b)
    (hbc : Following R falling b c) : Following R falling a c := by
  cases falling with
  | false => exact htrans _ _ _ hab hbc
  | true => exact htrans _ _ _ hbc hab

theorem runLength_some {last : α} {rest : List α} {n : Nat}
    (h : runLength? less? falling last rest = some n) :
    n ≤ rest.length ∧ ((last :: rest.take n).Pairwise (Told less? R) →
      (last :: rest.take n).Pairwise (Following R falling)) := by
  induction rest generalizing last n with
  | nil =>
      cases h
      simp
  | cons x rest ih =>
      simp only [runLength?] at h
      split at h
      · cases h
      · next b hanswer =>
          split at h
          · next hb =>
              obtain ⟨m, hm, rfl⟩ := Option.map_eq_some_iff.mp h
              obtain ⟨hle, hrest⟩ := ih hm
              refine ⟨Nat.succ_le_succ hle, fun htold => ?_⟩
              rw [List.take_succ_cons] at htold ⊢
              obtain ⟨hlast, htoldRest⟩ := List.pairwise_cons.mp htold
              rw [hb] at hanswer
              have hfirst : Following R falling last x := by
                cases falling with
                | true => exact (hlast x List.mem_cons_self).yes' hanswer
                | false => exact (hlast x List.mem_cons_self).no' hanswer
              have hrun := hrest htoldRest
              refine List.pairwise_cons.mpr ⟨fun y hy => ?_, hrun⟩
              obtain rfl | hy := List.mem_cons.mp hy
              · exact hfirst
              · exact hfirst.trans htrans ((List.pairwise_cons.mp hrun).1 y hy)
          · cases h
            simp

theorem firstRun_some {items : List α} {n : Nat} (h : firstRun? less? items = some (n, falling)) :
    n ≤ items.length ∧ (items ≠ [] → 0 < n) ∧
      ((items.take n).Pairwise (Told less? R) →
        (items.take n).Pairwise (Following R falling)) := by
  match items with
  | [] =>
      cases h
      simp
  | [x] =>
      cases h
      simp
  | x :: y :: rest =>
      simp only [firstRun?, bind, Option.bind_eq_some_iff] at h
      obtain ⟨b, hanswer, m, hm, h⟩ := h
      cases h
      obtain ⟨hle, hrest⟩ := runLength_some htrans hm
      refine ⟨Nat.add_le_add_right hle 2, fun _ => Nat.succ_pos _, fun htold => ?_⟩
      rw [List.take_succ_cons, List.take_succ_cons] at htold ⊢
      obtain ⟨hx, htoldRest⟩ := List.pairwise_cons.mp htold
      have hfirst : Following R falling x y := by
        cases falling with
        | true => exact (hx y List.mem_cons_self).yes' hanswer
        | false => exact (hx y List.mem_cons_self).no' hanswer
      have hrun := hrest htoldRest
      refine List.pairwise_cons.mpr ⟨fun z hz => ?_, hrun⟩
      obtain rfl | hz := List.mem_cons.mp hz
      · exact hfirst
      · exact hfirst.trans htrans ((List.pairwise_cons.mp hrun).1 z hz)

end

theorem firstRun_none {items : List α} (h : firstRun? less? items = none) :
    ¬ items.Pairwise (Comparable less?) := by
  intro hall
  match items with
  | [] => cases h
  | [x] => cases h
  | x :: y :: rest =>
      obtain ⟨hx, hrest⟩ := List.pairwise_cons.mp hall
      simp only [firstRun?, bind, Option.bind_eq_none_iff] at h
      cases hanswer : less? y x with
      | none => exact (hx y List.mem_cons_self).2 hanswer
      | some b =>
          cases hlength : runLength? less? b y rest with
          | none => exact runLength_none hlength hrest
          | some m => exact absurd (h b hanswer m hlength) (by simp [pure])

theorem turned_perm (falling : Bool) (items : List α) :
    (if falling then items.reverse else items).Perm items := by
  cases falling with
  | true => exact List.reverse_perm items
  | false => exact .rfl

theorem turned_sorted {falling : Bool} {items : List α}
    (h : items.Pairwise (Following R falling)) :
    (if falling then items.reverse else items).Pairwise R := by
  cases falling with
  | true => exact List.pairwise_reverse.mpr h
  | false => exact h

theorem takeRun_error {least : Nat} {items left : List α}
    (h : takeRun less? least items = .error left) : Stuck less? items left := by
  simp only [takeRun] at h
  split at h
  · next hnone =>
      cases h
      exact ⟨.rfl, firstRun_none hnone⟩
  · next length falling _ =>
      have hperm := turned_perm falling (items.take length)
      generalize (if falling then (items.take length).reverse else items.take length) = found
        at h hperm
      cases hinsert : insertAll less? found ((items.drop length).take (least - length)) with
      | ok run => rw [hinsert] at h; cases h
      | error stuck =>
          rw [hinsert] at h
          cases h
          have hstuck := insertAll_error hinsert
          have hall : (found ++ (items.drop length).take (least - length) ++
              (items.drop length).drop (least - length)).Perm items := by
            rw [List.append_assoc, List.take_append_drop]
            refine (hperm.append_right _).trans ?_
            rw [List.take_append_drop]
          refine hstuck.mono ⟨_, hall⟩ ?_
          exact (hstuck.perm.append_right _).trans hall

/-- A run is taken off the front; there is one unless there are no items. -/
theorem takeRun_ok (htrans : ∀ a b c, R a b → R b c → R a c)
    {least : Nat} {items run after : List α} (h : takeRun less? least items = .ok (run, after)) :
    ∃ taken, items = taken ++ after ∧ Arranged R (taken.Pairwise (Told less? R)) taken run ∧
      (items ≠ [] → after.length < items.length) := by
  simp only [takeRun] at h
  split at h
  · cases h
  · next length falling hfirst =>
      obtain ⟨hle, hpos, hrun⟩ := firstRun_some htrans hfirst
      have hfound := turned_perm falling (items.take length)
      have hturned (htold : (items.take length).Pairwise (Told less? R)) := turned_sorted (hrun htold)
      generalize (if falling then (items.take length).reverse else items.take length) = found
        at h hfound hturned
      cases hinsert : insertAll less? found ((items.drop length).take (least - length)) with
      | error stuck => rw [hinsert] at h; cases h
      | ok inserted =>
          rw [hinsert] at h
          cases h
          obtain ⟨hperm, hsorted⟩ := insertAll_ok htrans hinsert
          have hgiven := hfound.append_right ((items.drop length).take (least - length))
          refine ⟨items.take length ++ (items.drop length).take (least - length), ?_, ⟨?_, ?_⟩, ?_⟩
          · rw [List.append_assoc, List.take_append_drop, List.take_append_drop]
          · exact hperm.trans hgiven
          · intro htold
            exact hsorted (told_of_perm hgiven.symm htold)
              (hturned (List.pairwise_append.mp htold).1)
          · intro hne
            have := hpos hne
            simp only [List.length_drop]
            omega

theorem runLength_of_isChain {last : α} {rest : List α}
    (h : (last :: rest).IsChain fun a b => less? b a = some false) :
    runLength? less? false last rest = some rest.length := by
  induction rest generalizing last with
  | nil => rfl
  | cons x rest ih =>
      obtain ⟨hx, hrest⟩ := List.isChain_cons_cons.mp h
      simp [runLength?, hx, ih hrest]

theorem takeRun_of_isChain {items : List α} (least : Nat)
    (h : items.IsChain fun a b => less? b a = some false) :
    takeRun less? least items = .ok (items, []) := by
  have hfirst : firstRun? less? items = some (items.length, false) := by
    cases items with
    | nil => rfl
    | cons x rest =>
        cases rest with
        | nil => rfl
        | cons y rest =>
            obtain ⟨hy, hrest⟩ := List.isChain_cons_cons.mp h
            simp [firstRun?, hy, runLength_of_isChain hrest]
  simp [takeRun, hfirst, insertAll, Attempt.within, Except.mapError, bind, Except.bind, pure,
    Except.pure]

end InkBindings.Sorting
