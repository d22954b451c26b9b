import InkBindings.Proofs.Naming
import Mathlib.Order.Nat

/-!
How names come to be free. A name that is taken gets one underscore after another until it is free,
with nothing that says how often this may happen. It comes to an end all the same: no two of the
names that are tried are the same, and only finitely many are taken. The name that is found is the
first free one, and the tries that the choice of a name is given are enough to find it.
-/

namespace InkBindings.Naming

/-- Underscores are appended for as long as the name is taken, however often that is. -/
inductive Settles (taken : String → Prop) : (passes : Nat) → (name found : String) → Prop
  | free {name} : ¬ taken name → Settles taken 0 name name
  | clash {passes name found} : taken name → Settles taken passes (name ++ "_") found →
      Settles taken (passes + 1) name found

/-- The search ends, at the name with the fewest underscores that is free. -/
structure Finds (taken : String → Prop) (name found : String) (passes : Nat) : Prop where
  ends : Settles taken passes name found
  spelling : found = padded name passes
  least : IsLeast {count | ¬ taken (padded name count)} passes

variable {taken : String → Prop} {passes : Nat} {name found : String}

theorem Settles.finds (h : Settles taken passes name found) : Finds taken name found passes := by
  induction h with
  | @free name hfree =>
      refine ⟨.free hfree, (padded_zero name).symm, ?_, fun _ _ => Nat.zero_le _⟩
      rwa [Set.mem_ofPred_eq, padded_zero]
  | @clash passes name found htaken hrest ih =>
      obtain ⟨hfree, hleast⟩ := ih.least
      rw [Set.mem_ofPred_eq, padded_succ] at hfree
      refine ⟨.clash htaken hrest, ih.spelling.trans (padded_succ name passes), hfree, ?_⟩
      intro count hcount
      cases count with
      | zero => exact absurd ((padded_zero name).symm ▸ htaken) hcount
      | succ count =>
          refine Nat.succ_le_succ (hleast ?_)
          rwa [Set.mem_ofPred_eq, padded_succ]

/-- The search passes all the names that are taken. -/
theorem settles_of_isLeast (h : IsLeast {count | ¬ taken (padded name count)} passes) :
    Settles taken passes name (padded name passes) := by
  induction passes generalizing name with
  | zero =>
      obtain ⟨hfree, -⟩ := h
      rw [Set.mem_ofPred_eq, padded_zero] at hfree
      rw [padded_zero]
      exact .free hfree
  | succ passes ih =>
      obtain ⟨hfree, hleast⟩ := h
      have htaken : taken name := by
        by_contra hnot
        have hzero : 0 ∈ {count | ¬ taken (padded name count)} := by
          rwa [Set.mem_ofPred_eq, padded_zero]
        exact Nat.not_succ_le_zero passes (hleast hzero)
      rw [← padded_succ]
      refine .clash htaken (ih ⟨?_, fun count hcount => ?_⟩)
      · rwa [Set.mem_ofPred_eq, padded_succ]
      · rw [Set.mem_ofPred_eq, padded_succ] at hcount
        exact Nat.le_of_succ_le_succ (hleast hcount)

/-- Where a candidate is free, the search ends, with that one at the latest. -/
theorem exists_settles {bound : Nat} (h : ∃ count ≤ bound, ¬ taken (padded name count)) :
    ∃ passes ≤ bound, Settles taken passes name (padded name passes) := by
  classical
  obtain ⟨count, hcount, hfree⟩ := h
  have hsome : ∃ count, ¬ taken (padded name count) := ⟨count, hfree⟩
  exact ⟨Nat.find hsome, (Nat.find_min' hsome hfree).trans hcount,
    settles_of_isLeast (Nat.isLeast_find hsome)⟩

/-- With as many tries as the search has passes, or more, just the name that it ends at is found. -/
theorem firstFree_of_settles {isTaken : String → Bool} {tries : Nat}
    (h : Settles (fun s => isTaken s = true) passes name found) (htries : passes ≤ tries) :
    firstFree isTaken tries name = found := by
  induction h generalizing tries with
  | free hfree =>
      cases tries with
      | zero => rfl
      | succ tries => rw [firstFree, if_neg hfree]
  | clash htaken _ ih =>
      cases tries with
      | zero => exact absurd htries (Nat.not_succ_le_zero _)
      | succ tries =>
          rw [firstFree, if_pos htaken]
          exact ih (Nat.le_of_succ_le_succ htries)

/-- Of the candidates for an identifier only the first one can be a keyword. -/
theorem exists_identifier_free (name : String) (reserved : List String) :
    ∃ count ≤ reserved.toFinset.card + 1,
      ¬ (padded name count ∈ keywords ∨ padded name count ∈ reserved) := by
  obtain ⟨count, hcount, hfree⟩ := exists_padded_not_mem (name ++ "_") reserved
  rw [padded_succ] at hfree
  exact ⟨count + 1, Nat.succ_le_succ hcount,
    not_or.mpr ⟨padded_not_mem_keywords name count, hfree⟩⟩

theorem exists_finds_identifier (name : String) (reserved : List String) :
    ∃ passes ≤ reserved.toFinset.card + 1, Finds (fun s => s ∈ keywords ∨ s ∈ reserved)
      (sanitize name) (identifier name reserved) passes := by
  obtain ⟨passes, hpasses, hends⟩ : ∃ passes ≤ reserved.toFinset.card + 1,
      Settles (fun s => s ∈ keywords ∨ s ∈ reserved) passes (sanitize name)
        (padded (sanitize name) passes) :=
    exists_settles (exists_identifier_free (sanitize name) reserved)
  have hfound : identifier name reserved = padded (sanitize name) passes := by
    refine firstFree_of_settles (by simpa using hends) (hpasses.trans ?_)
    exact Nat.succ_le_succ reserved.toFinset_card_le
  exact ⟨passes, hpasses, hfound ▸ hends.finds⟩

theorem exists_finds_fresh (name : String) (taken : List String) :
    ∃ passes ≤ taken.toFinset.card, Finds (fun s => s ∈ taken) name (fresh name taken) passes := by
  obtain ⟨passes, hpasses, hends⟩ : ∃ passes ≤ taken.toFinset.card,
      Settles (fun s => s ∈ taken) passes name (padded name passes) :=
    exists_settles (exists_padded_not_mem name taken)
  have hfound : fresh name taken = padded name passes :=
    firstFree_of_settles (by simpa using hends) (hpasses.trans taken.toFinset_card_le)
  exact ⟨passes, hpasses, hfound ▸ hends.finds⟩

/-- Every search for a free name ends, at the first one. It appends at most one underscore for each
of the different names that are taken, and one more where the name may be a keyword. -/
theorem clashes_settled (name : String) (taken : List String) :
    (∃ passes ≤ taken.toFinset.card + 1, Finds (fun s => s ∈ keywords ∨ s ∈ taken) (sanitize name)
      (identifier name taken) passes) ∧
    ∃ passes ≤ taken.toFinset.card, Finds (fun s => s ∈ taken) name (fresh name taken) passes :=
  ⟨exists_finds_identifier name taken, exists_finds_fresh name taken⟩

/-- A keyword that clashes again takes all the underscores there can be. -/
example : identifier "class" ["class_", "class_"] = padded "class" (1 + 1) := by decide

end InkBindings.Naming
