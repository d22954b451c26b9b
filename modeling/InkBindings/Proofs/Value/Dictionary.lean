import InkBindings.Proofs.Value.Order

/-!
Dictionaries made of entries. No two keys of one are equal, and entries whose keys are all different
stay as they are.
-/

namespace InkBindings.Value

variable {entries es : List (Value × Value)}

/-- No key is equal to one before it. -/
def KeysDiffer (es : List (Value × Value)) : Prop :=
  es.Pairwise fun a b => a.1.equals b.1 = false

theorem KeysDiffer.perm {es' : List (Value × Value)} (h : KeysDiffer es)
    (hhash : ∀ e ∈ es, e.1.isHashable = true) (hperm : es.Perm es') : KeysDiffer es' := by
  have hboth : es.Pairwise fun a b => a.1.equals b.1 = false ∧ b.1.equals a.1 = false := by
    refine List.Pairwise.imp_of_mem ?_ h
    intro a b _ hb hab
    exact ⟨hab, equals_false_symm (dictless_of_hashable _ (hhash b hb)) hab⟩
  exact ((hperm.pairwise_iff And.symm).mp hboth).imp And.left

/-- Of ascending keys no two are equal. -/
theorem keysDiffer_of_ascending (hhash : ∀ e ∈ entries, e.1.isHashable = true)
    (h : ascending (entries.map (·.1)) = true) : KeysDiffer entries := by
  have hless : entries.Pairwise fun a b => less? a.1 b.1 = some true := by
    induction entries with
    | nil => exact .nil
    | cons a rest ih =>
        cases rest with
        | nil => exact List.pairwise_singleton _ _
        | cons b rest =>
            simp only [List.map_cons, ascending, Bool.and_eq_true, beq_iff_eq] at h
            have htail := ih (fun e he => hhash e (List.mem_cons_of_mem _ he)) h.2
            have hdictless := fun e he => dictless_of_hashable e.1 (hhash e he)
            refine List.pairwise_cons.mpr ⟨List.forall_mem_cons.mpr ⟨h.1, fun c hc => ?_⟩, htail⟩
            exact less_trans (hdictless a (by simp)) (hdictless b (by simp))
              (hdictless c (by simp [hc])) h.1 ((List.pairwise_cons.mp htail).1 c hc)
  refine List.Pairwise.imp_of_mem ?_ hless
  intro a b ha hb hab
  exact (of_less (dictless_of_hashable _ (hhash a ha)) (dictless_of_hashable _ (hhash b hb)) hab).1

/-! ### Adding entries -/

theorem insertEntry_eq (es : List (Value × Value)) (key value : Value) :
    (∀ e ∈ es, e.1.equals key = false) ∧ insertEntry es key value = (key, value) :: es ∨
      (insertEntry es key value).map (·.1) = es.map (·.1) := by
  unfold insertEntry
  split
  · refine .inr ?_
    rw [List.map_map]
    refine List.map_congr_left fun e _ => ?_
    dsimp only [Function.comp]
    split <;> rfl
  · next hnone => exact .inl ⟨by simpa using hnone, rfl⟩

/-- The entries so far, the newest first, and those that are still to be added. -/
theorem keysDiffer_foldl {before : List (Value × Value)} (h : KeysDiffer before.reverse) :
    KeysDiffer (entries.foldl (fun d e => insertEntry d e.1 e.2) before).reverse := by
  induction entries generalizing before with
  | nil => exact h
  | cons e rest ih =>
      refine ih ?_
      change KeysDiffer (insertEntry before e.1 e.2).reverse
      rcases insertEntry_eq before e.1 e.2 with ⟨hnew, heq⟩ | hkeys
      · rw [heq, List.reverse_cons]
        exact List.pairwise_append.mpr ⟨h, List.pairwise_singleton _ _, by simpa using hnew⟩
      · have hmap : ((insertEntry before e.1 e.2).reverse.map (·.1)).Pairwise
            fun a b => equals a b = false := by
          rw [List.map_reverse, hkeys, ← List.map_reverse]
          exact List.pairwise_map.mpr h
        exact List.pairwise_map.mp hmap

theorem length_foldl_le (entries before : List (Value × Value)) :
    (entries.foldl (fun d e => insertEntry d e.1 e.2) before).length ≤
      before.length + entries.length := by
  induction entries generalizing before with
  | nil => simp
  | cons e rest ih =>
      refine (ih _).trans ?_
      rcases insertEntry_eq before e.1 e.2 with ⟨-, heq⟩ | hkeys
      · simp only [heq, List.length_cons]
        omega
      · have hlen := congrArg List.length hkeys
        simp only [List.length_map] at hlen
        simp only [hlen, List.length_cons]
        omega

/-- What holds of all keys that are added and of all values still does, whichever of them meet. -/
theorem parts_of_foldl {p q : Value → Prop} {before : List (Value × Value)}
    (hentries : ∀ e ∈ entries, p e.1 ∧ q e.2) (hbefore : ∀ e ∈ before, p e.1 ∧ q e.2) :
    ∀ e ∈ entries.foldl (fun d e => insertEntry d e.1 e.2) before, p e.1 ∧ q e.2 := by
  induction entries generalizing before with
  | nil => exact hbefore
  | cons a rest ih =>
      obtain ⟨ha, hrest⟩ := List.forall_mem_cons.mp hentries
      refine ih hrest fun e he => ?_
      simp only [insertEntry] at he
      split at he
      · obtain ⟨e', he', rfl⟩ := List.mem_map.mp he
        split
        · exact ⟨(hbefore e' he').1, ha.2⟩
        · exact hbefore e' he'
      · obtain rfl | he := List.mem_cons.mp he
        · exact ha
        · exact hbefore e he

/-- If no entry takes the place of another, they are all there. -/
theorem foldl_of_length {before : List (Value × Value)}
    (h : before.length + entries.length ≤
      (entries.foldl (fun d e => insertEntry d e.1 e.2) before).length) :
    entries.foldl (fun d e => insertEntry d e.1 e.2) before = entries.reverse ++ before := by
  induction entries generalizing before with
  | nil => rfl
  | cons e rest ih =>
      rw [List.foldl_cons] at h ⊢
      rcases insertEntry_eq before e.1 e.2 with ⟨-, heq⟩ | hkeys
      · rw [heq] at h ⊢
        rw [ih (by simp only [List.length_cons] at h ⊢; omega)]
        simp
      · have hbound := length_foldl_le rest (insertEntry before e.1 e.2)
        have hlen := congrArg List.length hkeys
        simp only [List.length_map] at hlen
        simp only [List.length_cons] at h
        omega

theorem foldl_of_keysDiffer {before : List (Value × Value)}
    (h : KeysDiffer (before.reverse ++ entries)) :
    entries.foldl (fun d e => insertEntry d e.1 e.2) before = entries.reverse ++ before := by
  induction entries generalizing before with
  | nil => rfl
  | cons e rest ih =>
      have hnew : ∀ b ∈ before, b.1.equals e.1 = false := fun b hb =>
        (List.pairwise_append.mp h).2.2 b (List.mem_reverse.mpr hb) e List.mem_cons_self
      have hinsert : insertEntry before e.1 e.2 = e :: before := by
        unfold insertEntry
        rw [if_neg (by simpa using hnew)]
      rw [List.foldl_cons, hinsert, ih (by simpa using h)]
      simp

/-! ### The dictionary -/

theorem dictOf_some {d : Value} (h : dictOf? entries = some d) :
    (∀ e ∈ entries, e.1.isHashable = true) ∧ ∃ es, d = .dict es ∧
      (es = entries ∧ ascending (entries.map (·.1)) = true ∨
        es = (entries.foldl (fun d e => insertEntry d e.1 e.2) []).reverse) := by
  unfold dictOf? at h
  split at h
  · next hhash =>
      refine ⟨List.all_eq_true.mp hhash, _, (Option.some.inj h).symm, ?_⟩
      split
      · next hascending => exact .inl ⟨rfl, hascending⟩
      · exact .inr rfl
  · cases h

/-- The keys of a dictionary differ. -/
theorem keysDiffer_of_dictOf (h : dictOf? entries = some (.dict es)) : KeysDiffer es := by
  obtain ⟨hhash, es', heq, hes⟩ := dictOf_some h
  cases heq
  rcases hes with ⟨rfl, hascending⟩ | rfl
  · exact keysDiffer_of_ascending hhash hascending
  · exact keysDiffer_foldl .nil

theorem length_le_of_dictOf (h : dictOf? entries = some (.dict es)) :
    es.length ≤ entries.length := by
  obtain ⟨-, es', heq, hes⟩ := dictOf_some h
  cases heq
  rcases hes with ⟨rfl, -⟩ | rfl
  · exact Nat.le_refl _
  · rw [List.length_reverse]
    exact (length_foldl_le entries []).trans (by simp)

/-- The keys of a dictionary are keys that it was made of, and so are its values. -/
theorem parts_of_dictOf {p q : Value → Prop} (h : dictOf? entries = some (.dict es))
    (hentries : ∀ e ∈ entries, p e.1 ∧ q e.2) : ∀ e ∈ es, p e.1 ∧ q e.2 := by
  obtain ⟨-, es', heq, hes⟩ := dictOf_some h
  cases heq
  rcases hes with ⟨rfl, -⟩ | rfl
  · exact hentries
  · intro e he
    exact parts_of_foldl hentries (List.forall_mem_nil _) e (List.mem_reverse.mp he)

/-- A dictionary that has as many entries as it was made of has these entries. -/
theorem eq_of_dictOf (h : dictOf? entries = some (.dict es)) (hlen : es.length = entries.length) :
    es = entries := by
  obtain ⟨-, es', heq, hes⟩ := dictOf_some h
  cases heq
  rcases hes with ⟨rfl, -⟩ | rfl
  · rfl
  · rw [foldl_of_length (by simpa using hlen.ge)]
    simp

/-- Entries with different keys make up the dictionary that has them. -/
theorem dictOf_of_keysDiffer (hhash : ∀ e ∈ entries, e.1.isHashable = true)
    (h : KeysDiffer entries) : dictOf? entries = some (.dict entries) := by
  unfold dictOf?
  rw [if_pos (List.all_eq_true.mpr hhash), foldl_of_keysDiffer (by simpa using h)]
  simp

end InkBindings.Value
