import InkBindings.Proofs.Fallible
import InkBindings.Proofs.Sorting.Attempt
import InkBindings.Proofs.Value.Order
import InkBindings.Scale.Encode

/-!
In which order the entries of a map are written. If all keys have an order they are written in it,
and else in the order of their encodings; what the search for an order leaves behind does not show.
-/

namespace InkBindings

namespace Value

/-- Neither value comes before the other, though they have an order. -/
def Undecided (a b : Value) : Prop := less? a b = some false ∧ less? b a = some false

theorem not_undecided_of_placed {a b : Value} (ha : Dictless a) (hb : Dictless b) (hpa : Placed a)
    (hpb : Placed b) (hne : equals a b = false) : ¬ Undecided a b := by
  intro h
  have hba := less_of_not_less ha hb hpa hpb hne h.1
  simp [h.2] at hba

end Value

namespace Scale
namespace Encoder

open Value (Dictless less?)

/-- An entry with the key that it is sorted by. -/
abbrev Keyed := Value × List Value

/-- The key of the first entry comes before that of the second. -/
def Precedes (a b : Keyed) : Prop := Dictless a.1 ∧ Dictless b.1 ∧ less? a.1 b.1 = some true

theorem Precedes.trans {a b c : Keyed} (hab : Precedes a b) (hbc : Precedes b c) : Precedes a c :=
  ⟨hab.1, hbc.2.1, Value.less_trans hab.1 hab.2.1 hbc.2.1 hab.2.2 hbc.2.2⟩

theorem Precedes.asymm {a b : Keyed} (hab : Precedes a b) : ¬ Precedes b a := by
  intro hba
  have hno := (Value.of_less hab.1 hab.2.1 hab.2.2).2
  simp [hba.2.2] at hno

variable {key : Encoder} {entries : List Keyed}

/-- The comparison by which entries are sorted where it may fail. -/
abbrev keyLess? (a b : Keyed) : Option Bool := less? a.1 b.1

theorem told_of_decided {a b : Keyed} (ha : Dictless a.1) (hb : Dictless b.1)
    (h : ¬ Value.Undecided a.1 b.1) : Sorting.Told keyLess? Precedes a b := by
  have hof {a b : Keyed} (ha : Dictless a.1) (hb : Dictless b.1)
      (h : ¬ Value.Undecided a.1 b.1) (hno : less? a.1 b.1 = some false) : Precedes b a := by
    have hsome : (less? b.1 a.1).isSome = true := by
      rw [Value.less_isSome_comm hb ha, hno]
      rfl
    obtain ⟨answer, hanswer⟩ := Option.isSome_iff_exists.mp hsome
    cases answer with
    | true => exact ⟨hb, ha, hanswer⟩
    | false => exact absurd ⟨hno, hanswer⟩ h
  exact ⟨fun hyes => ⟨ha, hb, hyes⟩, hof ha hb h, fun hyes => ⟨hb, ha, hyes⟩,
    hof hb ha fun hno => h ⟨hno.2, hno.1⟩⟩

/-! ### Keys that are known to have an order -/

theorem isSome_of_allOrdered {keys : List Value} (h : allOrdered keys = true) :
    keys.Pairwise fun a b => (less? b a).isSome = true := by
  rcases Bool.or_eq_true_iff.mp h with hkind | heach
  · cases keys with
    | nil => exact .nil
    | cons v rest =>
        simp only [Value.areOfOneKind] at hkind
        split at hkind
        · next kind hv =>
            have hall : ∀ k ∈ v :: rest, k.orderKind? = some kind := by
              refine List.forall_mem_cons.mpr ⟨hv, fun k hk => ?_⟩
              simpa using List.all_eq_true.mp hkind k hk
            exact (List.pairwise_of_forall_mem_list fun a ha b hb =>
              Value.isSome_of_orderKind (hall b hb) (hall a ha))
        · cases hkind
  · induction keys with
    | nil => exact .nil
    | cons k rest ih =>
        simp only [eachOrdered, Bool.and_eq_true, List.all_eq_true] at heach
        exact List.pairwise_cons.mpr ⟨heach.1.2, ih (by simp [allOrdered, heach.2]) heach.2⟩

/-! ### The sorted entries -/

/-- The entries with the bytes of their keys. -/
def keyed (key : Encoder) (e : Keyed) : Except EncodeFailure (Bytes × List Value) := do
  return (← keyBytes key e.1, e.2)

theorem keyed_eq_ok {e : Keyed} {b : Bytes × List Value} :
    keyed key e = .ok b ↔ keyBytes key e.1 = .ok b.1 ∧ e.2 = b.2 := by
  unfold keyed
  cases keyBytes key e.1 with
  | error f => simp [bind, Except.bind]
  | ok bytes => simp [bind, Except.bind, pure, Except.pure, Prod.ext_iff]

/-- The entries in the order of the bytes of their keys. -/
def byBytes (found : List (Bytes × List Value)) : List (Bytes × List Value) :=
  found.mergeSort fun a b => !Value.lessBytes b.1 a.1

theorem sortEntries_eq (key : Encoder) (entries : List Keyed) : sortEntries key entries =
    if allOrdered (entries.map (·.1)) then
      .ok ((entries.mergeSort fun a b => less? b.1 a.1 != some true).map (·.2))
    else
      match Sorting.sort keyLess? entries with
      | .ok sorted => .ok (sorted.map (·.2))
      | .error left => left.mapM (keyed key) >>= fun found => .ok ((byBytes found).map (·.2)) := rfl

theorem sorts_keyed (entries : List Keyed) :
    Sorting.Sorts keyLess? Precedes entries (Sorting.sort keyLess? entries) :=
  Sorting.sort_sorts (fun _ _ _ hab hbc => hab.trans hbc) entries

/-- Sorting loses no entry. -/
theorem sortEntries_perm {sorted : List (List Value)} (h : sortEntries key entries = .ok sorted) :
    sorted.Perm (entries.map (·.2)) := by
  rw [sortEntries_eq] at h
  split at h
  · cases h
    exact (List.mergeSort_perm _ _).map _
  · have hsorts := sorts_keyed entries
    split at h
    · next arranged hsort =>
        cases h
        rw [hsort] at hsorts
        exact hsorts.perm.map _
    · next left hsort =>
        rw [hsort] at hsorts
        obtain ⟨found, hfound, h⟩ := bind_ok h
        cases h
        have hparts : found.map (·.2) = left.map (·.2) :=
          (map_eq_map_iff_forall₂.mpr ((forall₂_of_mapM hfound).imp
            fun _ _ hb => (keyed_eq_ok.mp hb).2)).symm
        refine ((List.mergeSort_perm _ _).map _).trans ?_
        rw [hparts]
        exact hsorts.perm.map _

/-- Sorting succeeds if the bytes of all keys are found. -/
theorem exists_sortEntries_ok (h : ∀ e ∈ entries, ∃ b, keyBytes key e.1 = .ok b) :
    ∃ sorted, sortEntries key entries = .ok sorted := by
  rw [sortEntries_eq]
  split
  · exact ⟨_, rfl⟩
  · have hsorts := sorts_keyed entries
    split
    · exact ⟨_, rfl⟩
    · next left hsort =>
        rw [hsort] at hsorts
        obtain ⟨found, hfound⟩ : ∃ found, left.mapM (keyed key) = .ok found := by
          refine exists_mapM_ok fun e he => ?_
          obtain ⟨b, hb⟩ := h e (hsorts.perm.mem_iff.mp he)
          exact ⟨(b, e.2), keyed_eq_ok.mpr ⟨hb, rfl⟩⟩
        exact ⟨_, bind_of_ok hfound _⟩

/-- Entries of which none comes before one ahead of it stay where they are. -/
theorem sortEntries_of_pairwise
    (h : entries.Pairwise fun a b => less? b.1 a.1 = some false) :
    sortEntries key entries = .ok (entries.map (·.2)) := by
  rw [sortEntries_eq, List.mergeSort_of_pairwise (h.imp fun hno => by simp [hno]),
    Sorting.sort_of_isChain h.isChain]
  exact ite_self _

/-! ### The order of the entries -/

/-- The keys of each two entries have an order. -/
def AllComparable {α : Type} (entries : List (Value × α)) : Prop :=
  entries.Pairwise fun a b => (less? a.1 b.1).isSome = true

/-- The bytes of the key of an entry, where there are any. -/
def bytesOf (key : Encoder) (e : Keyed) : Bytes := (keyBytes key e.1).toOption.getD []

theorem keyBytes_eq_bytesOf {e : Keyed} (h : ∃ b, keyBytes key e.1 = .ok b) :
    keyBytes key e.1 = .ok (bytesOf key e) := by
  obtain ⟨b, hb⟩ := h
  simp [bytesOf, hb, Except.toOption]

/-- The first entry is written before the second: by the order of the keys if all keys among the
entries have one, and else by the order of their bytes. -/
def GoesFirst (key : Encoder) (entries : List Keyed) (a b : Keyed) : Prop :=
  AllComparable entries ∧ Precedes a b ∨
    ¬ AllComparable entries ∧ Value.lessBytes (bytesOf key a) (bytesOf key b) = true

theorem GoesFirst.asymm {a b : Keyed} (hab : GoesFirst key entries a b) :
    ¬ GoesFirst key entries b a := by
  rintro (⟨hall, hba⟩ | ⟨hall, hba⟩)
  · exact hba.asymm (hab.resolve_right fun h => h.1 hall).2
  · have hnot := lessBytes_asymm (hab.resolve_left fun h => hall h.1).2
    simp [hba] at hnot

/-- What is asked of the entries so that their order is clear: different keys of different bytes,
of which one comes before the other if they have an order. -/
structure Sortable (key : Encoder) (entries : List Keyed) : Prop where
  dictless : ∀ e ∈ entries, Dictless e.1
  bytes : ∀ e ∈ entries, ∃ b, keyBytes key e.1 = .ok b
  distinct : entries.Pairwise fun a b => keyBytes key a.1 ≠ keyBytes key b.1
  decided : entries.Pairwise fun a b => ¬ Value.Undecided a.1 b.1

theorem Sortable.perm {entries' : List Keyed} (h : Sortable key entries)
    (hperm : entries.Perm entries') : Sortable key entries' where
  dictless e he := h.dictless e (hperm.mem_iff.mpr he)
  bytes e he := h.bytes e (hperm.mem_iff.mpr he)
  distinct := (hperm.pairwise_iff Ne.symm).mp h.distinct
  decided := (hperm.pairwise_iff fun hab hba => hab ⟨hba.2, hba.1⟩).mp h.decided

theorem Sortable.told (h : Sortable key entries) :
    entries.Pairwise (Sorting.Told keyLess? Precedes) := by
  refine List.Pairwise.imp_of_mem ?_ h.decided
  exact fun ha hb hdecided => told_of_decided (h.dictless _ ha) (h.dictless _ hb) hdecided

theorem allComparable_perm {entries' : List Keyed} (h : Sortable key entries)
    (hperm : entries.Perm entries') : AllComparable entries ↔ AllComparable entries' := by
  have hsymm {es : List Keyed} (hd : ∀ e ∈ es, Dictless e.1) : AllComparable es ↔
      es.Pairwise fun a b => (less? a.1 b.1).isSome = true ∧ (less? b.1 a.1).isSome = true := by
    refine ⟨fun hall => List.Pairwise.imp_of_mem ?_ hall, fun hall => hall.imp And.left⟩
    intro a b ha hb hab
    exact ⟨hab, Value.less_isSome_comm (hd a ha) (hd b hb) ▸ hab⟩
  rw [hsymm h.dictless, hsymm (h.perm hperm).dictless]
  exact hperm.pairwise_iff And.symm

theorem Sortable.decides (h : Sortable key entries) (hall : AllComparable entries) :
    entries.Pairwise (Sorting.Decides (fun a b => less? b.1 a.1 != some true) Precedes) := by
  have hof {a b : Keyed} (hab : Precedes a b) : (less? b.1 a.1 != some true) = true ∧
      (less? a.1 b.1 != some true) = false := by
    simp [(Value.of_less hab.1 hab.2.1 hab.2.2).2, hab.2.2]
  refine (h.told.and hall).imp fun ⟨htold, hsome⟩ => ?_
  obtain ⟨answer, hanswer⟩ := Option.isSome_iff_exists.mp hsome
  cases answer with
  | true => exact .inl ⟨htold.yes hanswer, hof (htold.yes hanswer)⟩
  | false => exact .inr ⟨htold.no hanswer, hof (htold.no hanswer)⟩

theorem Sortable.pairwise_mergeSort (h : Sortable key entries) (hall : AllComparable entries) :
    (entries.mergeSort fun a b => less? b.1 a.1 != some true).Pairwise Precedes := by
  refine Sorting.mergeSort_sorted (fun _ _ _ hab hbc => hab.trans hbc) (fun _ _ hab => hab.asymm)
    (fun e he => ?_) (h.decides hall)
  have hnot : less? e.1 e.1 ≠ some true := fun hyes => by
    simp [(Value.of_less (h.dictless e he) (h.dictless e he) hyes).2] at hyes
  simpa using hnot

/-- If all keys have an order, this is the order of the entries. -/
theorem sortEntries_of_comparable (h : Sortable key entries) (hall : AllComparable entries) :
    ∃ sorted : List Keyed, sortEntries key entries = .ok (sorted.map (·.2)) ∧ sorted.Perm entries ∧
      sorted.Pairwise Precedes := by
  rw [sortEntries_eq]
  split
  · exact ⟨_, rfl, List.mergeSort_perm _ _, h.pairwise_mergeSort hall⟩
  · have hsorts := sorts_keyed entries
    split
    · next sorted hsort =>
        rw [hsort] at hsorts
        exact ⟨sorted, rfl, hsorts.perm, hsorts.sorted h.told⟩
    · next left hsort =>
        rw [hsort] at hsorts
        refine absurd (List.Pairwise.imp_of_mem ?_ hall) hsorts.incomparable
        intro a b ha hb hsome
        have hsome' := Value.less_isSome_comm (h.dictless a ha) (h.dictless b hb) ▸ hsome
        exact ⟨Option.isSome_iff_ne_none.mp hsome, Option.isSome_iff_ne_none.mp hsome'⟩

theorem Sortable.pairwise_byBytes (h : Sortable key entries) :
    (entries.mergeSort fun a b => !Value.lessBytes (bytesOf key b) (bytesOf key a)).Pairwise
      fun a b => Value.lessBytes (bytesOf key a) (bytesOf key b) = true := by
  refine Sorting.mergeSort_sorted (fun _ _ _ => lessBytes_trans)
    (fun a b hab => by simp [lessBytes_asymm hab]) (fun e _ => by simp [lessBytes_irrefl]) ?_
  refine List.Pairwise.imp_of_mem ?_ h.distinct
  intro a b ha hb hne
  rw [keyBytes_eq_bytesOf (h.bytes a ha), keyBytes_eq_bytesOf (h.bytes b hb)] at hne
  refine (lessBytes_or fun heq => hne (congrArg _ heq)).imp (fun hab => ?_) fun hba => ?_
  · exact ⟨hab, by simp [lessBytes_asymm hab, hab]⟩
  · exact ⟨hba, by simp [lessBytes_asymm hba, hba]⟩

theorem allComparable_of_allOrdered (h : ∀ e ∈ entries, Dictless e.1)
    (hall : allOrdered (entries.map (·.1)) = true) : AllComparable entries := by
  refine List.Pairwise.imp_of_mem ?_ (List.pairwise_map.mp (isSome_of_allOrdered hall))
  intro a b ha hb hsome
  rwa [Value.less_isSome_comm (h a ha) (h b hb)]

theorem mapM_keyed (h : ∀ e ∈ entries, ∃ b, keyBytes key e.1 = .ok b) :
    entries.mapM (keyed key) = .ok (entries.map fun e => (bytesOf key e, e.2)) := by
  induction entries with
  | nil => rfl
  | cons e rest ih =>
      have hfirst : keyed key e = .ok (bytesOf key e, e.2) :=
        keyed_eq_ok.mpr ⟨keyBytes_eq_bytesOf (h e List.mem_cons_self), rfl⟩
      rw [List.mapM_cons, hfirst, ih fun e he => h e (List.mem_cons_of_mem _ he)]
      rfl

/-- If two keys have no order, the entries lie in the order of the bytes of their keys. -/
theorem sortEntries_of_not_comparable (h : Sortable key entries) (hall : ¬ AllComparable entries) :
    ∃ sorted : List Keyed, sortEntries key entries = .ok (sorted.map (·.2)) ∧ sorted.Perm entries ∧
      sorted.Pairwise fun a b => Value.lessBytes (bytesOf key a) (bytesOf key b) = true := by
  rw [sortEntries_eq]
  split
  · next hordered => exact absurd (allComparable_of_allOrdered h.dictless hordered) hall
  · have hsorts := sorts_keyed entries
    split
    · next sorted hsort =>
        rw [hsort] at hsorts
        refine absurd ((allComparable_perm h hsorts.perm.symm).mpr ?_) hall
        exact (hsorts.sorted h.told).imp fun hab => by simp [hab.2.2]
    · next left hsort =>
        rw [hsort] at hsorts
        have hleft := h.perm hsorts.perm.symm
        refine ⟨_, ?_, (List.mergeSort_perm _ _).trans hsorts.perm, hleft.pairwise_byBytes⟩
        rw [mapM_keyed hleft.bytes]
        simp only [bind, Except.bind, byBytes]
        rw [← List.map_mergeSort (r := fun a b => !Value.lessBytes (bytesOf key b) (bytesOf key a))
          fun _ _ _ _ => rfl]
        simp

/-- Entries whose order is clear are sorted into it. -/
theorem exists_sortEntries_pairwise (h : Sortable key entries) :
    ∃ sorted : List Keyed, sortEntries key entries = .ok (sorted.map (·.2)) ∧
      sorted.Perm entries ∧ sorted.Pairwise (GoesFirst key entries) := by
  by_cases hall : AllComparable entries
  · obtain ⟨sorted, hok, hperm, hsorted⟩ := sortEntries_of_comparable h hall
    exact ⟨sorted, hok, hperm, hsorted.imp fun hab => .inl ⟨hall, hab⟩⟩
  · obtain ⟨sorted, hok, hperm, hsorted⟩ := sortEntries_of_not_comparable h hall
    exact ⟨sorted, hok, hperm, hsorted.imp fun hab => .inr ⟨hall, hab⟩⟩

/-- There is one such order. -/
theorem eq_of_goesFirst {sorted sorted' : List Keyed} (hperm : sorted.Perm sorted')
    (h : sorted.Pairwise (GoesFirst key entries)) (h' : sorted'.Pairwise (GoesFirst key entries)) :
    sorted = sorted' :=
  List.Perm.eq_of_pairwise (fun _ _ _ _ hab hba => absurd hba hab.asymm) h h' hperm

/-- The order does not show in which order the entries were. -/
theorem sortEntries_congr {entries' : List Keyed} (h : Sortable key entries)
    (hperm : entries.Perm entries') : sortEntries key entries = sortEntries key entries' := by
  obtain ⟨sorted, hok, hsorted, hfirst⟩ := exists_sortEntries_pairwise h
  obtain ⟨sorted', hok', hsorted', hfirst'⟩ := exists_sortEntries_pairwise (h.perm hperm)
  have hsame : sorted'.Pairwise (GoesFirst key entries) := by
    refine hfirst'.imp fun hab => ?_
    rwa [GoesFirst, allComparable_perm h hperm]
  rw [hok, hok', eq_of_goesFirst (hsorted.trans (hperm.trans hsorted'.symm)) hfirst hsame]

end Encoder
end Scale
end InkBindings
