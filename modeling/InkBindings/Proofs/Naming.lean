import InkBindings.Naming
import InkBindings.Proofs.Fallible
import Mathlib.Data.Finset.Card

/-!
The names that are chosen for the emitted module. They are made of letters, digits and underscores,
and they are not reserved: of the candidates one more is tried than there are reserved names, and
only the first of them can be a keyword.
-/

namespace InkBindings.Naming

/-- A name with so many underscores appended. -/
def padded (name : String) (count : Nat) : String :=
  name ++ String.ofList (List.replicate count '_')

theorem toList_padded (name : String) (count : Nat) :
    (padded name count).toList = name.toList ++ List.replicate count '_' := by
  rw [padded, String.toList_append, String.toList_ofList]

theorem padded_zero (name : String) : padded name 0 = name := by
  rw [← String.toList_inj, toList_padded, List.replicate_zero, List.append_nil]

theorem padded_succ (name : String) (count : Nat) :
    padded (name ++ "_") count = padded name (count + 1) := by
  rw [← String.toList_inj, toList_padded, toList_padded, String.toList_append, List.append_assoc]
  rfl

theorem padded_injective (name : String) : Function.Injective (padded name) := by
  intro m n h
  have hlen := congrArg (fun s : String => s.toList.length) h
  simp only [toList_padded, List.length_append, List.length_replicate] at hlen
  omega

/-- Of one more candidates than there are different names, one is none of these. -/
theorem exists_padded_not_mem (name : String) (names : List String) :
    ∃ count ≤ names.toFinset.card, padded name count ∉ names := by
  let candidates := (Finset.range (names.toFinset.card + 1)).image (padded name)
  have hcard : names.toFinset.card < candidates.card := by
    rw [Finset.card_image_of_injective _ (padded_injective name), Finset.card_range]
    exact Nat.lt_succ_self _
  obtain ⟨s, hs, hnot⟩ := Finset.exists_mem_notMem_of_card_lt_card hcard
  obtain ⟨count, hcount, rfl⟩ := Finset.mem_image.mp hs
  exact ⟨count, Nat.le_of_lt_succ (Finset.mem_range.mp hcount), fun h =>
    hnot (List.mem_toFinset.mpr h)⟩

theorem firstFree_eq_padded (taken : String → Bool) (tries : Nat) (name : String) :
    ∃ count, firstFree taken tries name = padded name count := by
  induction tries generalizing name with
  | zero => exact ⟨0, (padded_zero name).symm⟩
  | succ tries ih =>
      by_cases htaken : taken name = true
      · obtain ⟨count, hcount⟩ := ih (name ++ "_")
        refine ⟨count + 1, ?_⟩
        rw [firstFree, if_pos htaken, hcount, padded_succ]
      · refine ⟨0, ?_⟩
        rw [firstFree, if_neg htaken, padded_zero]

/-- If the name that is found is taken, then so are all that were tried. -/
theorem taken_of_firstFree {taken : String → Bool} {tries : Nat} {name : String}
    (h : taken (firstFree taken tries name) = true) {count : Nat} (hcount : count ≤ tries) :
    taken (padded name count) = true := by
  induction tries generalizing name count with
  | zero =>
      obtain rfl := Nat.le_zero.mp hcount
      rwa [padded_zero]
  | succ tries ih =>
      by_cases htaken : taken name = true
      · rw [firstFree, if_pos htaken] at h
        cases count with
        | zero => rwa [padded_zero]
        | succ count =>
            rw [← padded_succ]
            exact ih h (Nat.le_of_succ_le_succ hcount)
      · rw [firstFree, if_neg htaken] at h
        exact absurd h htaken

theorem padded_not_mem_keywords (name : String) (count : Nat) :
    padded name (count + 1) ∉ keywords := by
  intro h
  have hends : ∀ word ∈ keywords, word.toList.getLast? ≠ some '_' := by decide
  refine hends _ h ?_
  rw [toList_padded, List.replicate_succ', ← List.append_assoc, List.getLast?_concat]

/-- No identifier is a keyword or reserved. -/
theorem identifier_not_taken (name : String) (reserved : List String) :
    (keywords.contains (identifier name reserved) || reserved.contains (identifier name reserved)) =
      false := by
  let taken := fun s => keywords.contains s || reserved.contains s
  refine Bool.eq_false_iff.mpr fun h => ?_
  have htaken : taken (identifier name reserved) = true := h
  -- The first candidate may be a keyword, so the names are counted from the second one on.
  obtain ⟨count, hcount, hfree⟩ := exists_padded_not_mem (sanitize name ++ "_") reserved
  rw [padded_succ] at hfree
  have htries : count + 1 ≤ reserved.length + 1 :=
    Nat.succ_le_succ (hcount.trans reserved.toFinset_card_le)
  have hpadded := taken_of_firstFree htaken htries
  simp only [Bool.or_eq_true, List.contains_iff_mem] at hpadded
  exact hfree (hpadded.resolve_left (padded_not_mem_keywords _ count))

theorem identifier_not_mem (name : String) (reserved : List String) :
    identifier name reserved ∉ reserved := by
  have htaken := (Bool.or_eq_false_iff.mp (identifier_not_taken name reserved)).2
  simpa using htaken

theorem identifier_not_mem_keywords (name : String) (reserved : List String) :
    identifier name reserved ∉ keywords := by
  have htaken := (Bool.or_eq_false_iff.mp (identifier_not_taken name reserved)).1
  simpa using htaken

/-- A name that is chosen against others is none of them. -/
theorem fresh_not_mem (name : String) (taken : List String) : fresh name taken ∉ taken := by
  intro hmem
  let isTaken := fun s => taken.contains s
  have htaken : isTaken (fresh name taken) = true := List.contains_iff_mem.mpr hmem
  obtain ⟨count, hcount, hfree⟩ := exists_padded_not_mem name taken
  exact hfree (List.contains_iff_mem.mp
    (taken_of_firstFree htaken (hcount.trans taken.toFinset_card_le)))

theorem exists_padded_fresh (name : String) (taken : List String) :
    ∃ count, fresh name taken = padded name count :=
  firstFree_eq_padded _ _ name

theorem head_padded {name : String} (h : name ≠ "") (count : Nat) :
    (padded name count).toList.head? = name.toList.head? := by
  rw [toList_padded, List.head?_append_of_ne_nil _ (mt String.toList_eq_nil_iff.mp h)]

theorem head_fresh {name : String} (h : name ≠ "") (taken : List String) :
    (fresh name taken).toList.head? = name.toList.head? := by
  obtain ⟨count, hcount⟩ := exists_padded_fresh name taken
  rw [hcount, head_padded h]

/-! ### Different names -/

theorem not_mem_of_uniqueNames {names reserved : List String} {s : String}
    (h : s ∈ uniqueNames names reserved) : s ∉ keywords ∧ s ∉ reserved := by
  induction names generalizing reserved with
  | nil => cases h
  | cons name rest ih =>
      rw [uniqueNames] at h
      obtain rfl | hmem := List.mem_cons.mp h
      · exact ⟨identifier_not_mem_keywords name reserved, identifier_not_mem name reserved⟩
      · obtain ⟨hkeyword, hreserved⟩ := ih hmem
        exact ⟨hkeyword, fun hs => hreserved (List.mem_cons_of_mem _ hs)⟩

/-- No two names that are chosen together are the same. -/
theorem nodup_uniqueNames (names reserved : List String) : (uniqueNames names reserved).Nodup := by
  induction names generalizing reserved with
  | nil => exact List.nodup_nil
  | cons name rest ih =>
      rw [uniqueNames]
      refine List.nodup_cons.mpr ⟨fun hmem => ?_, ih _⟩
      exact (not_mem_of_uniqueNames hmem).2 List.mem_cons_self

/-! ### What names are made of -/

/-- At least one character, and all of them letters, digits or underscores. -/
structure IsName (s : String) : Prop where
  nonempty : s ≠ ""
  chars : ∀ c ∈ s.toList, isNameChar c = true

theorem IsName.append {s t : String} (hs : IsName s) (ht : ∀ c ∈ t.toList, isNameChar c = true) :
    IsName (s ++ t) := by
  constructor
  · intro h
    exact hs.nonempty (String.append_eq_empty_iff.mp h).1
  · intro c hc
    rw [String.toList_append] at hc
    exact (List.mem_append.mp hc).elim (hs.chars c) (ht c)

theorem sanitizeChars_ne_nil (cs : List Char) : sanitizeChars cs ≠ [] := by
  simp only [sanitizeChars]
  split
  · simp
  · split <;> simp

theorem isNameChar_of_sanitizeChars {cs : List Char} {c : Char} (h : c ∈ sanitizeChars cs) :
    isNameChar c = true := by
  have hmap : ∀ d ∈ cs.map fun c => if isNameChar c then c else '_', isNameChar d = true := by
    intro d hd
    obtain ⟨e, -, rfl⟩ := List.mem_map.mp hd
    by_cases he : isNameChar e = true
    · rwa [if_pos he]
    · rw [if_neg he]
      rfl
  simp only [sanitizeChars] at h
  generalize cs.map (fun c => if isNameChar c then c else '_') = ds at h hmap
  cases ds with
  | nil =>
      rw [List.mem_singleton.mp h]
      rfl
  | cons d rest =>
      by_cases hd : d.isDigit = true
      · simp only [hd, if_true] at h
        obtain rfl | hmem := List.mem_cons.mp h
        · rfl
        · exact hmap c hmem
      · simp only [hd, if_false, Bool.false_eq_true] at h
        exact hmap c h

theorem isName_sanitize (name : String) : IsName (sanitize name) := by
  constructor
  · intro h
    refine sanitizeChars_ne_nil name.toList ?_
    rw [← String.toList_ofList (l := sanitizeChars name.toList)]
    exact String.toList_eq_nil_iff.mpr h
  · intro c hc
    rw [sanitize, String.toList_ofList] at hc
    exact isNameChar_of_sanitizeChars hc

/-- No digit comes first. -/
theorem isDigit_head_sanitizeChars (cs : List Char) :
    ∀ c ∈ (sanitizeChars cs).head?, c.isDigit = false := by
  simp only [sanitizeChars]
  generalize cs.map (fun c => if isNameChar c then c else '_') = ds
  cases ds with
  | nil =>
      intro c hc
      cases hc
      rfl
  | cons d rest =>
      by_cases hd : d.isDigit = true <;> simp [hd]

theorem IsName.padded {name : String} (h : IsName name) (count : Nat) :
    IsName (padded name count) := by
  refine h.append fun c hc => ?_
  rw [String.toList_ofList] at hc
  rw [List.eq_of_mem_replicate hc]
  rfl

theorem isName_identifier (name : String) (reserved : List String) :
    IsName (identifier name reserved) := by
  obtain ⟨count, hcount⟩ := firstFree_eq_padded
    (fun s => keywords.contains s || reserved.contains s) (reserved.length + 1) (sanitize name)
  rw [identifier, hcount]
  exact (isName_sanitize name).padded count

theorem isName_fresh {name : String} (h : IsName name) (taken : List String) :
    IsName (fresh name taken) := by
  obtain ⟨count, hcount⟩ := exists_padded_fresh name taken
  rw [hcount]
  exact h.padded count

theorem isDigit_head_identifier (name : String) (reserved : List String) :
    ∀ c ∈ (identifier name reserved).toList.head?, c.isDigit = false := by
  obtain ⟨count, hcount⟩ := firstFree_eq_padded
    (fun s => keywords.contains s || reserved.contains s) (reserved.length + 1) (sanitize name)
  rw [identifier, hcount, head_padded (isName_sanitize name).nonempty, sanitize,
    String.toList_ofList]
  exact isDigit_head_sanitizeChars name.toList

theorem length_uniqueNames (names reserved : List String) :
    (uniqueNames names reserved).length = names.length := by
  induction names generalizing reserved with
  | nil => rfl
  | cons name rest ih => rw [uniqueNames, List.length_cons, ih, List.length_cons]

theorem length_uniqueNames_map {α : Type} (f : α → String) (xs : List α) (reserved : List String) :
    (uniqueNames (xs.map f) reserved).length = xs.length := by
  rw [length_uniqueNames, List.length_map]

theorem isName_of_uniqueNames {names reserved : List String} {s : String}
    (h : s ∈ uniqueNames names reserved) : IsName s := by
  induction names generalizing reserved with
  | nil => cases h
  | cons name rest ih =>
      rw [uniqueNames] at h
      obtain rfl | hmem := List.mem_cons.mp h
      · exact isName_identifier name reserved
      · exact ih hmem

/-- Names that come later are chosen against those before them. -/
theorem uniqueNames_append (names more reserved : List String) :
    uniqueNames (names ++ more) reserved = uniqueNames names reserved ++
      uniqueNames more ((uniqueNames names reserved).reverse ++ reserved) := by
  induction names generalizing reserved with
  | nil => rfl
  | cons name rest ih =>
      rw [List.cons_append, uniqueNames, ih, uniqueNames, List.cons_append, List.reverse_cons,
        List.append_assoc]
      rfl

/-- The last name is chosen last. -/
theorem dropLast_uniqueNames (names reserved : List String) :
    (uniqueNames names reserved).dropLast = uniqueNames names.dropLast reserved := by
  obtain rfl | ⟨init, last, rfl⟩ := List.eq_nil_or_concat names
  · rfl
  · rw [List.concat_eq_append, uniqueNames_append, List.dropLast_concat]
    exact List.dropLast_concat

/-- Each name is kept as far as it can be: it is made an identifier, with underscores appended. -/
theorem padded_of_uniqueNames (names reserved : List String) :
    List.Forall₂ (fun name chosen => ∃ count, chosen = padded (sanitize name) count) names
      (uniqueNames names reserved) := by
  induction names generalizing reserved with
  | nil => exact .nil
  | cons name rest ih => exact .cons (firstFree_eq_padded _ _ _) (ih _)

/-! ### Names that are taken as they are -/

theorem identifier_of_free {name : String} {reserved : List String}
    (hkeyword : sanitize name ∉ keywords) (hreserved : sanitize name ∉ reserved) :
    identifier name reserved = sanitize name := by
  rw [identifier, firstFree, if_neg]
  simpa using ⟨hkeyword, hreserved⟩

/-- Of the names that become one identifier the first one gets it. -/
theorem sanitize_mem_uniqueNames {names reserved : List String} {name : String}
    (hname : name ∈ names) (hkeyword : sanitize name ∉ keywords)
    (hreserved : sanitize name ∉ reserved) : sanitize name ∈ uniqueNames names reserved := by
  induction names generalizing reserved with
  | nil => cases hname
  | cons first rest ih =>
      rw [uniqueNames]
      by_cases hchosen : sanitize name = identifier first reserved
      · exact hchosen ▸ List.mem_cons_self
      · rcases List.mem_cons.mp hname with rfl | hrest
        · exact absurd (identifier_of_free hkeyword hreserved).symm hchosen
        · refine List.mem_cons_of_mem _ (ih hrest ?_)
          exact List.not_mem_cons_of_ne_of_not_mem hchosen hreserved

/-- An identifier that is no keyword and does not end in an underscore is chosen if a name becomes
it, unless it is reserved. -/
theorem mem_uniqueNames_iff {names reserved : List String} {s : String} (hkeyword : s ∉ keywords)
    (hend : s.toList.getLast? ≠ some '_') :
    s ∈ uniqueNames names reserved ↔ s ∉ reserved ∧ ∃ name ∈ names, sanitize name = s := by
  constructor
  · intro h
    refine ⟨(not_mem_of_uniqueNames h).2, ?_⟩
    obtain ⟨name, hname, count, rfl⟩ := forall₂_right (padded_of_uniqueNames names reserved) h
    cases count with
    | zero => exact ⟨name, hname, (padded_zero _).symm⟩
    | succ count =>
        refine absurd ?_ hend
        rw [toList_padded, List.replicate_succ', ← List.append_assoc, List.getLast?_concat]
  · rintro ⟨hreserved, name, hname, rfl⟩
    exact sanitize_mem_uniqueNames hname hkeyword hreserved

theorem not_mem_uniqueNames_iff {α : Type} (label : α → String) {xs : List α}
    {reserved : List String} {s : String} (hkeyword : s ∉ keywords)
    (hend : s.toList.getLast? ≠ some '_') (hreserved : s ∉ reserved) :
    s ∉ uniqueNames (xs.map label) reserved ↔ ∀ x ∈ xs, sanitize (label x) ≠ s := by
  rw [mem_uniqueNames_iff hkeyword hend, and_iff_right hreserved]
  simp

/-! ### Names that become one identifier -/

/-- What cannot stand in an identifier is replaced character by character, behind an underscore. -/
theorem sanitize_behind {a a' : String} (h : sanitize ("_" ++ a) = sanitize ("_" ++ a'))
    (before : String) :
    sanitize ("_" ++ before ++ "_" ++ a) = sanitize ("_" ++ before ++ "_" ++ a') := by
  let replaced (cs : List Char) := cs.map fun c => if isNameChar c then c else '_'
  have hbehind (cs : List Char) : sanitizeChars ('_' :: cs) = '_' :: replaced cs := rfl
  have hsame : replaced a.toList = replaced a'.toList := by
    have hchars := congrArg String.toList h
    simp only [sanitize, String.toList_ofList, String.toList_append] at hchars
    exact (List.cons.inj hchars).2
  have hsplit (a : String) : ("_" ++ before ++ "_" ++ a).toList =
      '_' :: (before.toList ++ '_' :: a.toList) := by simp
  rw [sanitize, sanitize, hsplit, hsplit, hbehind, hbehind]
  simp only [replaced, List.map_append, List.map_cons] at hsame ⊢
  rw [hsame]

theorem identifier_congr {a a' : String} (h : sanitize a = sanitize a') (reserved : List String) :
    identifier a' reserved = identifier a reserved := by
  rw [identifier, identifier, h]

theorem identifier_behind {label other : String}
    (h : sanitize ("_" ++ label) = sanitize ("_" ++ other)) (owner : String)
    (reserved : List String) :
    identifier s!"_{owner}_{other}" reserved = identifier s!"_{owner}_{label}" reserved :=
  identifier_congr (sanitize_behind h owner) reserved

theorem uniqueNames_congr {names names' : List String}
    (h : List.Forall₂ (fun a a' => sanitize a = sanitize a') names names')
    (reserved : List String) : uniqueNames names' reserved = uniqueNames names reserved := by
  induction h generalizing reserved with
  | nil => rfl
  | cons hname _ ih => rw [uniqueNames, uniqueNames, identifier_congr hname, ih]

end InkBindings.Naming
