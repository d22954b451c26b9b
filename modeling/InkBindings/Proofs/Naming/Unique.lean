import InkBindings.Proofs.Naming

/-!
Names that are chosen together. Each of them is the given name as far as it can be kept, no two are
the same, and names that are identifiers already are left as they are.
-/

namespace InkBindings.Naming

/-- The characters of a name with underscores for those that cannot stand in an identifier; one
underscore if there are none. -/
def cleaned (name : String) : List Char :=
  if name = "" then ['_'] else name.toList.map fun c => if isNameChar c then c else '_'

/-- The name is cleaned, with an underscore in front of a digit, and underscores at the end. -/
def Respells (name chosen : String) : Prop :=
  ∃ count, chosen.toList = (if (cleaned name).head?.any Char.isDigit then ['_'] else []) ++
    cleaned name ++ List.replicate count '_'

/-- Identifiers for names, in their order. -/
structure Renames (names reserved chosen : List String) : Prop where
  length : chosen.length = names.length
  distinct : chosen.Nodup
  free : ∀ s ∈ chosen, s ∉ keywords ∧ s ∉ reserved
  named : ∀ s ∈ chosen, IsName s ∧ ∀ c ∈ s.toList.head?, c.isDigit = false
  spelling : List.Forall₂ Respells names chosen

theorem toList_sanitize (name : String) : (sanitize name).toList =
    (if (cleaned name).head?.any Char.isDigit then ['_'] else []) ++ cleaned name := by
  rw [sanitize, String.toList_ofList, sanitizeChars, cleaned]
  by_cases hempty : name = ""
  · subst hempty
    rfl
  · rw [if_neg hempty]
    cases hchars : name.toList.map fun c => if isNameChar c then c else '_' with
    | nil => exact absurd (String.toList_eq_nil_iff.mp (List.map_eq_nil_iff.mp hchars)) hempty
    | cons c rest => cases hdigit : c.isDigit <;> simp [hdigit]

theorem respells_padded (name : String) (count : Nat) :
    Respells name (padded (sanitize name) count) :=
  ⟨count, by rw [toList_padded, toList_sanitize]⟩

/-- An identifier is clean. -/
theorem sanitize_of_isName {s : String} (h : IsName s)
    (hhead : ∀ c ∈ s.toList.head?, c.isDigit = false) : sanitize s = s := by
  have hclean : cleaned s = s.toList := by
    rw [cleaned, if_neg h.nonempty]
    exact (List.map_congr_left fun c hc => if_pos (h.chars c hc)).trans (List.map_id _)
  have hdigit : ¬ s.toList.head?.any Char.isDigit = true := by
    rw [Option.any_eq_true]
    rintro ⟨c, hc, hdigit⟩
    rw [hhead c hc] at hdigit
    cases hdigit
  rw [← String.toList_inj, toList_sanitize, hclean, if_neg hdigit, List.nil_append]

theorem isDigit_head_of_mem_uniqueNames {names reserved : List String} {s : String}
    (h : s ∈ uniqueNames names reserved) : ∀ c ∈ s.toList.head?, c.isDigit = false := by
  induction names generalizing reserved with
  | nil => cases h
  | cons name rest ih =>
      rw [uniqueNames] at h
      obtain rfl | hmem := List.mem_cons.mp h
      · exact isDigit_head_identifier name reserved
      · exact ih hmem

/-- Different names that are free are all taken as they are. -/
theorem uniqueNames_of_free {names reserved : List String} (hnodup : names.Nodup)
    (h : ∀ s ∈ names, sanitize s = s ∧ s ∉ keywords ∧ s ∉ reserved) :
    uniqueNames names reserved = names := by
  induction names generalizing reserved with
  | nil => rfl
  | cons name rest ih =>
      obtain ⟨hname, hrest⟩ := List.nodup_cons.mp hnodup
      obtain ⟨hspell, hkeyword, hreserved⟩ := h name List.mem_cons_self
      have hchosen : identifier name reserved = name := by
        rw [identifier_of_free (hspell.symm ▸ hkeyword) (hspell.symm ▸ hreserved), hspell]
      have hfree : ∀ s ∈ rest, sanitize s = s ∧ s ∉ keywords ∧ s ∉ name :: reserved := by
        intro s hs
        obtain ⟨hspell, hkeyword, hreserved⟩ := h s (List.mem_cons_of_mem _ hs)
        exact ⟨hspell, hkeyword,
          List.not_mem_cons_of_ne_of_not_mem (fun heq => hname (heq ▸ hs)) hreserved⟩
      rw [uniqueNames, hchosen, ih hrest hfree]

theorem renames_uniqueNames (names reserved : List String) :
    Renames names reserved (uniqueNames names reserved) where
  length := length_uniqueNames names reserved
  distinct := nodup_uniqueNames names reserved
  free _ h := not_mem_of_uniqueNames h
  named _ h := ⟨isName_of_uniqueNames h, isDigit_head_of_mem_uniqueNames h⟩
  spelling := (padded_of_uniqueNames names reserved).imp fun name _ ⟨count, hcount⟩ =>
    hcount ▸ respells_padded name count

/-- Names that are chosen are names that can be kept. -/
theorem Renames.uniqueNames_eq {names reserved chosen : List String}
    (h : Renames names reserved chosen) : uniqueNames chosen reserved = chosen := by
  refine uniqueNames_of_free h.distinct fun s hs => ⟨?_, h.free s hs⟩
  exact sanitize_of_isName (h.named s hs).1 (h.named s hs).2

/-- Choosing gives each name an identifier of its own, and choosing again changes nothing. -/
theorem uniqueNames_faithful (names reserved : List String) :
    Renames names reserved (uniqueNames names reserved) ∧
      uniqueNames (uniqueNames names reserved) reserved = uniqueNames names reserved :=
  ⟨renames_uniqueNames names reserved, (renames_uniqueNames names reserved).uniqueNames_eq⟩

end InkBindings.Naming
