import InkBindings.Scale.Binding
import InkBindings.Proofs.Fallible
import Mathlib.Data.List.Nodup
import Mathlib.Data.Set.List

/-!
When a layout of a sum is bound: exactly if the classes it lists have different indices of one byte.
-/

namespace InkBindings.Scale

/-- The indices that a layout gives its alternatives, by the classes that it lists. -/
def givenIndices (classes : List AlternativeClass) (entries : List (String × Fields)) :
    List (Option Int) :=
  entries.map fun p => (classes.find? (·.label = p.1)).bind (·.index)

/-- All indices are there, different, and of one byte. -/
structure DistinctBytes (indices : List (Option Int)) : Prop where
  nodup : indices.Nodup
  bytes : ∀ index ∈ indices, ∃ i, index = some i ∧ 0 ≤ i ∧ i ≤ 255

theorem validIndex_eq_some_iff {index : Option Int} {b : UInt8} :
    validIndex? index = some b ↔ index = some (b.toNat : Int) := by
  have hbyte : b.toNat < 256 := b.toNat_lt
  cases index with
  | none => simp [validIndex?]
  | some i =>
      rw [validIndex?, Option.some_inj]
      split
      · next hrange =>
          rw [Option.some_inj]
          constructor
          · rintro rfl
            rw [UInt8.toNat_ofNat_of_lt' (by simp [UInt8.size]; omega)]
            omega
          · rintro rfl
            rw [Int.toNat_natCast, UInt8.ofNat_toNat]
      · next hrange =>
          refine ⟨nofun, ?_⟩
          rintro rfl
          omega

theorem isSome_validIndex_iff {index : Option Int} :
    (validIndex? index).isSome ↔ ∃ i, index = some i ∧ 0 ≤ i ∧ i ≤ 255 := by
  cases index with
  | none => simp [validIndex?]
  | some i =>
      rw [validIndex?]
      split <;> simp_all

instance : DecidablePred DistinctBytes := fun indices =>
  decidable_of_iff (indices.Nodup ∧ ∀ index ∈ indices, (validIndex? index).isSome)
    ⟨fun h => ⟨h.1, fun index hindex => isSome_validIndex_iff.mp (h.2 index hindex)⟩,
      fun h => ⟨h.nodup, fun index hindex => isSome_validIndex_iff.mpr (h.bytes index hindex)⟩⟩

theorem indexOf_ok_iff {owner : String} {classes : List AlternativeClass} {label : String}
    {b : UInt8} : indexOf owner classes label = .ok b ↔
      (classes.find? (·.label = label)).bind (·.index) = some (b.toNat : Int) := by
  rw [indexOf]
  cases classes.find? (·.label = label) with
  | none =>
      dsimp only
      cases ClassKind.member? (.sum owner (classes.map (·.label))) label <;> simp
  | some c =>
      rw [Option.bind_some, ← validIndex_eq_some_iff]
      dsimp only
      cases validIndex? c.index <;> simp

/-- An entry is bound if its index is not taken, and then the others are. -/
theorem bindAlternatives_cons_iff {owner : String} {classes : List AlternativeClass}
    {bound all : List Alternative} {label : String} {fields : Fields}
    {rest : List (String × Fields)} :
    bindAlternatives owner classes bound ((label, fields) :: rest) = .ok all ↔
      ∃ b, indexOf owner classes label = .ok b ∧ (∀ a ∈ bound, a.index ≠ b) ∧
        bindAlternatives owner classes (bound ++ [⟨label, b, fields⟩]) rest = .ok all := by
  rw [bindAlternatives]
  cases hindex : indexOf owner classes label with
  | error e =>
      refine ⟨nofun, ?_⟩
      rintro ⟨b, hb, -⟩
      cases hb
  | ok b =>
      have htaken : (bound.any (·.index = b)) = true ↔ ¬ ∀ a ∈ bound, a.index ≠ b := by simp
      have hbound : (∃ b', Except.ok b = (.ok b' : Except BindError UInt8) ∧
          (∀ a ∈ bound, a.index ≠ b') ∧
          bindAlternatives owner classes (bound ++ [⟨label, b', fields⟩]) rest = .ok all) ↔
          (∀ a ∈ bound, a.index ≠ b) ∧
            bindAlternatives owner classes (bound ++ [⟨label, b, fields⟩]) rest = .ok all := by
        simp
      rw [hbound]
      by_cases hany : (bound.any (·.index = b)) = true
      · have hstuck : ¬ ∀ a ∈ bound, a.index ≠ b := htaken.mp hany
        simp only [hstuck, false_and, iff_false]
        change ¬ (if (bound.any (·.index = b)) = true then _ else _) = _
        rw [if_pos hany]
        exact nofun
      · have hfree : ∀ a ∈ bound, a.index ≠ b := not_not.mp (mt htaken.mpr hany)
        rw [and_iff_right hfree]
        change (if (bound.any (·.index = b)) = true then _ else _) = _ ↔ _
        rw [if_neg hany]

/-- The indices of entries that are bound one after the other, behind those that are bound. -/
theorem exists_bindAlternatives_iff {owner : String} {classes : List AlternativeClass}
    {entries : List (String × Fields)} {bound : List Alternative} :
    (∃ all, bindAlternatives owner classes bound entries = .ok all) ↔
      ∃ bytes : List UInt8,
        List.Forall₂ (fun (p : String × Fields) b => indexOf owner classes p.1 = .ok b) entries
          bytes ∧ (∀ b ∈ bytes, ∀ a ∈ bound, a.index ≠ b) ∧ bytes.Nodup := by
  induction entries generalizing bound with
  | nil => exact ⟨fun _ => ⟨[], .nil, nofun, List.nodup_nil⟩, fun _ => ⟨bound, rfl⟩⟩
  | cons p rest ih =>
      obtain ⟨label, fields⟩ := p
      constructor
      · rintro ⟨all, hall⟩
        obtain ⟨b, hb, hold, hall⟩ := bindAlternatives_cons_iff.mp hall
        obtain ⟨bytes, hbytes, hfree, hnodup⟩ := ih.mp ⟨all, hall⟩
        refine ⟨b :: bytes, .cons hb hbytes, ?_, ?_⟩
        · refine List.forall_mem_cons.mpr ⟨hold, fun b' hb' a ha => ?_⟩
          exact hfree b' hb' a (List.mem_append_left _ ha)
        · refine List.nodup_cons.mpr ⟨fun hmem => ?_, hnodup⟩
          exact hfree b hmem ⟨label, b, fields⟩ (by simp) rfl
      · rintro ⟨bytes, hbytes, hfree, hnodup⟩
        cases hbytes with
        | @cons _ b _ bytes hb hrest =>
            obtain ⟨hnew, hnodup⟩ := List.nodup_cons.mp hnodup
            obtain ⟨hold, hfree⟩ := List.forall_mem_cons.mp hfree
            have hlater : ∀ b' ∈ bytes, ∀ a ∈ bound ++ [⟨label, b, fields⟩], a.index ≠ b' := by
              intro b' hb' a ha
              obtain ha | ha := List.mem_append.mp ha
              · exact hfree b' hb' a ha
              · rw [List.mem_singleton.mp ha]
                rintro rfl
                exact hnew hb'
            obtain ⟨all, hall⟩ := ih.mpr ⟨bytes, hrest, hlater, hnodup⟩
            exact ⟨all, bindAlternatives_cons_iff.mpr ⟨b, hb, hold, hall⟩⟩

/-- The index of a byte, as a class has it. -/
def ofByte (b : UInt8) : Option Int :=
  some (b.toNat : Int)

theorem ofByte_injective : Function.Injective ofByte :=
  fun _ _ h => UInt8.toNat_inj.mp (Int.ofNat_inj.mp (Option.some.inj h))

theorem DistinctBytes.exists_bytes {indices : List (Option Int)} (h : DistinctBytes indices) :
    ∃ bytes : List UInt8, bytes.map ofByte = indices := by
  have hrange : indices ∈ Set.range (List.map ofByte) := by
    rw [Set.range_list_map]
    intro index hindex
    obtain ⟨i, rfl, hlow, hhigh⟩ := h.bytes index hindex
    refine ⟨UInt8.ofNat i.toNat, (validIndex_eq_some_iff.mp ?_).symm⟩
    rw [validIndex?, if_pos ⟨hlow, hhigh⟩]
  exact hrange

theorem bindAlternatives_iff (owner : String) (classes : List AlternativeClass)
    (entries : List (String × Fields)) :
    (∃ all, bindAlternatives owner classes [] entries = .ok all) ↔
      DistinctBytes (givenIndices classes entries) := by
  have hgiven : ∀ bytes : List UInt8,
      List.Forall₂ (fun (p : String × Fields) b => indexOf owner classes p.1 = .ok b) entries
        bytes ↔ givenIndices classes entries = bytes.map ofByte := by
    intro bytes
    rw [givenIndices, map_eq_map_iff_forall₂]
    simp only [indexOf_ok_iff, ofByte]
  rw [exists_bindAlternatives_iff]
  constructor
  · rintro ⟨bytes, hbytes, -, hnodup⟩
    rw [(hgiven bytes).mp hbytes]
    refine ⟨(List.nodup_map_iff ofByte_injective).mpr hnodup, fun index hindex => ?_⟩
    obtain ⟨b, -, rfl⟩ := List.mem_map.mp hindex
    have hbyte : b.toNat < 256 := b.toNat_lt
    exact ⟨b.toNat, rfl, by omega, by omega⟩
  · intro hdistinct
    obtain ⟨bytes, hbytes⟩ := hdistinct.exists_bytes
    have hnodup := hdistinct.nodup
    rw [← hbytes, List.nodup_map_iff ofByte_injective] at hnodup
    exact ⟨bytes, (hgiven bytes).mpr hbytes.symm, nofun, hnodup⟩

end InkBindings.Scale
