import InkBindings.Proofs.Metadata.Declarations
import InkBindings.Proofs.Metadata.Grouping
import InkBindings.Proofs.Scale.Parts
import Mathlib.Data.List.Induction

/-!
The instantiations of a declared type. Each path has one declaration, with all entries of the
registry that have it.
-/

namespace InkBindings.Metadata

/-- A path is new with its first entry. -/
theorem paths_addToPath (e : TypeEntry) (groups : List (TypeEntry × List TypeEntry)) :
    (addToPath e groups).map (·.1.path) =
      groups.map (·.1.path) ++ if e.path ∈ groups.map (·.1.path) then [] else [e.path] := by
  induction groups with
  | nil => rfl
  | cons group rest ih =>
      obtain ⟨first, others⟩ := group
      rw [addToPath]
      by_cases hfirst : first.path = e.path
      · rw [if_pos hfirst, if_pos (by simp [hfirst]), List.append_nil]
        rfl
      · have hmem : e.path ∈ ((first, others) :: rest).map (·.1.path) ↔
            e.path ∈ rest.map (·.1.path) := by
          simp [Ne.symm hfirst]
        rw [if_neg hfirst, List.map_cons, ih, if_congr hmem rfl rfl]
        rfl

/-- Paths come in the order of their first entries. -/
theorem paths_groupByPath (entries : List TypeEntry) :
    (groupByPath entries).map (·.1.path) = (entries.map (·.path)).eraseDups := by
  induction entries using List.reverseRecOn with
  | nil => rfl
  | append_singleton entries e ih =>
      have hconcat : groupByPath (entries ++ [e]) = addToPath e (groupByPath entries) := by
        rw [groupByPath, List.foldl_append]
        rfl
      rw [hconcat, paths_addToPath, ih, if_congr List.mem_eraseDups rfl rfl, List.map_append,
        List.map_singleton, eraseDups_concat]

theorem nodup_groupByPath (entries : List TypeEntry) :
    ((groupByPath entries).map (·.1.path)).Nodup := by
  rw [paths_groupByPath]
  exact nodup_eraseDups _

theorem paths_declare (groups : List (TypeEntry × List TypeEntry)) (taken : List String) :
    (declare groups taken).map (·.path) = groups.map (·.1.path) := by
  induction groups generalizing taken with
  | nil => rfl
  | cons group rest ih =>
      obtain ⟨first, others⟩ := group
      rw [declare, List.map_cons, List.map_cons, ih]

namespace Registry
variable {r : Registry} {reserved : List String} {d : Declaration}

theorem find_of_mem_declarations (h : d ∈ r.declarations reserved) :
    (r.declarations reserved).find? (·.path = d.path) = some d := by
  refine Scale.find_of_nodup (·.path) ?_ h
  rw [declarations, paths_declare]
  exact nodup_groupByPath _

/-- A declaration has the entries of its path. -/
theorem mem_entries_iff_of_mem (h : d ∈ r.declarations reserved) {e : TypeEntry} :
    e ∈ d.entries ↔ e ∈ r.entries ∧ e.kind = .custom ∧ e.path = d.path := by
  rw [entries_of_find (find_of_mem_declarations h)]
  simp only [List.mem_filter, decide_eq_true_eq, and_assoc]

theorem exists_declaration {e : TypeEntry} (he : e ∈ r.entries) (hkind : e.kind = .custom)
    (reserved : List String) : ∃ d ∈ r.declarations reserved, e ∈ d.entries := by
  let custom := r.entries.filter (·.kind = .custom)
  have hcustom : e ∈ custom.filter (·.path = e.path) := by simp [custom, he, hkind]
  have hfind := find_groupByPath custom e.path
  cases hentries : custom.filter (·.path = e.path) with
  | nil =>
      rw [hentries] at hcustom
      cases hcustom
  | cons first others =>
      rw [hentries] at hfind
      have hpath : e.path ∈ (r.declarations reserved).map (·.path) := by
        rw [declarations, paths_declare]
        have hfirst : first.path = e.path := by simpa using List.find?_some hfind
        exact hfirst ▸ List.mem_map_of_mem (List.mem_of_find?_eq_some hfind)
      obtain ⟨d, hd, hsame⟩ := List.mem_map.mp hpath
      exact ⟨d, hd, (mem_entries_iff_of_mem hd).mpr ⟨he, hkind, hsame.symm⟩⟩

end Registry
end InkBindings.Metadata
