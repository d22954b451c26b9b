import InkBindings.Metadata.Registry
import InkBindings.Proofs.Naming

/-!
The declarations of a contract. The declaration of a path has just the entries of the registry with
this path, in order, and its name is an identifier that was not taken.
-/

namespace InkBindings.Metadata

open Naming (IsName)

/-- Adds further entries behind those of a group. -/
def extend (entries : List TypeEntry) :
    Option (TypeEntry × List TypeEntry) → Option (TypeEntry × List TypeEntry)
  | some (first, others) => some (first, others ++ entries)
  | none =>
    match entries with
    | [] => none
    | first :: others => some (first, others)

theorem extend_append (before after : List TypeEntry)
    (group : Option (TypeEntry × List TypeEntry)) :
    extend after (extend before group) = extend (before ++ after) group := by
  cases group with
  | some group => rw [extend, extend, extend, List.append_assoc]
  | none =>
      cases before with
      | nil => rfl
      | cons first others => rfl

theorem extend_nil (group : Option (TypeEntry × List TypeEntry)) : extend [] group = group := by
  cases group with
  | some group => rw [extend, List.append_nil]
  | none => rfl

theorem find_addToPath (e : TypeEntry) (groups : List (TypeEntry × List TypeEntry))
    (path : List String) :
    (addToPath e groups).find? (·.1.path = path) =
      extend ([e].filter (·.path = path)) (groups.find? (·.1.path = path)) := by
  by_cases he : e.path = path
  · rw [List.filter_cons_of_pos (by simpa using he), List.filter_nil]
    induction groups with
    | nil => simp [addToPath, he, extend]
    | cons group rest ih =>
        obtain ⟨first, others⟩ := group
        rw [addToPath]
        by_cases hfirst : first.path = e.path
        · simp [hfirst, he, extend]
        · have hpath : first.path ≠ path := fun h => hfirst (h.trans he.symm)
          rw [if_neg hfirst, List.find?_cons_of_neg (by simpa using hpath),
            List.find?_cons_of_neg (by simpa using hpath), ih]
  · rw [List.filter_cons_of_neg (by simpa using he), List.filter_nil, extend_nil]
    induction groups with
    | nil => simp [addToPath, he]
    | cons group rest ih =>
        obtain ⟨first, others⟩ := group
        rw [addToPath]
        by_cases hfirst : first.path = e.path
        · have hpath : first.path ≠ path := fun h => he (hfirst.symm.trans h)
          rw [if_pos hfirst, List.find?_cons_of_neg (by simpa using hpath),
            List.find?_cons_of_neg (by simpa using hpath)]
        · rw [if_neg hfirst, List.find?_cons, List.find?_cons, ih]

theorem find_foldl_addToPath (entries : List TypeEntry) (groups : List (TypeEntry × List TypeEntry))
    (path : List String) :
    (entries.foldl (fun groups e => addToPath e groups) groups).find? (·.1.path = path) =
      extend (entries.filter (·.path = path)) (groups.find? (·.1.path = path)) := by
  induction entries generalizing groups with
  | nil => rw [List.foldl_nil, List.filter_nil, extend_nil]
  | cons e rest ih =>
      rw [List.foldl_cons, ih, find_addToPath, extend_append, ← List.filter_append,
        List.singleton_append]

/-- The group of a path has all entries with this path. -/
theorem find_groupByPath (entries : List TypeEntry) (path : List String) :
    (groupByPath entries).find? (·.1.path = path) =
      extend (entries.filter (·.path = path)) none :=
  find_foldl_addToPath entries [] path

theorem subset_of_addToPath {entries : List TypeEntry} {e : TypeEntry} (he : e ∈ entries)
    {groups : List (TypeEntry × List TypeEntry)} (h : ∀ g ∈ groups, g.1 :: g.2 ⊆ entries) :
    ∀ g ∈ addToPath e groups, g.1 :: g.2 ⊆ entries := by
  induction groups with
  | nil =>
      intro g hg
      rw [addToPath, List.mem_singleton] at hg
      rw [hg]
      exact List.cons_subset.mpr ⟨he, List.nil_subset _⟩
  | cons group rest ih =>
      obtain ⟨first, others⟩ := group
      have hgroup := h (first, others) List.mem_cons_self
      have hrest := fun g hg => h g (List.mem_cons_of_mem (first, others) hg)
      intro g hg
      rw [addToPath] at hg
      split at hg
      · obtain rfl | hmem := List.mem_cons.mp hg
        · rw [← List.cons_append]
          exact List.append_subset.mpr ⟨hgroup, List.cons_subset.mpr ⟨he, List.nil_subset _⟩⟩
        · exact hrest g hmem
      · obtain rfl | hmem := List.mem_cons.mp hg
        · exact hgroup
        · exact ih hrest g hmem

theorem subset_of_groupByPath {entries : List TypeEntry} {g : TypeEntry × List TypeEntry}
    (h : g ∈ groupByPath entries) : g.1 :: g.2 ⊆ entries := by
  refine List.foldlRecOn entries (fun groups e => addToPath e groups)
    (motive := fun groups => ∀ g ∈ groups, g.1 :: g.2 ⊆ entries) ?_ ?_ g h
  · intro g hg
    cases hg
  · intro groups hgroups e he
    exact subset_of_addToPath he hgroups

/-! ### Names -/

theorem find_declare {groups : List (TypeEntry × List TypeEntry)} {taken path : List String}
    {d : Declaration} (h : (declare groups taken).find? (·.path = path) = some d) :
    groups.find? (·.1.path = path) = some (d.first, d.others) := by
  induction groups generalizing taken with
  | nil => cases h
  | cons group rest ih =>
      obtain ⟨first, others⟩ := group
      rw [declare] at h
      by_cases hpath : first.path = path
      · rw [List.find?_cons_of_pos (by simpa using hpath)] at h ⊢
        cases h
        rfl
      · rw [List.find?_cons_of_neg (by simpa using hpath)] at h ⊢
        exact ih h

theorem mem_of_mem_declare {groups : List (TypeEntry × List TypeEntry)} {taken : List String}
    {d : Declaration} (h : d ∈ declare groups taken) : (d.first, d.others) ∈ groups := by
  induction groups generalizing taken with
  | nil => cases h
  | cons group rest ih =>
      obtain ⟨first, others⟩ := group
      rw [declare] at h
      obtain rfl | hmem := List.mem_cons.mp h
      · exact List.mem_cons_self
      · exact List.mem_cons_of_mem _ (ih hmem)

theorem exists_of_mem_declare {groups : List (TypeEntry × List TypeEntry)} {taken : List String}
    {d : Declaration} (h : d ∈ declare groups taken) :
    ∃ names, taken ⊆ names ∧ d.name = Naming.identifier d.first.name names := by
  induction groups generalizing taken with
  | nil => cases h
  | cons group rest ih =>
      obtain ⟨first, others⟩ := group
      rw [declare] at h
      obtain rfl | hmem := List.mem_cons.mp h
      · exact ⟨taken, List.Subset.refl taken, rfl⟩
      · obtain ⟨names, hsub, hname⟩ := ih hmem
        exact ⟨names, List.Subset.trans (List.subset_cons_self _ _) hsub, hname⟩

/-- The names are chosen together, for the last segments of the paths. -/
theorem names_declare (groups : List (TypeEntry × List TypeEntry)) (taken : List String) :
    (declare groups taken).map (·.name) =
      Naming.uniqueNames ((declare groups taken).map (·.first.name)) taken := by
  induction groups generalizing taken with
  | nil => rfl
  | cons group rest ih =>
      obtain ⟨first, others⟩ := group
      rw [declare, List.map_cons, List.map_cons, Naming.uniqueNames, ih]

theorem name_not_mem_of_mem_declare {groups : List (TypeEntry × List TypeEntry)}
    {taken : List String} {d : Declaration} (h : d ∈ declare groups taken) : d.name ∉ taken := by
  have hmem := List.mem_map_of_mem (f := (·.name)) h
  rw [names_declare] at hmem
  exact (Naming.not_mem_of_uniqueNames hmem).2

theorem nodup_declare (groups : List (TypeEntry × List TypeEntry)) (taken : List String) :
    ((declare groups taken).map (·.name)).Nodup := by
  rw [names_declare]
  exact Naming.nodup_uniqueNames _ _

namespace Registry
variable {r : Registry} {reserved path : List String} {d : Declaration}

theorem isName_of_mem_declarations (h : d ∈ r.declarations reserved) : IsName d.name := by
  obtain ⟨names, -, hname⟩ := exists_of_mem_declare h
  rw [hname]
  exact Naming.isName_identifier _ _

theorem not_reserved_of_mem_declarations (h : d ∈ r.declarations reserved) :
    d.name ∉ reserved :=
  name_not_mem_of_mem_declare h

/-- A declaration is told by its name. -/
theorem eq_of_name_eq {d' : Declaration} (h : d ∈ r.declarations reserved)
    (h' : d' ∈ r.declarations reserved) (hname : d.name = d'.name) : d = d' :=
  List.inj_on_of_nodup_map (nodup_declare _ _) h h' hname

theorem mem_entries_of_mem_declarations (h : d ∈ r.declarations reserved) {e : TypeEntry}
    (he : e ∈ d.entries) : e ∈ r.entries :=
  (List.mem_filter.mp (subset_of_groupByPath (mem_of_mem_declare h) he)).1

/-- The declaration of a path has the entries of the registry with this path. -/
theorem entries_of_find (h : (r.declarations reserved).find? (·.path = path) = some d) :
    d.entries = (r.entries.filter (·.kind = .custom)).filter (·.path = path) := by
  have hgroup := find_declare h
  rw [find_groupByPath] at hgroup
  cases hentries : (r.entries.filter (·.kind = .custom)).filter (·.path = path) with
  | nil =>
      rw [hentries] at hgroup
      cases hgroup
  | cons first others =>
      rw [hentries] at hgroup
      cases hgroup
      rfl

end Registry
end InkBindings.Metadata
