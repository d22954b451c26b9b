import InkBindings.Proofs.Bindings.References
import InkBindings.Proofs.Metadata.Entries

/-!
Declarations partition the types of a contract. Each entry is in one declaration, that of its path,
and this is the declaration which its id leads to.
-/

namespace InkBindings

open Bindings (Outcome Scope)
open Bindings.ExprTree (IsIdentifier)

namespace Bindings

/-- The declaration that the path of a type leads to. -/
def Scope.declarationAt (s : Scope) (id : Metadata.TypeId) :
    Outcome (Option Metadata.Declaration) :=
  do return s.declaration? (← s.resolve id)

end Bindings

namespace Metadata.Registry

/-- No two entries have one id. -/
def Keyed (r : Registry) : Prop :=
  (r.entries.map (·.id)).Nodup

instance (r : Registry) : Decidable r.Keyed :=
  inferInstanceAs (Decidable (List.Nodup _))

/-- The types that the contract declares itself. -/
def custom (r : Registry) : List TypeEntry :=
  r.entries.filter (·.kind = .custom)

/-- The declarations are the types of the contract, path by path. -/
structure Partitioned (r : Registry) (reserved : List String) : Prop where
  /-- There is one for each path, in the order in which the paths occur first. -/
  paths : (r.declarations reserved).map (·.path) = (r.custom.map (·.path)).eraseDups
  entries : ∀ d ∈ r.declarations reserved, d.entries = r.custom.filter (·.path = d.path)
  /-- Together they have the types of the contract, each as often as the registry has it. -/
  covered : ((r.declarations reserved).flatMap (·.entries)).Perm r.custom
  once : ∀ e ∈ r.custom, ∃! d, d ∈ r.declarations reserved ∧ e ∈ d.entries
  shared : ∀ e ∈ r.custom, ∀ e' ∈ r.custom,
    (∃ d ∈ r.declarations reserved, e ∈ d.entries ∧ e' ∈ d.entries) ↔ e.path = e'.path
  distinct : ((r.declarations reserved).map (·.name)).Nodup
  /-- The names are identifiers, hence no keywords. -/
  named : ∀ d ∈ r.declarations reserved, IsIdentifier d.name ∧ d.name ∉ reserved
  undeclared : ∀ e, e.kind = .reserved ∨ e.kind = .builtin ∨ e.isLangError = true →
    ∀ d ∈ r.declarations reserved, e ∉ d.entries
  /-- Within their scope, an id leads to the declaration that has its type, and is named by it. -/
  found : ∀ room, ∀ d ∈ r.declarations reserved, ∀ e ∈ d.entries,
    Scope.declarationAt ⟨r, r.declarations reserved, room⟩ e.id = .ok (some d) ∧
      Scope.named ⟨r, r.declarations reserved, room⟩ e = .ok (.declared d)

variable {r : Registry} {reserved : List String} {d d' : Declaration} {e e' : TypeEntry}

theorem mem_custom : e ∈ r.custom ↔ e ∈ r.entries ∧ e.kind = .custom := by
  rw [custom, List.mem_filter, decide_eq_true_eq]

theorem paths_declarations (r : Registry) (reserved : List String) :
    (r.declarations reserved).map (·.path) = (r.custom.map (·.path)).eraseDups := by
  rw [declarations, paths_declare, paths_groupByPath]
  rfl

/-- A declaration is told by its path as well. -/
theorem eq_of_path_eq (h : d ∈ r.declarations reserved) (h' : d' ∈ r.declarations reserved)
    (hpath : d.path = d'.path) : d = d' := by
  have hnodup : ((r.declarations reserved).map (·.path)).Nodup := by
    rw [paths_declarations]
    exact nodup_eraseDups _
  exact List.inj_on_of_nodup_map hnodup h h' hpath

theorem path_of_mem_entries (h : d ∈ r.declarations reserved) (he : e ∈ d.entries) :
    e.path = d.path :=
  ((mem_entries_iff_of_mem h).mp he).2.2

theorem mem_custom_of_mem_entries (h : d ∈ r.declarations reserved) (he : e ∈ d.entries) :
    e ∈ r.custom := by
  obtain ⟨hmem, hkind, -⟩ := (mem_entries_iff_of_mem h).mp he
  exact mem_custom.mpr ⟨hmem, hkind⟩

theorem entries_eq (h : d ∈ r.declarations reserved) :
    d.entries = r.custom.filter (·.path = d.path) :=
  entries_of_find (find_of_mem_declarations h)

theorem existsUnique_declaration (he : e ∈ r.custom) :
    ∃! d, d ∈ r.declarations reserved ∧ e ∈ d.entries := by
  obtain ⟨hmem, hkind⟩ := mem_custom.mp he
  obtain ⟨d, hd, hentry⟩ := exists_declaration hmem hkind reserved
  refine ⟨d, ⟨hd, hentry⟩, fun d' ⟨hd', hentry'⟩ => ?_⟩
  exact eq_of_path_eq hd' hd
    ((path_of_mem_entries hd' hentry').symm.trans (path_of_mem_entries hd hentry))

theorem shared_iff (he : e ∈ r.custom) (he' : e' ∈ r.custom) :
    (∃ d ∈ r.declarations reserved, e ∈ d.entries ∧ e' ∈ d.entries) ↔ e.path = e'.path := by
  constructor
  · rintro ⟨d, hd, hentry, hentry'⟩
    exact (path_of_mem_entries hd hentry).trans (path_of_mem_entries hd hentry').symm
  · intro hpath
    obtain ⟨hmem, hkind⟩ := mem_custom.mp he
    obtain ⟨hmem', hkind'⟩ := mem_custom.mp he'
    obtain ⟨d, hd, hentry⟩ := exists_declaration hmem hkind reserved
    refine ⟨d, hd, hentry, (mem_entries_iff_of_mem hd).mpr ⟨hmem', hkind', ?_⟩⟩
    exact hpath.symm.trans (path_of_mem_entries hd hentry)

namespace Keyed

theorem nodup_custom (h : r.Keyed) : r.custom.Nodup :=
  (List.Nodup.of_map _ h).filter _

theorem resolve (h : r.Keyed) (he : e ∈ r.entries) : r.resolve e.id = .ok e := by
  rw [Registry.resolve, find?, Scale.find_of_nodup TypeEntry.id h he]

theorem covered (h : r.Keyed) :
    ((r.declarations reserved).flatMap (·.entries)).Perm r.custom := by
  have hnodup : ((r.declarations reserved).flatMap (·.entries)).Nodup := by
    refine List.nodup_flatMap.mpr ⟨fun d hd => ?_, ?_⟩
    · rw [entries_eq hd]
      exact h.nodup_custom.filter _
    · refine (List.Nodup.of_map _ (nodup_declare _ _)).imp_of_mem ?_
      intro d d' hd hd' hne e he he'
      exact hne (eq_of_path_eq hd hd'
        ((path_of_mem_entries hd he).symm.trans (path_of_mem_entries hd' he')))
  refine (List.perm_ext_iff_of_nodup hnodup h.nodup_custom).mpr fun e => ?_
  constructor
  · intro he
    obtain ⟨d, hd, hentry⟩ := List.mem_flatMap.mp he
    exact mem_custom_of_mem_entries hd hentry
  · intro he
    obtain ⟨d, ⟨hd, hentry⟩, -⟩ := existsUnique_declaration he
    exact List.mem_flatMap.mpr ⟨d, hd, hentry⟩

end Keyed

theorem declaration_of_mem_entries (hd : d ∈ r.declarations reserved) (he : e ∈ d.entries)
    (room : Room) : Scope.declaration? ⟨r, r.declarations reserved, room⟩ e = some d := by
  rw [Scope.declaration?, path_of_mem_entries hd he]
  exact find_of_mem_declarations hd

theorem declarationAt_of_mem_entries (h : r.Keyed) (hd : d ∈ r.declarations reserved)
    (he : e ∈ d.entries) (room : Room) :
    Scope.declarationAt ⟨r, r.declarations reserved, room⟩ e.id = .ok (some d) := by
  have hresolve := h.resolve (mem_entries_of_mem_declarations hd he)
  have hfind := declaration_of_mem_entries hd he room
  rw [Scope.declarationAt, Scope.resolve, hresolve]
  exact congrArg Except.ok hfind

theorem named_of_mem_entries (hd : d ∈ r.declarations reserved) (he : e ∈ d.entries)
    (room : Room) : Scope.named ⟨r, r.declarations reserved, room⟩ e = .ok (.declared d) := by
  have hkind := (mem_custom.mp (mem_custom_of_mem_entries hd he)).2
  simp only [Scope.named, hkind, declaration_of_mem_entries hd he room]

theorem declarations_partition (h : r.Keyed) (reserved : List String) : r.Partitioned reserved where
  paths := paths_declarations r reserved
  entries _ hd := entries_eq hd
  covered := h.covered
  once _ he := existsUnique_declaration he
  shared _ he _ he' := shared_iff he he'
  distinct := nodup_declare _ _
  named _ hd := ⟨Bindings.isIdentifier_of_mem_declarations hd, not_reserved_of_mem_declarations hd⟩
  undeclared e hkind d hd hentry := by
    have hcustom := (mem_custom.mp (mem_custom_of_mem_entries hd hentry)).2
    simp [TypeEntry.isLangError, hcustom] at hkind
  found room _ hd _ he :=
    ⟨declarationAt_of_mem_entries h hd he room, named_of_mem_entries hd he room⟩

/-- Two types of one name, two instantiations of a generic type around one of them, and types that
are not declared. -/
def mixed : Registry :=
  let element : Field := ⟨0, none, []⟩
  ⟨[⟨0, .primitive (.int ⟨false, .w32⟩), [], [], []⟩,
    ⟨3, .composite (.positional [element]), ["a", "Thing"], [], []⟩,
    ⟨5, .composite (.named [("left", element)]), ["m", "Pair"], [⟨"T", some 0⟩], []⟩,
    ⟨2, .composite (.positional []), ["b", "Thing"], [], []⟩,
    ⟨4, .composite (.named [("left", element)]), ["m", "Pair"], [⟨"T", some 3⟩], []⟩,
    ⟨6, .variant [⟨"CouldNotReadInput", 1, .positional [], []⟩], ["ink_primitives", "LangError"],
      [], []⟩,
    ⟨7, .variant [⟨"None", 0, .positional [], []⟩, ⟨"Some", 1, .positional [element], []⟩],
      ["Option"], [⟨"T", some 0⟩], []⟩]⟩

theorem mixed_partitioned : mixed.Keyed ∧ mixed.Partitioned ["Pair"] :=
  have hkeyed : mixed.Keyed := by decide
  ⟨hkeyed, declarations_partition hkeyed ["Pair"]⟩

example : (mixed.declarations ["Pair"]).map (fun d => (d.name, d.entries.map (·.id))) =
    [("Thing", [3]), ("Pair_", [5, 4]), ("Thing_", [2])] := by
  decide

end Metadata.Registry
end InkBindings
