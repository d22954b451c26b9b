import InkBindings.Bindings.Printer
import InkBindings.Proofs.Bindings.Faithful
import InkBindings.Proofs.Bindings.Spelling
import InkBindings.Proofs.Scale.Binding
import InkBindings.Proofs.Scale.Parts

/-!
The layouts of sums are bound when a module is loaded. This needs different indices of one byte,
which are those of the first instantiation of each path, and that the names of classes still stand
for them.
-/

namespace InkBindings

namespace Metadata

/-- The index of the last alternative of a name. -/
def indexIn? (alternatives : List Alternative) (name : String) : Option Int :=
  (alternatives.reverse.find? (·.name = name)).map (·.index)

/-- What the alternatives of an entry go by: the indices that the first entry has for their names. -/
def Declaration.sharedIndices (d : Declaration) (e : TypeEntry) : List (Option Int) :=
  e.definition.alternatives.map fun a => indexIn? d.first.definition.alternatives a.name

end Metadata

namespace Bindings

open Metadata (Declaration Definition TypeEntry indexIn?)
open Scale (DistinctBytes givenIndices)

def Layout.items : Layout → List (String × Scale.Fields)
  | .record _ => []
  | .sum items => items

def Alternative.asClass (a : Alternative) : Scale.AlternativeClass :=
  ⟨a.className, some a.index, a.rows.map fun r => ⟨r.name, none⟩⟩

/-- The codecs of instantiations that are made before layouts are bound. -/
def codecNames (declared : List DeclaredType) : List String :=
  declared.flatMap (·.instanceNames)

/-- The classes that names stand for when layouts are bound. A codec that has been made under the
name of a class stands in its place. -/
def boundClasses (declared : List DeclaredType) : List Scale.AlternativeClass :=
  ((declared.flatMap (·.alternatives)).filter fun a => a.className ∉ codecNames declared).map
    Alternative.asClass

/-- The layout gives its alternatives different indices of one byte, and is bound. -/
def Layout.Binds (owner : String) (classes : List Scale.AlternativeClass) (layout : Layout) :
    Prop :=
  DistinctBytes (givenIndices classes layout.items) ∧
    ∃ bound, Scale.bindAlternatives owner classes [] layout.items = .ok bound

structure LayoutsBind (b : Bindings) : Prop where
  declared : ∀ t ∈ b.declared, ∀ l ∈ t.layouts, l.2.Binds t.name (boundClasses b.declared)
  events : (eventLayout b.events).Binds eventClass (b.events.map Alternative.asClass)

/-! ### Classes -/

theorem find_asClass {as : List Alternative} (hnodup : (as.map (·.className)).Nodup)
    {a : Alternative} (ha : a ∈ as) :
    (as.map Alternative.asClass).find? (·.label = a.className) = some a.asClass := by
  have hlabels : (as.map Alternative.asClass).map (·.label) = as.map (·.className) := by
    rw [List.map_map]
    rfl
  exact Scale.find_of_nodup Scale.AlternativeClass.label (hlabels ▸ hnodup)
    (List.mem_map_of_mem ha)

theorem find_boundClasses {declared : List DeclaredType}
    (hnodup : ((declared.flatMap (·.alternatives)).map (·.className)).Nodup) {a : Alternative}
    (ha : a ∈ declared.flatMap (·.alternatives)) :
    (boundClasses declared).find? (·.label = a.className) =
      if a.className ∈ codecNames declared then none else some a.asClass := by
  split
  · next hcodec =>
      refine List.find?_eq_none.mpr fun x hx heq => ?_
      obtain ⟨a', ha', rfl⟩ := List.mem_map.mp hx
      have hfree : a'.className ∉ codecNames declared := by simpa using (List.mem_filter.mp ha').2
      have hsame : a'.className = a.className := of_decide_eq_true heq
      exact hfree (hsame ▸ hcodec)
  · next hfree =>
      have hkept := List.filter_sublist (l := declared.flatMap (·.alternatives))
        (p := fun a => a.className ∉ codecNames declared)
      exact find_asClass ((hkept.map _).nodup hnodup) (List.mem_filter.mpr ⟨ha, by simpa using hfree⟩)

/-- The alternative that is listed for a name has the index of the last one that was declared. -/
theorem indexIn_eq {first alternatives : List Metadata.Alternative} {emitted : List Alternative}
    (h : List.Forall₂ (SpelledAs first) alternatives emitted) (name : String) :
    indexIn? alternatives name = (emitted.reverse.find? (·.label = name)).map (·.index) := by
  rw [indexIn?]
  have hreverse := List.forall₂_reverse_iff.mpr h
  generalize alternatives.reverse = as at hreverse
  generalize emitted.reverse = bs at hreverse
  induction hreverse with
  | nil => rfl
  | @cons a b _ _ hspelled _ ih =>
      rw [List.find?_cons, List.find?_cons, hspelled.label]
      by_cases hname : a.name = name
      · simp [hname, hspelled.index]
      · simp only [hname, decide_false]
        exact ih

/-! ### Layouts -/

section
variable {declared : List DeclaredType} {first : List Metadata.Alternative}
  {emitted : List Alternative}

/-- A listed class has an index unless a codec has its name. -/
theorem index_of_item (hnodup : ((declared.flatMap (·.alternatives)).map (·.className)).Nodup)
    (hemitted : ∀ a ∈ emitted, a ∈ declared.flatMap (·.alternatives))
    (hspelled : List.Forall₂ (SpelledAs first) first emitted) {a : Metadata.Alternative}
    {p : String × Scale.Fields} (h : ItemFor emitted a p) :
    ((boundClasses declared).find? (·.label = p.1)).bind (·.index) =
      if p.1 ∈ codecNames declared then none else indexIn? first a.name := by
  obtain ⟨x, hx, hclass⟩ := classOf_eq.mp h.1
  have hmem := hemitted x (List.mem_reverse.mp (List.mem_of_find?_eq_some hx))
  rw [← hclass, find_boundClasses hnodup hmem, indexIn_eq hspelled, hx]
  split <;> rfl

theorem binds_sum_iff {s : Scope}
    (hnodup : ((declared.flatMap (·.alternatives)).map (·.className)).Nodup)
    (hemitted : ∀ a ∈ emitted, a ∈ declared.flatMap (·.alternatives))
    (hspelled : List.Forall₂ (SpelledAs first) first emitted) {d : Declaration}
    (hfirst : d.first.definition = .variant first) {e : TypeEntry} {layout : Layout}
    (h : SumLayout s emitted e.definition layout) (owner : String) :
    layout.Binds owner (boundClasses declared) ↔
      DistinctBytes (d.sharedIndices e) ∧ ∀ p ∈ layout.items, p.1 ∉ codecNames declared := by
  obtain ⟨as, items, hdefinition, rfl, hitems⟩ := h.items
  have hindices := hitems.imp fun _ _ hp => index_of_item hnodup hemitted hspelled hp
  have hshared : d.sharedIndices e = as.map fun a => indexIn? first a.name := by
    rw [Declaration.sharedIndices, hdefinition, hfirst]
    rfl
  have hgiven : (∀ p ∈ items, p.1 ∉ codecNames declared) →
      givenIndices (boundClasses declared) items = d.sharedIndices e := by
    intro hfree
    rw [hshared, givenIndices, map_eq_map_iff_forall₂]
    refine ((List.forall₂_and_left _ _).mpr ⟨hfree, hindices.flip⟩).imp fun p a hp => ?_
    exact hp.2.trans (if_neg hp.1)
  rw [Layout.Binds, Layout.items, Scale.bindAlternatives_iff, and_self]
  constructor
  · intro hdistinct
    have hfree : ∀ p ∈ items, p.1 ∉ codecNames declared := by
      intro p hp hcodec
      obtain ⟨a, -, hindex⟩ := forall₂_right hindices hp
      rw [if_pos hcodec] at hindex
      obtain ⟨i, hi, -⟩ := hdistinct.bytes _ (List.mem_map_of_mem hp)
      rw [hindex] at hi
      cases hi
    exact ⟨hgiven hfree ▸ hdistinct, hfree⟩
  · rintro ⟨hdistinct, hfree⟩
    exact (hgiven hfree).symm ▸ hdistinct

theorem binds_record {s : Scope} {d : Declaration} {e : TypeEntry} {layout : Layout}
    (h : RecordLayout s e.definition layout) (owner : String) :
    layout.Binds owner (boundClasses declared) ∧ DistinctBytes (d.sharedIndices e) ∧
      ∀ p ∈ layout.items, p.1 ∉ codecNames declared := by
  obtain ⟨fields, rows, hdefinition, -, rfl⟩ := h
  refine ⟨⟨⟨List.nodup_nil, nofun⟩, [], rfl⟩, ?_, nofun⟩
  rw [Declaration.sharedIndices, hdefinition]
  exact ⟨List.nodup_nil, nofun⟩

end

/-- The layout of an entry is bound if the indices of its alternatives fit, and their classes are
still there. -/
theorem binds_iff {declared : List DeclaredType}
    (hnodup : ((declared.flatMap (·.alternatives)).map (·.className)).Nodup) {c c' : Context}
    {d : Declaration} {t : DeclaredType} (ht : t ∈ declared) (h : MadeBy c d t c') :
    List.Forall₂ (fun e l => l.2.Binds t.name (boundClasses declared) ↔
      DistinctBytes (d.sharedIndices e) ∧ ∀ p ∈ l.2.items, p.1 ∉ codecNames declared)
      d.entries t.layouts := by
  cases h with
  | record hfirst hrows hlayouts =>
      refine hlayouts.imp fun e l hl => ?_
      obtain ⟨hbinds, hothers⟩ := binds_record hl.2 d.name
      exact iff_of_true hbinds hothers
  | sum hfirst hemitted hlayouts =>
      obtain ⟨hspelled, -⟩ := spelled_of_makeAlternatives hemitted
      refine hlayouts.imp fun e l hl => ?_
      exact binds_sum_iff hnodup (fun a ha => List.mem_flatMap.mpr ⟨_, ht, ha⟩) hspelled hfirst hl.2 _

/-! ### Events -/

section
variable {s : Scope} {events : List Metadata.Event} {as : List Alternative}

/-- Events have classes of their own, and go by their places. -/
theorem makeEvents_ok (h : makeEvents s events = .ok as) :
    (as.map (·.className)).Nodup ∧
      as.map (·.index) = (List.range events.length).map fun i : Nat => (i : Int) := by
  have hplaces := map_eq_map_iff_forall₂.mpr
    ((forall₂_makeEvents h).imp fun _ _ hx => hx.2.1.symm)
  constructor
  · rw [classNames_makeEvents h]
    exact Naming.nodup_uniqueNames _ _
  · rw [← hplaces, ← map_place_zip_zipIdx (Naming.length_uniqueNames_map _ events _), List.map_map]
    rfl

end

theorem distinctBytes_range (n : Nat) :
    DistinctBytes ((List.range n).map fun i : Nat => some (i : Int)) ↔ n ≤ 256 := by
  constructor
  · intro h
    by_contra hlong
    obtain ⟨i, hi, -, hbyte⟩ := h.bytes (some (256 : Int))
      (List.mem_map.mpr ⟨256, List.mem_range.mpr (by omega), rfl⟩)
    cases hi
    omega
  · intro h
    refine ⟨List.nodup_range.map fun i j hij => ?_, fun index hindex => ?_⟩
    · exact Int.ofNat_inj.mp (Option.some.inj hij)
    · obtain ⟨i, hi, rfl⟩ := List.mem_map.mp hindex
      have hlt := List.mem_range.mp hi
      exact ⟨i, rfl, by omega, by omega⟩

theorem binds_events_iff {s : Scope} {events : List Metadata.Event} {as : List Alternative}
    (h : makeEvents s events = .ok as) :
    (eventLayout as).Binds eventClass (as.map Alternative.asClass) ↔ events.length ≤ 256 := by
  obtain ⟨hnodup, hindices⟩ := makeEvents_ok h
  have hgiven : givenIndices (as.map Alternative.asClass) (eventLayout as).items =
      (List.range events.length).map fun i : Nat => some (i : Int) := by
    calc givenIndices (as.map Alternative.asClass) (eventLayout as).items
        = as.map fun a => some a.index := by
          rw [givenIndices, eventLayout, Layout.items, List.map_map]
          refine List.map_congr_left fun a ha => ?_
          rw [Function.comp_apply, find_asClass hnodup ha]
          rfl
      _ = (as.map (·.index)).map some := by
          rw [List.map_map]
          rfl
      _ = (List.range events.length).map fun i : Nat => some (i : Int) := by
          rw [hindices, List.map_map]
          rfl
  rw [Layout.Binds, Scale.bindAlternatives_iff, and_self, hgiven, distinctBytes_range]

/-! ### All layouts -/

/-- A sum of two alternatives that go by these indices. -/
def numbered (i j : Int) : Metadata where
  codeHash := []
  types := [⟨0, .variant [⟨"Off", i, .positional [], []⟩, ⟨"On", j, .positional [], []⟩],
    ["light", "Switch"], [], []⟩]
  constructors := []
  messages := []
  events := []
  name := none

def numberedBindings (i j : Int) : Bindings where
  contractName := none
  codeHash := []
  declared := [⟨"Switch", [], .sum [⟨"Off", i, "_Switch_Off", [], []⟩, ⟨"On", j, "_Switch_On", [], []⟩],
    [(.declared "Switch", .sum [("_Switch_Off", []), ("_Switch_On", [])])]⟩]
  events := []
  namespaces := []
  constructors := []
  messages := []

end Bindings
end InkBindings
