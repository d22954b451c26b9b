import InkBindings.Metadata.Registry
import InkBindings.Proofs.Metadata.Grouping
import Mathlib.Logic.Relator

/-!
Metadata that differ in the name of the contract, in namespaces, and in the labels of alternatives
and events only. Their declarations and groups are the same but for these.
-/

namespace InkBindings.Metadata

/-- Which names stand for which: namespaces, and for each path the labels of alternatives. What was
different stays different, and the identifiers that are made of the names stay the same. A class is
named after its alternative behind an underscore. -/
structure Renaming where
  Namespace : String → String → Prop
  Alternative : List String → String → String → Prop
  oneNamespace : Relator.BiUnique Namespace
  oneAlternative (path : List String) : Relator.BiUnique (Alternative path)
  sameNamespace {p p' : String} : Namespace p p' → Naming.sanitize p = Naming.sanitize p'
  sameAlternative {path : List String} {a a' : String} : Alternative path a a' →
    Naming.sanitize ("_" ++ a) = Naming.sanitize ("_" ++ a')

structure Alternative.Renamed (r : Renaming) (path : List String) (a a' : Alternative) : Prop where
  name : r.Alternative path a.name a'.name
  same : a' = { a with name := a'.name }

inductive Definition.Renamed (r : Renaming) (path : List String) : Definition → Definition → Prop
  | variant {as as' : List Alternative} : List.Forall₂ (Alternative.Renamed r path) as as' →
      Renamed r path (.variant as) (.variant as')
  | other {d : Definition} : (∀ as, d ≠ .variant as) → Renamed r path d d

structure TypeEntry.Renamed (r : Renaming) (e e' : TypeEntry) : Prop where
  definition : e.definition.Renamed r e.path e'.definition
  same : e' = { e with definition := e'.definition }

/-- A label of a message is the same but for its namespace, if it has one. -/
inductive RenamedLabel (r : Renaming) : String → String → Prop
  | same {label : String} : (Label.parts label).length ≠ 2 → RenamedLabel r label label
  | member {label label' p p' method : String} : Label.parts label = [p, method] →
      Label.parts label' = [p', method] → r.Namespace p p' → RenamedLabel r label label'

structure EntryPoint.Renamed (r : Renaming) (e e' : EntryPoint) : Prop where
  label : RenamedLabel r e.label e'.label
  same : e' = { e with label := e'.label }

structure Event.Renamed (e e' : Event) : Prop where
  label : Naming.sanitize e.label = Naming.sanitize e'.label
  same : e' = { e with label := e'.label }

end Metadata

open Metadata in
/-- The two are the same but for the name of the contract, and for names that stand for each
other. -/
structure Metadata.Renamed (r : Renaming) (m m' : Metadata) : Prop where
  codeHash : m'.codeHash = m.codeHash
  types : List.Forall₂ (TypeEntry.Renamed r) m.types m'.types
  constructors : m'.constructors = m.constructors
  messages : List.Forall₂ (EntryPoint.Renamed r) m.messages m'.messages
  events : List.Forall₂ Event.Renamed m.events m'.events

namespace Metadata
variable {r : Renaming}

/-! ### Entries -/

namespace TypeEntry.Renamed
variable {e e' : TypeEntry} (h : e.Renamed r e')
include h

theorem id : e'.id = e.id := by rw [h.same]

theorem path : e'.path = e.path := by rw [h.same]

theorem docs : e'.docs = e.docs := by rw [h.same]

theorem name : e'.name = e.name := by rw [TypeEntry.name, TypeEntry.name, h.path]

theorem arguments : e'.arguments = e.arguments := by
  rw [TypeEntry.arguments, TypeEntry.arguments, h.same]

theorem isStructured : e'.definition.isStructured = e.definition.isStructured := by
  have hdefinition := h.definition
  generalize e.definition = d, e'.definition = d' at hdefinition
  cases hdefinition with
  | variant => rfl
  | other => rfl

theorem kind : e'.kind = e.kind := by
  rw [TypeEntry.kind, TypeEntry.kind, h.path, h.isStructured]

end TypeEntry.Renamed

/-! ### Declarations -/

/-- Entries that belong to a path. -/
structure RenamedUnder (r : Renaming) (path : List String) (e e' : TypeEntry) : Prop where
  path : e.path = path
  renamed : e.Renamed r e'

/-- Entries of one path, the first and the others. -/
structure RenamedGroup (r : Renaming) (g g' : TypeEntry × List TypeEntry) : Prop where
  first : g.1.Renamed r g'.1
  others : List.Forall₂ (RenamedUnder r g.1.path) g.2 g'.2

structure Declaration.Renamed (r : Renaming) (d d' : Declaration) : Prop where
  name : d'.name = d.name
  path : d'.path = d.path
  first : RenamedUnder r d.path d.first d'.first
  others : List.Forall₂ (RenamedUnder r d.path) d.others d'.others

theorem renamed_addToPath {e e' : TypeEntry} (he : e.Renamed r e')
    {gs gs' : List (TypeEntry × List TypeEntry)} (h : List.Forall₂ (RenamedGroup r) gs gs') :
    List.Forall₂ (RenamedGroup r) (addToPath e gs) (addToPath e' gs') := by
  induction h with
  | nil => exact .cons ⟨he, .nil⟩ .nil
  | @cons g g' gs gs' hg hgs ih =>
      obtain ⟨first, others⟩ := g
      obtain ⟨first', others'⟩ := g'
      rw [addToPath, addToPath, hg.first.path, he.path]
      split
      · next hpath =>
          have hunder : RenamedUnder r first.path e e' := ⟨hpath.symm, he⟩
          exact .cons ⟨hg.first, List.rel_append hg.others (.cons hunder .nil)⟩ hgs
      · exact .cons hg ih

theorem renamed_groupByPath {es es' : List TypeEntry}
    (h : List.Forall₂ (TypeEntry.Renamed r) es es') :
    List.Forall₂ (RenamedGroup r) (groupByPath es) (groupByPath es') := by
  have hfold : ∀ {gs gs'}, List.Forall₂ (RenamedGroup r) gs gs' →
      List.Forall₂ (RenamedGroup r) (es.foldl (fun groups e => addToPath e groups) gs)
        (es'.foldl (fun groups e => addToPath e groups) gs') := by
    induction h with
    | nil => exact fun hgs => hgs
    | cons he _ ih => exact fun hgs => ih (renamed_addToPath he hgs)
  exact hfold .nil

theorem renamed_declare {gs gs' : List (TypeEntry × List TypeEntry)}
    (h : List.Forall₂ (RenamedGroup r) gs gs') (taken : List String) :
    List.Forall₂ (Declaration.Renamed r) (declare gs taken) (declare gs' taken) := by
  induction h generalizing taken with
  | nil => exact .nil
  | @cons g g' gs gs' hg _ ih =>
      obtain ⟨first, others⟩ := g
      obtain ⟨first', others'⟩ := g'
      rw [declare, declare, hg.first.name]
      exact .cons ⟨rfl, hg.first.path, ⟨rfl, hg.first⟩, hg.others⟩ (ih _)

theorem renamed_declarations {es es' : List TypeEntry}
    (h : List.Forall₂ (TypeEntry.Renamed r) es es') (reserved : List String) :
    List.Forall₂ (Declaration.Renamed r) (Registry.declarations ⟨es⟩ reserved)
      (Registry.declarations ⟨es'⟩ reserved) := by
  refine renamed_declare (renamed_groupByPath (List.rel_filter (fun e e' he => ?_) h)) reserved
  simp only [he.kind]

namespace Declaration.Renamed
variable {d d' : Declaration} (h : d.Renamed r d')
include h

theorem entries : List.Forall₂ (RenamedUnder r d.path) d.entries d'.entries :=
  .cons h.first h.others

theorem isGeneric : d'.isGeneric = d.isGeneric := by
  have hothers : d'.others.isEmpty = d.others.isEmpty := by
    have hothers := h.others
    generalize d.others = others, d'.others = others' at hothers
    cases hothers <;> rfl
  rw [Declaration.isGeneric, Declaration.isGeneric, h.first.renamed.arguments, hothers]

theorem instanceName (id : TypeId) : d'.instanceName id = d.instanceName id := by
  rw [Declaration.instanceName, Declaration.instanceName, h.name]

end Declaration.Renamed

/-! ### Groups -/

/-- A message of a namespace, which the label does not matter for but by the name of the method. -/
structure RenamedMember (e e' : EntryPoint) : Prop where
  method : e'.methodName = e.methodName
  same : e' = { e with label := e'.label }

/-- The messages of a namespace. -/
structure RenamedMembers (r : Renaming) (g g' : String × List EntryPoint) : Prop where
  label : r.Namespace g.1 g'.1
  members : List.Forall₂ RenamedMember g.2 g'.2

structure Groups.Renamed (r : Renaming) (g g' : Groups) : Prop where
  inherent : g'.inherent = g.inherent
  grouped : List.Forall₂ (RenamedMembers r) g.grouped g'.grouped

theorem renamed_addToGroup {e e' : EntryPoint} (he : RenamedMember e e') {p p' : String}
    (hp : r.Namespace p p') {gs gs' : List (String × List EntryPoint)}
    (h : List.Forall₂ (RenamedMembers r) gs gs') :
    List.Forall₂ (RenamedMembers r) (addToGroup e p gs) (addToGroup e' p' gs') := by
  induction h with
  | nil => exact .cons ⟨hp, .cons he .nil⟩ .nil
  | @cons g g' gs gs' hg hgs ih =>
      obtain ⟨q, members⟩ := g
      obtain ⟨q', members'⟩ := g'
      have hiff : q = p ↔ q' = p' := Relator.rel_eq r.oneNamespace hg.label hp
      rw [addToGroup, addToGroup]
      by_cases heq : q = p
      · rw [if_pos heq, if_pos (hiff.mp heq)]
        exact .cons ⟨hg.label, List.rel_append hg.members (.cons he .nil)⟩ hgs
      · rw [if_neg heq, if_neg (mt hiff.mpr heq)]
        exact .cons hg ih

theorem renamed_add {e e' : EntryPoint} (he : e.Renamed r e') {g g' k k' : Groups}
    (hg : g.Renamed r g') (h : g.add e = .ok k) (h' : g'.add e' = .ok k') : k.Renamed r k' := by
  obtain ⟨hlabel, hsame⟩ := he
  rw [Groups.add] at h h'
  generalize hl : e.label = label, hl' : e'.label = label' at hlabel
  cases hlabel with
  | same hcount =>
      obtain rfl : e = e' := by rw [hsame, hl', ← hl]
      rw [hl] at h h'
      split at h
      · next hparts =>
          simp only [hparts] at h'
          cases h
          cases h'
          exact ⟨by rw [hg.inherent], hg.grouped⟩
      · next hparts => simp [hparts] at hcount
      · cases h
  | member hparts hparts' hp =>
      simp only [hl, hparts] at h
      simp only [hl', hparts'] at h'
      cases h
      cases h'
      refine ⟨hg.inherent, renamed_addToGroup ⟨?_, hsame⟩ hp hg.grouped⟩
      simp [EntryPoint.methodName, Label.methodName, hl, hl', hparts, hparts']

theorem renamed_groupMessages {es es' : List EntryPoint}
    (hes : List.Forall₂ (EntryPoint.Renamed r) es es') {g g' : Groups}
    (h : groupMessages es = .ok g) (h' : groupMessages es' = .ok g') : g.Renamed r g' := by
  have hfold : ∀ {k k' : Groups}, k.Renamed r k' → es.foldlM Groups.add k = .ok g →
      es'.foldlM Groups.add k' = .ok g' → g.Renamed r g' := by
    clear h h'
    induction hes with
    | nil =>
        intro k k' hk h h'
        cases h
        cases h'
        exact hk
    | cons he _ ih =>
        intro k k' hk h h'
        rw [List.foldlM_cons] at h h'
        obtain ⟨next, hnext, h⟩ := bind_ok h
        obtain ⟨next', hnext', h'⟩ := bind_ok h'
        exact ih (renamed_add he hk hnext hnext') h h'
  exact hfold ⟨rfl, .nil⟩ h h'

theorem renamed_mutators {es es' : List EntryPoint}
    (h : List.Forall₂ (EntryPoint.Renamed r) es es') :
    (mutators es').map (·.selector) = (mutators es).map (·.selector) := by
  have hfiltered : List.Forall₂ (EntryPoint.Renamed r) (mutators es) (mutators es') := by
    refine List.rel_filter (fun e e' he => ?_) h
    rw [he.same]
  refine map_eq_map_iff_forall₂.mpr (hfiltered.flip.imp fun e' e he => ?_)
  rw [he.same]

end InkBindings.Metadata
