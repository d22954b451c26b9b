import InkBindings.Proofs.Bindings.Failing
import InkBindings.Proofs.Bindings.Faithful
import InkBindings.Proofs.Bindings.Spelling

/-!
The instantiations of a declared type. Its class is made of the first one, and each has a layout of
its own; these fit exactly if all instantiations agree, and whether they do is never looked at.
-/

namespace InkBindings

open Bindings (fieldNames)

/-- Both definitions have the same components under the same names, as the bindings spell them, and
the same alternatives by name and index. -/
inductive Metadata.Definition.Agree : Metadata.Definition → Metadata.Definition → Prop
  | composite {fields others} : fieldNames fields = fieldNames others →
      Agree (.composite fields) (.composite others)
  | variant {as bs : List Metadata.Alternative} :
      (∀ name, name ∈ as.map (·.name) ↔ name ∈ bs.map (·.name)) →
      (∀ a ∈ as, ∀ b ∈ bs, a.name = b.name →
        a.index = b.index ∧ fieldNames a.fields = fieldNames b.fields) →
      Agree (.variant as) (.variant bs)

open Metadata in
def Metadata.InstantiationsAgree (m : Metadata) : Prop :=
  ∀ e ∈ m.types, ∀ e' ∈ m.types, e.kind = .custom → e'.kind = .custom → e.path = e'.path →
    e.definition.Agree e'.definition

namespace Bindings

open Metadata (Declaration Definition)

/-- The layout has the components of the class, in order, and an item for each label. -/
def Layout.Follows (t : DeclaredType) : Layout → Prop
  | .record components =>
      ∃ rows, t.shape = .record rows ∧ components.map (·.1) = rows.map (·.name)
  | .sum items =>
      (∀ p ∈ items, ∃ b ∈ t.alternatives, b.className = p.1 ∧
        p.2.map (·.1) = b.rows.map (·.name)) ∧
      ∀ b ∈ t.alternatives, ∃ p ∈ items, ∃ b' ∈ t.alternatives, b'.label = b.label ∧
        b'.className = p.1

/-- The class and the layouts of the type are what each of its instantiations declares. -/
structure FaithfulTo (d : Declaration) (t : DeclaredType) : Prop where
  layouts : ∀ l ∈ t.layouts, l.2.Follows t
  indices : ∀ b ∈ t.alternatives, ∀ e ∈ d.entries, ∀ a ∈ e.definition.alternatives,
    a.name = b.label → a.index = b.index

/-! ### Records -/

theorem RecordLayout.names {s : Scope} {definition : Definition} {layout : Layout}
    (h : RecordLayout s definition layout) :
    ∃ fields components, definition = .composite fields ∧ layout = .record components ∧
      components.map (·.1) = fieldNames fields := by
  obtain ⟨fields, rows, hdefinition, hrows, hlayout⟩ := h
  exact ⟨fields, layoutOf rows, hdefinition, hlayout,
    (names_of_layoutOf rows).trans (names_of_makeRows hrows)⟩

theorem faithful_record_iff {s : Scope} {d : Declaration} {first : Metadata.Fields}
    {others : List Metadata.Fields} (hfirst : d.first.definition = .composite first) {rows : List Row}
    (hrows : makeRows s first others = .ok rows) {layouts : List (Scale.Reference × Layout)}
    (hlayouts : List.Forall₂ (fun e l => l.1 = entryReference d e.id ∧
      RecordLayout s e.definition l.2) d.entries layouts) :
    FaithfulTo d ⟨d.name, d.first.docs, .record rows, layouts⟩ ↔
      ∀ e ∈ d.entries, ∀ e' ∈ d.entries, e.definition.Agree e'.definition := by
  have hnames := names_of_makeRows hrows
  constructor
  · intro h
    have hentry : ∀ e ∈ d.entries, ∃ fields, e.definition = .composite fields ∧
        fieldNames fields = fieldNames first := by
      intro e he
      obtain ⟨l, hl, -, hlayout⟩ := forall₂_right hlayouts.flip he
      obtain ⟨fields, components, hdefinition, heq, hspelled⟩ := hlayout.names
      have hfollows := h.layouts l hl
      rw [heq] at hfollows
      obtain ⟨rows', hshape, hfollows⟩ := hfollows
      cases hshape
      exact ⟨fields, hdefinition, hspelled.symm.trans (hfollows.trans hnames)⟩
    intro e he e' he'
    obtain ⟨fields, hdefinition, hfields⟩ := hentry e he
    obtain ⟨fields', hdefinition', hfields'⟩ := hentry e' he'
    rw [hdefinition, hdefinition']
    exact .composite (hfields.trans hfields'.symm)
  · intro h
    refine ⟨fun l hl => ?_, nofun⟩
    obtain ⟨e, he, -, hlayout⟩ := forall₂_right hlayouts hl
    obtain ⟨fields, components, hdefinition, heq, hspelled⟩ := hlayout.names
    have hagree := h e he d.first List.mem_cons_self
    rw [hdefinition, hfirst] at hagree
    cases hagree with
    | composite hsame =>
        rw [heq]
        exact ⟨rows, rfl, hspelled.trans (hsame.trans hnames.symm)⟩

/-! ### Sums -/

section
variable {first : List Metadata.Alternative} {emitted : List Alternative}

theorem label_of_classOf (hnodup : (emitted.map (·.className)).Nodup) {b : Alternative}
    (hb : b ∈ emitted) {label : String} (h : classOf emitted label = .ok b.className) :
    b.label = label := by
  obtain ⟨b', hb', hlabel, hclass⟩ := classOf_ok h
  rw [← List.inj_on_of_nodup_map hnodup hb' hb hclass, hlabel]

/-- The components of a class are those of some alternative of its label. -/
theorem exists_components (hspelled : List.Forall₂ (SpelledAs first) first emitted)
    {b : Alternative} (hb : b ∈ emitted) :
    ∃ a ∈ first, a.name = b.label ∧ b.rows.map (·.name) = fieldNames a.fields := by
  obtain ⟨a, ha, hspelled⟩ := forall₂_right hspelled hb
  have hcomponents := hspelled.components
  rw [fieldsOfAlternative] at hcomponents
  split at hcomponents
  · next x hx =>
      exact ⟨x, List.mem_of_find?_eq_some hx,
        (by simpa using List.find?_some hx : x.name = a.name).trans hspelled.label.symm, hcomponents⟩
  · next hnone => exact absurd (by simp) (List.find?_eq_none.mp hnone a ha)

variable {s : Scope} {d : Declaration} {layouts : List (Scale.Reference × Layout)}

section
variable (hnodup : (emitted.map (·.className)).Nodup)
  (hlayouts : List.Forall₂ (fun e l => l.1 = entryReference d e.id ∧
    SumLayout s emitted e.definition l.2) d.entries layouts)
  (h : FaithfulTo d ⟨d.name, d.first.docs, .sum emitted, layouts⟩)
include hnodup hlayouts h

/-- Every alternative of an entry has an item, of the class that has its components, and every class
goes by the label of an alternative. -/
theorem classes_of_faithful : ∀ e ∈ d.entries, ∃ as, e.definition = .variant as ∧
    (∀ a ∈ as, ∃ b ∈ emitted, classOf emitted a.name = .ok b.className ∧
      fieldNames a.fields = b.rows.map (·.name)) ∧
    ∀ b ∈ emitted, ∃ a ∈ as, a.name = b.label := by
  intro e he
  obtain ⟨l, hl, -, hlayout⟩ := forall₂_right hlayouts.flip he
  obtain ⟨as, items, hdefinition, heq, hitems⟩ := hlayout.items
  have hfollows := h.layouts l hl
  rw [heq] at hfollows
  obtain ⟨hlisted, hlabels⟩ := hfollows
  refine ⟨as, hdefinition, fun a ha => ?_, fun b hb => ?_⟩
  · obtain ⟨p, hp, hclassOf, hnames⟩ := forall₂_right hitems.flip ha
    obtain ⟨b, hb, hname, hrows⟩ := hlisted p hp
    exact ⟨b, hb, hname ▸ hclassOf, hnames.symm.trans hrows⟩
  · obtain ⟨p, hp, b', hb', hlabel, hname⟩ := hlabels b hb
    obtain ⟨a, ha, hclassOf, -⟩ := forall₂_right hitems hp
    exact ⟨a, ha, (label_of_classOf hnodup hb' (hname ▸ hclassOf)).symm.trans hlabel⟩

theorem names_of_faithful : ∀ e ∈ d.entries, ∃ as, e.definition = .variant as ∧
    ∀ name, name ∈ as.map (·.name) ↔ name ∈ emitted.map (·.label) := by
  intro e he
  obtain ⟨as, has, hitems, hlabels⟩ := classes_of_faithful hnodup hlayouts h e he
  refine ⟨as, has, fun name => ⟨fun hname => ?_, fun hname => ?_⟩⟩
  · obtain ⟨a, ha, rfl⟩ := List.mem_map.mp hname
    obtain ⟨b, hb, hclassOf, -⟩ := hitems a ha
    exact label_of_classOf hnodup hb hclassOf ▸ List.mem_map_of_mem hb
  · obtain ⟨b, hb, rfl⟩ := List.mem_map.mp hname
    obtain ⟨a, ha, hsame⟩ := hlabels b hb
    exact hsame ▸ List.mem_map_of_mem ha

/-- What two layouts list under one label is one class. -/
theorem agree_of_faithful :
    ∀ e ∈ d.entries, ∀ e' ∈ d.entries, e.definition.Agree e'.definition := by
  intro e he e' he'
  obtain ⟨as, has, hitems, -⟩ := classes_of_faithful hnodup hlayouts h e he
  obtain ⟨bs, hbs, hitems', -⟩ := classes_of_faithful hnodup hlayouts h e' he'
  obtain ⟨_, has', hnames⟩ := names_of_faithful hnodup hlayouts h e he
  obtain ⟨_, hbs', hnames'⟩ := names_of_faithful hnodup hlayouts h e' he'
  cases has.symm.trans has'
  cases hbs.symm.trans hbs'
  rw [has, hbs]
  refine .variant (fun name => (hnames name).trans (hnames' name).symm) fun a ha b hb hname => ?_
  obtain ⟨x, hx, hclassOf, hfields⟩ := hitems a ha
  obtain ⟨y, hy, hclassOf', hfields'⟩ := hitems' b hb
  obtain rfl : x = y := by
    rw [hname] at hclassOf
    exact List.inj_on_of_nodup_map hnodup hx hy (Except.ok.inj (hclassOf.symm.trans hclassOf'))
  have hlabel := label_of_classOf hnodup hx hclassOf
  refine ⟨?_, hfields.trans hfields'.symm⟩
  have hindex := h.indices x hx e he a (has ▸ ha) hlabel.symm
  have hindex' := h.indices x hx e' he' b (hbs ▸ hb) (hname.symm.trans hlabel.symm)
  exact hindex.trans hindex'.symm

end

theorem faithful_of_agree (hfirst : d.first.definition = .variant first)
    (hspelled : List.Forall₂ (SpelledAs first) first emitted)
    (hlayouts : List.Forall₂ (fun e l => l.1 = entryReference d e.id ∧
      SumLayout s emitted e.definition l.2) d.entries layouts)
    (h : ∀ e ∈ d.entries, ∀ e' ∈ d.entries, e.definition.Agree e'.definition) :
    FaithfulTo d ⟨d.name, d.first.docs, .sum emitted, layouts⟩ := by
  have hentry : ∀ e ∈ d.entries, ∀ as, e.definition = .variant as →
      (∀ name, name ∈ as.map (·.name) ↔ name ∈ first.map (·.name)) ∧
        ∀ a ∈ as, ∀ b ∈ first, a.name = b.name →
          a.index = b.index ∧ fieldNames a.fields = fieldNames b.fields := by
    intro e he as has
    have hagree := h e he d.first List.mem_cons_self
    rw [has, hfirst] at hagree
    cases hagree with
    | variant hnames hsame => exact ⟨hnames, hsame⟩
  refine ⟨fun l hl => ?_, fun b hb e he a ha hlabel => ?_⟩
  · obtain ⟨e, he, -, hlayout⟩ := forall₂_right hlayouts hl
    obtain ⟨as, items, hdefinition, heq, hitems⟩ := hlayout.items
    obtain ⟨hnames, hsame⟩ := hentry e he as hdefinition
    rw [heq]
    refine ⟨fun p hp => ?_, fun b hb => ?_⟩
    · obtain ⟨a, ha, hclassOf, hspelling⟩ := forall₂_right hitems hp
      obtain ⟨b, hb, hlabel, hclass⟩ := classOf_ok hclassOf
      obtain ⟨x, hx, hname, hrows⟩ := exists_components hspelled hb
      have hfields := (hsame a ha x hx (hname.trans hlabel).symm).2
      exact ⟨b, hb, hclass, hspelling.trans (hfields.trans hrows.symm)⟩
    · obtain ⟨x, hx, hspelling⟩ := forall₂_right hspelled hb
      have hmem := (hnames b.label).mpr (hspelling.label ▸ List.mem_map_of_mem hx)
      obtain ⟨a, ha, hname⟩ := List.mem_map.mp hmem
      obtain ⟨p, hp, hclassOf, -⟩ := forall₂_right hitems.flip ha
      obtain ⟨b', hb', hlabel, hclass⟩ := classOf_ok hclassOf
      exact ⟨p, hp, b', hb', hlabel.trans hname, hclass⟩
  · obtain ⟨x, hx, hspelling⟩ := forall₂_right hspelled hb
    cases hdefinition : e.definition with
    | variant as =>
        rw [hdefinition] at ha
        have hname := hlabel.trans hspelling.label
        exact (((hentry e he as hdefinition).2 a ha x hx hname).1).trans hspelling.index.symm
    | _ =>
        rw [hdefinition] at ha
        cases ha

end

/-! ### All declared types -/

theorem faithful_iff {c c' : Context} {d : Declaration} {t : DeclaredType}
    (h : MadeBy c d t c') :
    FaithfulTo d t ↔ ∀ e ∈ d.entries, ∀ e' ∈ d.entries, e.definition.Agree e'.definition := by
  cases h with
  | record hfirst hrows hlayouts => exact faithful_record_iff hfirst hrows hlayouts
  | sum hfirst hemitted hlayouts =>
      obtain ⟨hspelled, hnew⟩ := spelled_of_makeAlternatives hemitted
      exact ⟨agree_of_faithful hnew.nodup hlayouts, faithful_of_agree hfirst hspelled hlayouts⟩

theorem covers_of_madeBy {c c' : Context} {d : Declaration} {t : DeclaredType}
    (h : MadeBy c d t c') : ∀ e ∈ d.entries, d.first.definition.Covers e.definition := by
  intro e he
  cases h with
  | record hfirst _ hlayouts =>
      obtain ⟨l, -, -, fields, rows, hdefinition, -⟩ := forall₂_right hlayouts.flip he
      rw [hfirst, hdefinition]
      trivial
  | sum hfirst hemitted hlayouts =>
      obtain ⟨hspelled, -⟩ := spelled_of_makeAlternatives hemitted
      obtain ⟨l, -, -, hlayout⟩ := forall₂_right hlayouts.flip he
      obtain ⟨as, items, hdefinition, -, hitems⟩ := hlayout.items
      rw [hfirst, hdefinition]
      intro a ha
      obtain ⟨p, -, hclassOf, -⟩ := forall₂_right hitems.flip ha
      obtain ⟨b, hb, hlabel, -⟩ := classOf_ok hclassOf
      obtain ⟨x, hx, hspelling⟩ := forall₂_right hspelled hb
      exact ⟨x, hx, hspelling.label.symm.trans hlabel⟩

theorem agree_iff (room : Room) (m : Metadata) : m.InstantiationsAgree ↔
    ∀ d ∈ (Scope.ofMetadata room m).declarations, ∀ e ∈ d.entries, ∀ e' ∈ d.entries,
      e.definition.Agree e'.definition := by
  constructor
  · intro h d hd e he e' he'
    obtain ⟨hmem, hkind, hpath⟩ := (Metadata.Registry.mem_entries_iff_of_mem hd).mp he
    obtain ⟨hmem', hkind', hpath'⟩ := (Metadata.Registry.mem_entries_iff_of_mem hd).mp he'
    exact h e hmem e' hmem' hkind hkind' (hpath.trans hpath'.symm)
  · intro h e he e' he' hkind hkind' hpath
    obtain ⟨d, hd, hmem⟩ := Metadata.Registry.exists_declaration (r := ⟨m.types⟩) he hkind moduleNames
    have hentries := fun x => Metadata.Registry.mem_entries_iff_of_mem hd (e := x)
    have hd' := ((hentries e).mp hmem).2.2
    exact h d hd e hmem e' ((hentries e').mpr ⟨he', hkind', hpath.symm.trans hd'⟩)

/-- The messages can be grouped, and all references rendered. -/
structure Rendered (room : Room) (m : Metadata) : Prop where
  groups : ∃ g, Metadata.groupMessages m.messages = .ok g
  references : ∀ id ∈ m.referenced, ∀ f, ¬ Unrendered (.ofMetadata room m) id f

def switch (off on : Int) : Definition :=
  .variant [⟨"Off", off, .positional [], []⟩, ⟨"On", on, .positional [], []⟩]

/-- A switch of two instantiations, of which the second one has these indices. -/
def switches (off on : Int) : Metadata where
  codeHash := []
  types := [⟨0, switch 0 1, ["light", "Switch"], [], []⟩,
    ⟨1, switch off on, ["light", "Switch"], [], []⟩]
  constructors := []
  messages := []
  events := []
  name := none

end Bindings
end InkBindings
