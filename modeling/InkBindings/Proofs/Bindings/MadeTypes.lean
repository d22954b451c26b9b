import InkBindings.Bindings.Making
import InkBindings.Proofs.Bindings.EmittedTypes
import InkBindings.Proofs.Bindings.Rendering
import InkBindings.Proofs.Metadata.Grouping

/-!
What is made of the declarations of a contract. Each entry has a layout under its own reference,
with the codecs of its own components. The alternatives of all entries share the classes of the
first one, and go by its indices. Parameters and the rows of events have the annotations and the
codecs of their types.
-/

namespace InkBindings.Bindings

open Metadata (TypeId TypeEntry Declaration Definition)
open Naming (IsName)

/-- The scope that the bindings of a contract are made in. -/
def Scope.ofMetadata (room : Room) (m : Metadata) : Scope :=
  ⟨⟨m.types⟩, Metadata.Registry.declarations ⟨m.types⟩ moduleNames, room⟩

/-- What an entry of a declaration is referred to by. -/
def entryReference (d : Declaration) (id : TypeId) : Scale.Reference :=
  if d.isGeneric then .instantiation (d.instanceName id) d.name else .declared d.name

theorem declaredCodec_eq (d : Declaration) (id : TypeId) :
    declaredCodec d id = .reference (entryReference d id) := by
  unfold declaredCodec entryReference
  split <;> rfl

theorem entries_of_not_generic {d : Declaration} (h : d.isGeneric = false) :
    d.entries = [d.first] := by
  have hothers : d.others = [] := by
    simp only [Declaration.isGeneric, Bool.or_eq_false_iff, Bool.not_eq_false',
      List.isEmpty_iff] at h
    exact h.1
  rw [Declaration.entries, hothers]

/-- The components of a layout have the codecs of these fields, each under a name. -/
def Laid (s : Scope) (fields : Metadata.Fields) (components : Scale.Fields) : Prop :=
  List.Forall₂ (fun f p => IsName p.1 ∧ s.codec f.typeId = .ok p.2) fields.toList components

inductive LayoutFor (s : Scope) (emitted : List Alternative) : Definition → Layout → Prop
  | record {fields components} : Laid s fields components →
      LayoutFor s emitted (.composite fields) (.record components)
  | sum {alternatives rows} :
      List.Forall₂ (fun (a : Metadata.Alternative) (p : String × Scale.Fields) =>
        (∃ b ∈ emitted, b.label = a.name ∧ b.className = p.1) ∧ Laid s a.fields p.2)
        alternatives rows →
      LayoutFor s emitted (.variant alternatives) (.sum rows)

/-- What is made of a declaration. -/
structure Made (s : Scope) (d : Declaration) (t : DeclaredType) : Prop where
  name : t.name = d.name
  alternatives : ∀ a ∈ t.alternatives, IsName a.className ∧
    ∃ bs, d.first.definition = .variant bs ∧ ∃ b ∈ bs, b.name = a.label ∧ b.index = a.index
  layouts : List.Forall₂ (fun e l => l.1 = entryReference d e.id ∧
    LayoutFor s t.alternatives e.definition l.2) d.entries t.layouts
  kinds : ∀ l ∈ t.layouts, ClassKind.ofLayout l.2 = t.kind

/-! ### Names and places -/

section
variable {α β : Type} {names : List α} {xs : List β} (h : names.length = xs.length)
include h

theorem map_fst_zip_zipIdx : ((names.zip xs).zipIdx.map fun x => x.1.1) = names := by
  calc ((names.zip xs).zipIdx.map fun x => x.1.1)
      = ((names.zip xs).zipIdx.map Prod.fst).map Prod.fst := by
        rw [List.map_map]
        rfl
    _ = names := by
        rw [List.zipIdx_map_fst, List.map_fst_zip (Nat.le_of_eq h)]

theorem map_snd_zip_zipIdx : ((names.zip xs).zipIdx.map fun x => x.1.2) = xs := by
  calc ((names.zip xs).zipIdx.map fun x => x.1.2)
      = ((names.zip xs).zipIdx.map Prod.fst).map Prod.snd := by
        rw [List.map_map]
        rfl
    _ = xs := by
        rw [List.zipIdx_map_fst, List.map_snd_zip (Nat.le_of_eq h.symm)]

theorem map_place_zip_zipIdx : (names.zip xs).zipIdx.map Prod.snd = List.range xs.length := by
  rw [List.zipIdx_map_snd, List.length_zip, h, Nat.min_self, List.range_eq_range']

/-- What is made under the names goes by them. -/
theorem forall₂_of_zip {γ : Type} {f : γ → α} {r : β → γ → Prop} {ys : List γ}
    (hmade : List.Forall₂ (fun x y => f y = x.1 ∧ r x.2 y) (names.zip xs) ys) :
    ys.map f = names ∧ List.Forall₂ r xs ys := by
  have hfst := List.map_fst_zip (Nat.le_of_eq h)
  have hsnd := List.map_snd_zip (Nat.le_of_eq h.symm)
  constructor
  · rw [← hfst, map_eq_map_iff_forall₂]
    exact hmade.flip.imp fun _ _ hx => hx.1
  · rw [← hsnd, List.forall₂_map_left_iff]
    exact hmade.imp fun _ _ hx => hx.2

end

/-! ### Components -/

theorem isName_number {n : Nat} : IsName ("_" ++ toString n) := by
  refine Naming.IsName.append ⟨by decide, List.all_eq_true.mp (by decide)⟩ fun c hc => ?_
  have hdigit : c.isDigit = true :=
    Nat.isDigit_of_mem_toDigits (by decide) (by decide) (Nat.toList_repr ▸ hc)
  simp [Naming.isNameChar, Char.isAlphanum, hdigit]

theorem length_fieldNames (fields : Metadata.Fields) :
    (fieldNames fields).length = fields.toList.length := by
  cases fields with
  | named fields =>
      rw [fieldNames, Naming.length_uniqueNames, Metadata.Fields.toList, List.length_map,
        List.length_map]
  | positional fields =>
      rw [fieldNames, Metadata.Fields.toList, List.length_map, List.length_range]

theorem isName_of_fieldNames {fields : Metadata.Fields} {name : String}
    (h : name ∈ fieldNames fields) : IsName name := by
  cases fields with
  | named fields => exact Naming.isName_of_uniqueNames h
  | positional fields =>
      obtain ⟨i, -, rfl⟩ := List.mem_map.mp h
      exact isName_number

theorem makeRow_ok {s : Scope} {instantiations : List Metadata.Fields} {name : String}
    {place : Nat} {field : Metadata.Field} {row : Row}
    (h : makeRow s instantiations name place field = .ok row) :
    row.name = name ∧ s.codec field.typeId = .ok row.codec := by
  simp only [makeRow] at h
  split at h
  · obtain ⟨_, -, h⟩ := bind_ok h
    obtain ⟨c, hc, h⟩ := bind_ok h
    cases h
    exact ⟨rfl, hc⟩
  · obtain ⟨_, -, h⟩ := bind_ok h
    obtain ⟨c, hc, h⟩ := bind_ok h
    cases h
    exact ⟨rfl, hc⟩

theorem makeRows_ok {s : Scope} {first : Metadata.Fields} {others : List Metadata.Fields}
    {rows : List Row} (h : makeRows s first others = .ok rows) : Laid s first (layoutOf rows) := by
  have hrows := (forall₂_of_mapM h).imp fun _ _ hrow => makeRow_ok hrow
  have hnames : ∀ x ∈ ((fieldNames first).zip first.toList).zipIdx, IsName x.1.1 := by
    intro x hx
    have hmem : x.1 ∈ (fieldNames first).zip first.toList := List.fst_mem_of_mem_zipIdx hx
    exact isName_of_fieldNames (List.of_mem_zip hmem).1
  have hfields := map_snd_zip_zipIdx (length_fieldNames first)
  rw [Laid, layoutOf, ← hfields, List.forall₂_map_left_iff, List.forall₂_map_right_iff]
  refine ((List.forall₂_and_left _ _).mpr ⟨hnames, hrows⟩).imp fun x row hrow => ?_
  exact ⟨hrow.2.1 ▸ hrow.1, hrow.2.2⟩

/-! ### Layouts -/

theorem makeLayouts_ok {d : Declaration} (hgeneric : d.isGeneric = true)
    {layout : TypeEntry → Outcome Layout} {layouts : List (Scale.Reference × Layout)}
    (h : makeLayouts d layout = .ok layouts) :
    List.Forall₂ (fun e l => l.1 = entryReference d e.id ∧ layout e = .ok l.2) d.entries
      layouts := by
  refine (forall₂_of_mapM h).imp fun e l hl => ?_
  obtain ⟨made, hmade, hl⟩ := bind_ok hl
  cases hl
  exact ⟨by rw [entryReference, if_pos hgeneric], hmade⟩

theorem recordFields_ok {e : TypeEntry} {fields : Metadata.Fields}
    (h : recordFields e = .ok fields) : e.definition = .composite fields := by
  simp only [recordFields] at h
  split at h
  · next hdefinition =>
      cases h
      exact hdefinition
  · cases h

theorem sumAlternatives_ok {e : TypeEntry} {alternatives : List Metadata.Alternative}
    (h : sumAlternatives e = .ok alternatives) : e.definition = .variant alternatives := by
  simp only [sumAlternatives] at h
  split at h
  · next hdefinition =>
      cases h
      exact hdefinition
  · cases h

theorem classOf_ok {emitted : List Alternative} {label className : String}
    (h : classOf emitted label = .ok className) :
    ∃ b ∈ emitted, b.label = label ∧ b.className = className := by
  simp only [classOf] at h
  split at h
  · next b hfind =>
      cases h
      exact ⟨b, List.mem_reverse.mp (List.mem_of_find?_eq_some hfind),
        by simpa using List.find?_some hfind, rfl⟩
  · cases h

/-- The layout of a record is made of its components by themselves. -/
def RecordLayout (s : Scope) (definition : Definition) (layout : Layout) : Prop :=
  ∃ fields rows, definition = .composite fields ∧ makeRows s fields [] = .ok rows ∧
    layout = .record (layoutOf rows)

/-- The layout of a sum is made of its alternatives, with the classes that have been emitted. -/
def SumLayout (s : Scope) (emitted : List Alternative) (definition : Definition)
    (layout : Layout) : Prop :=
  ∃ alternatives, definition = .variant alternatives ∧
    makeSumLayout s emitted alternatives = .ok layout

theorem makeSumLayout_ok {s : Scope} {emitted : List Alternative}
    {alternatives : List Metadata.Alternative} {layout : Layout}
    (h : makeSumLayout s emitted alternatives = .ok layout) :
    LayoutFor s emitted (.variant alternatives) layout ∧
      ClassKind.ofLayout layout = .sum := by
  obtain ⟨rows, hrows, h⟩ := bind_ok h
  cases h
  refine ⟨.sum ((forall₂_of_mapM hrows).imp fun a p hp => ?_), rfl⟩
  obtain ⟨className, hclass, hp⟩ := bind_ok hp
  obtain ⟨components, hcomponents, hp⟩ := bind_ok hp
  cases hp
  exact ⟨classOf_ok hclass, makeRows_ok hcomponents⟩

theorem RecordLayout.layoutFor {s : Scope} {emitted : List Alternative} {definition : Definition}
    {layout : Layout} (h : RecordLayout s definition layout) :
    LayoutFor s emitted definition layout ∧ ClassKind.ofLayout layout = .record := by
  obtain ⟨fields, rows, rfl, hrows, rfl⟩ := h
  exact ⟨.record (makeRows_ok hrows), rfl⟩

theorem SumLayout.layoutFor {s : Scope} {emitted : List Alternative} {definition : Definition}
    {layout : Layout} (h : SumLayout s emitted definition layout) :
    LayoutFor s emitted definition layout ∧ ClassKind.ofLayout layout = .sum := by
  obtain ⟨alternatives, rfl, hlayout⟩ := h
  exact makeSumLayout_ok hlayout

/-! ### Declarations -/

/-- What a declared type is made by, and the context that it leaves. -/
inductive MadeBy (c : Context) (d : Declaration) : DeclaredType → Context → Prop
  | record {first others rows layouts} : d.first.definition = .composite first →
      makeRows c.scope first others = .ok rows →
      List.Forall₂ (fun e l => l.1 = entryReference d e.id ∧
        RecordLayout c.scope e.definition l.2) d.entries layouts →
      MadeBy c d ⟨d.name, d.first.docs, .record rows, layouts⟩ c
  | sum {first emitted layouts c'} : d.first.definition = .variant first →
      makeAlternatives d first c first = .ok (emitted, c') →
      List.Forall₂ (fun e l => l.1 = entryReference d e.id ∧
        SumLayout c.scope emitted e.definition l.2) d.entries layouts →
      MadeBy c d ⟨d.name, d.first.docs, .sum emitted, layouts⟩ c'

/-- The one entry of a type that is not generic has the layout of the type. -/
theorem layouts_of_not_generic {d : Declaration} (h : d.isGeneric = false)
    {p : TypeEntry → Layout → Prop} {layout : Layout} (hfirst : p d.first layout) :
    List.Forall₂ (fun e (l : Scale.Reference × Layout) => l.1 = entryReference d e.id ∧ p e l.2)
      d.entries [(.declared d.name, layout)] := by
  rw [entries_of_not_generic h]
  exact .cons ⟨by rw [entryReference, h]; rfl, hfirst⟩ .nil

theorem makeRecord_ok {c : Context} {d : Declaration} {first : Metadata.Fields}
    (hfirst : d.first.definition = .composite first) {t : DeclaredType}
    (h : makeRecord c.scope d first = .ok t) : MadeBy c d t c := by
  obtain ⟨others, hothers, h⟩ := bind_ok h
  obtain ⟨rows, hrows, h⟩ := bind_ok h
  by_cases hgeneric : d.isGeneric = true
  · rw [if_pos hgeneric] at h
    obtain ⟨layouts, hlayouts, h⟩ := bind_ok h
    cases h
    refine .record hfirst hrows ((makeLayouts_ok hgeneric hlayouts).imp fun e l hl => ⟨hl.1, ?_⟩)
    obtain ⟨fields, hfields, hlayout⟩ := bind_ok hl.2
    obtain ⟨rows', hrows', hlayout⟩ := bind_ok hlayout
    exact ⟨fields, rows', recordFields_ok hfields, hrows', (Except.ok.inj hlayout).symm⟩
  · have hfalse : d.isGeneric = false := by simpa using hgeneric
    have hentries := entries_of_not_generic hfalse
    rw [if_neg hgeneric] at h
    cases h
    obtain rfl : others = [] := by
      rw [(List.cons.inj hentries).2] at hothers
      exact (Except.ok.inj hothers).symm
    exact .record hfirst hrows
      (layouts_of_not_generic hfalse ⟨first, rows, hfirst, hrows, rfl⟩)

theorem makeAlternatives_ok {d : Declaration} {first alternatives : List Metadata.Alternative}
    {c c' : Context} {emitted : List Alternative}
    (h : makeAlternatives d first c alternatives = .ok (emitted, c')) :
    c'.scope = c.scope ∧ List.Forall₂ (fun (a : Metadata.Alternative) (b : Alternative) =>
      IsName b.className ∧ a.name = b.label ∧ a.index = b.index) alternatives emitted := by
  induction alternatives generalizing c emitted c' with
  | nil =>
      cases h
      exact ⟨rfl, .nil⟩
  | cons a rest ih =>
      rw [makeAlternatives] at h
      obtain ⟨⟨b, c₁⟩, hb, h⟩ := bind_ok h
      obtain ⟨⟨more, c₂⟩, hmore, h⟩ := bind_ok h
      cases h
      obtain ⟨hscope, hrest⟩ := ih hmore
      obtain ⟨others, -, hb⟩ := bind_ok hb
      obtain ⟨rows, -, hb⟩ := bind_ok hb
      cases hb
      exact ⟨hscope, .cons ⟨Naming.isName_identifier _ _, rfl, rfl⟩ hrest⟩

theorem makeSum_ok {c c' : Context} {d : Declaration} {first : List Metadata.Alternative}
    (hfirst : d.first.definition = .variant first) {t : DeclaredType}
    (h : makeSum c d first = .ok (t, c')) : MadeBy c d t c' := by
  obtain ⟨⟨emitted, c₁⟩, hemitted, h⟩ := bind_ok h
  have hscope := (makeAlternatives_ok hemitted).1
  by_cases hgeneric : d.isGeneric = true
  · simp only [hgeneric, if_true] at h
    obtain ⟨layouts, hlayouts, h⟩ := bind_ok h
    cases h
    refine .sum hfirst hemitted ((makeLayouts_ok hgeneric hlayouts).imp fun e l hl => ⟨hl.1, ?_⟩)
    obtain ⟨alternatives, hdefinition, hlayout⟩ := bind_ok hl.2
    exact ⟨alternatives, sumAlternatives_ok hdefinition, hscope ▸ hlayout⟩
  · have hfalse : d.isGeneric = false := by simpa using hgeneric
    simp only [hfalse, Bool.false_eq_true, if_false] at h
    obtain ⟨layout, hlayout, h⟩ := bind_ok h
    cases h
    exact .sum hfirst hemitted
      (layouts_of_not_generic hfalse ⟨first, hfirst, hscope ▸ hlayout⟩)

theorem madeBy_of_makeDeclared {c c' : Context} {d : Declaration} {t : DeclaredType}
    (h : makeDeclared c d = .ok (t, c')) : MadeBy c d t c' := by
  simp only [makeDeclared] at h
  split at h
  · next fields hfirst =>
      obtain ⟨made, hmade, h⟩ := bind_ok h
      cases h
      exact makeRecord_ok hfirst hmade
  · obtain ⟨first, hfirst, h⟩ := bind_ok h
    exact makeSum_ok (sumAlternatives_ok hfirst) h

theorem MadeBy.made {c c' : Context} {d : Declaration} {t : DeclaredType} (h : MadeBy c d t c') :
    Made c.scope d t ∧ c'.scope = c.scope := by
  cases h with
  | record hfirst _ hlayouts =>
      have hlaid : List.Forall₂ (fun e (l : Scale.Reference × Layout) =>
          l.1 = entryReference d e.id ∧ LayoutFor c.scope [] e.definition l.2 ∧
            ClassKind.ofLayout l.2 = .record) d.entries _ :=
        hlayouts.imp fun _ _ hl => ⟨hl.1, hl.2.layoutFor⟩
      refine ⟨⟨rfl, nofun, hlaid.imp fun _ _ hl => ⟨hl.1, hl.2.1⟩, fun l hl => ?_⟩, rfl⟩
      obtain ⟨e, -, -, -, hkind⟩ := forall₂_right hlaid hl
      exact hkind
  | sum hfirst hemitted hlayouts =>
      obtain ⟨hscope, halternatives⟩ := makeAlternatives_ok hemitted
      have hlaid := hlayouts.imp fun _ _ hl => And.intro hl.1 hl.2.layoutFor
      refine ⟨⟨rfl, fun a ha => ?_, hlaid.imp fun _ _ hl => ⟨hl.1, hl.2.1⟩, fun l hl => ?_⟩, hscope⟩
      · obtain ⟨b, hb, hname, hlabel, hindex⟩ := forall₂_right halternatives ha
        exact ⟨hname, _, hfirst, b, hb, hlabel, hindex⟩
      · obtain ⟨e, -, -, -, hkind⟩ := forall₂_right hlaid hl
        exact hkind

theorem makeDeclared_ok {c c' : Context} {d : Declaration} {t : DeclaredType}
    (h : makeDeclared c d = .ok (t, c')) : Made c.scope d t ∧ c'.scope = c.scope :=
  (madeBy_of_makeDeclared h).made

/-- The first declaration is made something of, and then the others. -/
theorem makeAllDeclared_cons {c c' : Context} {d : Declaration} {rest : List Declaration}
    {ts : List DeclaredType} (h : makeAllDeclared c (d :: rest) = .ok (ts, c')) :
    ∃ t c₁ more, ts = t :: more ∧ makeDeclared c d = .ok (t, c₁) ∧
      makeAllDeclared c₁ rest = .ok (more, c') := by
  rw [makeAllDeclared] at h
  obtain ⟨⟨t, c₁⟩, ht, h⟩ := bind_ok h
  obtain ⟨⟨more, c₂⟩, hmore, h⟩ := bind_ok h
  cases h
  exact ⟨t, c₁, more, rfl, ht, hmore⟩

theorem makeAllDeclared_ok {c c' : Context} {ds : List Declaration} {ts : List DeclaredType}
    (h : makeAllDeclared c ds = .ok (ts, c')) :
    c'.scope = c.scope ∧ List.Forall₂ (Made c.scope) ds ts := by
  induction ds generalizing c ts c' with
  | nil =>
      cases h
      exact ⟨rfl, .nil⟩
  | cons d rest ih =>
      obtain ⟨t, c₁, more, rfl, ht, hmore⟩ := makeAllDeclared_cons h
      obtain ⟨hmade, hscope⟩ := makeDeclared_ok ht
      obtain ⟨hscopes, hrest⟩ := ih hmore
      exact ⟨hscopes.trans hscope, .cons hmade (hscope ▸ hrest)⟩

/-! ### Parameters -/

/-- The parameter of an argument has the annotation and the codec of its type. -/
structure MadeParameter (s : Scope) (a : Metadata.Argument) (p : Parameter) : Prop where
  spelling : s.annotation a.typeId = .ok p.annotation
  codec : s.codec a.typeId = .ok p.codec

theorem makeParameter_ok {s : Scope} {name : String} {a : Metadata.Argument} {p : Parameter}
    (h : makeParameter s name a = .ok p) : p.name = name ∧ MadeParameter s a p := by
  obtain ⟨spelling, hspelling, h⟩ := bind_ok h
  obtain ⟨codec, hcodec, h⟩ := bind_ok h
  cases h
  exact ⟨rfl, hspelling, hcodec⟩

theorem makeParameters_ok {c : Context} {e : Metadata.EntryPoint} {ps : List Parameter}
    (h : makeParameters c e = .ok ps) :
    parameterNames ps = Naming.uniqueNames (e.arguments.map (·.label)) c.names ∧
      List.Forall₂ (MadeParameter c.scope) e.arguments ps :=
  forall₂_of_zip (Naming.length_uniqueNames_map _ _ _)
    ((forall₂_of_mapM h).imp fun _ _ hp => makeParameter_ok hp)

theorem isName_parameter {c : Context} {e : Metadata.EntryPoint} {ps : List Parameter}
    (h : makeParameters c e = .ok ps) {p : Parameter} (hp : p ∈ ps) : IsName p.name := by
  have hname : p.name ∈ parameterNames ps := List.mem_map_of_mem hp
  rw [(makeParameters_ok h).1] at hname
  exact Naming.isName_of_uniqueNames hname

/-! ### Events -/

/-- The row of a field of an event has the annotation and the codec of its type. -/
structure MadeRow (s : Scope) (field : Metadata.EventField) (r : Row) : Prop where
  spelling : s.annotation field.typeId = .ok r.annotation
  codec : s.codec field.typeId = .ok r.codec

theorem makeEventRow_ok {s : Scope} {name : String} {field : Metadata.EventField} {r : Row}
    (h : makeEventRow s name field = .ok r) : r.name = name ∧ MadeRow s field r := by
  obtain ⟨spelling, hspelling, h⟩ := bind_ok h
  obtain ⟨codec, hcodec, h⟩ := bind_ok h
  cases h
  exact ⟨rfl, hspelling, hcodec⟩

/-- What the alternative of an event is made of. -/
structure MadeEvent (s : Scope) (e : Metadata.Event) (a : Alternative) : Prop where
  label : a.label = e.label
  names : a.rows.map (·.name) = Naming.uniqueNames (e.fields.map (·.label)) recordNames
  rows : List.Forall₂ (MadeRow s) e.fields a.rows

theorem MadeEvent.isName {s : Scope} {e : Metadata.Event} {a : Alternative} (h : MadeEvent s e a)
    {r : Row} (hr : r ∈ a.rows) : IsName r.name := by
  have hname : r.name ∈ a.rows.map (·.name) := List.mem_map_of_mem hr
  rw [h.names] at hname
  exact Naming.isName_of_uniqueNames hname

theorem makeEvent_ok {s : Scope} {className : String} {index : Nat} {e : Metadata.Event}
    {a : Alternative} (h : makeEvent s className index e = .ok a) :
    a.className = className ∧ a.index = index ∧ MadeEvent s e a := by
  obtain ⟨rows, hrows, h⟩ := bind_ok h
  cases h
  obtain ⟨hnames, hmade⟩ := forall₂_of_zip (Naming.length_uniqueNames_map _ _ _)
    ((forall₂_of_mapM hrows).imp fun _ _ hrow => makeEventRow_ok hrow)
  exact ⟨rfl, rfl, rfl, hnames, hmade⟩

section
variable {s : Scope} {events : List Metadata.Event} {as : List Alternative}

theorem forall₂_makeEvents (h : makeEvents s events = .ok as) :
    List.Forall₂ (fun (x : (String × Metadata.Event) × Nat) (a : Alternative) =>
      a.className = x.1.1 ∧ a.index = x.2 ∧ MadeEvent s x.1.2 a)
      ((Naming.uniqueNames (events.map (·.label)) [eventClass]).zip events).zipIdx as :=
  (forall₂_of_mapM h).imp fun _ _ ha => makeEvent_ok ha

/-- The classes of events are named after their labels. -/
theorem classNames_makeEvents (h : makeEvents s events = .ok as) :
    as.map (·.className) = Naming.uniqueNames (events.map (·.label)) [eventClass] := by
  rw [map_eq_map_iff_forall₂.mpr ((forall₂_makeEvents h).flip.imp fun _ _ hx => hx.1),
    map_fst_zip_zipIdx (Naming.length_uniqueNames_map _ events _)]

theorem isName_className (h : makeEvents s events = .ok as) {a : Alternative} (ha : a ∈ as) :
    IsName a.className := by
  have hname : a.className ∈ as.map (·.className) := List.mem_map_of_mem ha
  rw [classNames_makeEvents h] at hname
  exact Naming.isName_of_uniqueNames hname

theorem made_of_makeEvents (h : makeEvents s events = .ok as) :
    List.Forall₂ (MadeEvent s) events as := by
  rw [← map_snd_zip_zipIdx (Naming.length_uniqueNames_map (·.label) events [eventClass]),
    List.forall₂_map_left_iff]
  exact (forall₂_makeEvents h).imp fun _ _ hx => hx.2.2

end

/-! ### All parts -/

/-- The context that the declared types are made in. -/
def Context.ofMetadata (room : Room) (m : Metadata) : Context :=
  let scope := Scope.ofMetadata room m
  ⟨scope, moduleNames ++ scope.declarations.map (·.name)⟩

def mutatorSelectors (m : Metadata) : List Bytes :=
  (Metadata.mutators m.messages).map (·.selector)

/-- The parts of bindings, each as it was made, with the contexts behind the declared types and
behind the namespaces. -/
structure Assembled (room : Room) (m : Metadata) (b : Bindings) (c c' : Context) : Prop where
  grouped : Metadata.groupMessages m.messages = .ok (Metadata.groupsOf m.messages)
  declared : makeAllDeclared (.ofMetadata room m) (Scope.ofMetadata room m).declarations =
    .ok (b.declared, c)
  events : makeEvents (Scope.ofMetadata room m) m.events = .ok b.events
  namespaces : makeNamespaces (mutatorSelectors m) c [] (Metadata.groupsOf m.messages).grouped =
    .ok (b.namespaces, c')
  constructors : ((m.constructors.zip
      (methodNames m.constructors (Metadata.inherentOf m.messages)
        (b.namespaces.map (·.property)))).mapM fun (e, name) => makeConstructor c' e name) =
    .ok b.constructors
  messages : (((Metadata.inherentOf m.messages).zip
      ((methodNames m.constructors (Metadata.inherentOf m.messages)
        (b.namespaces.map (·.property))).drop m.constructors.length)).mapM fun (e, name) =>
          makeMessage c' (mutatorSelectors m) e name) = .ok b.messages

theorem grouped_of_outcome {messages : List Metadata.EntryPoint} {g : Metadata.Groups}
    (h : ofMetadata (Metadata.groupMessages messages) = .ok g) :
    Metadata.groupMessages messages = .ok g ∧ g = Metadata.groupsOf messages := by
  cases hgroups : Metadata.groupMessages messages with
  | error e =>
      rw [hgroups] at h
      cases h
  | ok groups =>
      rw [hgroups] at h
      cases h
      exact ⟨rfl, Metadata.groupMessages_ok hgroups⟩

theorem assembled_of_within {room : Room} {m : Metadata} {b : Bindings}
    (h : within? room m = .ok b) : ∃ c c', Assembled room m b c c' := by
  obtain ⟨groups, hgroups, h⟩ := bind_ok h
  obtain ⟨⟨declared, c⟩, hdeclared, h⟩ := bind_ok h
  obtain ⟨events, hevents, h⟩ := bind_ok h
  obtain ⟨⟨namespaces, c'⟩, hnamespaces, h⟩ := bind_ok h
  obtain ⟨constructors, hconstructors, h⟩ := bind_ok h
  obtain ⟨messages, hmessages, h⟩ := bind_ok h
  cases h
  obtain ⟨hgrouped, rfl⟩ := grouped_of_outcome hgroups
  exact ⟨c, c', hgrouped, hdeclared, hevents, hnamespaces, hconstructors, hmessages⟩

/-- What is declared in the bindings is made of the declarations. -/
theorem made_of_within {room : Room} {m : Metadata} {b : Bindings}
    (h : within? room m = .ok b) :
    List.Forall₂ (Made (Scope.ofMetadata room m)) (Scope.ofMetadata room m).declarations
      b.declared := by
  obtain ⟨c, c', hb⟩ := assembled_of_within h
  exact (makeAllDeclared_ok hb.declared).2

end InkBindings.Bindings
