import InkBindings.Proofs.Bindings.CompletePhrases
import InkBindings.Proofs.Bindings.EntryPoints

/-!
Bindings are made of names and of expressions that reading leads back to the code from. Only labels
and documentation are taken over from the contract as they are.
-/

namespace InkBindings.Bindings

open Metadata (Declaration EntryPoint)
open Naming (IsName)

/-! ### What is written -/

structure Row.Complete (qualifier : String) (r : Row) : Prop where
  name : IsName r.name
  annotation : IsComplete ( r.annotation.text qualifier)
  codec : IsComplete (expression qualifier r.codec)

structure Alternative.Complete (qualifier : String) (a : Alternative) : Prop where
  className : IsName a.className
  rows : ∀ r ∈ a.rows, r.Complete qualifier

def Shape.Complete : Shape → Prop
  | .record rows => ∀ r ∈ rows, r.Complete ""
  | .sum alternatives => ∀ a ∈ alternatives, a.Complete ""

/-- A layout, and what it is bound to. -/
structure CompleteLayout (l : Scale.Reference × Layout) : Prop where
  reference : IsComplete (referenceName l.1)
  owner : IsComplete l.1.owner
  layout : IsComplete (layoutText "" l.2)

structure DeclaredType.Complete (t : DeclaredType) : Prop where
  name : IsName t.name
  shape : t.shape.Complete
  layouts : ∀ l ∈ t.layouts, CompleteLayout l

structure Parameter.Complete (p : Parameter) : Prop where
  name : IsName p.name
  annotation : IsComplete ( p.annotation.text "")
  codec : IsComplete (expression "" p.codec)

structure Signature.Complete (s : Signature) : Prop where
  name : IsName s.name
  parameters : ∀ p ∈ s.parameters, p.Complete
  returns : IsComplete (s.returns.text "")

structure Message.Complete (x : Message) : Prop where
  signature : x.signature.Complete
  returnCodec : IsComplete (expression "" x.returnCodec)

structure Constructor.Complete (k : Constructor) : Prop where
  name : IsName k.name
  parameters : ∀ p ∈ k.parameters, p.Complete

structure Namespace.Complete (n : Namespace) : Prop where
  interface : IsName n.interface
  implementation : IsName n.implementation
  property : IsName n.property
  signatures : ∀ s ∈ n.signatures, s.Complete
  messages : ∀ x ∈ n.messages, x.Complete

structure Complete (b : Bindings) : Prop where
  declared : ∀ t ∈ b.declared, t.Complete
  events : ∀ a ∈ b.events, a.Complete moduleQualifier
  namespaces : ∀ n ∈ b.namespaces, n.Complete
  constructors : ∀ k ∈ b.constructors, k.Complete
  messages : ∀ x ∈ b.messages, x.Complete

/-! ### Layouts -/

/-- A component of a layout is written with a name and with an expression that is complete. -/
structure CompleteField (qualifier : String) (f : String × Scale.Codec) : Prop where
  name : IsName f.1
  codec : IsComplete (expression qualifier f.2)

theorem isComplete_fieldList {qualifier : String} {fields : Scale.Fields}
    (h : ∀ f ∈ fields, CompleteField qualifier f) : IsComplete (fieldList qualifier fields) := by
  have hopening : IsComplete "[" := isComplete_ofList rfl
  have hcomma : IsComplete ", " := isComplete_ofList rfl
  have hclosing : IsComplete "]" := isComplete_ofList rfl
  refine (hopening.append (isComplete_intercalate hcomma fun l hl => ?_)).append hclosing
  obtain ⟨f, hf, rfl⟩ := List.mem_map.mp hl
  have hbracket : IsComplete "(" := isComplete_ofList rfl
  have hend : IsComplete ")" := isComplete_ofList rfl
  have hquoted := isComplete_quotedName (h f hf).name
  have htext : s!"(\"{f.1}\", {expression qualifier f.2})" =
      "(" ++ ("\"" ++ f.1 ++ "\"") ++ ", " ++ expression qualifier f.2 ++ ")" := by
    rw [← String.toList_inj]
    simp [toString]
  rw [htext]
  exact (((hbracket.append hquoted).append hcomma).append (h f hf).codec).append hend

theorem isComplete_sumText {qualifier : String} {alternatives : List (String × Scale.Fields)}
    (h : ∀ a ∈ alternatives, IsName a.1 ∧ ∀ f ∈ a.2, CompleteField qualifier f) :
    IsComplete (layoutText qualifier (.sum alternatives)) := by
  have hopening : IsComplete "[" := isComplete_ofList rfl
  have hcomma : IsComplete ", " := isComplete_ofList rfl
  have hclosing : IsComplete "]" := isComplete_ofList rfl
  have hbracket : IsComplete "(" := isComplete_ofList rfl
  have hend : IsComplete ")" := isComplete_ofList rfl
  refine (hopening.append (isComplete_intercalate hcomma fun l hl => ?_)).append hclosing
  obtain ⟨a, ha, rfl⟩ := List.mem_map.mp hl
  obtain ⟨hname, hfields⟩ := h a ha
  exact (((hbracket.append (isComplete_name hname)).append hcomma).append
    (isComplete_fieldList hfields)).append hend

theorem Laid.completeFields {s : Scope} (hs : ∀ d ∈ s.declarations, IsName d.name)
    {fields : Metadata.Fields} {components : Scale.Fields} (h : Laid s fields components) :
    ∀ f ∈ components, CompleteField "" f := by
  intro f hf
  obtain ⟨field, -, hname, hcodec⟩ := forall₂_right h hf
  exact ⟨hname, isComplete_codec hs isComplete_empty hcodec⟩

theorem LayoutFor.isComplete {s : Scope} (hs : ∀ d ∈ s.declarations, IsName d.name)
    {emitted : List Alternative} (hclasses : ∀ a ∈ emitted, IsName a.className)
    {definition : Metadata.Definition} {layout : Layout}
    (h : LayoutFor s emitted definition layout) : IsComplete (layoutText "" layout) := by
  cases h with
  | record hlaid => exact isComplete_fieldList (hlaid.completeFields hs)
  | sum halternatives =>
      refine isComplete_sumText fun row hrow => ?_
      obtain ⟨a, -, ⟨b, hb, -, hclass⟩, hlaid⟩ := forall₂_right halternatives hrow
      exact ⟨hclass ▸ hclasses b hb, hlaid.completeFields hs⟩

theorem Made.completeLayouts {s : Scope} (hs : ∀ d ∈ s.declarations, IsName d.name)
    {d : Declaration} (hd : IsName d.name) {t : DeclaredType} (h : Made s d t) :
    ∀ l ∈ t.layouts, CompleteLayout l := by
  intro l hl
  obtain ⟨e, -, hreference, hlayout⟩ := forall₂_right h.layouts hl
  refine ⟨?_, ?_, hlayout.isComplete hs fun a ha => (h.alternatives a ha).1⟩
  · rw [hreference]
    exact isComplete_reference hd e.id
  · rw [hreference, owner_entryReference]
    exact isComplete_name hd

/-! ### Components -/

theorem complete_makeRow {s : Scope} (hs : ∀ d ∈ s.declarations, IsName d.name)
    {instantiations : List Metadata.Fields} {name : String} (hname : IsName name) {place : Nat}
    {field : Metadata.Field} {row : Row}
    (h : makeRow s instantiations name place field = .ok row) : row.Complete "" := by
  obtain ⟨hrow, hcodec⟩ := makeRow_ok h
  refine ⟨hrow ▸ hname, ?_, isComplete_codec hs isComplete_empty hcodec⟩
  simp only [makeRow] at h
  split at h
  · obtain ⟨a, ha, h⟩ := bind_ok h
    obtain ⟨codec, -, h⟩ := bind_ok h
    cases h
    exact isComplete_annotation hs isComplete_empty ha
  · obtain ⟨a, ha, h⟩ := bind_ok h
    obtain ⟨codec, -, h⟩ := bind_ok h
    cases h
    cases ha
    have hany : IsComplete "Any" := isComplete_ofList rfl
    simpa only [ Annotation.text] using hany

theorem complete_makeRows {s : Scope} (hs : ∀ d ∈ s.declarations, IsName d.name)
    {first : Metadata.Fields} {others : List Metadata.Fields} {rows : List Row}
    (h : makeRows s first others = .ok rows) : ∀ r ∈ rows, r.Complete "" := by
  intro r hr
  obtain ⟨x, hx, hmade⟩ := forall₂_right (forall₂_of_mapM h) hr
  have hmem : x.1 ∈ (fieldNames first).zip first.toList := List.fst_mem_of_mem_zipIdx hx
  exact complete_makeRow hs (isName_of_fieldNames (List.of_mem_zip hmem).1) hmade

theorem complete_makeAlternatives {d : Declaration} {first alternatives : List Metadata.Alternative}
    {c c' : Context} (hs : ∀ d ∈ c.scope.declarations, IsName d.name) {emitted : List Alternative}
    (h : makeAlternatives d first c alternatives = .ok (emitted, c')) :
    ∀ a ∈ emitted, a.Complete "" := by
  induction alternatives generalizing c emitted c' with
  | nil =>
      cases h
      exact nofun
  | cons a rest ih =>
      rw [makeAlternatives] at h
      obtain ⟨⟨b, c₁⟩, hb, h⟩ := bind_ok h
      obtain ⟨⟨more, c₂⟩, hmore, h⟩ := bind_ok h
      cases h
      obtain ⟨others, -, hb⟩ := bind_ok hb
      obtain ⟨rows, hrows, hb⟩ := bind_ok hb
      cases hb
      have hrest := ih (by exact hs) hmore
      exact List.forall_mem_cons.mpr
        ⟨⟨Naming.isName_identifier _ _, complete_makeRows hs hrows⟩, hrest⟩

theorem MadeBy.completeShape {c c' : Context} (hs : ∀ d ∈ c.scope.declarations, IsName d.name)
    {d : Declaration} {t : DeclaredType} (h : MadeBy c d t c') : t.shape.Complete := by
  cases h with
  | record _ hrows _ => exact complete_makeRows hs hrows
  | sum _ hemitted _ => exact complete_makeAlternatives hs hemitted

theorem complete_makeAllDeclared {c c' : Context}
    (hs : ∀ d ∈ c.scope.declarations, IsName d.name) {ds : List Declaration}
    (hds : ∀ d ∈ ds, IsName d.name) {ts : List DeclaredType}
    (h : makeAllDeclared c ds = .ok (ts, c')) : ∀ t ∈ ts, t.Complete := by
  induction ds generalizing c ts with
  | nil =>
      cases h
      exact nofun
  | cons d rest ih =>
      obtain ⟨t, c₁, more, rfl, ht, hmore⟩ := makeAllDeclared_cons h
      obtain ⟨hd, hrest⟩ := List.forall_mem_cons.mp hds
      obtain ⟨hmade, hscope⟩ := makeDeclared_ok ht
      refine List.forall_mem_cons.mpr ⟨?_, ih (hscope ▸ hs) hrest hmore⟩
      exact ⟨hmade.name ▸ hd, (madeBy_of_makeDeclared ht).completeShape hs,
        hmade.completeLayouts hs hd⟩

theorem isComplete_moduleQualifier : IsComplete moduleQualifier := rfl

theorem complete_makeEvents {s : Scope} (hs : ∀ d ∈ s.declarations, IsName d.name)
    {events : List Metadata.Event} {made : List Alternative} (h : makeEvents s events = .ok made) :
    ∀ a ∈ made, a.Complete moduleQualifier := by
  intro a ha
  obtain ⟨e, -, hmade⟩ := forall₂_right (made_of_makeEvents h) ha
  refine ⟨isName_className h ha, fun r hr => ?_⟩
  obtain ⟨field, -, hrow⟩ := forall₂_right hmade.rows hr
  exact ⟨hmade.isName hr, isComplete_annotation hs isComplete_moduleQualifier hrow.spelling,
    isComplete_codec hs isComplete_moduleQualifier hrow.codec⟩

/-! ### Methods -/

section
variable {c : Context} (hs : ∀ d ∈ c.scope.declarations, IsName d.name) {e : EntryPoint}
include hs

theorem complete_makeParameters {ps : List Parameter} (h : makeParameters c e = .ok ps) :
    ∀ p ∈ ps, p.Complete := by
  intro p hp
  obtain ⟨a, -, ha⟩ := forall₂_right (makeParameters_ok h).2 hp
  exact ⟨isName_parameter h hp, isComplete_annotation hs isComplete_empty ha.spelling,
    isComplete_codec hs isComplete_empty ha.codec⟩

theorem isComplete_returnAnnotation {a : Annotation} (h : returnAnnotation c.scope e = .ok a) :
    IsComplete (a.text "") := by
  rw [ returnAnnotation] at h
  split at h
  · exact isComplete_annotation hs isComplete_empty h
  · cases h
    rfl

theorem isComplete_returnCodec {codec : Scale.Codec} (h : returnCodec c.scope e = .ok codec) :
    IsComplete (expression "" codec) := by
  rw [returnCodec] at h
  split at h
  · exact isComplete_codec hs isComplete_empty h
  · cases h
    rfl

end

theorem MethodOf.complete {s : Scope} (hs : ∀ d ∈ s.declarations, IsName d.name)
    {mutators : List Bytes} {e : EntryPoint} {x : Message} (hname : IsName x.signature.name)
    (h : MethodOf s mutators e x) : x.Complete := by
  obtain ⟨c, name, rfl, h⟩ := h
  have hx := madeMessage h
  exact ⟨⟨hname, complete_makeParameters hs hx.parameters,
    isComplete_returnAnnotation hs hx.returns⟩, isComplete_returnCodec hs hx.codec⟩

theorem ConstructorOf.complete {s : Scope} (hs : ∀ d ∈ s.declarations, IsName d.name)
    {e : EntryPoint} {k : Constructor} (hname : IsName k.name) (h : ConstructorOf s e k) :
    k.Complete := by
  obtain ⟨c, name, rfl, h⟩ := h
  exact ⟨hname, complete_makeParameters hs (madeConstructor h).parameters⟩

/-! ### The module -/

/-- Names that are chosen together are names. -/
theorem isName_of_map_eq {α : Type} {name : α → String} {xs : List α}
    {labels reserved : List String} (h : xs.map name = Naming.uniqueNames labels reserved) {x : α}
    (hx : x ∈ xs) : IsName (name x) :=
  Naming.isName_of_uniqueNames (h ▸ List.mem_map_of_mem hx)

theorem complete_of_within {room : Room} {m : Metadata} {b : Bindings}
    (h : within? room m = .ok b) : b.Complete := by
  obtain ⟨c, c', hb⟩ := assembled_of_within h
  have hs : ∀ d ∈ (Scope.ofMetadata room m).declarations, IsName d.name := isName_of_mem_scope
  have hnames := entryNames_of_within h
  have hmethods := eachMethod_of_within h
  refine ⟨complete_makeAllDeclared hs hs hb.declared, complete_makeEvents hs hb.events, ?_, ?_, ?_⟩
  · intro n hn
    obtain ⟨hproperty, hclasses⟩ := (classNames_of_within h).2 n hn
    have hclass : ∀ name ∈ n.classNames, IsName name := fun name hname => (hclasses name hname).1
    obtain ⟨hinterface, himplementation⟩ := List.forall_mem_cons.mp hclass
    obtain ⟨label, -, ⟨-, hserved, hsignatures⟩, hmembers⟩ :=
      forall₂_right (forall₂_and hmethods.namespaces hnames.members) hn
    have hmessages : ∀ x ∈ n.messages, x.Complete := by
      intro x hx
      obtain ⟨e, -, hmethod⟩ := forall₂_right hserved hx
      exact hmethod.complete hs (isName_of_map_eq hmembers hx)
    refine ⟨hinterface, List.forall_mem_singleton.mp himplementation, hproperty, ?_, hmessages⟩
    rw [hsignatures]
    intro s hmem
    obtain ⟨x, hx, rfl⟩ := List.mem_map.mp hmem
    exact (hmessages x hx).signature
  · intro k hk
    obtain ⟨e, -, hconstructor⟩ := forall₂_right (constructorsOf_within h) hk
    exact hconstructor.complete hs (isName_of_map_eq hnames.constructors hk)
  · intro x hx
    obtain ⟨e, -, hmethod⟩ := forall₂_right hmethods.inherent hx
    exact hmethod.complete hs (isName_of_map_eq hnames.messages hx)

end InkBindings.Bindings
