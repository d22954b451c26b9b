import InkBindings.Proofs.Bindings.MadeMethods
import InkBindings.Proofs.Metadata.Entries

/-!
Why no bindings can be made of metadata: the messages cannot be grouped, a reference to a type
cannot be rendered, or an instantiation is not covered by the first one of its path.
-/

namespace InkBindings

namespace Metadata

def Fields.typeIds (fields : Fields) : List TypeId :=
  fields.toList.map (·.typeId)

/-- The types of the components of a type, those of all its alternatives. -/
def Definition.componentIds : Definition → List TypeId
  | .composite fields => fields.typeIds
  | .variant alternatives => alternatives.flatMap (·.fields.typeIds)
  | _ => []

/-- The class made of the one definition does for the other as well. -/
def Definition.Covers : Definition → Definition → Prop
  | .composite _, .composite _ => True
  | .variant alternatives, .variant others => ∀ b ∈ others, ∃ a ∈ alternatives, a.name = b.name
  | _, _ => False

namespace Definition

variable {definition : Definition}

theorem Covers.composite {fields : Fields} (h : (Definition.composite fields).Covers definition) :
    ∃ others, definition = .composite others := by
  cases definition with
  | composite others => exact ⟨others, rfl⟩
  | _ => cases h

theorem Covers.variant {alternatives : List Alternative}
    (h : (Definition.variant alternatives).Covers definition) :
    ∃ others, definition = .variant others := by
  cases definition with
  | variant others => exact ⟨others, rfl⟩
  | _ => cases h

/-- Only records and sums cover anything. -/
theorem Covers.of_self {other : Definition} (h : definition.Covers other) :
    (∃ fields, definition = .composite fields) ∨ ∃ alternatives, definition = .variant alternatives := by
  cases definition with
  | composite fields => exact .inl ⟨fields, rfl⟩
  | variant alternatives => exact .inr ⟨alternatives, rfl⟩
  | _ => cases h

end Definition

def EntryPoint.argumentIds (e : EntryPoint) : List TypeId :=
  e.arguments.map (·.typeId)

end Metadata

open Metadata in
/-- The types that references are rendered to: of the components of declared types and events, of
arguments, and of the results of messages. -/
def Metadata.referenced (m : Metadata) : List TypeId :=
  (m.types.filter (·.kind = .custom)).flatMap (·.definition.componentIds) ++
    m.events.flatMap (·.fields.map (·.typeId)) ++
    (m.constructors ++ m.messages).flatMap (·.argumentIds) ++ m.messages.filterMap (·.returnType)

namespace Bindings

open Metadata (TypeId TypeEntry Declaration Definition EntryPoint)

/-- A reference to the type is not rendered, for this reason. -/
def Unrendered (s : Scope) (id : TypeId) (f : Failure) : Prop :=
  s.annotation id = .error f ∨ s.codec id = .error f

def Failure.IsMetadata (f : Failure) : Prop :=
  ∃ e, f = .metadata e

section
variable {s : Scope} {p : Failure → Prop}

theorem annotation_fails {id : TypeId} (h : ∀ f, Unrendered s id f → p f) :
    FailsOnly p ( s.annotation id) :=
  fun f hf => h f (.inl hf)

theorem codec_fails {id : TypeId} (h : ∀ f, Unrendered s id f → p f) : FailsOnly p (s.codec id) :=
  fun f hf => h f (.inr hf)

/-! ### Components -/

theorem makeRow_fails {field : Metadata.Field} (h : ∀ f, Unrendered s field.typeId f → p f)
    (instantiations : List Metadata.Fields) (name : String) (place : Nat) :
    FailsOnly p (makeRow s instantiations name place field) := by
  rw [makeRow]
  split
  · exact (annotation_fails h).bind fun _ _ => (codec_fails h).bind fun _ _ => .ok _
  · exact (FailsOnly.ok _).bind fun _ _ => (codec_fails h).bind fun _ _ => .ok _

theorem makeRows_fails {first : Metadata.Fields}
    (h : ∀ id ∈ first.typeIds, ∀ f, Unrendered s id f → p f) (others : List Metadata.Fields) :
    FailsOnly p (makeRows s first others) := by
  refine .mapM fun x hx => makeRow_fails (h x.1.2.typeId ?_) _ _ _
  have hmem : x.1 ∈ (fieldNames first).zip first.toList := List.fst_mem_of_mem_zipIdx hx
  exact List.mem_map_of_mem (List.of_mem_zip hmem).2

/-! ### Declared types -/

/-- What the failures of making a declared type are, if it is one of the entries that fails. -/
structure Explains (s : Scope) (p : Failure → Prop) (d : Declaration) : Prop where
  unrendered : ∀ e ∈ d.entries, ∀ id ∈ e.definition.componentIds, ∀ f, Unrendered s id f → p f
  uncovered : ∀ e ∈ d.entries, ¬ d.first.definition.Covers e.definition →
    ∀ f : Failure, ¬ f.IsMetadata → p f

theorem makeLayouts_fails {d : Declaration} {layout : TypeEntry → Outcome Layout}
    (h : ∀ e ∈ d.entries, FailsOnly p (layout e)) : FailsOnly p (makeLayouts d layout) :=
  .mapM fun e he => (h e he).bind fun _ _ => .ok _

variable {d : Declaration} (hd : Explains s p d)
include hd

theorem recordFields_fails {first : Metadata.Fields}
    (hfirst : d.first.definition = .composite first) {e : TypeEntry} (he : e ∈ d.entries) :
    FailsOnly p (recordFields e) := by
  rw [recordFields]
  split
  · exact .ok _
  · next hdefinition =>
      intro f hf
      cases hf
      refine hd.uncovered e he (fun hcovers => ?_) _ (by simp [Failure.IsMetadata])
      rw [hfirst] at hcovers
      obtain ⟨fields, hother⟩ := hcovers.composite
      exact hdefinition fields hother

theorem makeRecord_fails {first : Metadata.Fields}
    (hfirst : d.first.definition = .composite first) : FailsOnly p (makeRecord s d first) := by
  have hids : ∀ e ∈ d.entries, ∀ fields, e.definition = .composite fields →
      ∀ id ∈ fields.typeIds, ∀ f, Unrendered s id f → p f := by
    intro e he fields hdefinition id hid
    exact hd.unrendered e he id (hdefinition ▸ hid)
  rw [makeRecord]
  refine (FailsOnly.mapM fun e he => recordFields_fails hd hfirst (List.mem_cons_of_mem _ he)).bind
    fun others _ => ?_
  refine (makeRows_fails (hids d.first List.mem_cons_self first hfirst) others).bind fun rows _ => ?_
  split
  · refine (makeLayouts_fails fun e he => ?_).bind fun _ _ => .ok _
    refine (recordFields_fails hd hfirst he).bind fun fields hfields => ?_
    exact (makeRows_fails (hids e he fields (recordFields_ok hfields)) []).bind fun _ _ => .ok _
  · exact .ok _

theorem sumAlternatives_fails {first : List Metadata.Alternative}
    (hfirst : d.first.definition = .variant first) {e : TypeEntry} (he : e ∈ d.entries) :
    FailsOnly p (sumAlternatives e) := by
  rw [sumAlternatives]
  split
  · exact .ok _
  · next hdefinition =>
      intro f hf
      cases hf
      refine hd.uncovered e he (fun hcovers => ?_) _ (by simp [Failure.IsMetadata])
      rw [hfirst] at hcovers
      obtain ⟨alternatives, hother⟩ := hcovers.variant
      exact hdefinition alternatives hother

theorem makeAlternatives_fails {first : List Metadata.Alternative}
    (hfirst : d.first.definition = .variant first) {c : Context} (hc : c.scope = s)
    (alternatives : List Metadata.Alternative) :
    FailsOnly p (makeAlternatives d first c alternatives) := by
  induction alternatives generalizing c with
  | nil => exact .ok _
  | cons a rest ih =>
      have hids : ∀ id ∈ (fieldsOfAlternative a.name first).typeIds, ∀ f,
          Unrendered s id f → p f := by
        intro id hid
        rw [fieldsOfAlternative] at hid
        split at hid
        · next b hfind =>
            refine hd.unrendered d.first List.mem_cons_self id ?_
            rw [hfirst]
            exact List.mem_flatMap.mpr ⟨b, List.mem_of_find?_eq_some hfind, hid⟩
        · cases hid
      rw [makeAlternatives]
      refine FailsOnly.bind ?_ fun made hmade => ?_
      · rw [makeAlternative]
        refine (FailsOnly.mapM fun e he =>
          sumAlternatives_fails hd hfirst (List.mem_cons_of_mem _ he)).bind fun others _ => ?_
        subst hc
        exact (makeRows_fails hids _).bind fun _ _ => .ok _
      · obtain ⟨others, -, hmade⟩ := bind_ok hmade
        obtain ⟨rows, -, hmade⟩ := bind_ok hmade
        cases hmade
        have hrest : FailsOnly p (makeAlternatives d first
            (c.choose s!"_{d.name}_{a.name}").2 rest) := ih hc
        exact hrest.bind fun _ _ => .ok _

theorem makeSumLayout_fails {first : List Metadata.Alternative}
    (hfirst : d.first.definition = .variant first) {emitted : List Alternative}
    (hemitted : List.Forall₂ (fun (a : Metadata.Alternative) (b : Alternative) => a.name = b.label)
      first emitted) {e : TypeEntry} (he : e ∈ d.entries)
    {alternatives : List Metadata.Alternative} (hdefinition : e.definition = .variant alternatives) :
    FailsOnly p (makeSumLayout s emitted alternatives) := by
  refine (FailsOnly.mapM fun a ha => ?_).bind fun _ _ => .ok _
  refine FailsOnly.bind ?_ fun _ _ => ?_
  · rw [classOf]
    split
    · exact .ok _
    · next hnone =>
        intro f hf
        cases hf
        refine hd.uncovered e he (fun hcovers => ?_) _ (by simp [Failure.IsMetadata])
        rw [hfirst, hdefinition] at hcovers
        obtain ⟨b, hb, hname⟩ := hcovers a ha
        obtain ⟨x, hx, hlabel⟩ := forall₂_right hemitted.flip hb
        have hother := List.find?_eq_none.mp hnone x (List.mem_reverse.mpr hx)
        exact hother (by simp [← hlabel, hname])
  · refine (makeRows_fails (fun id hid => ?_) []).bind fun _ _ => .ok _
    refine hd.unrendered e he id ?_
    rw [hdefinition]
    exact List.mem_flatMap.mpr ⟨a, ha, hid⟩

theorem makeSum_fails {first : List Metadata.Alternative}
    (hfirst : d.first.definition = .variant first) {c : Context} (hc : c.scope = s) :
    FailsOnly p (makeSum c d first) := by
  rw [makeSum]
  refine (makeAlternatives_fails hd hfirst hc first).bind fun made hmade => ?_
  obtain ⟨emitted, c'⟩ := made
  obtain ⟨hscope, hemitted⟩ := makeAlternatives_ok hmade
  have hlabels := hemitted.imp fun _ _ hb => hb.2.1
  obtain rfl : c'.scope = s := hscope.trans hc
  dsimp only
  split
  · refine (makeLayouts_fails fun e he => ?_).bind fun _ _ => .ok _
    refine (sumAlternatives_fails hd hfirst he).bind fun alternatives hother => ?_
    exact makeSumLayout_fails hd hfirst hlabels he (sumAlternatives_ok hother)
  · exact (makeSumLayout_fails hd hfirst hlabels List.mem_cons_self hfirst).bind fun _ _ => .ok _

theorem makeDeclared_fails {c : Context} (hc : c.scope = s) : FailsOnly p (makeDeclared c d) := by
  rw [makeDeclared]
  split
  · next first hfirst =>
      rw [hc]
      exact (makeRecord_fails hd hfirst).bind fun _ _ => .ok _
  · next hdefinition =>
      refine FailsOnly.bind ?_ fun first hfirst =>
        makeSum_fails hd (sumAlternatives_ok hfirst) hc
      rw [sumAlternatives]
      split
      · exact .ok _
      · next hother =>
          intro f hf
          cases hf
          refine hd.uncovered d.first List.mem_cons_self (fun hcovers => ?_) _
            (by simp [Failure.IsMetadata])
          obtain ⟨fields, hfirst⟩ | ⟨alternatives, hfirst⟩ := hcovers.of_self
          · exact hdefinition fields hfirst
          · exact hother alternatives hfirst

omit hd in
theorem makeAllDeclared_fails {ds : List Declaration} (hds : ∀ d ∈ ds, Explains s p d)
    {c : Context} (hc : c.scope = s) : FailsOnly p (makeAllDeclared c ds) := by
  induction ds generalizing c with
  | nil => exact .ok _
  | cons d rest ih =>
      rw [makeAllDeclared]
      refine (makeDeclared_fails (hds d List.mem_cons_self) hc).bind fun made hmade => ?_
      have hscope := (makeDeclared_ok hmade).2.trans hc
      exact (ih (fun d hd => hds d (List.mem_cons_of_mem _ hd)) hscope).bind fun _ _ => .ok _

/-! ### Events, constructors and messages -/

omit hd

theorem makeEvents_fails {events : List Metadata.Event}
    (h : ∀ id ∈ events.flatMap (·.fields.map (·.typeId)), ∀ f, Unrendered s id f → p f) :
    FailsOnly p (makeEvents s events) := by
  refine .mapM fun x hx => ?_
  have hevent : x.1 ∈ (Naming.uniqueNames (events.map (·.label)) [eventClass]).zip events :=
    List.fst_mem_of_mem_zipIdx hx
  refine FailsOnly.bind (.mapM fun y hy => ?_) fun _ _ => .ok _
  have hid : y.2.typeId ∈ events.flatMap (·.fields.map (·.typeId)) :=
    List.mem_flatMap.mpr ⟨x.1.2, (List.of_mem_zip hevent).2,
      List.mem_map_of_mem (List.of_mem_zip hy).2⟩
  exact (annotation_fails (h _ hid)).bind fun _ _ =>
    (codec_fails (h _ hid)).bind fun _ _ => .ok _

theorem makeParameters_fails {c : Context} (hc : c.scope = s) {e : EntryPoint}
    (h : ∀ id ∈ e.argumentIds, ∀ f, Unrendered s id f → p f) :
    FailsOnly p (makeParameters c e) := by
  refine .mapM fun x hx => ?_
  have hid : x.2.typeId ∈ e.argumentIds := List.mem_map_of_mem (List.of_mem_zip hx).2
  subst hc
  exact (annotation_fails (h _ hid)).bind fun _ _ =>
    (codec_fails (h _ hid)).bind fun _ _ => .ok _

/-- What the failures of making a method are. -/
structure ExplainsMethod (s : Scope) (p : Failure → Prop) (e : EntryPoint) : Prop where
  arguments : ∀ id ∈ e.argumentIds, ∀ f, Unrendered s id f → p f
  result : ∀ id, e.returnType = some id → ∀ f, Unrendered s id f → p f

theorem returnAnnotation_fails {e : EntryPoint} (he : ExplainsMethod s p e) :
    FailsOnly p <| returnAnnotation s e := by
  unfold returnAnnotation
  split
  · next id hid => exact annotation_fails (he.result id hid)
  · exact .ok _

theorem returnCodec_fails {e : EntryPoint} (he : ExplainsMethod s p e) :
    FailsOnly p (returnCodec s e) := by
  rw [returnCodec]
  split
  · next id hid => exact codec_fails (he.result id hid)
  · exact .ok _

theorem makeSignature_fails {c : Context} (hc : c.scope = s) {e : EntryPoint}
    (he : ExplainsMethod s p e) (mutators : List Bytes) (name : String) :
    FailsOnly p (makeSignature c mutators e name) := by
  refine (makeParameters_fails hc he.arguments).bind fun _ _ => ?_
  subst hc
  exact (returnAnnotation_fails he).bind fun _ _ => .ok _

theorem makeMessage_fails {c : Context} (hc : c.scope = s) {e : EntryPoint}
    (he : ExplainsMethod s p e) (mutators : List Bytes) (name : String) :
    FailsOnly p (makeMessage c mutators e name) := by
  refine (makeParameters_fails hc he.arguments).bind fun _ _ => ?_
  subst hc
  exact (returnCodec_fails he).bind fun _ _ =>
    (returnAnnotation_fails he).bind fun _ _ => .ok _

theorem makeNamespace_fails {c : Context} (hc : c.scope = s) {es : List EntryPoint}
    (hes : ∀ e ∈ es, ExplainsMethod s p e) (mutators : List Bytes) (properties : List String)
    (label : String) : FailsOnly p (makeNamespace c mutators properties label es) := by
  have hmethods : ∀ {names : List String}, ∀ method ∈ es.zip names,
      ExplainsMethod s p method.1 := fun method hmethod => hes _ (List.of_mem_zip hmethod).1
  refine FailsOnly.bind (.mapM fun x hx => ?_) fun _ _ =>
    FailsOnly.bind (.mapM fun x hx => ?_) fun _ _ => .ok _
  · refine makeSignature_fails ?_ (hmethods x hx) mutators x.2
    exact hc
  · refine makeMessage_fails ?_ (hmethods x hx) mutators x.2
    exact hc

theorem makeNamespaces_fails {groups : List (String × List EntryPoint)}
    (hgroups : ∀ g ∈ groups, ∀ e ∈ g.2, ExplainsMethod s p e) (mutators : List Bytes)
    {c : Context} (hc : c.scope = s) (properties : List String) :
    FailsOnly p (makeNamespaces mutators c properties groups) := by
  induction groups generalizing c properties with
  | nil => exact .ok _
  | cons g rest ih =>
      obtain ⟨label, es⟩ := g
      have hfirst := hgroups _ List.mem_cons_self
      rw [makeNamespaces]
      refine (makeNamespace_fails hc hfirst mutators properties label).bind fun made hmade => ?_
      have hscope := (makeNamespace_ok hmade).1.scope.trans hc
      exact (ih (fun g hg => hgroups g (List.mem_cons_of_mem _ hg)) hscope _).bind fun _ _ => .ok _

end

/-! ### All reasons -/

/-- Why no bindings are made of the metadata. -/
inductive Reason (room : Room) (m : Metadata) : Failure → Prop
  | ungrouped {e} : Metadata.groupMessages m.messages = .error e → Reason room m (.metadata e)
  | unrendered {id f} : id ∈ m.referenced → Unrendered (.ofMetadata room m) id f → Reason room m f
  | uncovered {d e f} : d ∈ (Scope.ofMetadata room m).declarations → e ∈ d.entries →
      ¬ d.first.definition.Covers e.definition → ¬ Failure.IsMetadata f → Reason room m f

theorem Reason.explains {room : Room} {m : Metadata} {d : Declaration}
    (hd : d ∈ (Scope.ofMetadata room m).declarations) :
    Explains (.ofMetadata room m) (Reason room m) d := by
  refine ⟨fun e he id hid f hf => .unrendered ?_ hf, fun e he hcovers f hf =>
    .uncovered hd he hcovers hf⟩
  obtain ⟨hentry, hkind, -⟩ := (Metadata.Registry.mem_entries_iff_of_mem hd).mp he
  have hcustom : e ∈ m.types.filter (·.kind = .custom) :=
    List.mem_filter.mpr ⟨hentry, by simpa using hkind⟩
  simp only [Metadata.referenced, List.mem_append]
  exact .inl (.inl (.inl (List.mem_flatMap.mpr ⟨e, hcustom, hid⟩)))

theorem Reason.explainsMethod {room : Room} {m : Metadata} {e : EntryPoint} (he : e ∈ m.messages) :
    ExplainsMethod (.ofMetadata room m) (Reason room m) e := by
  refine ⟨fun id hid f hf => .unrendered ?_ hf, fun id hid f hf => .unrendered ?_ hf⟩
  · simp only [Metadata.referenced, List.mem_append]
    exact .inl (.inr (List.mem_flatMap.mpr ⟨e, List.mem_append_right _ he, hid⟩))
  · simp only [Metadata.referenced, List.mem_append]
    exact .inr (List.mem_filterMap.mpr ⟨e, he, hid⟩)

theorem within_fails (room : Room) (m : Metadata) :
    FailsOnly (Reason room m) (within? room m) := by
  have hgrouping : FailsOnly (Reason room m) (ofMetadata (Metadata.groupMessages m.messages)) := by
    intro f hf
    cases hgroups : Metadata.groupMessages m.messages with
    | ok g =>
        rw [hgroups] at hf
        cases hf
    | error e =>
        rw [hgroups] at hf
        cases hf
        exact .ungrouped hgroups
  refine hgrouping.bind fun groups hgroups => ?_
  obtain ⟨-, rfl⟩ := grouped_of_outcome hgroups
  refine (makeAllDeclared_fails (fun d hd => Reason.explains hd) rfl).bind fun made hmade => ?_
  obtain ⟨declared, c⟩ := made
  have hc : c.scope = Scope.ofMetadata room m := (makeAllDeclared_ok hmade).1
  refine FailsOnly.bind (makeEvents_fails fun id hid f hf => .unrendered ?_ hf) fun events _ => ?_
  · simp only [Metadata.referenced, List.mem_append]
    exact .inl (.inl (.inr hid))
  have hgrouped : ∀ g ∈ (Metadata.groupsOf m.messages).grouped, ∀ e ∈ g.2,
      ExplainsMethod (.ofMetadata room m) (Reason room m) e := by
    intro g hg e he
    obtain ⟨label, -, rfl⟩ := List.mem_map.mp hg
    exact Reason.explainsMethod (List.mem_of_mem_filter he)
  refine (makeNamespaces_fails hgrouped (mutatorSelectors m) hc []).bind fun made hmade => ?_
  obtain ⟨namespaces, c'⟩ := made
  have hc' : c'.scope = Scope.ofMetadata room m := (makeNamespaces_ok hmade).1.scope.trans hc
  refine FailsOnly.bind (.mapM fun x hx => ?_) fun constructors _ => ?_
  · refine FailsOnly.bind (makeParameters_fails hc' fun id hid f hf => .unrendered ?_ hf)
      fun _ _ => .ok _
    simp only [Metadata.referenced, List.mem_append]
    exact .inl (.inr (List.mem_flatMap.mpr
      ⟨x.1, List.mem_append_left _ (List.of_mem_zip hx).1, hid⟩))
  refine FailsOnly.bind (.mapM fun x hx => ?_) fun messages _ => .ok _
  exact makeMessage_fails hc'
    (Reason.explainsMethod (List.mem_of_mem_filter (List.of_mem_zip hx).1)) _ _

end Bindings
end InkBindings
