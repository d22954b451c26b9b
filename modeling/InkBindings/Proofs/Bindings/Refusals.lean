import InkBindings.Proofs.Bindings.Descents
import InkBindings.Proofs.Bindings.Instantiations
import InkBindings.Proofs.Metadata.ReadBack

/-!
When metadata is refused with an error of its own. Bindings have been made only if every reference
was rendered, so whatever else is wrong shows: a reference that never ends, and an entry that cannot
go by the class of the first one of its path. Both of these come out as failures of another kind.
-/

namespace InkBindings.Bindings

open Metadata (TypeId TypeEntry Declaration Definition EntryPoint)

/-- A reference to the type has been made an annotation and a codec. -/
def IsRendered (s : Scope) (id : TypeId) : Prop :=
  ∃ a c, s.annotation id = .ok a ∧ s.codec id = .ok c

/-! ### What has been rendered -/

section
variable {s : Scope}

theorem rendered_of_makeRow {instantiations : List Metadata.Fields} {name : String} {place : Nat}
    {field : Metadata.Field} {row : Row} (hagree : agree instantiations place field.typeId = true)
    (h : makeRow s instantiations name place field = .ok row) : IsRendered s field.typeId := by
  rw [makeRow, hagree] at h
  obtain ⟨a, ha, h⟩ := bind_ok h
  obtain ⟨c, hc, -⟩ := bind_ok h
  exact ⟨a, c, ha, hc⟩

/-- The only instantiation agrees with itself, so its components have been annotated. -/
theorem rendered_of_makeRows {fields : Metadata.Fields} {rows : List Row}
    (h : makeRows s fields [] = .ok rows) : ∀ id ∈ fields.typeIds, IsRendered s id := by
  intro id hid
  obtain ⟨field, hfield, rfl⟩ := List.mem_map.mp hid
  have hfields := map_snd_zip_zipIdx (length_fieldNames fields)
  rw [← hfields] at hfield
  obtain ⟨x, hx, rfl⟩ := List.mem_map.mp hfield
  obtain ⟨row, -, hrow⟩ := forall₂_right (forall₂_of_mapM h).flip hx
  have hplace : fields.toList[x.2]? = some x.1.2 := by
    have hzip := List.mem_zipIdx_iff_getElem?.mp hx
    obtain ⟨hname, hfield⟩ := List.getElem?_zip_eq_some.mp hzip
    exact hfield
  exact rendered_of_makeRow (by simp [agree, hplace]) hrow

theorem rendered_of_makeSumLayout {emitted : List Alternative}
    {alternatives : List Metadata.Alternative} {layout : Layout}
    (h : makeSumLayout s emitted alternatives = .ok layout) :
    ∀ a ∈ alternatives, ∀ id ∈ a.fields.typeIds, IsRendered s id := by
  intro a ha
  obtain ⟨items, hitems, -⟩ := bind_ok h
  obtain ⟨p, -, hp⟩ := forall₂_right (forall₂_of_mapM hitems).flip ha
  obtain ⟨className, -, hp⟩ := bind_ok hp
  obtain ⟨rows, hrows, -⟩ := bind_ok hp
  exact rendered_of_makeRows hrows

theorem rendered_of_madeBy {c c' : Context} {d : Declaration} {t : DeclaredType}
    (h : MadeBy c d t c') :
    ∀ e ∈ d.entries, ∀ id ∈ e.definition.componentIds, IsRendered c.scope id := by
  intro e he id hid
  cases h with
  | record _ _ hlayouts =>
      obtain ⟨l, -, -, fields, rows, hdefinition, hrows, -⟩ := forall₂_right hlayouts.flip he
      rw [hdefinition] at hid
      exact rendered_of_makeRows hrows id hid
  | sum _ _ hlayouts =>
      obtain ⟨l, -, -, alternatives, hdefinition, hlayout⟩ := forall₂_right hlayouts.flip he
      rw [hdefinition] at hid
      obtain ⟨a, ha, hid⟩ := List.mem_flatMap.mp hid
      exact rendered_of_makeSumLayout hlayout a ha id hid

theorem rendered_of_makeEvents {events : List Metadata.Event} {as : List Alternative}
    (h : makeEvents s events = .ok as) :
    ∀ e ∈ events, ∀ field ∈ e.fields, IsRendered s field.typeId := by
  intro e he field hfield
  obtain ⟨a, -, ha⟩ := forall₂_right (made_of_makeEvents h).flip he
  obtain ⟨r, -, hr⟩ := forall₂_right ha.rows.flip hfield
  exact ⟨r.annotation, r.codec, hr.spelling, hr.codec⟩

end

theorem rendered_of_makeParameters {c : Context} {e : EntryPoint} {ps : List Parameter}
    (h : makeParameters c e = .ok ps) : ∀ id ∈ e.argumentIds, IsRendered c.scope id := by
  intro id hid
  obtain ⟨a, ha, rfl⟩ := List.mem_map.mp hid
  obtain ⟨p, -, hp⟩ := forall₂_right (makeParameters_ok h).2.flip ha
  exact ⟨p.annotation, p.codec, hp.spelling, hp.codec⟩

theorem rendered_of_methodOf {s : Scope} {mutators : List Bytes} {e : EntryPoint} {x : Message}
    (h : MethodOf s mutators e x) :
    (∀ id ∈ e.argumentIds, IsRendered s id) ∧ ∀ id, e.returnType = some id → IsRendered s id := by
  obtain ⟨c, name, rfl, h⟩ := h
  have hx := madeMessage h
  refine ⟨rendered_of_makeParameters hx.parameters, fun id hid =>
    ⟨x.signature.returns, x.returnCodec, ?_, ?_⟩⟩
  · simpa only [hid, returnAnnotation] using hx.returns
  · simpa only [returnCodec, hid] using hx.codec

theorem rendered_of_constructorOf {s : Scope} {e : EntryPoint} {k : Constructor}
    (h : ConstructorOf s e k) : ∀ id ∈ e.argumentIds, IsRendered s id := by
  obtain ⟨c, name, rfl, h⟩ := h
  exact rendered_of_makeParameters (madeConstructor h).parameters

theorem rendered_of_makeAllDeclared {c c' : Context} {ds : List Declaration}
    {ts : List DeclaredType} (h : makeAllDeclared c ds = .ok (ts, c')) :
    ∀ d ∈ ds, ∀ e ∈ d.entries, ∀ id ∈ e.definition.componentIds, IsRendered c.scope id := by
  induction ds generalizing c ts c' with
  | nil => nofun
  | cons first rest ih =>
      obtain ⟨t, c₁, more, rfl, ht, hmore⟩ := makeAllDeclared_cons h
      intro d hd
      obtain rfl | hd := List.mem_cons.mp hd
      · exact rendered_of_madeBy (madeBy_of_makeDeclared ht)
      · rw [← (makeDeclared_ok ht).2]
        exact ih hmore d hd

/-- Of all references there are, none is left out where bindings have been made. -/
theorem rendered_of_within {room : Room} {m : Metadata} {b : Bindings}
    (h : within? room m = .ok b) :
    ∀ id ∈ m.referenced, IsRendered (Scope.ofMetadata room m) id := by
  intro id hid
  have hmethods := eachMethod_of_within h
  obtain ⟨c, c', hb⟩ := assembled_of_within h
  simp only [Metadata.referenced, List.mem_append, List.mem_flatMap, List.mem_filterMap] at hid
  obtain ((⟨e, he, hid⟩ | ⟨e, he, hid⟩) | ⟨e, he | he, hid⟩) | ⟨e, he, hid⟩ := hid
  · obtain ⟨hentry, hkind⟩ := List.mem_filter.mp he
    obtain ⟨d, hd, hmem⟩ := Metadata.Registry.exists_declaration (r := ⟨m.types⟩) hentry
      (by simpa using hkind) moduleNames
    exact rendered_of_makeAllDeclared hb.declared d hd e hmem id hid
  · obtain ⟨field, hfield, rfl⟩ := List.mem_map.mp hid
    exact rendered_of_makeEvents hb.events e he field hfield
  · obtain ⟨k, -, hk⟩ := forall₂_right (constructorsOf_within h).flip he
    exact rendered_of_constructorOf hk id hid
  · obtain ⟨x, hx⟩ := hmethods.exists_of_mem he
    exact (rendered_of_methodOf hx).1 id hid
  · obtain ⟨x, hx⟩ := hmethods.exists_of_mem he
    exact (rendered_of_methodOf hx).2 id hid

/-! ### What is refused, and what fails in another way -/

/-- The metadata is to be refused with this error: its messages cannot be grouped, or a reference
is to no type or to one that is not supported. -/
def Refused (room : Room) (m : Metadata) (e : MetadataError) : Prop :=
  Metadata.groupMessages m.messages = .error e ∨
    ∃ id ∈ m.referenced, Unrendered (.ofMetadata room m) id (.metadata e)

/-- Every reference has an end in the room there is, and every entry of a path can go by the class
of the first one. -/
structure Sound (room : Room) (m : Metadata) : Prop where
  references : ∀ id ∈ m.referenced, ∀ r, (Scope.ofMetadata room m).Fits r room id
  instantiations : ∀ d ∈ (Scope.ofMetadata room m).declarations, ∀ e ∈ d.entries,
    d.first.definition.Covers e.definition

theorem sound_of_within {room : Room} {m : Metadata} {b : Bindings}
    (h : within? room m = .ok b) : Sound room m := by
  refine ⟨fun id hid r => ?_, fun d hd => ?_⟩
  · obtain ⟨a, c, ha, hc⟩ := rendered_of_within h id hid
    cases r with
    | annotation => exact Scope.fits_of_annotation ha
    | codec => exact Scope.fits_of_codec hc
  · obtain ⟨c, c', hb⟩ := assembled_of_within h
    obtain ⟨t, -, before, after, hmade⟩ :=
      forall₂_right (eachMadeBy_of_makeAllDeclared hb.declared).flip hd
    exact covers_of_madeBy hmade

theorem fails_of_sound {room : Room} {m : Metadata} (h : Sound room m) :
    FailsOnly Failure.IsMetadata (within? room m) := by
  intro f hf
  cases within_fails room m f hf with
  | ungrouped _ => exact ⟨_, rfl⟩
  | unrendered hid hunrendered =>
      obtain ha | hc := hunrendered
      · exact (Scope.annotation_fails_of_fits (h.references _ hid Rendering.annotation) f ha).isMetadata
      · exact (Scope.codec_fails_of_fits (h.references _ hid .codec) f hc).isMetadata
  | uncovered hd he hcovers _ => exact absurd (h.instantiations _ hd _ he) hcovers

theorem refused_of_within {room : Room} {m : Metadata} {e : MetadataError}
    (h : within? room m = .error (.metadata e)) : Refused room m e := by
  cases within_fails room m _ h with
  | ungrouped hgroups => exact .inl hgroups
  | unrendered hid hunrendered => exact .inr ⟨_, hid, hunrendered⟩
  | uncovered _ _ _ hother => exact absurd ⟨e, rfl⟩ hother

/-- Metadata with nothing but types, and an event with one field of type zero. -/
def announcing (types : List TypeEntry) : Metadata where
  codeHash := List.replicate 32 0
  types := types
  constructors := []
  messages := []
  events := [⟨"Changed", [⟨"to", 0, [], false⟩], []⟩]
  name := none

/-- Metadata that is read from a document, and of which no bindings are made for another reason than
an error of metadata. -/
def FailsOtherwise (m : Metadata) : Prop :=
  (∃ j, Metadata.ofJson j = .ok m) ∧ ∃ f, ofMetadata? m = .error f ∧ ¬ f.IsMetadata

theorem failsOtherwise_of_eq {m : Metadata} {f : Failure} (hm : m.WellFormed)
    (hf : ofMetadata? m = .error f) (hother : ∀ e, f ≠ .metadata e) : FailsOtherwise m :=
  ⟨⟨_, Metadata.ofJson_document .brief hm⟩, f, hf, fun ⟨e, he⟩ => hother e he⟩

def off : Definition :=
  .variant [⟨"Off", 0, .positional [], []⟩]

/-- A path of a sum and a record. -/
def mixed : Metadata :=
  announcing [⟨0, off, ["light", "Switch"], [], []⟩,
    ⟨1, .composite (.positional []), ["light", "Switch"], [], []⟩]

/-- A path of two sums with different alternatives. -/
def differing : Metadata :=
  announcing [⟨0, off, ["light", "Switch"], [], []⟩,
    ⟨1, .variant [⟨"On", 0, .positional [], []⟩], ["light", "Switch"], [], []⟩]

/-- A sequence of itself. -/
def endless : Metadata :=
  announcing [⟨0, .sequence 0, [], [], []⟩]

end InkBindings.Bindings
