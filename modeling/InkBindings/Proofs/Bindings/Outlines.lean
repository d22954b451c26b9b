import InkBindings.Proofs.Bindings.MadeTypes
import InkBindings.Proofs.Metadata.Renaming

/-!
What references to types depend on. Of a record or a sum this is the path and the parameters, and
not the components: each id has the same annotation and the same codec whatever these are, and so
it has after a renaming.
-/

namespace InkBindings.Metadata

/-- The definitions are the same, or both are of a record or a sum. -/
inductive Definition.Alike : Definition → Definition → Prop
  | same (d : Definition) : Alike d d
  | structured {d d' : Definition} : d.isStructured = true → d'.isStructured = true → Alike d d'

/-- The entries are the same but for docs and components. -/
structure TypeEntry.Alike (e e' : TypeEntry) : Prop where
  id : e'.id = e.id
  path : e'.path = e.path
  parameters : e'.parameters = e.parameters
  definition : e.definition.Alike e'.definition

/-- The declarations have one name for one path, and both are generic or neither is. -/
structure Declaration.Alike (d d' : Declaration) : Prop where
  name : d'.name = d.name
  path : d'.path = d.path
  isGeneric : d'.isGeneric = d.isGeneric

theorem Definition.exists_of_isStructured {d : Definition} (h : d.isStructured = true) :
    (∃ fields, d = .composite fields) ∨ ∃ alternatives, d = .variant alternatives := by
  cases d with
  | composite fields => exact .inl ⟨fields, rfl⟩
  | variant alternatives => exact .inr ⟨alternatives, rfl⟩
  | _ => cases h

namespace TypeEntry.Alike
variable {e e' : TypeEntry} (h : e.Alike e')
include h

theorem name : e'.name = e.name := by rw [TypeEntry.name, TypeEntry.name, h.path]

theorem arguments : e'.arguments = e.arguments := by
  rw [TypeEntry.arguments, TypeEntry.arguments, h.parameters]

theorem isStructured : e'.definition.isStructured = e.definition.isStructured := by
  have hdefinition := h.definition
  generalize e.definition = d, e'.definition = d' at hdefinition
  cases hdefinition with
  | same => rfl
  | structured hd hd' => rw [hd, hd']

theorem kind : e'.kind = e.kind := by
  rw [TypeEntry.kind, TypeEntry.kind, h.path, h.isStructured]

theorem isU8 : e'.isU8 = e.isU8 := by
  have hdefinition := h.definition
  simp only [TypeEntry.isU8]
  generalize e.definition = d, e'.definition = d' at hdefinition
  cases hdefinition with
  | same => rfl
  | structured hd hd' =>
      have hother {d : Definition} (hd : d.isStructured = true) :
          d ≠ .primitive (.int ⟨false, .w8⟩) := by
        rintro rfl
        cases hd
      rw [decide_eq_false (hother hd), decide_eq_false (hother hd')]

end TypeEntry.Alike

theorem TypeEntry.Renamed.alike {r : Renaming} {e e' : TypeEntry} (h : e.Renamed r e') :
    e.Alike e' := by
  refine ⟨h.id, h.path, by rw [h.same], ?_⟩
  have hdefinition := h.definition
  generalize e.definition = d, e'.definition = d' at hdefinition
  cases hdefinition with
  | variant => exact .structured rfl rfl
  | other => exact .same _

end InkBindings.Metadata

namespace InkBindings.Bindings

open Metadata (Declaration Definition Renaming TypeEntry TypeId)

/-- The scopes are of the same types but for their components. -/
structure Scope.Alike (s s' : Scope) : Prop where
  room : s'.room = s.room
  entries : List.Forall₂ TypeEntry.Alike s.registry.entries s'.registry.entries
  declarations : List.Forall₂ Declaration.Alike s.declarations s'.declarations

/-- Each id is annotated and encoded in one way in the two scopes. -/
structure Scope.Same (s s' : Scope) : Prop where
  annotation : s'.annotation = s.annotation
  codec : s'.codec = s.codec

namespace Scope.Alike
variable {s s' : Scope} (h : s.Alike s') {α : Type}
include h

theorem resolve_bind (id : TypeId) {k k' : TypeEntry → Outcome α}
    (hk : ∀ e e', e.Alike e' → k' e' = k e) :
    (s'.resolve id >>= k') = (s.resolve id >>= k) := by
  have hfind := rel_find (p := fun e => decide (e.id = id))
    (q := fun e => decide (e.id = id)) (fun e e' he => by rw [he.id]) h.entries
  simp only [Scope.resolve, Metadata.Registry.resolve, Metadata.Registry.find?]
  generalize List.find? (fun e => decide (e.id = id)) s.registry.entries = found,
    List.find? (fun e => decide (e.id = id)) s'.registry.entries = found' at hfind
  cases hfind with
  | some he => exact hk _ _ he
  | none => rfl

theorem named_bind {e e' : TypeEntry} (he : e.Alike e') {k : Named → Outcome α}
    (hk : ∀ d d' : Declaration, d.Alike d' → k (.declared d') = k (.declared d)) :
    (s'.named e' >>= k) = (s.named e >>= k) := by
  have hbuiltin : Scope.builtin e' = Scope.builtin e := by
    funext b
    simp only [Scope.builtin, he.id, he.name, he.arguments]
  simp only [Scope.named, he.kind, he.name, he.id, he.path, hbuiltin]
  split
  · rfl
  · rfl
  · have hfind := rel_find (p := fun d => decide (d.path = e.path))
      (q := fun d => decide (d.path = e.path)) (fun d d' hd => by rw [hd.path]) h.declarations
    simp only [Scope.declaration?, he.path]
    generalize List.find? (fun d => decide (d.path = e.path)) s.declarations = found,
      List.find? (fun d => decide (d.path = e.path)) s'.declarations = found' at hfind
    cases hfind with
    | some hd => exact hk _ _ hd
    | none => rfl

theorem entryAnnotation_eq (sub : TypeId → Outcome Annotation) {e e' : TypeEntry}
    (he : e.Alike e') : s'.entryAnnotation sub e' = s.entryAnnotation sub e := by
  have hdefinition := he.definition
  rw [ Scope.entryAnnotation, Scope.entryAnnotation, he.id, he.arguments]
  generalize e.definition = d, e'.definition = d' at hdefinition
  cases hdefinition with
  | structured hd hd' =>
      obtain ⟨_, rfl⟩ | ⟨_, rfl⟩ := Definition.exists_of_isStructured hd <;>
        obtain ⟨_, rfl⟩ | ⟨_, rfl⟩ := Definition.exists_of_isStructured hd' <;>
        exact h.named_bind he fun d d' hd => by simp only [hd.name]
  | same =>
      cases d with
      | primitive | compact | bitSequence => rfl
      | tuple items => cases items <;> rfl
      | array item length | sequence item =>
          exact h.resolve_bind item fun i i' hi => by rw [hi.isU8]
      | composite | variant => exact h.named_bind he fun d d' hd => by simp only [hd.name]

theorem entryCodec_eq (sub : TypeId → Outcome Scale.Codec) {e e' : TypeEntry}
    (he : e.Alike e') : s'.entryCodec sub e' = s.entryCodec sub e := by
  have hdeclared (id : TypeId) (d d' : Declaration) (hd : d.Alike d') :
      declaredCodec d' id = declaredCodec d id := by
    simp only [declaredCodec, Declaration.instanceName, hd.isGeneric, hd.name]
  have hdefinition := he.definition
  rw [Scope.entryCodec, Scope.entryCodec, he.id]
  generalize e.definition = d, e'.definition = d' at hdefinition
  cases hdefinition with
  | structured hd hd' =>
      obtain ⟨_, rfl⟩ | ⟨_, rfl⟩ := Definition.exists_of_isStructured hd <;>
        obtain ⟨_, rfl⟩ | ⟨_, rfl⟩ := Definition.exists_of_isStructured hd' <;>
        exact h.named_bind he fun d d' hd => by simp only [hdeclared e.id d d' hd]
  | same =>
      cases d with
      | primitive | compact | bitSequence => rfl
      | tuple items => cases items <;> rfl
      | array item length | sequence item =>
          exact h.resolve_bind item fun i i' hi => by rw [hi.isU8]
      | composite | variant =>
          exact h.named_bind he fun d d' hd => by simp only [hdeclared e.id d d' hd]

omit h in
theorem callsBelow_eq {e e' : TypeEntry} (he : e.Alike e') :
    Scope.callsBelow e' = Scope.callsBelow e := by
  have hdefinition := he.definition
  rw [Scope.callsBelow, Scope.callsBelow, he.kind]
  generalize e.definition = d, e'.definition = d' at hdefinition
  cases hdefinition with
  | structured hd hd' =>
      obtain ⟨_, rfl⟩ | ⟨_, rfl⟩ := Definition.exists_of_isStructured hd <;>
        obtain ⟨_, rfl⟩ | ⟨_, rfl⟩ := Definition.exists_of_isStructured hd' <;> rfl
  | same => rfl

theorem annotationWithin_eq (depth : Nat) (room : Room) (id : TypeId) :
    s'.annotationWithin depth room id = s.annotationWithin depth room id := by
  induction depth generalizing room id with
  | zero => rfl
  | succ depth ih =>
      rw [Scope.annotationWithin, Scope.annotationWithin]
      split
      · rfl
      · refine h.resolve_bind id fun e e' he => ?_
        rw [callsBelow_eq he, h.entryAnnotation_eq _ he]
        exact congrArg ( s.entryAnnotation · e) (funext (ih _))

theorem codecWithin_eq (depth : Nat) (room : Room) (id : TypeId) :
    s'.codecWithin depth room id = s.codecWithin depth room id := by
  induction depth generalizing room id with
  | zero => rfl
  | succ depth ih =>
      rw [Scope.codecWithin, Scope.codecWithin]
      split
      · rfl
      · refine h.resolve_bind id fun e e' he => ?_
        rw [callsBelow_eq he, h.entryCodec_eq _ he]
        exact congrArg (s.entryCodec · e) (funext (ih _))

theorem same : s.Same s' := by
  have hdepth : s'.depth = s.depth := by rw [Scope.depth, Scope.depth, h.entries.length_eq]
  constructor
  · funext id
    rw [ Scope.annotation, Scope.annotation, hdepth, h.room, h.annotationWithin_eq]
  · funext id
    rw [Scope.codec, Scope.codec, hdepth, h.room, h.codecWithin_eq]

end Scope.Alike

theorem alike_ofMetadata {r : Renaming} {m m' : Metadata} (h : m.Renamed r m') (room : Room) :
    (Scope.ofMetadata room m).Alike (Scope.ofMetadata room m') :=
  ⟨rfl, h.types.imp fun _ _ he => he.alike,
    (Metadata.renamed_declarations h.types moduleNames).imp fun _ _ hd =>
      ⟨hd.name, hd.path, hd.isGeneric⟩⟩

end InkBindings.Bindings
