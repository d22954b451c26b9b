import InkBindings.Proofs.Bindings.Failing
import Mathlib.Logic.Relation
import Mathlib.Order.WellFounded

/-!
Where rendering a reference to a type goes. A descent follows the ids in the definition of an entry
to the entries of these; it ends if no id leads back to itself, and then it has passed no entry
twice, so that the number of entries is enough of a bound.
-/

namespace InkBindings.Bindings

open Metadata (TypeId TypeEntry)

/-- The two things that are made of a reference to a type. -/
inductive Rendering
  | annotation
  | codec

/-- There is no type of an id, or it is one that is not supported. -/
def Failure.IsReference (f : Failure) : Prop :=
  (∃ id, f = .metadata (.unresolved id)) ∨ ∃ id reason, f = .metadata (.unsupported id reason)

theorem Failure.IsReference.isMetadata {f : Failure} (h : f.IsReference) : f.IsMetadata := by
  obtain ⟨id, rfl⟩ | ⟨id, reason, rfl⟩ := h <;> exact ⟨_, rfl⟩

namespace Scope

/-- The arguments that the rendering of a composite or a variant goes on to. The codec of a
declared type is told without them. -/
def followedArguments (r : Rendering) (e : TypeEntry) : List TypeId :=
  match e.kind, r with
  | .reserved, _ | .custom, .codec => []
  | .builtin, _ | .custom, Rendering.annotation => e.arguments

/-- The ids that the rendering of an entry goes on to. Byte strings are told without their items. -/
def followed (s : Scope) (r : Rendering) (e : TypeEntry) : List TypeId :=
  match e.definition with
  | .primitive _ | .bitSequence _ _ => []
  | .tuple items => items
  | .array item _ | .sequence item =>
    if (s.registry.find? item).any (·.isU8) then [] else [item]
  | .compact item => [item]
  | .composite _ | .variant _ => followedArguments r e

/-- Rendering the type goes on to the other one. -/
def Follows (s : Scope) (r : Rendering) (id other : TypeId) : Prop :=
  ∃ e, s.registry.find? id = some e ∧ other ∈ s.followed r e

/-- All that rendering the type goes on to, and so on, comes to an end while there is room. -/
inductive Fits (s : Scope) (r : Rendering) : Room → TypeId → Prop
  | intro {room id} : room.holds callsToResolve = true →
      (∀ e, s.registry.find? id = some e → ∀ other ∈ s.followed r e,
        Fits s r (room.inside (callsBelow e)) other) →
      Fits s r room id

variable {s : Scope} {r : Rendering} {room : Room} {id : TypeId}

/-- Nothing goes on for ever where there is any room. -/
theorem Fits.acc (h : s.Fits r room id) : Acc (fun other id => s.Follows r id other) id := by
  induction h with
  | intro _ _ ih =>
      refine .intro _ fun other hfollows => ?_
      obtain ⟨e, he, hother⟩ := hfollows
      exact ih e he other hother

theorem fits_unbounded_of_acc (h : Acc (fun other id => s.Follows r id other) id) :
    s.Fits r .unbounded id := by
  induction h with
  | intro id _ ih =>
      refine .intro (Room.holds_unbounded _) fun e he other hother => ?_
      rw [Room.inside_unbounded]
      exact ih other ⟨e, he, hother⟩

/-- Where there is no bound to the room, rendering is given up only if it can go on for ever. -/
theorem fits_unbounded_iff : s.Fits r .unbounded id ↔
    ¬ ∃ path : Nat → TypeId, path 0 = id ∧ ∀ n, s.Follows r (path n) (path (n + 1)) := by
  rw [← not_acc_iff_exists_descending_chain (r := fun other id => s.Follows r id other), not_not]
  exact ⟨Fits.acc, fits_unbounded_of_acc⟩

/-- What ends does not come back to where it was. -/
theorem not_transGen_self_of_acc (h : Acc (fun other id => s.Follows r id other) id) :
    ¬ Relation.TransGen (s.Follows r) id id := by
  intro hcircle
  have hends := h.transGen
  clear h
  induction hends with
  | intro id _ ih => exact ih id (Relation.transGen_swap.mpr hcircle) hcircle

/-- None of the types that rendering the type comes to leads back to itself. -/
def Acyclic (s : Scope) (r : Rendering) (id : TypeId) : Prop :=
  ∀ other, Relation.ReflTransGen (s.Follows r) id other →
    ¬ Relation.TransGen (s.Follows r) other other

theorem acyclic_of_acc (h : Acc (fun other id => s.Follows r id other) id) : s.Acyclic r id := by
  intro other hleads
  refine not_transGen_self_of_acc ?_
  induction hleads with
  | refl => exact h
  | tail _ hfollows hends => exact hends.inv hfollows

/-- All that rendering the type goes on to, and so on, comes to an end in less than so many
steps. -/
inductive Ends (s : Scope) (r : Rendering) : Nat → TypeId → Prop
  | intro {n id} : (∀ e, s.registry.find? id = some e → ∀ other ∈ s.followed r e,
      Ends s r n other) → Ends s r (n + 1) id

/-- The types that have been passed are different entries, since none of them leads back to itself,
so there are no more of them than entries. -/
theorem ends_of_passed {n : Nat} (passed : List TypeId) (hnodup : passed.Nodup)
    (hknown : passed ⊆ s.registry.entries.map (·.id))
    (hleads : ∀ i ∈ passed, Relation.TransGen (s.Follows r) i id)
    (hn : s.depth ≤ n + passed.length) (h : s.Acyclic r id) : s.Ends r n id := by
  induction n generalizing id passed with
  | zero =>
      have hlength := hnodup.length_le_of_subset hknown
      rw [List.length_map] at hlength
      rw [depth] at hn
      omega
  | succ n ih =>
      refine .intro fun e hfind other hother => ?_
      have hfollows : s.Follows r id other := ⟨e, hfind, hother⟩
      -- the type is passed now: it is of an entry, and was not passed before
      refine ih (id :: passed) ?_ ?_ ?_ ?_ fun last hlast => h last (.head hfollows hlast)
      · exact List.nodup_cons.mpr ⟨fun hmem => h id .refl (hleads id hmem), hnodup⟩
      · refine List.cons_subset.mpr ⟨?_, hknown⟩
        have hid : e.id = id := by simpa using List.find?_some hfind
        exact hid ▸ List.mem_map_of_mem (List.mem_of_find?_eq_some hfind)
      · intro i hi
        obtain rfl | hi := List.mem_cons.mp hi
        · exact .single hfollows
        · exact (hleads i hi).tail hfollows
      · rw [List.length_cons]
        omega

/-- The number of entries is enough of a bound where there is no cycle. -/
theorem ends_of_acyclic (h : s.Acyclic r id) : s.Ends r s.depth id :=
  ends_of_passed [] List.nodup_nil (List.nil_subset _) nofun (Nat.le_refl _) h

/-! ### One entry -/

theorem resolve_fails (s : Scope) (id : TypeId) :
    FailsOnly Failure.IsReference (s.resolve id) := by
  intro f hf
  rw [resolve, Metadata.Registry.resolve] at hf
  split at hf
  · cases hf
  · cases hf
    exact .inl ⟨_, rfl⟩

theorem unsupported_fails {α : Type} (id : TypeId) (reason : Metadata.UnsupportedReason) :
    FailsOnly Failure.IsReference (unsupported id reason : Outcome α) := by
  intro f hf
  cases hf
  exact .inr ⟨_, _, rfl⟩

theorem builtin_fails (e : TypeEntry) (b : Builtin) :
    FailsOnly Failure.IsReference (builtin e b) := by
  unfold builtin
  split
  · exact .ok _
  · exact unsupported_fails _ _
  · exact .ok _
  · exact unsupported_fails _ _
  · exact .ok _
  · exact unsupported_fails _ _

theorem named_fails (s : Scope) (e : TypeEntry) :
    FailsOnly Failure.IsReference (s.named e) := by
  rw [named]
  split
  · split
    · exact .ok _
    · exact unsupported_fails _ _
  · split
    · exact builtin_fails _ _
    · exact unsupported_fails _ _
  · split
    · exact .ok _
    · exact unsupported_fails _ _

/-- The computation renders just these types on its way, and fails in no other way of its own than
for a reference. The other one is the same with types rendered in another way. -/
structure Renders {α β : Type} (sub sub' : TypeId → Outcome α) (ids : List TypeId)
    (x x' : Outcome β) : Prop where
  fails : (∀ id ∈ ids, FailsOnly Failure.IsReference (sub id)) → FailsOnly Failure.IsReference x
  ok : ∀ b, x = .ok b → ∀ id ∈ ids, ∃ a, sub id = .ok a
  same : (∀ id ∈ ids, sub id = sub' id) → x = x'

namespace Renders
variable {α β γ : Type} {sub sub' : TypeId → Outcome α} {ids : List TypeId}

theorem nothing {x : Outcome β} (h : FailsOnly Failure.IsReference x) :
    Renders sub sub' [] x x :=
  ⟨fun _ => h, fun _ _ _ hid => (nomatch hid), fun _ => rfl⟩

theorem after {x : Outcome β} {f f' : β → Outcome γ} (hx : FailsOnly Failure.IsReference x)
    (hf : ∀ b, x = .ok b → Renders sub sub' ids (f b) (f' b)) :
    Renders sub sub' ids (x >>= f) (x >>= f') := by
  refine ⟨fun h => hx.bind fun b hb => (hf b hb).fails h, fun c hc => ?_, fun h => ?_⟩
  · obtain ⟨b, hb, hc⟩ := bind_ok hc
    exact (hf b hb).ok c hc
  · cases x with
    | error _ => rfl
    | ok b => exact (hf b rfl).same h

theorem one {id : TypeId} {f f' : α → Outcome β} (hf : ∀ a, Renders sub sub' ids (f a) (f' a)) :
    Renders sub sub' (id :: ids) (sub id >>= f) (sub' id >>= f') := by
  refine ⟨fun h => ?_, fun b hb other hother => ?_, fun h => ?_⟩
  · exact (h id List.mem_cons_self).bind fun a _ =>
      (hf a).fails fun other hother => h other (List.mem_cons_of_mem id hother)
  · obtain ⟨a, ha, hb⟩ := bind_ok hb
    obtain rfl | hother := List.mem_cons.mp hother
    · exact ⟨a, ha⟩
    · exact (hf a).ok b hb other hother
  · obtain ⟨hid, hids⟩ := List.forall_mem_cons.mp h
    rw [hid, funext fun a => (hf a).same hids]

theorem all {f : List α → β} :
    Renders sub sub' ids (do return f (← ids.mapM sub)) (do return f (← ids.mapM sub')) := by
  refine ⟨fun h => (FailsOnly.mapM h).bind fun _ _ => .ok _, fun b hb id hid => ?_, fun h => ?_⟩
  · obtain ⟨as, has, -⟩ := bind_ok hb
    obtain ⟨a, -, ha⟩ := forall₂_right (forall₂_of_mapM has).flip hid
    exact ⟨a, ha⟩
  · rw [mapM_congr (List.forall₂_same.mpr h) fun _ _ hsame => hsame]

end Renders

section
variable {α : Type} {sub sub' : TypeId → Outcome α} {e : TypeEntry}

theorem renders_tuple {items : List TypeId} (h : e.definition = .tuple items) (f : List α → α) :
    Renders sub sub' (s.followed r e) (do return f (← items.mapM sub))
      (do return f (← items.mapM sub')) := by
  rw [followed, h]
  exact .all

theorem renders_compact {item : TypeId} (h : e.definition = .compact item) (f : α → α) :
    Renders sub sub' (s.followed r e) (do return f (← sub item)) (do return f (← sub' item)) := by
  rw [followed, h]
  exact .one fun _ => .nothing (.ok _)

/-- The item of an array or a sequence is looked at before it is rendered. -/
theorem renders_item {item : TypeId}
    (h : (∃ length, e.definition = .array item length) ∨ e.definition = .sequence item)
    (bytes : α) (f : α → α) :
    Renders sub sub' (s.followed r e)
      (do if (← s.resolve item).isU8 then return bytes else return f (← sub item))
      (do if (← s.resolve item).isU8 then return bytes else return f (← sub' item)) := by
  have hfollowed : s.followed r e =
      if (s.registry.find? item).any (·.isU8) then [] else [item] := by
    obtain ⟨length, h⟩ | h := h <;> rw [followed, h]
  refine .after (resolve_fails s item) fun i hi => ?_
  rw [hfollowed, find_of_resolve hi, Option.any_some]
  split
  · exact .nothing (.ok _)
  · exact .one fun _ => .nothing (.ok _)

/-- A composite or a variant by what its path makes of it, which for a declared type is
`declared`. -/
theorem renders_structured (hstructured : e.definition.isStructured = true)
    {declared declared' : Metadata.Declaration → Outcome α}
    (hdeclared : ∀ d, e.kind = .custom →
      Renders sub sub' (followedArguments r e) (declared d) (declared' d))
    (reserved : Reserved → α) (option : α → α) (result map : α → α → α) :
    Renders sub sub' (s.followed r e)
      (do match ← s.named e with
        | .reserved r => return reserved r
        | .option inner => return option (← sub inner)
        | .result ok err =>
          let ok ← sub ok
          return result ok (← sub err)
        | .map key value =>
          let key ← sub key
          return map key (← sub value)
        | .declared d => declared d)
      (do match ← s.named e with
        | .reserved r => return reserved r
        | .option inner => return option (← sub' inner)
        | .result ok err =>
          let ok ← sub' ok
          return result ok (← sub' err)
        | .map key value =>
          let key ← sub' key
          return map key (← sub' value)
        | .declared d => declared' d) := by
  have hfollowed : s.followed r e = followedArguments r e := by
    cases hdefinition : e.definition with
    | composite _ | variant _ => rw [followed, hdefinition]
    | _ =>
        rw [hdefinition] at hstructured
        cases hstructured
  rw [hfollowed]
  refine .after (named_fails s e) fun n hn => ?_
  cases named_ok hn with
  | reserved hkind _ =>
      simp only [followedArguments, hkind]
      exact .nothing (.ok _)
  | option hkind _ harguments =>
      simp only [followedArguments, hkind, harguments]
      exact .one fun _ => .nothing (.ok _)
  | result hkind _ harguments | map hkind _ harguments =>
      simp only [followedArguments, hkind, harguments]
      exact .one fun _ => .one fun _ => .nothing (.ok _)
  | declared hkind _ => exact hdeclared _ hkind

end

theorem renders_entryAnnotation (sub sub' : TypeId → Outcome Annotation) (e : TypeEntry) :
    Renders sub sub' (s.followed Rendering.annotation e) ( s.entryAnnotation sub e)
      ( s.entryAnnotation sub' e) := by
  cases hdefinition : e.definition with
  | primitive p =>
      simp only [followed, entryAnnotation, hdefinition]
      exact .nothing (.ok _)
  | tuple items =>
      cases items with
      | nil =>
          simp only [followed, entryAnnotation, hdefinition]
          exact .nothing (.ok _)
      | cons item items =>
          simp only [hdefinition, entryAnnotation]
          exact renders_tuple hdefinition _
  | array item length =>
      simp only [hdefinition, entryAnnotation]
      exact renders_item (.inl ⟨length, hdefinition⟩) _ _
  | sequence item =>
      simp only [hdefinition, entryAnnotation]
      exact renders_item (.inr hdefinition) _ _
  | compact item =>
      simp only [hdefinition, entryAnnotation]
      exact renders_compact hdefinition _
  | bitSequence store order =>
      simp only [followed, entryAnnotation, hdefinition]
      exact .nothing (unsupported_fails _ _)
  | composite fields | variant alternatives =>
      simp only [hdefinition, entryAnnotation]
      refine renders_structured (by rw [hdefinition]; rfl) (fun d hkind => ?_) _ _ _ _
      simp only [followedArguments, hkind]
      exact .all

theorem renders_entryCodec (sub sub' : TypeId → Outcome Scale.Codec) (e : TypeEntry) :
    Renders sub sub' (s.followed .codec e) (s.entryCodec sub e) (s.entryCodec sub' e) := by
  cases hdefinition : e.definition with
  | primitive p =>
      simp only [entryCodec, followed, hdefinition]
      exact .nothing (.ok _)
  | tuple items =>
      cases items with
      | nil =>
          simp only [entryCodec, followed, hdefinition]
          exact .nothing (.ok _)
      | cons item items =>
          simp only [entryCodec, hdefinition]
          exact renders_tuple hdefinition _
  | array item length =>
      simp only [entryCodec, hdefinition]
      exact renders_item (.inl ⟨length, hdefinition⟩) _ fun c => Scale.Codec.array c length
  | sequence item =>
      simp only [entryCodec, hdefinition]
      exact renders_item (.inr hdefinition) _ _
  | compact item =>
      simp only [entryCodec, hdefinition]
      exact renders_compact hdefinition _
  | bitSequence store order =>
      simp only [entryCodec, followed, hdefinition]
      exact .nothing (unsupported_fails _ _)
  | composite fields | variant alternatives =>
      simp only [entryCodec, hdefinition]
      refine renders_structured (by rw [hdefinition]; rfl) (fun d hkind => ?_) _ _ _ _
      simp only [followedArguments, hkind]
      exact .nothing (.ok _)

/-! ### Whole descents -/

/-- A descent to the entries that rendering an entry goes on to. -/
structure Descends {α : Type} (s : Scope) (r : Rendering)
    (entry : (TypeId → Outcome α) → TypeEntry → Outcome α)
    (within : Nat → Room → TypeId → Outcome α) : Prop where
  bound : ∀ room id, within 0 room id = .error .endless
  cramped : ∀ depth room id, room.holds callsToResolve = false →
    within (depth + 1) room id = .error .endless
  step : ∀ depth room id, room.holds callsToResolve = true →
    within (depth + 1) room id =
      s.resolve id >>= fun e => entry (within depth (room.inside (callsBelow e))) e
  renders : ∀ sub sub' e, Renders sub sub' (s.followed r e) (entry sub e) (entry sub' e)

theorem annotation_descends (s : Scope) :
    s.Descends Rendering.annotation s.entryAnnotation s.annotationWithin where
  bound _ _ := rfl
  cramped depth room id h := by
    rw [annotationWithin, h]
    rfl
  step depth room id h := by
    rw [annotationWithin, h]
    rfl
  renders := renders_entryAnnotation

theorem codec_descends (s : Scope) : s.Descends .codec s.entryCodec s.codecWithin where
  bound _ _ := rfl
  cramped depth room id h := by
    rw [codecWithin, h]
    rfl
  step depth room id h := by
    rw [codecWithin, h]
    rfl
  renders := renders_entryCodec

section
variable {α : Type} {entry : (TypeId → Outcome α) → TypeEntry → Outcome α}
  {within : Nat → Room → TypeId → Outcome α}

/-- What could be rendered has an end, and had the room for it. -/
theorem fits_of_ok (hwithin : s.Descends r entry within) {depth : Nat} {a : α}
    (h : within depth room id = .ok a) : s.Fits r room id := by
  induction depth generalizing room id a with
  | zero =>
      rw [hwithin.bound] at h
      cases h
  | succ depth ih =>
      cases hroom : room.holds callsToResolve with
      | false =>
          rw [hwithin.cramped depth room id hroom] at h
          cases h
      | true =>
          rw [hwithin.step depth room id hroom] at h
          obtain ⟨e, he, h⟩ := bind_ok h
          refine .intro hroom fun e' he' other hother => ?_
          obtain rfl : e = e' := Option.some.inj ((find_of_resolve he).symm.trans he')
          obtain ⟨b, hb⟩ := (hwithin.renders _ (within depth room) e).ok a h other hother
          exact ih hb

/-- Where a descent has an end it is not given up. -/
theorem fails_of_fits (hwithin : s.Descends r entry within) (h : s.Fits r room id) {depth : Nat}
    (hends : s.Ends r depth id) : FailsOnly Failure.IsReference (within depth room id) := by
  induction hends generalizing room with
  | @intro depth id _ ih =>
      cases h with
      | intro hroom hfits =>
          rw [hwithin.step depth room id hroom]
          refine (resolve_fails s id).bind fun e he =>
            (hwithin.renders _ (within depth room) e).fails fun other hother => ?_
          exact ih e (find_of_resolve he) other hother (hfits e (find_of_resolve he) other hother)

end

/-- A reference is rendered unless it has no end in the room there is, or there is no type or none
that is supported. -/
theorem annotation_fails_of_fits (h : s.Fits Rendering.annotation s.room id) :
    FailsOnly Failure.IsReference ( s.annotation id) :=
  fails_of_fits (annotation_descends s) h (ends_of_acyclic (acyclic_of_acc h.acc))

theorem codec_fails_of_fits (h : s.Fits .codec s.room id) :
    FailsOnly Failure.IsReference (s.codec id) :=
  fails_of_fits (codec_descends s) h (ends_of_acyclic (acyclic_of_acc h.acc))

theorem fits_of_annotation {a : Annotation} (h : s.annotation id = .ok a) :
    s.Fits Rendering.annotation s.room id :=
  fits_of_ok (annotation_descends s) h

theorem fits_of_codec {c : Scale.Codec} (h : s.codec id = .ok c) : s.Fits .codec s.room id :=
  fits_of_ok (codec_descends s) h

end Scope
end InkBindings.Bindings
