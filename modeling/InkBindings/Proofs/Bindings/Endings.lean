import InkBindings.Proofs.Bindings.Descents
import InkBindings.Proofs.Bindings.Outlines

/-!
References that have an end. Rendering goes on to the items of a type and to its arguments, and not
to the components of what the contract declares. Where these edges lead to no cycle, it comes to an
end within one step for each entry and one more, and then fails only for a type that is missing or
is not supported.
-/

namespace InkBindings.Metadata

/-- The types that an entry refers to as its items, or as arguments if it is built in or declared
by the contract. -/
def TypeEntry.references (e : TypeEntry) : List TypeId :=
  match e.definition with
  | .primitive _ | .bitSequence _ _ => []
  | .tuple items => items
  | .array item _ | .sequence item | .compact item => [item]
  | .composite _ | .variant _ => if e.kind = .reserved then [] else e.arguments

namespace Registry

def RefersTo (r : Registry) (id other : TypeId) : Prop :=
  ∃ e, r.find? id = some e ∧ other ∈ e.references

/-- References that start from the type come to one that refers to itself, at once or through
others. -/
def LeadsToCycle (r : Registry) (id : TypeId) : Prop :=
  ∃ other, Relation.ReflTransGen r.RefersTo id other ∧ Relation.TransGen r.RefersTo other other

/-- Types that refer to nothing but types of smaller ids are in no cycle. -/
theorem not_leadsToCycle_of_lt {r : Registry}
    (h : ∀ e ∈ r.entries, ∀ other ∈ e.references, other < e.id) (id : TypeId) :
    ¬ r.LeadsToCycle id := by
  rintro ⟨other, -, hcycle⟩
  have hstep : ∀ i j, r.RefersTo i j → j < i := by
    rintro i j ⟨e, hfind, hj⟩
    have hid : e.id = i := by simpa using List.find?_some hfind
    exact hid ▸ h e (List.mem_of_find?_eq_some hfind) j hj
  have hless : ∀ i, Relation.TransGen r.RefersTo other i → i < other := by
    intro i hi
    induction hi with
    | single hfirst => exact hstep _ _ hfirst
    | tail _ hlast ih => exact Int.lt_trans (hstep _ _ hlast) ih
  exact Int.lt_irrefl other (hless other hcycle)

end Registry
end InkBindings.Metadata

namespace InkBindings.Bindings

open Metadata (TypeId TypeEntry Registry Declaration)

/-- The type has been rendered, or it cannot be for a type that is missing or not supported. -/
inductive Settled {α : Type} : Outcome α → Prop
  | rendered (a : α) : Settled (.ok a)
  | unsupported (id : TypeId) (reason : Metadata.UnsupportedReason) :
      Settled (.error (.metadata (.unsupported id reason)))
  | unresolved (id : TypeId) : Settled (.error (.metadata (.unresolved id)))

theorem settled_of_fails {α : Type} {x : Outcome α} (h : FailsOnly Failure.IsReference x) :
    Settled x := by
  cases x with
  | ok a => exact .rendered a
  | error f =>
      obtain ⟨id, rfl⟩ | ⟨id, reason, rfl⟩ := h f rfl
      · exact .unresolved id
      · exact .unsupported id reason

namespace Scope
variable {s : Scope} {r : Rendering} {room : Room} {id : TypeId} {n : Nat}

/-! ### What is followed -/

theorem mem_references_of_followed {e : TypeEntry} {other : TypeId} (h : other ∈ s.followed r e) :
    other ∈ e.references := by
  have harguments : other ∈ followedArguments r e →
      other ∈ if e.kind = .reserved then [] else e.arguments := by
    intro h
    cases hkind : e.kind with
    | reserved =>
        simp only [followedArguments, hkind] at h
        cases h
    | builtin =>
        simp only [followedArguments, hkind] at h
        exact h
    | custom =>
        cases r with
        | annotation =>
            simp only [followedArguments, hkind] at h
            exact h
        | codec =>
            simp only [followedArguments, hkind] at h
            cases h
  rw [followed] at h
  rw [TypeEntry.references]
  cases hdefinition : e.definition with
  | primitive | bitSequence | tuple | compact => simpa only [hdefinition] using h
  | array | sequence =>
      simp only [hdefinition] at h
      split at h
      · cases h
      · exact h
  | composite | variant => exact harguments (by simpa only [hdefinition] using h)

theorem acyclic_of_references (h : ¬ s.registry.LeadsToCycle id) : s.Acyclic r id := by
  have hstep : ∀ i j, s.Follows r i j → s.registry.RefersTo i j := by
    rintro i j ⟨e, hfind, hj⟩
    exact ⟨e, hfind, mem_references_of_followed hj⟩
  exact fun other hleads hcycle => h ⟨other, Relation.ReflTransGen.mono hstep _ _ hleads,
    Relation.TransGen.mono hstep _ _ hcycle⟩

/-! ### What it takes -/

theorem callsBelow_le (e : TypeEntry) : callsBelow e ≤ 5 := by
  unfold callsBelow
  split
  any_goals omega
  all_goals split <;> omega

/-- Enough calls for a descent of so many steps after the first one. -/
def callsWithin (n : Nat) : Nat :=
  5 * n + callsToResolve

theorem fits_of_ends (h : s.Ends r (n + 1) id) (hroom : room.holds (callsWithin n) = true) :
    s.Fits r room id := by
  induction n generalizing room id with
  | zero =>
      cases h with
      | intro hends =>
          refine .intro hroom fun e hfind other hother => ?_
          cases hends e hfind other hother
  | succ n ih =>
      cases h with
      | intro hends =>
          refine .intro (Room.holds_of_le hroom (by rw [callsWithin]; omega))
            fun e hfind other hother => ih (hends e hfind other hother) (Room.holds_inside ?_)
          refine Room.holds_of_le hroom ?_
          have hcalls := callsBelow_le e
          rw [callsWithin, callsWithin]
          omega

/-- A descent that has come to its end is the same with more steps. -/
theorem within_eq_of_ends {α : Type} {entry : (TypeId → Outcome α) → TypeEntry → Outcome α}
    {within : Nat → Room → TypeId → Outcome α} (hwithin : s.Descends r entry within)
    (h : s.Ends r n id) {depth : Nat} (hdepth : n ≤ depth) :
    within depth room id = within n room id := by
  induction h generalizing depth room with
  | @intro n id _ ih =>
      obtain ⟨depth, rfl⟩ : ∃ d, depth = d + 1 := ⟨depth - 1, by omega⟩
      cases hroom : room.holds callsToResolve with
      | false => rw [hwithin.cramped _ _ _ hroom, hwithin.cramped _ _ _ hroom]
      | true =>
          rw [hwithin.step _ _ _ hroom, hwithin.step _ _ _ hroom]
          cases hresolve : s.resolve id with
          | error _ => rfl
          | ok e =>
              exact (hwithin.renders _ _ e).same fun other hother =>
                ih e (find_of_resolve hresolve) other hother (by omega)

end Scope

/-- Trees consist of forests, which consist of trees; a labelled tree consists of another one. -/
def orchard : Scope :=
  let registry : Registry := ⟨[
    ⟨0, .composite (.named [("children", ⟨1, none, []⟩)]), ["garden", "Tree"], [], []⟩,
    ⟨1, .variant [⟨"Some", 0, .positional [⟨0, none, []⟩, ⟨1, none, []⟩], []⟩],
      ["garden", "Forest"], [], []⟩,
    ⟨2, .sequence 1, [], [], []⟩,
    ⟨3, .composite (.positional [⟨3, none, []⟩, ⟨0, none, []⟩]), ["garden", "Labelled"],
      [⟨"L", some 2⟩, ⟨"T", some 0⟩], []⟩,
    ⟨4, .tuple [3, 1], [], [], []⟩]⟩
  ⟨registry, registry.declarations [], .unbounded⟩

end InkBindings.Bindings
