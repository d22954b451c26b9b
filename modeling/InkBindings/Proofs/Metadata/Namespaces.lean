import InkBindings.Proofs.Metadata.Grouping
import Mathlib.Data.List.Nodup
import Mathlib.Data.List.Perm.Basic

/-!
What namespaces are. A label is taken apart at its separators, of which the one furthest to the left
comes first; a message stands in the group that its label names. The groups together are the
messages, unless a label has two separators one behind the other.
-/

namespace InkBindings

namespace Label
variable {cs first rest : List Char} {label : String}

/-- There are two colons side by side. -/
def Separated (cs : List Char) : Prop :=
  ∃ before after, cs = before ++ ':' :: ':' :: after

/-- There are two separators that have no colon in common. -/
def Nested (cs : List Char) : Prop :=
  ∃ before between after, cs = before ++ ':' :: ':' :: (between ++ ':' :: ':' :: after)

/-- What is before and behind the separator that comes first from the left. -/
structure SplitsAt (cs first rest : List Char) : Prop where
  eq : cs = first ++ ':' :: ':' :: rest
  leftmost : ∀ before after, cs = before ++ ':' :: ':' :: after → first.length ≤ before.length

theorem Nested.separated (h : Nested cs) : Separated cs :=
  let ⟨before, between, after, heq⟩ := h
  ⟨before, between ++ ':' :: ':' :: after, heq⟩

theorem SplitsAt.nil (rest : List Char) : SplitsAt (':' :: ':' :: rest) [] rest :=
  ⟨rfl, fun before _ _ => Nat.zero_le before.length⟩

/-- A character in front belongs to the first part, unless it makes a separator. -/
theorem splitsAt_cons_iff {c : Char} (h : ∀ more, c :: cs ≠ ':' :: ':' :: more) :
    SplitsAt (c :: cs) (c :: first) rest ↔ SplitsAt cs first rest := by
  constructor
  · rintro ⟨heq, hleft⟩
    refine ⟨(List.cons.inj heq).2, fun before after hcs => ?_⟩
    exact Nat.le_of_succ_le_succ (hleft (c :: before) after (congrArg (c :: ·) hcs))
  · rintro ⟨heq, hleft⟩
    refine ⟨congrArg (c :: ·) heq, fun before after hcs => ?_⟩
    cases before with
    | nil => exact absurd hcs (h after)
    | cons d before => exact Nat.succ_le_succ (hleft before after (List.cons.inj hcs).2)

theorem exists_splitsAt (h : Separated cs) : ∃ first rest, SplitsAt cs first rest := by
  induction cs with
  | nil =>
      obtain ⟨before, after, heq⟩ := h
      simp at heq
  | cons c cs ih =>
      by_cases hhead : ∃ more, c :: cs = ':' :: ':' :: more
      · obtain ⟨more, heq⟩ := hhead
        exact ⟨[], more, heq ▸ SplitsAt.nil more⟩
      · have hcons : ∀ more, c :: cs ≠ ':' :: ':' :: more := not_exists.mp hhead
        obtain ⟨before, after, heq⟩ := h
        cases before with
        | nil => exact absurd heq (hcons after)
        | cons d before =>
            obtain ⟨first, rest, hsplit⟩ := ih ⟨before, after, (List.cons.inj heq).2⟩
            exact ⟨c :: first, rest, (splitsAt_cons_iff hcons).mpr hsplit⟩

/-- A second separator is behind the first one. -/
theorem SplitsAt.nested_iff (h : SplitsAt cs first rest) : Nested cs ↔ Separated rest := by
  constructor
  · rintro ⟨before, between, after, heq⟩
    have hle := h.leftmost before (between ++ ':' :: ':' :: after) heq
    have hrest : rest = cs.drop (first.length + 2) := by simp [h.eq]
    have hsplit : cs = (before ++ ':' :: ':' :: between) ++ ':' :: ':' :: after := by simp [heq]
    rw [hrest, hsplit, List.drop_append_of_le_length (by simp; omega)]
    exact ⟨_, after, rfl⟩
  · rintro ⟨between, after, rfl⟩
    exact ⟨first, between, after, h.eq⟩

theorem SplitsAt.first_not_separated (h : SplitsAt cs first rest) : ¬ Separated first := by
  rintro ⟨before, after, rfl⟩
  have hle := h.leftmost before (after ++ ':' :: ':' :: rest) (by simp [h.eq])
  rw [List.length_append, List.length_cons, List.length_cons] at hle
  omega

theorem SplitsAt.length_lt (h : SplitsAt cs first rest) : rest.length < cs.length := by
  rw [h.eq, List.length_append, List.length_cons, List.length_cons]
  omega

/-! ### Parts -/

theorem splitChars_cons {c : Char} (h : ∀ more, c :: cs ≠ ':' :: ':' :: more) :
    splitChars (c :: cs) = (splitChars cs).modifyHead (c :: ·) := by
  rw [splitChars]
  · cases hparts : splitChars cs with
    | nil => exact absurd hparts (Metadata.splitChars_ne_nil cs)
    | cons part more => rfl
  · rintro more rfl rfl
    exact h more rfl

theorem splitChars_of_not_separated (h : ¬ Separated cs) : splitChars cs = [cs] := by
  induction cs with
  | nil => rfl
  | cons c cs ih =>
      have hcons : ∀ more, c :: cs ≠ ':' :: ':' :: more := fun more heq => h ⟨[], more, heq⟩
      have htail : ¬ Separated cs := fun ⟨before, after, heq⟩ =>
        h ⟨c :: before, after, congrArg (c :: ·) heq⟩
      rw [splitChars_cons hcons, ih htail]
      rfl

theorem SplitsAt.splitChars (h : SplitsAt cs first rest) :
    splitChars cs = first :: splitChars rest := by
  induction first generalizing cs with
  | nil =>
      rw [h.eq]
      rfl
  | cons c first ih =>
      obtain ⟨heq, hleft⟩ := h
      subst heq
      have hcons : ∀ more, c :: (first ++ ':' :: ':' :: rest) ≠ ':' :: ':' :: more :=
        fun more heq => absurd (hleft [] more heq) (by simp)
      have htail := (splitsAt_cons_iff hcons).mp ⟨rfl, hleft⟩
      rw [List.cons_append, splitChars_cons hcons, ih htail]
      rfl

theorem two_lt_length_splitChars : 2 < (splitChars cs).length ↔ Nested cs := by
  by_cases h : Separated cs
  · obtain ⟨first, rest, hsplit⟩ := exists_splitsAt h
    rw [hsplit.splitChars, hsplit.nested_iff, List.length_cons]
    by_cases hrest : Separated rest
    · obtain ⟨second, more, hmore⟩ := exists_splitsAt hrest
      have hpos := List.length_pos_of_ne_nil (Metadata.splitChars_ne_nil more)
      rw [hmore.splitChars, List.length_cons]
      exact iff_of_true (by omega) hrest
    · rw [splitChars_of_not_separated hrest]
      exact iff_of_false (by simp) hrest
  · rw [splitChars_of_not_separated h]
    exact iff_of_false (by simp) (mt Nested.separated h)

/-- No part has a separator left. -/
theorem not_separated_of_mem_splitChars (cs : List Char) {part : List Char}
    (h : part ∈ splitChars cs) : ¬ Separated part := by
  by_cases hcs : Separated cs
  · obtain ⟨first, rest, hsplit⟩ := exists_splitsAt hcs
    rw [hsplit.splitChars] at h
    obtain rfl | hmem := List.mem_cons.mp h
    · exact hsplit.first_not_separated
    · exact not_separated_of_mem_splitChars rest hmem
  · rw [splitChars_of_not_separated hcs, List.mem_singleton] at h
    exact h ▸ hcs
termination_by cs.length
decreasing_by exact hsplit.length_lt

/-! ### Namespace and name -/

theorem parts_of_not_separated (h : ¬ Separated label.toList) : parts label = [label] := by
  rw [parts, splitChars_of_not_separated h, List.map_singleton, String.ofList_toList]

theorem parts_of_splitsAt {first rest : String}
    (h : SplitsAt label.toList first.toList rest.toList) : parts label = first :: parts rest := by
  rw [parts, h.splitChars, List.map_cons, String.ofList_toList]
  rfl

theorem exists_parts (h : Separated label.toList) :
    ∃ first rest : String, SplitsAt label.toList first.toList rest.toList := by
  obtain ⟨first, rest, hsplit⟩ := exists_splitsAt h
  exact ⟨String.ofList first, String.ofList rest, by simpa using hsplit⟩

theorem not_separated_methodName (label : String) : ¬ Separated (methodName label).toList := by
  have hmem : methodName label ∈ parts label := by
    have hlast := List.getLast?_eq_some_getLast (Metadata.parts_ne_nil label)
    rw [methodName, List.getLastD_eq_getLast?, hlast]
    exact List.getLast_mem _
  obtain ⟨part, hpart, heq⟩ := List.mem_map.mp hmem
  rw [← heq, String.toList_ofList]
  exact not_separated_of_mem_splitChars _ hpart

/-- A label is in a namespace if it is made of this, a separator and the name of the method. -/
theorem namespace?_eq_some_iff {first : String} : namespace? label = some first ↔
    SplitsAt label.toList first.toList (methodName label).toList := by
  constructor
  · intro h
    by_cases hlabel : Separated label.toList
    · obtain ⟨other, rest, hsplit⟩ := exists_parts hlabel
      by_cases hrest : Separated rest.toList
      · obtain ⟨second, more, hmore⟩ := exists_parts hrest
        obtain ⟨last, others, hothers⟩ := List.exists_cons_of_ne_nil (Metadata.parts_ne_nil more)
        simp [namespace?, parts_of_splitsAt hsplit, parts_of_splitsAt hmore, hothers] at h
      · have hparts : parts label = [other, rest] := by
          rw [parts_of_splitsAt hsplit, parts_of_not_separated hrest]
        obtain rfl : other = first := by simpa [namespace?, hparts] using h
        rwa [methodName, hparts]
    · simp [namespace?, parts_of_not_separated hlabel] at h
  · intro h
    rw [namespace?, parts_of_splitsAt h, parts_of_not_separated (not_separated_methodName label)]

theorem methodName_eq_self_iff : methodName label = label ↔ ¬ Separated label.toList := by
  constructor
  · intro h
    exact h ▸ not_separated_methodName label
  · intro h
    rw [methodName, parts_of_not_separated h]
    rfl

end Label

namespace Metadata

/-- The groups have the messages, each one where its label says. -/
structure Groups.Partitions (g : Groups) (messages : List EntryPoint) : Prop where
  inherent : g.inherent = messages.filter (·.namespace?.isNone)
  /-- There is a group for each namespace, in the order in which the namespaces are used first. -/
  namespaces : g.grouped.map (·.1) = (messages.filterMap (·.namespace?)).eraseDups
  members : ∀ group ∈ g.grouped,
    group.2 = messages.filter (·.namespace? == some group.1) ∧ group.2 ≠ []
  /-- Together they have the messages, each as often as the contract has it. -/
  covered : (g.inherent ++ g.grouped.flatMap (·.2)).Perm messages
  plain : ∀ e ∈ g.inherent, e.label = e.methodName
  within : ∀ group ∈ g.grouped, ∀ e ∈ group.2, e.label = group.1 ++ "::" ++ e.methodName

variable {messages : List EntryPoint} {e : EntryPoint} {g : Groups}

theorem nested_iff : nested e = true ↔ Label.Nested e.label.toList := by
  rw [nested, decide_eq_true_eq, Label.parts, List.length_map, Label.two_lt_length_splitChars]

theorem namespace?_eq_some_iff {label : String} : e.namespace? = some label ↔
    Label.SplitsAt e.label.toList label.toList e.methodName.toList :=
  Label.namespace?_eq_some_iff

theorem label_of_namespace {label : String} (h : e.namespace? = some label) :
    e.label = label ++ "::" ++ e.methodName := by
  have hsplit := (namespace?_eq_some_iff.mp h).eq
  rw [← String.toList_inj, hsplit, String.toList_append, String.toList_append, List.append_assoc]
  rfl

/-- A message of no namespace goes by its label, unless the label is nested. -/
theorem methodName_of_namespace_none (hnested : ¬ Label.Nested e.label.toList)
    (h : e.namespace? = none) : e.methodName = e.label := by
  refine Label.methodName_eq_self_iff.mpr fun hlabel => ?_
  obtain ⟨first, rest, hsplit⟩ := Label.exists_parts hlabel
  have hrest : ¬ Label.Separated rest.toList := mt hsplit.nested_iff.mpr hnested
  rw [EntryPoint.namespace?, Label.namespace?, Label.parts_of_splitsAt hsplit,
    Label.parts_of_not_separated hrest] at h
  cases h

/-- What the keys select one after the other is all there is, if every element has one of them. -/
theorem flatMap_filter_perm {α κ : Type} [BEq κ] [LawfulBEq κ] (key : α → κ) {keys : List κ}
    {xs : List α} (hnodup : keys.Nodup) (h : ∀ x ∈ xs, key x ∈ keys) :
    (keys.flatMap fun k => xs.filter (key · == k)).Perm xs := by
  induction keys generalizing xs with
  | nil =>
      cases xs with
      | nil => exact .refl []
      | cons x rest => exact absurd (h x List.mem_cons_self) List.not_mem_nil
  | cons first keys ih =>
      obtain ⟨hfirst, hkeys⟩ := List.nodup_cons.mp hnodup
      let others := xs.filter fun x => !(key x == first)
      have hothers : ∀ x ∈ others, key x ∈ keys := by
        intro x hx
        obtain ⟨hmem, hne⟩ := List.mem_filter.mp hx
        exact (List.mem_cons.mp (h x hmem)).resolve_left (by simpa using hne)
      have hsame : ∀ k ∈ keys, others.filter (key · == k) = xs.filter (key · == k) := by
        intro k hk
        rw [List.filter_filter]
        refine List.filter_congr fun x _ => ?_
        by_cases hx : key x = k
        · have hne : k ≠ first := fun heq => hfirst (heq ▸ hk)
          simp [hx, hne]
        · simp [hx]
      rw [List.flatMap_cons, ← List.flatMap_congr hsame]
      exact ((ih hkeys hothers).append_left _).trans (List.filter_append_perm _ xs)

theorem groupsOf_covered (messages : List EntryPoint) :
    ((groupsOf messages).inherent ++ (groupsOf messages).grouped.flatMap (·.2)).Perm messages := by
  let keys := none :: (namespacesOf messages).map some
  have hnodup : keys.Nodup :=
    List.nodup_cons.mpr ⟨by simp, (nodup_eraseDups _).map fun _ _ => Option.some.inj⟩
  have hkeys : ∀ e ∈ messages, e.namespace? ∈ keys := by
    intro e he
    cases hlabel : e.namespace? with
    | none => exact List.mem_cons_self
    | some label =>
        have hmem : label ∈ namespacesOf messages := mem_namespacesOf.mpr ⟨e, he, hlabel⟩
        exact List.mem_cons_of_mem _ (List.mem_map_of_mem hmem)
  have hperm := flatMap_filter_perm EntryPoint.namespace? hnodup hkeys
  have hinherent : messages.filter (·.namespace? == none) = (groupsOf messages).inherent :=
    List.filter_congr fun e _ => by cases e.namespace? <;> rfl
  have hgroups : (groupsOf messages).grouped.flatMap (·.2) = (namespacesOf messages).flatMap
      fun label => messages.filter (·.namespace? == some label) := by
    rw [groupsOf, List.flatMap_map]
    rfl
  rwa [List.flatMap_cons, hinherent, List.flatMap_map, ← hgroups] at hperm

theorem partitions_groupsOf (h : ∀ e ∈ messages, ¬ Label.Nested e.label.toList) :
    (groupsOf messages).Partitions messages where
  inherent := rfl
  namespaces := by
    rw [groupsOf, List.map_map]
    exact List.map_id' _
  members group hgroup := by
    obtain ⟨label, hlabel, rfl⟩ := List.mem_map.mp hgroup
    obtain ⟨e, he, heq⟩ := mem_namespacesOf.mp hlabel
    exact ⟨rfl, List.ne_nil_of_mem (List.mem_filter.mpr ⟨he, beq_iff_eq.mpr heq⟩)⟩
  covered := groupsOf_covered messages
  plain e he := by
    obtain ⟨hmem, hnone⟩ := List.mem_filter.mp he
    exact (methodName_of_namespace_none (h e hmem) (by simpa using hnone)).symm
  within group hgroup e he := by
    obtain ⟨label, -, rfl⟩ := List.mem_map.mp hgroup
    exact label_of_namespace (beq_iff_eq.mp (List.mem_filter.mp he).2)

/-- The groups are told by the messages. -/
theorem Groups.Partitions.eq_groupsOf (h : g.Partitions messages) : g = groupsOf messages := by
  have hgroups : g.grouped = g.grouped.map fun group => (group.1, membersOf messages group.1) := by
    refine (List.map_id' g.grouped).symm.trans (List.map_congr_left fun group hgroup => ?_)
    exact Prod.ext rfl (h.members group hgroup).1
  obtain ⟨inherent, grouped⟩ := g
  have hnamespaces : grouped.map (·.1) = namespacesOf messages := h.namespaces
  rw [groupsOf, ← hnamespaces, List.map_map]
  exact congrArg₂ Groups.mk h.inherent hgroups

theorem groupMessages_eq_ok_iff : groupMessages messages = .ok g ↔
    (∀ e ∈ messages, ¬ Label.Nested e.label.toList) ∧ g.Partitions messages := by
  have hflat : messages.find? nested = none ↔ ∀ e ∈ messages, ¬ Label.Nested e.label.toList := by
    rw [List.find?_eq_none]
    exact forall₂_congr fun e _ => not_congr nested_iff
  rw [groupMessages_eq, ← hflat]
  constructor
  · intro h
    split at h
    · cases h
    · next hfind =>
        cases h
        exact ⟨hfind, partitions_groupsOf (hflat.mp hfind)⟩
  · rintro ⟨hfind, hg⟩
    rw [hfind, hg.eq_groupsOf]

theorem groupMessages_eq_error_iff {error : MetadataError} : groupMessages messages = .error error ↔
    ∃ before e after, messages = before ++ e :: after ∧
      (∀ other ∈ before, ¬ Label.Nested other.label.toList) ∧ Label.Nested e.label.toList ∧
      error = .nestedNamespace e.label := by
  have hfind (e : EntryPoint) : messages.find? nested = some e ↔ ∃ before after,
      messages = before ++ e :: after ∧ (∀ other ∈ before, ¬ Label.Nested other.label.toList) ∧
      Label.Nested e.label.toList := by
    rw [List.find?_eq_some_iff_append]
    simp only [nested_iff, Bool.not_eq_true', ← Bool.not_eq_true]
    tauto
  rw [groupMessages_eq]
  constructor
  · intro h
    split at h
    · next e he =>
        cases h
        obtain ⟨before, after, heq, hbefore, hnested⟩ := (hfind e).mp he
        exact ⟨before, e, after, heq, hbefore, hnested, rfl⟩
    · cases h
  · rintro ⟨before, e, after, heq, hbefore, hnested, rfl⟩
    rw [(hfind e).mpr ⟨before, after, heq, hbefore, hnested⟩]

/-- Messages are grouped by the namespaces of their labels, unless a label has two separators; the
first one that has is named. -/
theorem messages_partitioned (messages : List EntryPoint) :
    (∀ error, groupMessages messages = .error error ↔
      ∃ before e after, messages = before ++ e :: after ∧
        (∀ other ∈ before, ¬ Label.Nested other.label.toList) ∧ Label.Nested e.label.toList ∧
        error = .nestedNamespace e.label) ∧
    (∀ g, groupMessages messages = .ok g ↔
      (∀ e ∈ messages, ¬ Label.Nested e.label.toList) ∧ g.Partitions messages) ∧
    ∀ e : EntryPoint,
      (∀ label, e.namespace? = some label ↔
        Label.SplitsAt e.label.toList label.toList e.methodName.toList) ∧
      (e.methodName = e.label ↔ ¬ Label.Separated e.label.toList) ∧
      ¬ Label.Separated e.methodName.toList :=
  ⟨fun _ => groupMessages_eq_error_iff, fun _ => groupMessages_eq_ok_iff,
    fun _ => ⟨fun _ => namespace?_eq_some_iff, Label.methodName_eq_self_iff,
      Label.not_separated_methodName _⟩⟩

/-- Of three colons the first two separate. -/
example : Label.namespace? ":::a" = some "" ∧ Label.methodName ":::a" = ":a" := by decide

end Metadata
end InkBindings
