import InkBindings.Metadata.Grouping
import InkBindings.Proofs.Fallible

/-!
Messages by namespace are those of the document: each group has the messages of its namespace in
their order, and the namespaces come in the order of their first message.
-/

namespace InkBindings.Metadata

/-- The namespaces of messages, each once. -/
def namespacesOf (messages : List EntryPoint) : List String :=
  (messages.filterMap (·.namespace?)).eraseDups

/-- The messages that a contract gives itself. -/
def inherentOf (messages : List EntryPoint) : List EntryPoint :=
  messages.filter (·.namespace?.isNone)

def membersOf (messages : List EntryPoint) (label : String) : List EntryPoint :=
  messages.filter fun e => e.namespace? == some label

def groupsOf (messages : List EntryPoint) : Groups :=
  ⟨inherentOf messages, (namespacesOf messages).map fun label => (label, membersOf messages label)⟩

theorem mem_namespacesOf {messages : List EntryPoint} {label : String} :
    label ∈ namespacesOf messages ↔ ∃ e ∈ messages, e.namespace? = some label := by
  rw [namespacesOf, List.mem_eraseDups, List.mem_filterMap]

/-- Every message is in the group that it is looked for in. -/
theorem mem_groups {messages : List EntryPoint} {e : EntryPoint} (h : e ∈ messages) :
    e ∈ inherentOf messages ∨ ∃ label ∈ namespacesOf messages, e ∈ membersOf messages label := by
  cases hlabel : e.namespace? with
  | none => exact .inl (List.mem_filter.mpr ⟨h, by rw [hlabel]; rfl⟩)
  | some label =>
      exact .inr ⟨label, mem_namespacesOf.mpr ⟨e, h, hlabel⟩,
        List.mem_filter.mpr ⟨h, beq_iff_eq.mpr hlabel⟩⟩

theorem nodup_eraseDups {α : Type} [BEq α] [LawfulBEq α] (xs : List α) : xs.eraseDups.Nodup := by
  cases xs with
  | nil => exact List.nodup_nil
  | cons x rest =>
      rw [List.eraseDups_cons, List.nodup_cons, List.mem_eraseDups]
      exact ⟨by simp, nodup_eraseDups (rest.filter fun other => !other == x)⟩
termination_by xs.length
decreasing_by exact Nat.lt_succ_of_le (List.length_filter_le _ rest)

/-! ### One more message -/

theorem eraseDups_concat {α : Type} [BEq α] [LawfulBEq α] (xs : List α) (x : α) :
    (xs ++ [x]).eraseDups = xs.eraseDups ++ if x ∈ xs then [] else [x] := by
  rw [List.eraseDups_append, List.removeAll]
  by_cases hold : x ∈ xs
  · rw [if_pos hold, List.filter_cons_of_neg (by simpa using hold)]
    rfl
  · rw [if_neg hold, List.filter_cons_of_pos (by simpa using hold)]
    rfl

theorem namespacesOf_concat (messages : List EntryPoint) {e : EntryPoint} {label : String}
    (h : e.namespace? = some label) :
    namespacesOf (messages ++ [e]) =
      namespacesOf messages ++ if label ∈ namespacesOf messages then [] else [label] := by
  have hlabels : [e].filterMap (·.namespace?) = [label] := by rw [List.filterMap_cons, h]; rfl
  have hmem : label ∈ namespacesOf messages ↔ label ∈ messages.filterMap (·.namespace?) :=
    List.mem_eraseDups
  rw [if_congr hmem rfl rfl, namespacesOf, List.filterMap_append, hlabels, eraseDups_concat]
  rfl

/-- A message goes to the group that was begun for its namespace, or begins one. -/
theorem addToGroup_map (e : EntryPoint) (label : String) {labels : List String}
    (hnodup : labels.Nodup) (members : String → List EntryPoint)
    (hnew : label ∉ labels → members label = []) :
    addToGroup e label (labels.map fun other => (other, members other)) =
      (labels ++ if label ∈ labels then [] else [label]).map fun other =>
        (other, members other ++ if other = label then [e] else []) := by
  induction labels with
  | nil => simp [addToGroup, hnew]
  | cons first rest ih =>
      obtain ⟨hfirst, hrest⟩ := List.nodup_cons.mp hnodup
      rw [List.map_cons, addToGroup]
      by_cases heq : first = label
      · subst heq
        have hothers : ∀ other ∈ rest,
            (other, members other ++ if other = first then [e] else []) =
              (other, members other) := by
          intro other hother
          rw [if_neg fun h : other = first => hfirst (h ▸ hother), List.append_nil]
        simp [List.map_congr_left hothers]
      · have hmem : label ∈ first :: rest ↔ label ∈ rest := by simp [Ne.symm heq]
        rw [if_neg heq, ih hrest fun h => hnew (mt hmem.mp h), if_congr hmem rfl rfl]
        simp [heq]

theorem inherentOf_concat (messages : List EntryPoint) (e : EntryPoint) :
    inherentOf (messages ++ [e]) =
      inherentOf messages ++ if e.namespace?.isNone then [e] else [] := by
  rw [inherentOf, List.filter_append, List.filter_cons, List.filter_nil]
  rfl

theorem membersOf_concat (messages : List EntryPoint) (e : EntryPoint) (label : String) :
    membersOf (messages ++ [e]) label =
      membersOf messages label ++ if e.namespace? = some label then [e] else [] := by
  rw [membersOf, List.filter_append, List.filter_cons, List.filter_nil]
  simp only [beq_iff_eq]
  rfl

theorem groupsOf_concat_of_none (messages : List EntryPoint) {e : EntryPoint}
    (h : e.namespace? = none) :
    groupsOf (messages ++ [e]) =
      { groupsOf messages with inherent := (groupsOf messages).inherent ++ [e] } := by
  have hnamespaces : namespacesOf (messages ++ [e]) = namespacesOf messages := by
    have hlabels : [e].filterMap (·.namespace?) = [] := by rw [List.filterMap_cons, h]; rfl
    rw [namespacesOf, List.filterMap_append, hlabels, List.append_nil]
    rfl
  simp [groupsOf, hnamespaces, inherentOf_concat, membersOf_concat, h]

theorem groupsOf_concat_of_some (messages : List EntryPoint) {e : EntryPoint} {label : String}
    (h : e.namespace? = some label) :
    groupsOf (messages ++ [e]) =
      { groupsOf messages with grouped := addToGroup e label (groupsOf messages).grouped } := by
  have hnew : label ∉ namespacesOf messages → membersOf messages label = [] := by
    intro hnew
    refine List.filter_eq_nil_iff.mpr fun other hother heq => ?_
    exact hnew (mem_namespacesOf.mpr ⟨other, hother, beq_iff_eq.mp heq⟩)
  have hnodup : (namespacesOf messages).Nodup := nodup_eraseDups _
  have hgroup := addToGroup_map e label hnodup (membersOf messages) hnew
  simp only [groupsOf, namespacesOf_concat messages h, inherentOf_concat, membersOf_concat, h]
  rw [hgroup]
  simp [eq_comm]

theorem splitChars_ne_nil (cs : List Char) : Label.splitChars cs ≠ [] := by
  fun_cases Label.splitChars cs <;> simp_all

theorem parts_ne_nil (label : String) : Label.parts label ≠ [] := by
  simpa [Label.parts] using splitChars_ne_nil label.toList

/-- Whether the label is of a namespace within another one. -/
def nested (e : EntryPoint) : Bool :=
  2 < (Label.parts e.label).length

/-- A message of at most one namespace goes to its group, and others to none. -/
theorem add_groupsOf (messages : List EntryPoint) (e : EntryPoint) :
    (groupsOf messages).add e =
      if nested e then .error (.nestedNamespace e.label) else .ok (groupsOf (messages ++ [e])) := by
  rw [Groups.add]
  split
  · next part hparts =>
      have hnone : e.namespace? = none := by simp [EntryPoint.namespace?, Label.namespace?, hparts]
      rw [groupsOf_concat_of_none messages hnone, nested, hparts]
      rfl
  · next label method hparts =>
      have hsome : e.namespace? = some label := by
        simp [EntryPoint.namespace?, Label.namespace?, hparts]
      rw [groupsOf_concat_of_some messages hsome, nested, hparts]
      rfl
  · next hone htwo =>
      rw [if_pos]
      match hparts : Label.parts e.label with
      | [] => exact absurd hparts (parts_ne_nil _)
      | [part] => exact absurd hparts (hone part)
      | [label, method] => exact absurd hparts (htwo label method)
      | _ :: _ :: _ :: _ => simp [nested, hparts]

/-! ### All messages -/

theorem foldlM_add (before messages : List EntryPoint) :
    messages.foldlM Groups.add (groupsOf before) =
      match messages.find? nested with
      | some e => .error (.nestedNamespace e.label)
      | none => .ok (groupsOf (before ++ messages)) := by
  induction messages generalizing before with
  | nil => rw [List.append_nil]; rfl
  | cons e rest ih =>
      rw [List.foldlM_cons, add_groupsOf, List.find?_cons]
      cases hnested : nested e with
      | true => rfl
      | false =>
          have hrest := ih (before ++ [e])
          rw [List.append_assoc] at hrest
          exact hrest

/-- The messages are grouped unless one of them has a nested namespace. -/
theorem groupMessages_eq (messages : List EntryPoint) :
    groupMessages messages =
      match messages.find? nested with
      | some e => .error (.nestedNamespace e.label)
      | none => .ok (groupsOf messages) :=
  foldlM_add [] messages

theorem groupMessages_ok {messages : List EntryPoint} {g : Groups}
    (h : groupMessages messages = .ok g) : g = groupsOf messages := by
  rw [groupMessages_eq] at h
  split at h
  · cases h
  · cases h
    rfl

/-! ### Labels of grouped messages -/

theorem eq_of_splitChars {cs part : List Char} (h : Label.splitChars cs = [part]) : part = cs := by
  fun_induction Label.splitChars cs generalizing part with
  | case1 => exact (List.singleton_inj.mp h).symm
  | case2 rest => exact absurd (List.cons.inj h).2 (splitChars_ne_nil rest)
  | case3 c rest _ hnil => exact absurd hnil (splitChars_ne_nil rest)
  | case4 c rest _ first more hsplit ih =>
      obtain ⟨rfl, rfl⟩ := List.cons.inj h
      rw [ih hsplit]

/-- A message that is not of a namespace has a label without separators. -/
theorem parts_of_inherent {messages : List EntryPoint} {g : Groups}
    (h : groupMessages messages = .ok g) {e : EntryPoint} (he : e ∈ inherentOf messages) :
    Label.parts e.label = [e.label] := by
  obtain ⟨hmem, hnone⟩ := List.mem_filter.mp he
  have hflat : nested e = false := by
    rw [groupMessages_eq] at h
    split at h
    · cases h
    · next hfind => simpa using List.find?_eq_none.mp hfind e hmem
  match hparts : Label.parts e.label with
  | [] => exact absurd hparts (parts_ne_nil _)
  | [part] =>
      obtain ⟨chars, hchars, hpart⟩ := List.map_eq_singleton_iff.mp hparts
      rw [← hpart, eq_of_splitChars hchars, String.ofList_toList]
  | [label, method] => simp [EntryPoint.namespace?, Label.namespace?, hparts] at hnone
  | _ :: _ :: _ :: _ => simp [nested, hparts] at hflat

theorem parts_of_member {messages : List EntryPoint} {label : String} {e : EntryPoint}
    (he : e ∈ membersOf messages label) : Label.parts e.label = [label, e.methodName] := by
  have hlabel := beq_iff_eq.mp (List.mem_filter.mp he).2
  rw [EntryPoint.namespace?, Label.namespace?] at hlabel
  split at hlabel
  · next first method hparts =>
      cases hlabel
      rw [EntryPoint.methodName, Label.methodName, hparts]
      rfl
  · cases hlabel

end InkBindings.Metadata
