import InkBindings.Proofs.Bindings.MadeTypes

/-!
The text of declared types is plain: what stands in codecs and layouts are names, numbers and
brackets, if all declarations go by names and no id is negative.
-/

namespace InkBindings.Bindings

open Metadata (TypeId TypeEntry Declaration)
open Naming (IsName)

/-- Declarations go by names, and ids can stand in names. -/
structure Scope.Plain (s : Scope) : Prop where
  names : ∀ d ∈ s.declarations, IsName d.name
  ids : ∀ e ∈ s.registry.entries, 0 ≤ e.id

/-! ### Names -/

/-- What stands before the id in the name of an instantiation. -/
theorem isName_beforeId {d : Declaration} (hd : IsName d.name) : IsName ("_" ++ d.name ++ "_") := by
  have hunderscore : IsName "_" := ⟨by decide, List.all_eq_true.mp (by decide)⟩
  exact (hunderscore.append hd.chars).append hunderscore.chars

theorem isName_instanceName {d : Declaration} (hd : IsName d.name) {id : TypeId} (hid : 0 ≤ id) :
    IsName (d.instanceName id) := by
  refine (isName_beforeId hd).append fun c hc => ?_
  rw [toList_number, if_neg (Int.not_lt.mpr hid), Nat.toList_repr] at hc
  have hdigit : c.isDigit = true := Nat.isDigit_of_mem_toDigits (by decide) (by decide) hc
  simp [Naming.isNameChar, Char.isAlphanum, hdigit]

theorem isName_entryReference {d : Declaration} (hd : IsName d.name) {id : TypeId} (hid : 0 ≤ id) :
    IsName (referenceName (entryReference d id)) := by
  simp only [entryReference]
  split
  · exact isName_instanceName hd hid
  · exact hd

theorem owner_entryReference (d : Declaration) (id : TypeId) :
    (entryReference d id).owner = d.name := by
  simp only [entryReference]
  split <;> rfl

/-! ### The codecs of a scope -/

/-- The codecs that are put together from the library and from what a scope declares. -/
inductive Scope.Yields (s : Scope) : Scale.Codec → Prop
  | mk {c : Scale.Codec} : c ≠ .langError →
      (∀ r, c = .reference r → ∃ d ∈ s.declarations, ∃ id, r = entryReference d id) →
      (∀ d ∈ c.parts, s.Yields d) → s.Yields c

theorem yields_of_codecWithin {s : Scope} {depth : Nat} {room : Room} {id : TypeId}
    {c : Scale.Codec} (h : s.codecWithin depth room id = .ok c) : s.Yields c := by
  induction depth generalizing room id c with
  | zero => cases h
  | succ depth ih =>
      obtain ⟨depth', room', e, -, hdepth, hc⟩ := Scope.codecWithin_ok h
      cases hdepth
      cases hc with
      | primitive =>
          rename_i p _
          cases p <;> exact .mk nofun nofun nofun
      | unit | bytes | fixedBytes => exact .mk nofun nofun nofun
      | tuple _ hitems =>
          refine .mk nofun nofun fun c hc => ?_
          obtain ⟨item, -, hitem⟩ := forall₂_right hitems hc
          exact ih hitem
      | array _ _ _ hitem | sequence _ _ _ hitem | compact _ hitem | option _ _ hitem =>
          exact .mk nofun nofun (List.forall_mem_singleton.mpr (ih hitem))
      | reserved =>
          rename_i r _ _
          cases r <;> exact .mk nofun nofun nofun
      | result _ _ hfirst hsecond | map _ _ hfirst hsecond =>
          exact .mk nofun nofun
            (List.forall_mem_cons.mpr ⟨ih hfirst, List.forall_mem_singleton.mpr (ih hsecond)⟩)
      | declared _ hnamed =>
          cases hnamed with
          | declared _ hd =>
              rw [declaredCodec_eq]
              refine .mk nofun (fun r hr => ?_) nofun
              cases hr
              exact ⟨_, List.mem_of_find?_eq_some hd, _, rfl⟩

theorem Scope.Yields.references {s : Scope} {c : Scale.Codec} (h : s.Yields c) :
    ∀ r ∈ c.references, ∃ d ∈ s.declarations, ∃ id, r = entryReference d id := by
  induction h with
  | mk _ hreference _ ih =>
      intro r hr
      obtain heq | ⟨d, hd, hr⟩ := Scale.Codec.mem_references_iff.mp hr
      · exact hreference r heq
      · exact ih d hd r hr

/-- What holds in the library and of the references to declared types holds of all codecs. -/
theorem codecPhrase_of_declared {P : Phrase → Prop}
    (hlibrary : Phrase.Closed libraryWords libraryHeads P) (hnumber : ∀ n, P (numberPhrase n))
    {s : Scope} {qualifier : String} (hreference : ∀ d ∈ s.declarations, ∀ id,
      P (.word (qualifier ++ referenceName (entryReference d id))))
    {depth : Nat} {room : Room} {id : TypeId} {c : Scale.Codec}
    (h : s.codecWithin depth room id = .ok c) : P (codecPhrase qualifier c) := by
  have hyields := yields_of_codecWithin h
  clear h
  induction hyields with
  | mk hlang hreferences _ ih =>
      refine codecPhrase_of_parts hlibrary hnumber (absurd · hlang) (fun r hr => ?_) ih
      obtain ⟨d, hd, id, rfl⟩ := hreferences r hr
      exact hreference d hd id

/-! ### Phrases -/

theorem isWordChar_of_number {n : Int} {c : Char} (h : c ∈ (toString n).toList) :
    isWordChar c = true := by
  obtain rfl | hdigit := number_chars h
  · rfl
  · simp [isWordChar, Naming.isNameChar, Char.isAlphanum, hdigit]

theorem wellformed_number (n : Int) : (numberPhrase n).Wellformed := by
  refine .word ?_ fun c hc => isWordChar_of_number hc
  intro hempty
  have hnumber := intOfChars_number n
  rw [hempty] at hnumber
  cases hnumber

theorem wellformed_name {name : String} (h : IsName name) : (Phrase.word name).Wellformed :=
  .word h.nonempty (isWordChar_of_isName h)

theorem wellformed_quoted {name : String} (h : IsName name) : (quotedPhrase name).Wellformed := by
  have hmark : ∀ c ∈ "\"".toList, isWordChar c = true := List.all_eq_true.mp (by decide)
  refine .word (fun hempty => ?_) fun c hc => ?_
  · have hlength := congrArg (fun s : String => s.toList.length) hempty
    simp at hlength
  · simp only [String.toList_append, List.mem_append] at hc
    obtain (hquote | hname) | hquote := hc
    · exact hmark c hquote
    · exact isWordChar_of_isName h c hname
    · exact hmark c hquote

/-- An id that stands in a name may have a sign. -/
theorem wellformed_reference {d : Declaration} (hd : IsName d.name) (id : TypeId) :
    (Phrase.word (referenceName (entryReference d id))).Wellformed := by
  simp only [entryReference]
  split
  · have hbefore := isName_beforeId hd
    have hword : referenceName (.instantiation (d.instanceName id) d.name) =
        "_" ++ d.name ++ "_" ++ toString id := rfl
    rw [hword]
    refine .word (fun hempty => hbefore.nonempty (String.append_eq_empty_iff.mp hempty).1) ?_
    intro c hc
    obtain hc | hc := List.mem_append.mp (String.toList_append ▸ hc)
    · exact isWordChar_of_isName hbefore c hc
    · exact isWordChar_of_number hc
  · exact wellformed_name hd

theorem wellformed_qualified {qualifier : String}
    (hqualifier : ∀ c ∈ qualifier.toList, isWordChar c) {w : String}
    (h : (Phrase.word w).Wellformed) : (Phrase.word (qualifier ++ w)).Wellformed := by
  cases h with
  | word hne hw =>
      refine .word (fun hempty => hne (String.append_eq_empty_iff.mp hempty).2) fun c hc => ?_
      rw [String.toList_append] at hc
      exact (List.mem_append.mp hc).elim (hqualifier c) (hw c)

theorem closed_wellformed_library : Phrase.Closed libraryWords libraryHeads Phrase.Wellformed :=
  Phrase.closed_wellformed (by decide) (by decide)

theorem wellformed_codec_of_names {s : Scope} (hs : ∀ d ∈ s.declarations, IsName d.name)
    {qualifier : String} (hqualifier : ∀ c ∈ qualifier.toList, isWordChar c) {depth : Nat}
    {room : Room} {id : TypeId} {c : Scale.Codec} (h : s.codecWithin depth room id = .ok c) :
    (codecPhrase qualifier c).Wellformed :=
  codecPhrase_of_declared closed_wellformed_library wellformed_number
    (fun d hd id => wellformed_qualified hqualifier (wellformed_reference (hs d hd) id)) h

theorem wellformed_codec {s : Scope} (hs : s.Plain) {depth : Nat} {room : Room} {id : TypeId}
    {c : Scale.Codec} (h : s.codecWithin depth room id = .ok c) :
    (codecPhrase "" c).Wellformed :=
  wellformed_codec_of_names hs.names (by simp) h

/-! ### Layouts -/

theorem wellformed_fields {s : Scope} (hs : s.Plain) {fields : Metadata.Fields}
    {components : Scale.Fields} (h : Laid s fields components) :
    ∀ p ∈ components.map (fieldPhrase ""), p.Wellformed := by
  intro p hp
  obtain ⟨component, hcomponent, rfl⟩ := List.mem_map.mp hp
  obtain ⟨f, -, hname, hcodec⟩ := forall₂_right h hcomponent
  exact .two (by simp) (wellformed_quoted hname) (wellformed_codec hs hcodec)

theorem wellformed_layout {s : Scope} (hs : s.Plain) {emitted : List Alternative}
    (hclasses : ∀ a ∈ emitted, IsName a.className) {definition : Metadata.Definition}
    {layout : Layout} (h : LayoutFor s emitted definition layout) :
    ∀ p ∈ layoutItems "" layout, p.Wellformed := by
  cases h with
  | record hlaid => exact wellformed_fields hs hlaid
  | sum halternatives =>
      intro p hp
      obtain ⟨row, hrow, rfl⟩ := List.mem_map.mp hp
      obtain ⟨a, -, ⟨b, hb, -, hclass⟩, hlaid⟩ := forall₂_right halternatives hrow
      exact .two (by simp) (wellformed_name (hclass ▸ hclasses b hb))
        (.group (by simp) (wellformed_fields hs hlaid))

/-- What is made of a declaration is plain. -/
theorem Made.plain {s : Scope} (hs : s.Plain) {d : Declaration} (hd : d ∈ s.declarations)
    (hentries : ∀ e ∈ d.entries, e ∈ s.registry.entries) {t : DeclaredType} (h : Made s d t) :
    t.Plain := by
  have hname := hs.names d hd
  have hclasses := fun a ha => (h.alternatives a ha).1
  refine ⟨h.name ▸ hname, hclasses, fun l hl => ?_, h.kinds, ?_⟩
  · obtain ⟨e, he, hreference, hlayout⟩ := forall₂_right h.layouts hl
    refine ⟨?_, ?_, wellformed_layout hs hclasses hlayout⟩
    · rw [hreference]
      exact isName_entryReference hname (hs.ids e (hentries e he))
    · rw [hreference, owner_entryReference]
      exact hname
  · by_cases hgeneric : d.isGeneric = true
    · refine .inl fun l hl => ?_
      obtain ⟨e, -, hreference, -⟩ := forall₂_right h.layouts hl
      exact ⟨d.instanceName e.id, by rw [hreference, entryReference, if_pos hgeneric, h.name]⟩
    · have hlayouts := h.layouts
      rw [entries_of_not_generic (by simpa using hgeneric)] at hlayouts
      generalize t.layouts = layouts at hlayouts ⊢
      cases hlayouts with
      | @cons _ l _ _ hl hrest =>
          cases hrest
          obtain ⟨reference, layout⟩ := l
          refine .inr ⟨layout, ?_⟩
          have hreference := hl.1
          rw [entryReference, if_neg hgeneric, ← h.name] at hreference
          rw [← hreference]

end InkBindings.Bindings
