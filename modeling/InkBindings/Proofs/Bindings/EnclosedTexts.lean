import InkBindings.Proofs.Bindings.RenamedBindings

/-!
Where the texts of a contract stay in their literals: its name, its namespaces, and the labels of
alternatives and events are written between quotes as they are. If none of them closes its literal,
the tokens of the module do not depend on them.
-/

namespace InkBindings.Bindings

open Metadata (Renaming)

/-- The texts of a contract that are not escaped can stand in their literals. -/
structure EnclosedTexts (m : Metadata) : Prop where
  name : ∀ name ∈ m.name, IsEnclosed name
  namespaces : ∀ label ∈ Metadata.namespacesOf m.messages, IsEnclosed label
  alternatives : ∀ e ∈ m.types, ∀ as, e.definition = .variant as → ∀ a ∈ as, IsLabel a.name
  events : ∀ e ∈ m.events, IsLabel e.label

section
variable {room : Room} {m : Metadata} {b : Bindings}

/-- An alternative of an event goes by the label of the event. -/
theorem label_of_makeEvents {s : Scope} {events : List Metadata.Event} {as : List Alternative}
    (h : makeEvents s events = .ok as) {a : Alternative} (ha : a ∈ as) :
    ∃ e ∈ events, e.label = a.label := by
  obtain ⟨e, he, hmade⟩ := forall₂_right (made_of_makeEvents h) ha
  exact ⟨e, he, hmade.label.symm⟩

/-- The texts in the bindings are those of the metadata. -/
theorem enclosed_of_within (h : within? room m = .ok b) (hm : EnclosedTexts m) : b.Enclosed := by
  constructor
  · rw [(taken_of_within h).1]
    exact hm.name
  · intro t ht a ha
    obtain ⟨d, hd, hmade⟩ := forall₂_right (made_of_within h) ht
    obtain ⟨-, as, hfirst, x, hx, hname, -⟩ := hmade.alternatives a ha
    have hentry := Metadata.Registry.mem_entries_of_mem_declarations hd
      (show d.first ∈ d.entries from List.mem_cons_self)
    exact hname ▸ hm.alternatives d.first hentry as hfirst x hx
  · intro a ha
    obtain ⟨c, c', hb⟩ := assembled_of_within h
    obtain ⟨e, he, hlabel⟩ := label_of_makeEvents hb.events ha
    exact hlabel ▸ hm.events e he
  · intro n hn
    obtain ⟨label, hlabel, hmade⟩ := forall₂_right (eachMethod_of_within h).namespaces hn
    rw [hmade.1]
    exact hm.namespaces label hlabel

/-- Contracts that are the same but for their names, and for namespaces and labels that stand for
each other, have modules with the same tokens if these texts can stand in their literals. -/
theorem tokens_of_renamed {r : Renaming} {m' : Metadata} (hsame : m.Renamed r m')
    (hm : EnclosedTexts m) (hm' : EnclosedTexts m') {b' : Bindings} (h : within? room m = .ok b)
    (h' : within? room m' = .ok b') (options : PrintOptions) :
    tokens (text b options) = tokens (text b' options) :=
  tokens_of_relabelled (complete_of_within h) (enclosed_of_within h hm)
    (enclosed_of_within h' hm') (relabelled_of_within hsame h h') options

/-- A shop, with names for it, for a namespace, for one of its states and for an event. -/
def shop (name namespaceLabel alternative event : String) : Metadata where
  codeHash := []
  types := [⟨0, .variant [⟨alternative, 0, .positional [], []⟩, ⟨"Open", 1, .positional [], []⟩],
    ["shop", "State"], [], []⟩]
  constructors := [callable "new" [0, 0, 0, 1] true false]
  messages := [callable (namespaceLabel ++ "::buy") [0, 0, 0, 2] true true]
  events := [⟨event, [⟨"state", 0, [], false⟩], []⟩]
  name := some name

/-- The names of the shop that have others which stand for them. -/
def shopRenaming : Renaming where
  Namespace p p' := p = "Trade.1" ∧ p' = "Trade 1"
  Alternative _ a a' := a = "Not open" ∧ a' = "Not-open" ∨ a = "Open" ∧ a' = "Open"
  oneNamespace :=
    ⟨fun _ _ _ h h' => h.1.trans h'.1.symm, fun _ _ _ h h' => h.2.trans h'.2.symm⟩
  oneAlternative _ := by
    constructor
    · rintro a b c (⟨rfl, rfl⟩ | ⟨rfl, rfl⟩) (⟨rfl, h⟩ | ⟨rfl, h⟩) <;> simp at h ⊢
    · rintro a b c (⟨rfl, rfl⟩ | ⟨rfl, rfl⟩) (⟨h, rfl⟩ | ⟨h, rfl⟩) <;> simp at h ⊢
  sameNamespace := by
    rintro _ _ ⟨rfl, rfl⟩
    decide
  sameAlternative := by
    rintro _ _ _ (⟨rfl, rfl⟩ | ⟨rfl, rfl⟩)
    · decide
    · rfl

def stall : Metadata :=
  shop "stall" "Trade.1" "Not open" "Sold out"

/-- The same shop with quotes in its texts. -/
def quotedStall : Metadata :=
  shop "s'tall \"\"" "Trade 1" "Not-open" "Sold'out"

theorem stall_renamed : stall.Renamed shopRenaming quotedStall := by
  have hparts : Label.parts "Trade.1::buy" = ["Trade.1", "buy"] := by decide
  have hparts' : Label.parts "Trade 1::buy" = ["Trade 1", "buy"] := by decide
  have hevent : Naming.sanitize "Sold out" = Naming.sanitize "Sold'out" := by decide
  exact
    { codeHash := rfl
      types := .cons ⟨.variant (.cons ⟨.inl ⟨rfl, rfl⟩, rfl⟩
        (.cons ⟨.inr ⟨rfl, rfl⟩, rfl⟩ .nil)), rfl⟩ .nil
      constructors := rfl
      messages := .cons ⟨.member hparts hparts' ⟨rfl, rfl⟩, rfl⟩ .nil
      events := .cons ⟨hevent, rfl⟩ .nil }

theorem enclosedTexts_shop {name namespaceLabel alternative event : String}
    (hname : IsEnclosed name) (hlabel : IsEnclosed namespaceLabel)
    (hparts : Label.parts (namespaceLabel ++ "::buy") = [namespaceLabel, "buy"])
    (halternative : IsLabel alternative) (hevent : IsLabel event) :
    EnclosedTexts (shop name namespaceLabel alternative event) := by
  have hopen : IsLabel "Open" := ⟨rfl, by decide⟩
  refine ⟨by rintro _ ⟨⟩; exact hname, ?_, ?_, ?_⟩
  · intro label hmem
    obtain ⟨e, he, hnamespace⟩ := Metadata.mem_namespacesOf.mp hmem
    obtain rfl := List.mem_singleton.mp he
    simp only [Metadata.EntryPoint.namespace?, callable, Label.namespace?, hparts] at hnamespace
    exact Option.some.inj hnamespace ▸ hlabel
  · intro e he as hdefinition a ha
    obtain rfl := List.mem_singleton.mp he
    cases hdefinition
    simp only [List.mem_cons, List.not_mem_nil, or_false] at ha
    obtain rfl | rfl := ha
    · exact halternative
    · exact hopen
  · intro e he
    obtain rfl := List.mem_singleton.mp he
    exact hevent

theorem stall_tokens : ∃ b b', within? .unbounded stall = .ok b ∧
    within? .unbounded quotedStall = .ok b' ∧
      ∀ options, tokens (text b options) = tokens (text b' options) := by
  obtain ⟨b, hb⟩ : ∃ b, within? .unbounded stall = .ok b := ⟨_, rfl⟩
  obtain ⟨b', hb'⟩ : ∃ b', within? .unbounded quotedStall = .ok b' := ⟨_, rfl⟩
  have hstall : EnclosedTexts stall := enclosedTexts_shop ⟨rfl, by decide⟩ ⟨rfl, by decide⟩
    (by decide) ⟨rfl, by decide⟩ ⟨rfl, by decide⟩
  have hquoted : EnclosedTexts quotedStall := enclosedTexts_shop ⟨rfl, by decide⟩ ⟨rfl, by decide⟩
    (by decide) ⟨rfl, by decide⟩ ⟨rfl, by decide⟩
  exact ⟨b, b', hb, hb', tokens_of_renamed stall_renamed hstall hquoted hb hb'⟩

/-! ### A name that is not enclosed -/

theorem prefix_intercalate (separator l : String) {ls : List String} (h : ls ≠ []) :
    (l ++ separator).toList <+: (separator.intercalate (l :: ls)).toList := by
  obtain ⟨k, rest, rfl⟩ := List.exists_cons_of_ne_nil h
  rw [String.intercalate_cons_cons, String.toList_append (s := l ++ separator)]
  exact List.prefix_append _ _

/-- The first line of a module for a contract that has a name. -/
def titleLine (name : String) : String :=
  "\"\"\"Typed bindings for the " ++ (quotedName name ++ " ") ++ "ink! contract.\"\"\"" ++ "\n"

theorem prefix_text {name : String} (h : shownName? b.contractName = some name)
    {options : PrintOptions} (hbanner : options.banner = false) :
    (titleLine name).toList <+: (text b options).toList := by
  have hblocks : blocks b options = headerText b :: (blocks b options).tail := by
    rw [blocks, hbanner]
    rfl
  have hothers : (blocks b options).tail ≠ [] := by simp [blocks]
  have hheader : (titleLine name).toList <+: (headerText b).toList := by
    rw [headerText, h]
    exact prefix_intercalate "\n" _ (List.cons_ne_nil _ _)
  have hfirst : (headerText b).toList <+: ("\n\n\n".intercalate (blocks b options)).toList := by
    rw [hblocks]
    refine List.IsPrefix.trans ?_ (prefix_intercalate "\n\n\n" (headerText b) hothers)
    rw [String.toList_append]
    exact List.prefix_append _ _
  rw [text, String.toList_append]
  exact (hheader.trans hfirst).trans (List.prefix_append _ _)

theorem prefix_tokens {before s : String} (h : before.toList <+: s.toList) :
    (tokens before).1 <+: (tokens s).1 := by
  obtain ⟨rest, hrest⟩ := h
  rw [tokens, tokens, ← hrest, Mode.read_append]
  exact List.prefix_append _ _

/-- A name with three quotes closes the literal that it stands in. -/
theorem not_tokens_of_named : ¬ ∀ (m : Metadata) (name : String) (b b' : Bindings)
    (options : PrintOptions), within? .unbounded m = .ok b →
      within? .unbounded { m with name := some name } = .ok b' →
        tokens (text b options) = tokens (text b' options) := by
  intro h
  let name := "a\"\"\"b"
  let options : PrintOptions := ⟨false, none⟩
  obtain ⟨b, hb⟩ : ∃ b, within? .unbounded stall = .ok b := ⟨_, rfl⟩
  obtain ⟨b', hb'⟩ : ∃ b', within? .unbounded { stall with name := some name } = .ok b' :=
    ⟨_, rfl⟩
  have hsame := h stall name b b' options hb hb'
  have hshown : shownName? b.contractName = some "stall" := by
    rw [(taken_of_within hb).1]
    rfl
  have hshown' : shownName? b'.contractName = some name := by
    rw [(taken_of_within hb').1]
    rfl
  have hline : [.opened .double true, .closed, .char '\n'] <+: (tokens (text b options)).1 :=
    prefix_tokens (prefix_text hshown rfl)
  have hcode : [.opened .double true, .closed, .char 'b'] <+: (tokens (titleLine name)).1 := by
    decide
  have hcode' : [.opened .double true, .closed, .char 'b'] <+: (tokens (text b options)).1 := by
    rw [hsame]
    exact hcode.trans (prefix_tokens (prefix_text hshown' rfl))
  exact absurd (List.prefix_of_prefix_length_le hline hcode' (Nat.le_refl _)) (by decide)

end

end InkBindings.Bindings
