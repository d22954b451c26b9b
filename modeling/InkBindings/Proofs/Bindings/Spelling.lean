import InkBindings.Proofs.Bindings.MadeTypes

/-!
What classes and layouts spell. A class has the components of the first entry of its path and a
layout those of its own entry, and every alternative that is emitted has a class of its own.
-/

namespace InkBindings.Bindings

open Metadata (Declaration Definition)

/-! ### Components -/

theorem names_of_makeRows {s : Scope} {first : Metadata.Fields} {others : List Metadata.Fields}
    {rows : List Row} (h : makeRows s first others = .ok rows) :
    rows.map (·.name) = fieldNames first := by
  have hrows := (forall₂_of_mapM h).imp fun _ _ hrow => (makeRow_ok hrow).1.symm
  calc rows.map (·.name)
      = ((fieldNames first).zip first.toList).zipIdx.map fun x => x.1.1 :=
        (map_eq_map_iff_forall₂.mpr hrows).symm
    _ = fieldNames first := map_fst_zip_zipIdx (length_fieldNames first)

theorem names_of_layoutOf (rows : List Row) : (layoutOf rows).map (·.1) = rows.map (·.name) := by
  rw [layoutOf, List.map_map]
  rfl

/-! ### Alternatives -/

/-- The class of an alternative has the components that the first entry gives it. -/
structure SpelledAs (first : List Metadata.Alternative) (a : Metadata.Alternative)
    (b : Alternative) : Prop where
  label : b.label = a.name
  index : b.index = a.index
  components : b.rows.map (·.name) = fieldNames (fieldsOfAlternative a.name first)

/-- The names of new classes are not those in use before. -/
structure NewClasses (c : Context) (emitted : List Alternative) (c' : Context) : Prop where
  nodup : (emitted.map (·.className)).Nodup
  fresh : ∀ a ∈ emitted, a.className ∉ c.names
  names : ∀ name, name ∈ c'.names ↔ name ∈ c.names ∨ name ∈ emitted.map (·.className)

/-- The name chosen was not in use, and it is afterwards. -/
theorem Context.choose_names (c : Context) (wanted : String) :
    (c.choose wanted).1 ∉ c.names ∧ (c.choose wanted).2.names = (c.choose wanted).1 :: c.names := by
  simp only [Context.choose]
  exact ⟨Naming.identifier_not_mem wanted c.names, trivial⟩

theorem spelled_of_makeAlternative {d : Declaration} {first : List Metadata.Alternative}
    {a : Metadata.Alternative} {c c' : Context} {b : Alternative}
    (h : makeAlternative c d first a = .ok (b, c')) :
    SpelledAs first a b ∧ b.className ∉ c.names ∧ c'.names = b.className :: c.names := by
  obtain ⟨others, -, h⟩ := bind_ok h
  obtain ⟨rows, hrows, h⟩ := bind_ok h
  cases h
  exact ⟨⟨rfl, rfl, names_of_makeRows hrows⟩, c.choose_names s!"_{d.name}_{a.name}"⟩

theorem spelled_of_makeAlternatives {d : Declaration} {first alternatives : List Metadata.Alternative}
    {c c' : Context} {emitted : List Alternative}
    (h : makeAlternatives d first c alternatives = .ok (emitted, c')) :
    List.Forall₂ (SpelledAs first) alternatives emitted ∧ NewClasses c emitted c' := by
  induction alternatives generalizing c emitted with
  | nil =>
      cases h
      exact ⟨.nil, List.nodup_nil, nofun, by simp⟩
  | cons a rest ih =>
      rw [makeAlternatives] at h
      obtain ⟨⟨b, c₁⟩, hb, h⟩ := bind_ok h
      obtain ⟨⟨more, c₂⟩, hmore, h⟩ := bind_ok h
      cases h
      obtain ⟨hspelledFirst, hfresh, hnames⟩ := spelled_of_makeAlternative hb
      obtain ⟨hspelled, hnew⟩ := ih hmore
      have hlater : ∀ x ∈ more, x.className ≠ b.className ∧ x.className ∉ c.names := fun x hx =>
        not_or.mp (mt List.mem_cons.mpr (hnames ▸ hnew.fresh x hx))
      refine ⟨.cons hspelledFirst hspelled, ?_, ?_, fun other => ?_⟩
      · rw [List.map_cons, List.nodup_cons]
        refine ⟨fun hmem => ?_, hnew.nodup⟩
        obtain ⟨x, hx, heq⟩ := List.mem_map.mp hmem
        exact (hlater x hx).1 heq
      · exact List.forall_mem_cons.mpr ⟨hfresh, fun x hx => (hlater x hx).2⟩
      · rw [hnew.names, hnames, List.map_cons, List.mem_cons, List.mem_cons, or_assoc, or_left_comm]

/-- The item of an alternative in a layout. -/
def ItemFor (emitted : List Alternative) (a : Metadata.Alternative) (p : String × Scale.Fields) :
    Prop :=
  classOf emitted a.name = .ok p.1 ∧ p.2.map (·.1) = fieldNames a.fields

theorem items_of_makeSumLayout {s : Scope} {emitted : List Alternative}
    {alternatives : List Metadata.Alternative} {layout : Layout}
    (h : makeSumLayout s emitted alternatives = .ok layout) :
    ∃ items, layout = .sum items ∧ List.Forall₂ (ItemFor emitted) alternatives items := by
  obtain ⟨items, hitems, h⟩ := bind_ok h
  cases h
  refine ⟨items, rfl, (forall₂_of_mapM hitems).imp fun a p hp => ?_⟩
  obtain ⟨className, hclass, hp⟩ := bind_ok hp
  obtain ⟨rows, hrows, hp⟩ := bind_ok hp
  cases hp
  exact ⟨hclass, (names_of_layoutOf rows).trans (names_of_makeRows hrows)⟩

theorem SumLayout.items {s : Scope} {emitted : List Alternative} {definition : Definition}
    {layout : Layout} (h : SumLayout s emitted definition layout) :
    ∃ as items, definition = .variant as ∧ layout = .sum items ∧
      List.Forall₂ (ItemFor emitted) as items := by
  obtain ⟨as, hdefinition, hlayout⟩ := h
  obtain ⟨items, heq, hitems⟩ := items_of_makeSumLayout hlayout
  exact ⟨as, items, hdefinition, heq, hitems⟩

/-- The class that is listed for a label is that of the last alternative of it. -/
theorem classOf_eq {emitted : List Alternative} {label className : String} :
    classOf emitted label = .ok className ↔
      ∃ b, emitted.reverse.find? (·.label = label) = some b ∧ b.className = className := by
  rw [classOf]
  split
  · next b hb => simp [hb]
  · next hnone => simp [hnone]

/-! ### All declared types -/

theorem eachMadeBy_of_makeAllDeclared {c c' : Context} {ds : List Declaration}
    {ts : List DeclaredType} (h : makeAllDeclared c ds = .ok (ts, c')) :
    List.Forall₂ (fun d t => ∃ before after, MadeBy before d t after) ds ts := by
  induction ds generalizing c ts with
  | nil =>
      cases h
      exact .nil
  | cons d rest ih =>
      obtain ⟨t, c₁, more, rfl, ht, hmore⟩ := makeAllDeclared_cons h
      exact .cons ⟨c, c₁, madeBy_of_makeDeclared ht⟩ (ih hmore)

theorem NewClasses.append {c c₁ c₂ : Context} {as bs : List Alternative} (ha : NewClasses c as c₁)
    (hb : NewClasses c₁ bs c₂) : NewClasses c (as ++ bs) c₂ := by
  have hlater : ∀ b ∈ bs, b.className ∉ c.names ∧ b.className ∉ as.map (·.className) :=
    fun b hmem => not_or.mp (mt (ha.names _).mpr (hb.fresh b hmem))
  refine ⟨?_, fun x hx => ?_, fun name => ?_⟩
  · rw [List.map_append, List.nodup_append]
    refine ⟨ha.nodup, hb.nodup, fun name hname other hother heq => ?_⟩
    obtain ⟨b, hmem, rfl⟩ := List.mem_map.mp hother
    exact (hlater b hmem).2 (heq ▸ hname)
  · obtain hx | hx := List.mem_append.mp hx
    · exact ha.fresh x hx
    · exact (hlater x hx).1
  · rw [hb.names, ha.names, List.map_append, List.mem_append, or_assoc]

theorem MadeBy.newClasses {c c' : Context} {d : Declaration} {t : DeclaredType}
    (h : MadeBy c d t c') : NewClasses c t.alternatives c' := by
  cases h with
  | record => exact ⟨List.nodup_nil, nofun, by simp [DeclaredType.alternatives]⟩
  | sum _ hemitted _ => exact (spelled_of_makeAlternatives hemitted).2

/-- No two alternatives of the module have classes of one name. -/
theorem newClasses_of_makeAllDeclared {c c' : Context} {ds : List Declaration}
    {ts : List DeclaredType} (h : makeAllDeclared c ds = .ok (ts, c')) :
    NewClasses c (ts.flatMap (·.alternatives)) c' := by
  induction ds generalizing c ts with
  | nil =>
      cases h
      exact ⟨List.nodup_nil, nofun, by simp⟩
  | cons d rest ih =>
      obtain ⟨t, c₁, more, rfl, ht, hmore⟩ := makeAllDeclared_cons h
      exact (madeBy_of_makeDeclared ht).newClasses.append (ih hmore)

end InkBindings.Bindings
