import InkBindings.Proofs.Scale.Parts

/-!
Instances that are made of what has been read. The values of a row come back under the names of
their fields, and are less deeply nested than the instance.
-/

namespace InkBindings

namespace Value

theorem depth_le_of_item {v : Value} {vs : List Value} (h : v ∈ vs) :
    v.depth ≤ depthOfItems vs := by
  induction vs with
  | nil => cases h
  | cons w rest ih =>
      rw [depthOfItems]
      rcases List.mem_cons.mp h with rfl | hmem
      · exact Nat.le_max_left ..
      · exact Nat.le_trans (ih hmem) (Nat.le_max_right ..)

theorem depth_le_of_field {f : String × Value} {fields : List (String × Value)} (h : f ∈ fields) :
    f.2.depth ≤ depthOfFields fields := by
  induction fields with
  | nil => cases h
  | cons g rest ih =>
      obtain ⟨name, w⟩ := g
      rw [depthOfFields]
      rcases List.mem_cons.mp h with rfl | hmem
      · exact Nat.le_max_left ..
      · exact Nat.le_trans (ih hmem) (Nat.le_max_right ..)

end Value

namespace Scale

theorem lastValue_of_mem {values : List (String × Value)} {name : String} {v : Value}
    (hnodup : (values.map (·.1)).Nodup) (h : (name, v) ∈ values) :
    lastValue? values name = some v := by
  have hmem : (name, v) ∈ values.reverse := List.mem_reverse.mpr h
  have hnodup' : (values.reverse.map (·.1)).Nodup := by
    rw [List.map_reverse]
    exact List.pairwise_reverse.mpr (hnodup.imp Ne.symm)
  simp only [lastValue?]
  generalize values.reverse = given at hmem hnodup'
  induction given with
  | nil => cases hmem
  | cons g rest ih =>
      simp only [List.map_cons, List.nodup_cons] at hnodup'
      rcases List.mem_cons.mp hmem with rfl | hrest
      · simp
      · have hne : g.1 ≠ name := by
          rintro rfl
          exact hnodup'.1 (List.mem_map_of_mem (f := (·.1)) hrest)
        rw [List.find?_cons_of_neg (by simpa using hne)]
        exact ih hrest hnodup'.2

theorem find_of_mapM {attributes : List Attribute} {value? : Attribute → Option Value}
    {given : List (String × Value)} {name : String} {v : Value}
    (h : attributes.mapM (fun a => (value? a).map (a.name, ·)) = some given)
    (hmem : name ∈ attributes.map (·.name))
    (hv : ∀ a ∈ attributes, a.name = name → value? a = some v) :
    (given.find? (·.1 = name)).map (·.2) = some v := by
  induction attributes generalizing given with
  | nil => cases hmem
  | cons a rest ih =>
      simp only [List.mapM_cons, bind, Option.bind_eq_some_iff, Option.map_eq_some_iff, pure,
        Option.some.injEq] at h
      obtain ⟨-, ⟨w, hw, rfl⟩, given', hrest, rfl⟩ := h
      by_cases hname : a.name = name
      · have hwv : w = v := by
          have := (hv a List.mem_cons_self hname).symm.trans hw
          simpa using this.symm
        simp [hname, hwv]
      · rw [List.find?_cons_of_neg (by simpa using hname)]
        have hmem' : name ∈ rest.map (·.name) := by
          simpa [Ne.symm hname] using hmem
        exact ih hrest hmem' fun b hb => hv b (List.mem_cons_of_mem a hb)

theorem arrange_some {attributes : List Attribute} {values given : List (String × Value)}
    (h : arrange? attributes values = some given) :
    attributes.mapM (fun a => ((lastValue? values a.name).or a.default?).map (a.name, ·)) =
      some given := by
  simp only [arrange?] at h
  split at h
  · cases h
  · split at h
    · exact h
    · cases h

/-- What is read for a field comes back under its name. -/
theorem find_of_arrange {fields : Fields} {attributes : List Attribute} {vs : List Value}
    {given : List (String × Value)} (hfit : FieldsFit fields attributes)
    (hlen : vs.length = fields.length)
    (h : arrange? attributes ((fields.map (·.1)).zip vs) = some given) :
    fields.map (fun f => (given.find? (·.1 = f.1)).map (·.2)) = vs.map some := by
  refine List.ext_getElem (by simp [hlen]) fun i hi hi' => ?_
  have hf : i < fields.length := by simpa using hi
  have hv : i < vs.length := by simpa using hi'
  have hmem : (fields[i].1, vs[i]) ∈ (fields.map (·.1)).zip vs := by
    rw [List.mem_iff_getElem]
    exact ⟨i, by rw [List.length_zip, List.length_map]; omega, by simp⟩
  have hkeys : (((fields.map (·.1)).zip vs).map (·.1)).Nodup := by
    rw [List.map_fst_zip (by simp [hlen])]
    exact hfit.1
  have hlast := lastValue_of_mem hkeys hmem
  have hname : fields[i].1 ∈ attributes.map (·.name) :=
    (hfit.2 _).mp (List.mem_map_of_mem (f := (·.1)) (List.getElem_mem hf))
  have hfind := find_of_mapM (arrange_some h) hname fun a _ ha => by
    rw [ha, hlast, Option.some_or]
  simpa using hfind

theorem mem_of_arrange {fields : Fields} {attributes : List Attribute} {vs : List Value}
    {given : List (String × Value)} (hfit : FieldsFit fields attributes)
    (hlen : vs.length = fields.length)
    (h : arrange? attributes ((fields.map (·.1)).zip vs) = some given) {v : Value}
    (hv : v ∈ vs) : ∃ name, (name, v) ∈ given := by
  have hmem : some v ∈ fields.map fun f => (given.find? (·.1 = f.1)).map (·.2) := by
    rw [find_of_arrange hfit hlen h]
    exact List.mem_map_of_mem hv
  obtain ⟨f, -, hf⟩ := List.mem_map.mp hmem
  obtain ⟨g, hg, rfl⟩ := Option.map_eq_some_iff.mp hf
  exact ⟨g.1, List.mem_of_find?_eq_some hg⟩

theorem mapM_some_of_forall {α β : Type} {f : α → Option β} {as : List α}
    (h : ∀ a ∈ as, ∃ b, f a = some b) : ∃ bs, as.mapM f = some bs := by
  induction as with
  | nil => exact ⟨[], rfl⟩
  | cons a rest ih =>
      obtain ⟨b, hb⟩ := h a List.mem_cons_self
      obtain ⟨bs, hbs⟩ := ih fun c hc => h c (List.mem_cons_of_mem a hc)
      exact ⟨b :: bs, by simp [hb, hbs]⟩

/-- Values for all fields make an instance, unless a field has a name that gives way to no value. -/
theorem exists_arrange_iff {fields : Fields} {attributes : List Attribute} {vs : List Value}
    (hfit : FieldsFit fields attributes) (hlen : vs.length = fields.length) :
    (∃ given, arrange? attributes ((fields.map (·.1)).zip vs) = some given) ↔
      ∀ f ∈ fields, f.1 ∉ fixedAttributes := by
  have hzip : ((fields.map (·.1)).zip vs).map (·.1) = fields.map (·.1) :=
    List.map_fst_zip (by simp [hlen])
  have hkeys : (((fields.map (·.1)).zip vs).map (·.1)).Nodup := by
    rw [hzip]
    exact hfit.1
  have hfixed : attributes.any (·.isFixed) = true ↔ ∃ f ∈ fields, f.1 ∈ fixedAttributes := by
    simp only [List.any_eq_true, Attribute.isFixed, List.contains_iff_mem]
    constructor
    · intro ⟨a, ha, hname⟩
      obtain ⟨f, hf, heq⟩ := List.mem_map.mp ((hfit.2 a.name).mpr (List.mem_map_of_mem ha))
      exact ⟨f, hf, heq ▸ hname⟩
    · intro ⟨f, hf, hname⟩
      obtain ⟨a, ha, heq⟩ := List.mem_map.mp ((hfit.2 f.1).mp (List.mem_map_of_mem hf))
      exact ⟨a, ha, heq ▸ hname⟩
  constructor
  · intro ⟨given, hgiven⟩ f hf hname
    rw [arrange?, if_pos (hfixed.mpr ⟨f, hf, hname⟩)] at hgiven
    cases hgiven
  · intro hopen
    have hnames : ((fields.map (·.1)).zip vs).all (fun v => attributes.any (·.name = v.1)) := by
      rw [List.all_eq_true]
      intro p hp
      have hmem : p.1 ∈ fields.map (·.1) := hzip ▸ List.mem_map_of_mem (f := (·.1)) hp
      obtain ⟨a, ha, heq⟩ := List.mem_map.mp ((hfit.2 p.1).mp hmem)
      exact List.any_eq_true.mpr ⟨a, ha, by simpa using heq⟩
    rw [arrange?, if_neg (fun h => ?_), if_pos hnames]
    · refine mapM_some_of_forall fun a ha => ?_
      have hmem : a.name ∈ ((fields.map (·.1)).zip vs).map (·.1) := by
        rw [hzip]
        exact (hfit.2 a.name).mpr (List.mem_map_of_mem ha)
      obtain ⟨p, hp, heq⟩ := List.mem_map.mp hmem
      rw [← heq, lastValue_of_mem hkeys hp]
      exact ⟨_, rfl⟩
    · obtain ⟨f, hf, hname⟩ := hfixed.mp h
      exact hopen f hf hname

namespace Environment
variable {env : Environment} {owner label : String} {values : List (String × Value)} {v : Value}

theorem makeRecord_ok (h : env.makeRecord owner values = .ok v) :
    ∃ attributes given, env.recordAttributes? owner = some attributes ∧
      arrange? attributes values = some given ∧ v = .record owner given := by
  simp only [makeRecord] at h
  split at h
  · cases h
  · next attributes hattributes =>
      split at h
      · next given hgiven =>
          cases h
          exact ⟨attributes, given, hattributes, hgiven, rfl⟩
      · cases h

theorem makeVariant_ok (h : env.makeVariant owner label values = .ok v) :
    ∃ c given, env.alternative? owner label = some c ∧
      arrange? c.attributes values = some given ∧ v = .variant owner label given := by
  simp only [makeVariant] at h
  split at h
  · cases h
  · next c hc =>
      split at h
      · cases h
      · split at h
        · next given hgiven =>
            split at h
            · cases h
            · cases h
              exact ⟨c, given, hc, hgiven, rfl⟩
        · cases h

theorem exists_makeRecord_iff {owner : String} {fields : Fields}
    {attributes : List Attribute} {vs : List Value}
    (hattributes : env.recordAttributes? owner = some attributes) (hfit : FieldsFit fields attributes)
    (hlen : vs.length = fields.length) :
    (∃ v, env.makeRecord owner ((fields.map (·.1)).zip vs) = .ok v) ↔
      ∀ f ∈ fields, f.1 ∉ fixedAttributes := by
  rw [← exists_arrange_iff hfit hlen]
  simp only [makeRecord, hattributes]
  split
  · next given hgiven => simp [hgiven]
  · next hnone => simp [hnone]

theorem exists_makeVariant_iff {owner label : String} {fields : Fields}
    {c : AlternativeClass} {vs : List Value} (hc : env.alternative? owner label = some c)
    (hfit : FieldsFit fields c.attributes) (hlen : vs.length = fields.length) :
    (∃ v, env.makeVariant owner label ((fields.map (·.1)).zip vs) = .ok v) ↔
      (∀ f ∈ fields, f.1 ∉ fixedAttributes) ∧ env.alternative? owner creationName = none ∧
        env.completionFails owner label = false := by
  rw [← exists_arrange_iff hfit hlen]
  simp only [makeVariant, hc]
  split
  · next hnew => simp [Option.isSome_iff_ne_none.mp hnew]
  · next hnew =>
      have hnone : env.alternative? owner creationName = none := by simpa using hnew
      split
      · next given hgiven => cases env.completionFails owner label <;> simp [hgiven, hnone]
      · next harrange => simp [harrange]

/-- A record has no alternatives that could hide anything. -/
theorem hiding_of_record {r : Reference} {attributes : List Attribute} (op : Operation)
    (h : env.recordAttributes? r.owner = some attributes) : env.hiding? op r = none := by
  have hnone : ∀ label, env.alternative? r.owner label = none := by
    intro label
    simp only [recordAttributes?] at h
    split at h
    · next hshape => simp [alternative?, alternatives, hshape]
    · cases h
  cases r with
  | declared owner | alternative owner label => exact hnone op.name
  | instantiation key owner => rfl

theorem hiding_of_made {r : Reference} {values : List (String × Value)} {v : Value}
    (h : env.makeRecord r.owner values = .ok v) (op : Operation) : env.hiding? op r = none := by
  obtain ⟨_, _, hattributes, -, -⟩ := makeRecord_ok h
  exact hiding_of_record op hattributes

end Environment
end Scale
end InkBindings
