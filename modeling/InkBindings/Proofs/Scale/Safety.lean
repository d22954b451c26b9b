import InkBindings.Proofs.Scale.Canonical
import Mathlib.Logic.Relation

/-!
Reading any bytes whatever. If no declared type leads back to itself before a byte is taken, then
reading comes to an end: between two bytes it can pass each binding once. It stays within the data,
and the one way to fail is an error about the bytes, unless an alternative stands in the place of
an operation or no instance can be made.
-/

namespace InkBindings.Scale

/-- The codec may read a value without taking a byte. -/
def Skips (env : Environment) (c : Codec) : Prop :=
  ∃ (data : Bytes) (offset : Nat) (v : Value), offset ≤ data.length ∧
    c.decodeFrom env data offset = .ok (v, offset)

/-- No declared type of the tree leads back to itself before a byte is taken. -/
def TakesBytes (env : Environment) (c : Codec) : Prop :=
  ∀ r, Reaches env c (.reference r) → ¬ Relation.TransGen (env.LeadsTo (Skips env)) r r

/-- Reading at any place of any data gives a value and a place behind it, or an error about the
bytes. -/
def Safe (env : Environment) (c : Codec) : Prop :=
  ∀ (data : Bytes) (offset : Nat), offset ≤ data.length →
    (∃ v next, c.decodeFrom env data offset = .ok (v, next) ∧ offset ≤ next ∧
      next ≤ data.length) ∨ ∃ e, c.decodeFrom env data offset = .error (.bytes e)

/-- Reading from the start of any data gives a value, or an error about the bytes. -/
def SafeStart (env : Environment) (c : Codec) : Prop :=
  ∀ data : Bytes, (∃ v next, c.decodeFrom env data (0 : Nat) = .ok (v, next)) ∨
    ∃ e, c.decodeFrom env data (0 : Nat) = .error (.bytes e)

theorem Safe.safeStart {env : Environment} {c : Codec} (h : Safe env c) : SafeStart env c := by
  intro data
  rcases h data 0 (Nat.zero_le _) with ⟨v, next, hread, -⟩ | herror
  · exact .inl ⟨v, next, hread⟩
  · exact .inr herror

/-- Whatever is read for the fields of the type, an instance can be made of it. -/
def Makes (env : Environment) (r : Reference) : Prop :=
  ∀ fields make, env.Row r fields make → ∀ (data : Bytes) (offset : Nat) vs next,
    offset ≤ data.length →
    (Codec.tuple (fields.map (·.2))).decodeFrom env data offset = .ok (.tuple vs, next) →
    ∃ v, make ((fields.map (·.1)).zip vs) = .ok v

/-- No field that is read has a name that gives way to no value, and no alternative that is read
belongs to a sum where another stands in the place of what makes or completes an instance. -/
structure Constructs (env : Environment) (r : Reference) : Prop where
  fields : ∀ fields make, env.Row r fields make →
    ReadsSomething env (.tuple (fields.map (·.2))) → ∀ f ∈ fields, f.1 ∉ fixedAttributes
  alternatives : ∀ alternatives, env.layout? r = some (.sum alternatives) → ∀ a ∈ alternatives,
    ReadsSomething env (.tuple (a.fields.map (·.2))) →
      env.alternative? r.owner creationName = none ∧
        env.completionFails r.owner a.label = false

/-! ### Types that lead to each other -/

section
variable {env : Environment} {root : Codec} {skips : Codec → Prop}

theorem Leads.reaches {c : Codec} {r : Reference} (h : Leads skips c r) :
    Reaches env c (.reference r) := by
  induction h with
  | reference r => exact .refl _
  | @tuple before c after r _ _ ih =>
      exact (Reaches.part (show c ∈ before ++ c :: after by simp)).trans ih
  | array _ _ ih => exact (Reaches.part List.mem_cons_self).trans ih

theorem reaches_of_leadsTo {r r' : Reference} (h : env.LeadsTo skips r r') :
    Reaches env (.reference r) (.reference r') := by
  obtain ⟨fields, hlayout, before, c, after, heq, -, hc⟩ := h
  have hpart : c ∈ env.partsOf (.reference r) :=
    Environment.mem_partsOf_record hlayout (by rw [heq]; simp)
  exact (Reaches.part hpart).trans hc.reaches

theorem reaches_of_transGen {r r' : Reference}
    (h : Relation.TransGen (env.LeadsTo skips) r r') :
    Reaches env (.reference r) (.reference r') := by
  induction h with
  | single h => exact reaches_of_leadsTo h
  | tail _ h ih => exact ih.trans (reaches_of_leadsTo h)

theorem leadsTo_of_binding {r r' s : Reference} (hbinding : r.binding = r'.binding)
    (h : env.LeadsTo skips r s) : env.LeadsTo skips r' s := by
  obtain ⟨fields, hlayout, hfields⟩ := h
  refine ⟨fields, ?_, hfields⟩
  rw [Environment.layout?] at hlayout ⊢
  rwa [← hbinding]

open Classical in
/-- The bindings that a type leads to. -/
noncomputable def bindingsAhead (env : Environment) (skips : Codec → Prop) (r : Reference) :
    Finset Reference :=
  (env.layouts.map (·.1)).toFinset.filter fun key =>
    ∃ r', Relation.TransGen (env.LeadsTo skips) r r' ∧ r'.binding = key

/-- How many bindings reading may still pass before it has to take a byte. -/
noncomputable def rank (env : Environment) (skips : Codec → Prop) (r : Reference) : Nat :=
  (bindingsAhead env skips r).card

theorem mem_bindingsAhead {r key : Reference} :
    key ∈ bindingsAhead env skips r ↔ key ∈ env.layouts.map (·.1) ∧
      ∃ r', Relation.TransGen (env.LeadsTo skips) r r' ∧ r'.binding = key := by
  simp only [bindingsAhead, Finset.mem_filter, List.mem_toFinset]

theorem rank_le (r : Reference) : rank env skips r ≤ env.layouts.length := by
  classical
  refine Nat.le_trans (Finset.card_filter_le _ _) ?_
  have hle := List.toFinset_card_le (env.layouts.map (·.1))
  rwa [List.length_map] at hle

theorem rank_lt {r r' : Reference}
    (hacyclic : ∀ s, Reaches env (.reference r) (.reference s) →
      ¬ Relation.TransGen (env.LeadsTo skips) s s)
    (hkey : r'.binding ∈ env.layouts.map (·.1)) (h : env.LeadsTo skips r r') :
    rank env skips r' < rank env skips r := by
  refine Finset.card_lt_card ((Finset.ssubset_iff_of_subset ?_).mpr ⟨r'.binding, ?_, ?_⟩)
  · intro key hmem
    obtain ⟨hkey, s, hs, hbinding⟩ := mem_bindingsAhead.mp hmem
    exact mem_bindingsAhead.mpr ⟨hkey, s, .head h hs, hbinding⟩
  · exact mem_bindingsAhead.mpr ⟨hkey, r', .single h, rfl⟩
  · -- a type with the binding of `r'` leads wherever `r'` does, hence to itself
    intro hmem
    obtain ⟨-, s, hs, hbinding⟩ := mem_bindingsAhead.mp hmem
    refine hacyclic s ((reaches_of_leadsTo h).trans (reaches_of_transGen hs)) ?_
    obtain ⟨t, ht, hts⟩ := Relation.TransGen.head'_iff.mp hs
    exact Relation.TransGen.head'_iff.mpr ⟨t, leadsTo_of_binding hbinding.symm ht, hts⟩

end

variable {env : Environment} {root : Codec}

/-! ### Reading comes to an end -/

/-- A reading at this type with so many bytes left is nested less deeply than `level`. -/
def Budget (env : Environment) (level : Nat) (r : Reference) (left : Nat) : Prop :=
  left * (env.layouts.length + 1) + rank env (Skips env) r < level

theorem skips_of_wire {c : Codec} (hsound : env.Sound c) {strict : Prop} {pad : Nat} {v : Value}
    (h : Wire env strict pad c v []) : Skips env c := by
  have hyields := Codec.yields_decodeFrom hsound (h.yields hsound (.refl c))
  exact ⟨[] ++ ([] ++ List.replicate pad 0), 0, v, Nat.zero_le _,
    hyields [] (List.replicate pad 0) (by simp)⟩

/-- A row of codecs that stand in a tree is itself a codec to read by. -/
theorem sound_tuple {cs : List Codec} (hsound : env.Sound root)
    (hcs : ∀ c ∈ cs, Reaches env root c) : env.Sound (.tuple cs) :=
  .of_parts hsound.room trivial fun c hc => hsound.of_reaches (hcs c hc)

theorem Environment.Row.parts {r : Reference} {fields : Fields}
    {make : List (String × Value) → Except InstanceError Value} (h : env.Row r fields make) :
    ∀ c ∈ fields.map (·.2), c ∈ env.partsOf (.reference r) := by
  cases h with
  | record hlayout => exact fun c hc => Environment.mem_partsOf_record hlayout hc
  | variant hlayout ha => exact fun c hc => Environment.mem_partsOf_sum hlayout ha hc

theorem makes_of_wire (hsound : env.Sound root) {r : Reference}
    (hr : Reaches env root (.reference r)) (hmakes : Makes env r) {fields : Fields}
    {make : List (String × Value) → Except InstanceError Value} (hrow : env.Row r fields make)
    {strict : Prop} {pad : Nat} {vs : List Value} {b : Bytes}
    (h : WireAll env strict pad (fields.map (·.2)) vs b) :
    ∃ v, make ((fields.map (·.1)).zip vs) = .ok v := by
  have hrows := sound_tuple hsound fun c hc => hr.trans (.part (hrow.parts c hc))
  have hyields := Codec.yields_decodeFrom hrows ((Wire.tuple h).yields hrows (.refl _))
  exact hmakes fields make hrow _ 0 vs _ (Nat.zero_le _)
    (hyields [] (List.replicate pad 0) (by simp))

theorem budget_premises (hsound : env.Sound root) (htakes : TakesBytes env root)
    (hopen : ∀ r, Reaches env root (.reference r) → env.Readable r ∧ Makes env r) (data : Bytes)
    (level : Nat) :
    Premises env False root (fun f => ∃ e, f = .bytes e) (Budget env level) (Skips env) data level
      level := by
  induction level with
  | zero =>
      refine ⟨hsound, fun e => ⟨e, rfl⟩, False.elim,
        fun c v hc hv => skips_of_wire (hsound.of_reaches hc) hv, ?_⟩
      intro r pre rest _ _ hbudget
      exact absurd hbudget (Nat.not_lt_zero _)
  | succ level ih =>
      refine ⟨hsound, fun e => ⟨e, rfl⟩, False.elim,
        fun c v hc hv => skips_of_wire (hsound.of_reaches hc) hv, ?_⟩
      intro r pre rest hr hdata hbudget
      refine ih.readsAs_succ hr hdata (fun s hs => ⟨fun hlead => ?_, fun m hm => ?_⟩)
        (.inr ⟨(hopen r hr).1, fun fields make hrow vs b hvs =>
          makes_of_wire hsound hr (hopen r hr).2 hrow hvs⟩)
      · -- the type that is led to at once has a lower rank
        obtain ⟨layout, hlayout, -⟩ := hsound.fits _ hs
        have hrank := rank_lt (fun t ht => htakes t (hr.trans ht))
          (Environment.mem_keys_of_layout hlayout) hlead
        unfold Budget at hbudget ⊢
        omega
      · -- a byte pays for all ranks
        have hrank : rank env (Skips env) s ≤ env.layouts.length := rank_le s
        have hmul : (m + 1) * (env.layouts.length + 1) ≤
            rest.length * (env.layouts.length + 1) := Nat.mul_le_mul_right _ hm
        rw [Nat.succ_mul] at hmul
        unfold Budget at hbudget ⊢
        omega

theorem budget_possibleLevels (data : Bytes) (offset : Int) (r : Reference) {left : Nat}
    (hleft : left ≤ data.length) : Budget env (env.possibleLevels data offset) r left := by
  have hrank : rank env (Skips env) r ≤ env.layouts.length := rank_le r
  have hsize : (Source.ofBytes data).size = data.length := rfl
  have hmul : (left + 1) * (env.layouts.length + 1) ≤
      (2 * data.length + offset.natAbs + 1) * (env.layouts.length + 1) :=
    Nat.mul_le_mul_right _ (by omega)
  rw [Nat.succ_mul] at hmul
  simp only [Budget, Environment.possibleLevels, hsize]
  omega

theorem safe_of_open (hsound : env.Sound root) (htakes : TakesBytes env root)
    (hopen : ∀ r, Reaches env root (.reference r) → env.Readable r ∧ Makes env r) {c : Codec}
    (hc : Reaches env root c) : Safe env c := by
  intro data offset hoffset
  have hlen : (data.take offset).length = offset := List.length_take_of_le hoffset
  have hreads := ((budget_premises hsound htakes hopen data
    (env.possibleLevels data offset)).readsAs c hc (List.take_append_drop offset data)
    fun r _ => ⟨fun _ => budget_possibleLevels data offset r (by simp),
      fun m hm => budget_possibleLevels data offset r (by simp at hm; omega)⟩).1
  simp only [Reads] at hreads
  rw [List.take_append_drop, hlen, ← Environment.decodeFrom_eq_reading hsound.room] at hreads
  cases hresult : c.decodeFrom env data offset with
  | error f =>
      simp only [hresult] at hreads
      obtain ⟨e, rfl⟩ := hreads
      exact .inr ⟨e, rfl⟩
  | ok result =>
      obtain ⟨v, next⟩ := result
      simp only [hresult] at hreads
      obtain ⟨used, left, hrest, rfl, -⟩ := hreads
      have hlength := congrArg List.length hrest
      simp only [List.length_drop, List.length_append] at hlength
      refine .inl ⟨v, _, rfl, ?_, ?_⟩ <;> rw [List.length_append, hlen] <;> omega

/-! ### What else can go wrong -/

theorem made_error (owner : String) (e : InstanceError) :
    ∃ f, (f = .endless ∨ f = .construction owner) ∧ made owner (.error e) = .error f := by
  cases e with
  | endless => exact ⟨.endless, .inl rfl, rfl⟩
  | unknownClass | wrongFields => exact ⟨.construction owner, .inr rfl, rfl⟩

/-- Where the fields of a row can be read and no instance can be made of them, reading fails. -/
theorem fails_of_row (hsound : env.Sound root) {r : Reference}
    (hr : Reaches env root (.reference r)) (hreadable : env.Readable r) {fields : Fields}
    {make : List (String × Value) → Except InstanceError Value} (hrow : env.Row r fields make)
    {pad : Nat} {vs : List Value} {b : Bytes}
    (h : WireAll env False pad (fields.map (·.2)) vs b) {e : InstanceError}
    (he : make ((fields.map (·.1)).zip vs) = .error e) :
    ∃ (data : Bytes) (f : DecodeFailure), (f = .endless ∨ f = .construction r.owner) ∧
      ∃ enough, ∀ level, enough ≤ level →
        env.reading (level + 1) (.reference r) (.ofBytes data) 0 = .error f := by
  obtain ⟨f, hf, hmade⟩ := made_error r.owner e
  obtain ⟨enough, hyields⟩ := h.yields hsound fun c hc => hr.trans (.part (hrow.parts c hc))
  cases hrow with
  | record hlayout =>
      refine ⟨[] ++ (b ++ List.replicate pad 0), f, hf, enough, fun level hlevel => ?_⟩
      have hfields := yields_fields (hyields level hlevel) [] (List.replicate pad 0) (by simp)
      rw [Environment.reading_of_readable hlayout hreadable]
      rw [List.length_nil, Int.natCast_zero] at hfields
      simp only [Environment.layoutDecoder, hfields, Bind.bind, Except.bind, he, hmade]
  | @variant alternatives a hlayout ha =>
      refine ⟨[] ++ ([a.index] ++ (b ++ List.replicate pad 0)), f, hf, enough,
        fun level hlevel => ?_⟩
      have hfind := find_of_nodup Alternative.index (hsound.layout_fits hr hlayout).1 ha
      have hyield : Yields pad (Decoder.chosen Alternative.index alternatives r.owner) a [a.index] :=
        yields_chosen hfind
      have hchosen := hyield [] (b ++ List.replicate pad 0) (by simp)
      have hfields := yields_fields (hyields level hlevel) [a.index] (List.replicate pad 0)
        (by simp)
      rw [Environment.reading_of_readable hlayout hreadable]
      rw [List.length_nil, Int.natCast_zero] at hchosen
      rw [← List.nil_append [a.index], List.append_assoc] at hfields
      simp only [Environment.layoutDecoder, hchosen, Bind.bind, Except.bind, hfields, he, hmade]

theorem Environment.Row.sound {r : Reference} {fields : Fields}
    {make : List (String × Value) → Except InstanceError Value} (hrow : env.Row r fields make)
    (hsound : env.Sound (.reference r)) : env.Sound (.tuple (fields.map (·.2))) :=
  sound_tuple hsound fun c hc => .part (hrow.parts c hc)

/-- What is needed to read the type from the start of any data. -/
theorem open_of_safeStart {r : Reference} (hsound : env.Sound (.reference r))
    (h : SafeStart env (.reference r)) : env.Readable r ∧ Makes env r := by
  have hreadable : env.Readable r := by
    by_contra hnot
    obtain ⟨f, hf, hread⟩ := Environment.not_readable hnot
    have hfails : (Codec.reference r).decodeFrom env (.ofBytes []) (0 : Nat) = .error f := by
      rw [Environment.decodeFrom_eq_reading hsound.room, Environment.possibleLevels, hread]
    rcases h [] with ⟨v, next, hok⟩ | ⟨e, herror⟩
    · cases hok.symm.trans hfails
    · obtain rfl : f = .bytes e := by simpa using hfails.symm.trans herror
      simp at hf
  refine ⟨hreadable, fun fields make hrow data offset vs next hoffset hread => ?_⟩
  have hwire := (wire_of_place (hrow.sound hsound) (fun h : False => h.elim) hoffset hread).1
  cases hwire with
  | tuple hvs =>
      cases hmake : make ((fields.map (·.1)).zip vs) with
      | ok v => exact ⟨v, rfl⟩
      | error e =>
          obtain ⟨data', f, hf, enough, hfails⟩ :=
            fails_of_row hsound (.refl _) hreadable hrow hvs hmake
          have hlevels : ∀ result, (Codec.reference r).decodeFrom env data' (0 : Nat) = result →
              result ≠ .error .endless → result = .error f := by
            intro result hresult hend
            rw [Environment.decodeFrom_eq_reading hsound.room] at hresult
            let level := max enough (env.layouts.length * (data'.length + 1))
            have henough : env.layouts.length * (([] ++ data').length + 1) ≤ level + 1 :=
              Nat.le_succ_of_le (Nat.le_max_right ..)
            have hlevel := Codec.reading_of_reading hsound henough hresult hend
            exact hlevel.symm.trans (hfails level (Nat.le_max_left ..))
          rcases h data' with ⟨v, next, hok⟩ | ⟨e', herror⟩
          · cases hlevels _ hok (by simp)
          · obtain rfl : f = .bytes e' := by simpa using (hlevels _ herror (by simp)).symm
            simp at hf

theorem open_of_safe {r : Reference} (hsound : env.Sound (.reference r))
    (h : Safe env (.reference r)) : env.Readable r ∧ Makes env r :=
  open_of_safeStart hsound h.safeStart

/-- What is read for a row of fields is a tuple with a value for each. -/
theorem Environment.Row.values {r : Reference} {fields : Fields}
    {make : List (String × Value) → Except InstanceError Value} (hrow : env.Row r fields make)
    (hsound : env.Sound (.reference r)) {data : Bytes} {offset : Nat} {v : Value} {next : Int}
    (hoffset : offset ≤ data.length)
    (hread : (Codec.tuple (fields.map (·.2))).decodeFrom env data offset = .ok (v, next)) :
    ∃ vs, v = .tuple vs ∧ vs.length = fields.length := by
  have hwire := (wire_of_place (hrow.sound hsound) (fun h : False => h.elim) hoffset hread).1
  cases hwire with
  | tuple hvs => exact ⟨_, rfl, by simpa using hvs.length_eq⟩

theorem makes_iff {r : Reference} (hsound : env.Sound (.reference r)) :
    Makes env r ↔ Constructs env r := by
  constructor
  · intro hmakes
    constructor
    · intro fields make hrow hreads
      obtain ⟨data, offset, v, next, hoffset, hread⟩ := hreads
      obtain ⟨vs, rfl, hlen⟩ := hrow.values hsound hoffset hread
      have hv := hmakes fields make hrow data offset vs next hoffset hread
      cases hrow with
      | record hlayout =>
          obtain ⟨attributes, hattributes, hfit⟩ := hsound.layout_fits (.refl _) hlayout
          exact (Environment.exists_makeRecord_iff hattributes hfit hlen).mp hv
      | variant hlayout ha =>
          obtain ⟨cls, hcls, hfit⟩ := (hsound.layout_fits (.refl _) hlayout).2.2 _ ha
          exact ((Environment.exists_makeVariant_iff hcls hfit hlen).mp hv).1
    · intro alternatives hlayout a ha hreads
      obtain ⟨data, offset, v, next, hoffset, hread⟩ := hreads
      have hrow := Environment.Row.variant hlayout ha
      obtain ⟨vs, rfl, hlen⟩ := hrow.values hsound hoffset hread
      have hv := hmakes _ _ hrow data offset vs next hoffset hread
      obtain ⟨cls, hcls, hfit⟩ := (hsound.layout_fits (.refl _) hlayout).2.2 _ ha
      exact ((Environment.exists_makeVariant_iff hcls hfit hlen).mp hv).2
  · intro hconstructs fields make hrow data offset vs next hoffset hread
    obtain ⟨_, heq, hlen⟩ := hrow.values hsound hoffset hread
    cases heq
    have hreads : ReadsSomething env (.tuple (fields.map (·.2))) :=
      ⟨data, offset, _, next, hoffset, hread⟩
    have hfields := hconstructs.fields fields make hrow hreads
    cases hrow with
    | record hlayout =>
        obtain ⟨attributes, hattributes, hfit⟩ := hsound.layout_fits (.refl _) hlayout
        exact (Environment.exists_makeRecord_iff hattributes hfit hlen).mpr hfields
    | variant hlayout ha =>
        obtain ⟨cls, hcls, hfit⟩ := (hsound.layout_fits (.refl _) hlayout).2.2 _ ha
        exact (Environment.exists_makeVariant_iff hcls hfit hlen).mpr
          ⟨hfields, hconstructs.alternatives _ hlayout _ ha hreads⟩

theorem chain_takesBytes : TakesBytes chains chain := by
  intro r hr hcycle
  obtain ⟨s, hs, -⟩ := Relation.TransGen.head'_iff.mp hcycle
  obtain ⟨fields, hlayout, -⟩ := hs
  rw [chain_reference hr] at hlayout
  cases hlayout

theorem chain_constructs : Constructs chains (.declared "Chain") := by
  constructor
  · intro fields make hrow _ f hf
    cases hrow with
    | record hlayout => cases hlayout
    | variant hlayout ha =>
        cases hlayout
        simp only [List.mem_cons, List.not_mem_nil, or_false] at ha
        obtain rfl | rfl := ha
        · cases hf
        · revert f
          decide
  · intro alternatives hlayout a ha _
    cases hlayout
    simp only [List.mem_cons, List.not_mem_nil, or_false] at ha
    obtain rfl | rfl := ha <;> exact ⟨rfl, rfl⟩

end InkBindings.Scale
