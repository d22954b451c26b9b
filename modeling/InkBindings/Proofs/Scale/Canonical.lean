import InkBindings.Proofs.Scale.RoundTrip

/-!
The canonical form. Without maps, and without options whose values may be no values, a value has
one form on the wire: no two byte strings are read as the same value, and what was read is written
as the bytes it was read from, unless an alternative stands in the place of the writing operation.
-/

namespace InkBindings.Scale
variable {env : Environment} {strict : Prop} {pad pad' : Nat} {root : Codec}

theorem vs_unique_of_arrange {fields : Fields} {attributes : List Attribute}
    {vs vs' : List Value} {given : List (String × Value)} (hfit : FieldsFit fields attributes)
    (hlen : vs.length = fields.length) (hlen' : vs'.length = fields.length)
    (h : arrange? attributes ((fields.map (·.1)).zip vs) = some given)
    (h' : arrange? attributes ((fields.map (·.1)).zip vs') = some given) : vs = vs' := by
  have heq := (find_of_arrange hfit hlen h).symm.trans (find_of_arrange hfit hlen' h')
  exact List.map_injective_iff.mpr (Option.some_injective Value) heq

section
variable {r : Reference} (hsound : env.Sound root) (hreach : Reaches env root (.reference r))
include hsound hreach

/-- What a record is made of can be told from it. -/
theorem vs_unique_of_makeRecord {fields : Fields} (hlayout : env.layout? r = some (.record fields))
    {vs vs' : List Value} (hlen : vs.length = fields.length) (hlen' : vs'.length = fields.length)
    {v : Value} (h : env.makeRecord r.owner ((fields.map (·.1)).zip vs) = .ok v)
    (h' : env.makeRecord r.owner ((fields.map (·.1)).zip vs') = .ok v) : vs = vs' := by
  obtain ⟨attributes, given, hattributes, hgiven, rfl⟩ := Environment.makeRecord_ok h
  obtain ⟨attributes', given', hattributes', hgiven', hvalue⟩ := Environment.makeRecord_ok h'
  obtain rfl : attributes' = attributes := by simpa [hattributes'] using hattributes
  obtain rfl := (Value.record.inj hvalue).2
  exact vs_unique_of_arrange (hsound.record_fits hreach hlayout hattributes) hlen hlen' hgiven
    hgiven'

variable {alternatives : List Alternative} (hlayout : env.layout? r = some (.sum alternatives))
include hlayout

theorem alternative_unique_of_makeVariant {a a' : Alternative} (ha : a ∈ alternatives)
    (ha' : a' ∈ alternatives) {vs vs' : List Value} {v : Value}
    (h : env.makeVariant r.owner a.label ((a.fields.map (·.1)).zip vs) = .ok v)
    (h' : env.makeVariant r.owner a'.label ((a'.fields.map (·.1)).zip vs') = .ok v) : a = a' := by
  obtain ⟨c, given, -, -, rfl⟩ := Environment.makeVariant_ok h
  obtain ⟨c', given', -, -, hvalue⟩ := Environment.makeVariant_ok h'
  obtain ⟨-, hlabel, -⟩ := Value.variant.inj hvalue
  have hlabels := (hsound.layout_fits hreach hlayout).2.1
  have hfind := find_of_nodup Alternative.label hlabels ha
  have hfind' := find_of_nodup Alternative.label hlabels ha'
  rw [← hlabel, hfind] at hfind'
  exact Option.some.inj hfind'

theorem vs_unique_of_makeVariant {a : Alternative} (ha : a ∈ alternatives) {vs vs' : List Value}
    (hlen : vs.length = a.fields.length) (hlen' : vs'.length = a.fields.length) {v : Value}
    (h : env.makeVariant r.owner a.label ((a.fields.map (·.1)).zip vs) = .ok v)
    (h' : env.makeVariant r.owner a.label ((a.fields.map (·.1)).zip vs') = .ok v) : vs = vs' := by
  obtain ⟨c, given, hc, hgiven, rfl⟩ := Environment.makeVariant_ok h
  obtain ⟨c', given', hc', hgiven', hvalue⟩ := Environment.makeVariant_ok h'
  obtain rfl : c' = c := by simpa [hc'] using hc
  obtain rfl := (Value.variant.inj hvalue).2.2
  exact vs_unique_of_arrange (hsound.variant_fits hreach hlayout ha hc) hlen hlen' hgiven hgiven'

end

mutual

theorem Wire.unique (hstrict : strict) (hsound : env.Sound root) {c : Codec} {v : Value}
    {b b' : Bytes} : Wire env strict pad c v b → Wire env strict pad' c v b' →
      Reaches env root c → b = b'
  | .int _ _, .int _ _, _ | .bool _, .bool _, _ | .str _, .str _, _ | .unit, .unit, _
  | .bytes _, .bytes _, _ | .accountId _, .accountId _, _ | .hash _, .hash _, _
  | .fixedBytes _, .fixedBytes _, _ | .compact _ _, .compact _ _, _ | .absent, .absent, _
  | .langError, .langError, _ | .raisedLangError, .raisedLangError, _ => rfl
  | .char c, h', _ => by
      generalize hv : Value.str (String.singleton c) = v at h'
      cases h' with
      | char c' =>
          have hlist := congrArg String.toList (Value.str.inj hv)
          simp only [String.toList_singleton, List.cons.injEq, and_true] at hlist
          rw [hlist]
  | .tuple h, .tuple h', hreach => h.unique hstrict hsound h' fun d hd => hreach.trans (.part hd)
  | .array _ h, .array _ h', hreach =>
      h.unique hstrict hsound h' hreach.first.replicate
  | .sequence _ _ h, .sequence _ _ h', hreach => by
      rw [h.unique hstrict hsound h' hreach.first.replicate]
  | .absent, .present hv _, _ | .present hv _, .absent, _ => absurd rfl (hv hstrict)
  | .present _ h, .present _ h', hreach => by
      rw [h.unique hstrict hsound h' hreach.first]
  | .ok h, .ok h', hreach => by
      rw [h.unique hstrict hsound h' hreach.first]
  | .err h, .err h', hreach => by
      rw [h.unique hstrict hsound h' hreach.second]
  | .map hnot _ _ _, _, _ => absurd hstrict hnot
  | .record _ hlayout h hv, .record _ hlayout' h' hv', hreach => by
      have heq := hlayout'.symm.trans hlayout
      simp only [Option.some.injEq, Layout.record.injEq] at heq
      rw [heq] at h' hv'
      rw [vs_unique_of_makeRecord hsound hreach hlayout (by simpa using h'.length_eq)
        (by simpa using h.length_eq) hv' hv] at h'
      exact h.unique hstrict hsound h' fun d hd =>
        hreach.trans (.part (Environment.mem_partsOf_record hlayout hd))
  | .record _ hlayout _ _, .variant _ hlayout' _ _ _, _
  | .variant _ hlayout _ _ _, .record _ hlayout' _ _, _ => by simp [hlayout] at hlayout'
  | .variant _ hlayout ha h hv, .variant _ hlayout' ha' h' hv', hreach => by
      have heq := hlayout'.symm.trans hlayout
      simp only [Option.some.injEq, Layout.sum.injEq] at heq
      rw [heq] at ha'
      obtain rfl := alternative_unique_of_makeVariant hsound hreach hlayout ha ha' hv hv'
      rw [vs_unique_of_makeVariant hsound hreach hlayout ha (by simpa using h'.length_eq)
        (by simpa using h.length_eq) hv' hv] at h'
      rw [h.unique hstrict hsound h' fun d hd =>
        hreach.trans (.part (Environment.mem_partsOf_sum hlayout ha hd))]

theorem WireAll.unique (hstrict : strict) (hsound : env.Sound root) {cs : List Codec}
    {vs : List Value} {b b' : Bytes} : WireAll env strict pad cs vs b →
      WireAll env strict pad' cs vs b' → (∀ c ∈ cs, Reaches env root c) → b = b'
  | .nil, .nil, _ => rfl
  | .cons h hs, .cons h' hs', hreach => by
      rw [h.unique hstrict hsound h' (hreach _ List.mem_cons_self),
        hs.unique hstrict hsound hs' fun c hc => hreach c (List.mem_cons_of_mem _ hc)]

end

/-- No two byte strings are read as the same value. -/
def ReadsOnce (env : Environment) (c : Codec) : Prop :=
  ∀ (data data' : Bytes) (offset offset' : Nat) (v : Value) (next next' : Int),
    offset ≤ data.length → offset' ≤ data'.length →
    c.decodeFrom env data offset = .ok (v, next) →
    c.decodeFrom env data' offset' = .ok (v, next') →
    data.extract offset next.toNat = data'.extract offset' next'.toNat

/-- What has been read is written as the bytes that it was read from. -/
def WritesBack (env : Environment) (c : Codec) : Prop :=
  ∀ (data : Bytes) (offset : Nat) (v : Value) (next : Int), offset ≤ data.length →
    c.decodeFrom env data offset = .ok (v, next) →
    ∀ before, (c.encodeTo env v).run (.ofBytes before) =
      .ok () (.ofBytes (before ++ data.extract offset next.toNat))

/-- The codec reads a value somewhere. -/
def ReadsSomething (env : Environment) (c : Codec) : Prop :=
  ∃ (data : Bytes) (offset : Nat) (v : Value) (next : Int), offset ≤ data.length ∧
    c.decodeFrom env data offset = .ok (v, next)

/-- Reading at a place of the data takes a stretch of it, which stands on the wire. -/
theorem wire_of_place {c : Codec} (hsound : env.Sound c)
    (hsingle : strict → ∀ d, Reaches env c d → d.IsSingle) {data : Bytes} {offset : Nat}
    (hoffset : offset ≤ data.length) {v : Value} {next : Int}
    (h : c.decodeFrom env data offset = .ok (v, next)) :
    Wire env strict data.length c v (data.extract offset next.toNat) ∧
      offset ≤ next ∧ next ≤ data.length := by
  have hlen : (data.take offset).length = offset := List.length_take_of_le hoffset
  have hread : c.decodeFrom env (.ofBytes (data.take offset ++ data.drop offset))
      (data.take offset).length = .ok (v, next) := by
    rw [List.take_append_drop, hlen]
    exact h
  obtain ⟨used, left, hrest, rfl, hwire⟩ := Codec.wire_of_decodeFrom hsound hsingle hread
  rw [List.take_append_drop] at hwire
  have hlength := congrArg List.length hrest
  simp only [List.length_drop, List.length_append] at hlength
  rw [List.length_append, hlen, Int.toNat_natCast, List.extract_eq_take_drop,
    Nat.add_sub_cancel_left, hrest, List.take_left]
  exact ⟨hwire, by omega, by omega⟩

theorem readsSomething_of_wire {c : Codec} (hsound : env.Sound c) {v : Value} {b : Bytes}
    (h : Wire env strict pad c v b) : ReadsSomething env c := by
  have hyields := Codec.yields_decodeFrom hsound (h.yields hsound (.refl c))
  exact ⟨[] ++ (b ++ List.replicate pad 0), 0, v, _, Nat.zero_le _,
    hyields [] (List.replicate pad 0) (by simp)⟩

theorem hiding_of_writesBack {r : Reference} (hsound : env.Sound (.reference r))
    (hwrites : WritesBack env (.reference r)) (hreads : ReadsSomething env (.reference r)) :
    env.hiding? .encodeTo r = none := by
  obtain ⟨data, offset, v, next, hoffset, h⟩ := hreads
  have hwire := (wire_of_place hsound (fun h : False => h.elim) hoffset h).1
  cases hhidden : env.hiding? .encodeTo r with
  | none => rfl
  | some c =>
      have hnil := Codec.writes_nil_of_hidden hsound.room hhidden
        (hwrites data offset v next hoffset h)
      exact absurd hnil (hwire.ne_nil_of_hidden hhidden)

end InkBindings.Scale
