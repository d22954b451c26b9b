import InkBindings.Proofs.Fallible
import InkBindings.Proofs.Scale.Levels

/-!
The round trip. A value in the form that reading gives is written, and what is written is read back
wherever it stands. This fails for a declared type exactly if an alternative of it has the label of
an operation: the class then has the alternative in the place of the operation.
-/

namespace InkBindings.Scale
variable {env : Environment} {strict : Prop} {pad : Nat} {root : Codec}

/-! ### Values of no bytes -/

theorem countedForm_ne_nil (b : Bytes) : countedForm b ≠ [] := by
  simp [countedForm, Compact.encode_ne_nil]

theorem integerBytes_ne_nil (kind : IntKind) (n : Int) : Encoder.integerBytes kind n ≠ [] := by
  refine List.ne_nil_of_length_pos ?_
  rw [length_integerBytes]
  cases kind.width <;> decide

theorem Identifier.bytes_ne_nil (id : Identifier) : id.bytes ≠ [] := by
  refine List.ne_nil_of_length_pos ?_
  rw [id.size_eq]
  decide

mutual

/-- If one value of a codec has no bytes, no value has. -/
theorem Wire.empty_of_form {c : Codec} {v v' : Value} {b : Bytes} :
    Wire env strict pad c v b → b = [] → HasForm env c v' → Wire env strict pad c v' []
  | .int _ _, hb, _ => absurd hb (integerBytes_ne_nil _ _)
  | .str _, hb, _ | .bytes _, hb, _ => absurd hb (countedForm_ne_nil _)
  | .unit, _, .unit => .unit
  | .accountId id, hb, _ | .hash id, hb, _ => absurd hb (Identifier.bytes_ne_nil id)
  | .fixedBytes hlen, hb, .fixedBytes hlen' => by
      subst hb
      rw [hlen] at hlen'
      obtain rfl := List.length_eq_zero_iff.mp (by simpa using hlen'.symm)
      exact .fixedBytes hlen
  | .compact _ _, hb, _ => absurd hb (Compact.encode_ne_nil _)
  | .tuple h, hb, .tuple h' => .tuple (h.empty_of_forms hb h')
  | .array hlen h, hb, .array hlen' h' => by
      have heq := Int.ofNat_inj.mp (hlen'.symm.trans hlen)
      rw [heq] at h'
      refine .array hlen' ?_
      rw [heq]
      exact h.empty_of_forms hb h'
  | .sequence _ _ _, hb, _ | .map _ _ _ _, hb, _ =>
      absurd hb (by simp [Compact.encode_ne_nil])
  | .record hreadable hlayout h _, hb, .record hlayout' h' hv' => by
      have heq := hlayout'.symm.trans hlayout
      simp only [Option.some.injEq, Layout.record.injEq] at heq
      rw [heq] at h' hv'
      exact .record hreadable hlayout (h.empty_of_forms hb h') hv'
  | .record _ hlayout _ _, _, .variant hlayout' _ _ _ => by simp [hlayout] at hlayout'

theorem WireAll.empty_of_forms {cs : List Codec} {vs vs' : List Value} {b : Bytes} :
    WireAll env strict pad cs vs b → b = [] → HaveForms env cs vs' →
      WireAll env strict pad cs vs' []
  | .nil, _, .nil => .nil
  | .cons h hs, hb, .cons h' hs' =>
      have hnil := List.append_eq_nil_iff.mp hb
      .cons (h.empty_of_form hnil.1 h') (hs.empty_of_forms hnil.2 hs')

end

/-! ### From the form to the wire -/

/-- No item of a sequence has no bytes, unless it is the unit. -/
def ItemsCount (env : Environment) (root : Codec) : Prop :=
  ∀ item, Reaches env root (.sequence item) →
    item.isUnit = true ∨ ∀ v, ¬ Wire env True 0 item v []

theorem WireAll.length_le {item : Codec} (hitem : ∀ v, ¬ Wire env strict pad item v [])
    {vs : List Value} {b : Bytes}
    (h : WireAll env strict pad (List.replicate vs.length item) vs b) : vs.length ≤ b.length := by
  induction vs generalizing b with
  | nil => exact Nat.zero_le _
  | cons v vs ih =>
      rw [List.length_cons, List.replicate_succ] at h
      cases h with
      | @cons _ _ b _ _ bs hv hvs =>
          have hb : b ≠ [] := fun heq => hitem v (heq ▸ hv)
          have hpos := List.length_pos_iff.mpr hb
          have hle := ih hvs
          rw [List.length_cons, List.length_append]
          omega

mutual

theorem HasForm.wire (hcount : ItemsCount env root)
    (hreadable : ∀ r v, Reaches env root (.reference r) → HasForm env (.reference r) v →
      env.Readable r) {c : Codec} {v : Value} :
    HasForm env c v → Reaches env root c → ∃ b, Wire env True 0 c v b
  | .int hleast hgreatest, _ => ⟨_, .int hleast hgreatest⟩
  | .bool b, _ => ⟨_, .bool b⟩
  | .char c, _ => ⟨_, .char c⟩
  | .str h, _ => ⟨_, .str h⟩
  | .unit, _ => ⟨_, .unit⟩
  | .bytes h, _ => ⟨_, .bytes h⟩
  | .accountId id, _ => ⟨_, .accountId id⟩
  | .hash id, _ => ⟨_, .hash id⟩
  | .fixedBytes h, _ => ⟨_, .fixedBytes h⟩
  | .compact hn hkind, _ => ⟨_, .compact hn hkind⟩
  | .tuple h, hreach => by
      obtain ⟨b, hb⟩ := h.wire hcount hreadable fun d hd => hreach.trans (.part hd)
      exact ⟨b, .tuple hb⟩
  | .array hlen h, hreach => by
      obtain ⟨b, hb⟩ := h.wire hcount hreadable hreach.first.replicate
      exact ⟨b, .array hlen hb⟩
  | .sequence hlen h, hreach => by
      obtain ⟨b, hb⟩ := h.wire hcount hreadable hreach.first.replicate
      exact ⟨_, .sequence hlen ((hcount _ hreach).imp_right fun hitem => hb.length_le hitem) hb⟩
  | .absent, _ => ⟨_, .absent⟩
  | .present hv h, hreach => by
      obtain ⟨b, hb⟩ := h.wire hcount hreadable hreach.first
      exact ⟨_, .present (fun _ => hv) hb⟩
  | .ok h, hreach => by
      obtain ⟨b, hb⟩ := h.wire hcount hreadable hreach.first
      exact ⟨_, .ok hb⟩
  | .err h, hreach => by
      obtain ⟨b, hb⟩ := h.wire hcount hreadable hreach.second
      exact ⟨_, .err hb⟩
  | .langError, _ => ⟨_, .langError⟩
  | .raisedLangError, _ => ⟨_, .raisedLangError⟩
  | .record hlayout h hv, hreach => by
      obtain ⟨b, hb⟩ := h.wire hcount hreadable fun d hd =>
        hreach.trans (.part (Environment.mem_partsOf_record hlayout hd))
      exact ⟨_, .record (hreadable _ _ hreach (.record hlayout h hv)) hlayout hb hv⟩
  | .variant hlayout ha h hv, hreach => by
      obtain ⟨b, hb⟩ := h.wire hcount hreadable fun d hd =>
        hreach.trans (.part (Environment.mem_partsOf_sum hlayout ha hd))
      exact ⟨_, .variant (hreadable _ _ hreach (.variant hlayout ha h hv)) hlayout ha hb hv⟩

theorem HaveForms.wire (hcount : ItemsCount env root)
    (hreadable : ∀ r v, Reaches env root (.reference r) → HasForm env (.reference r) v →
      env.Readable r) {cs : List Codec} {vs : List Value} :
    HaveForms env cs vs → (∀ c ∈ cs, Reaches env root c) → ∃ b, WireAll env True 0 cs vs b
  | .nil, _ => ⟨_, .nil⟩
  | .cons h hs, hreach => by
      obtain ⟨b, hb⟩ := h.wire hcount hreadable (hreach _ List.mem_cons_self)
      obtain ⟨bs, hbs⟩ := hs.wire hcount hreadable fun c hc => hreach c (List.mem_cons_of_mem _ hc)
      exact ⟨_, .cons hb hbs⟩

end

/-! ### There and back -/

/-- The value is written as these bytes, whatever the buffer holds, and is read from them, whatever
comes before and behind. -/
structure RoundTrip (env : Environment) (c : Codec) (v : Value) (b : Bytes) : Prop where
  writes : ∀ before, (c.encodeTo env v).run (.ofBytes before) = .ok () (.ofBytes (before ++ b))
  encode : c.encode env v = .ok b
  reads : ∀ pre post, c.decodeFrom env (.ofBytes (pre ++ b ++ post)) pre.length =
    .ok (v, (pre.length + b.length : Nat))
  decode : c.decode env b = .ok v

/-- The operations of a class that reading and writing look for. -/
def roundTripOperations : List Operation := [.codec, .encodeTo, .decodeFrom, .decode]

theorem Wire.readable {r : Reference} {v : Value} {b : Bytes}
    (h : Wire env strict pad (.reference r) v b) : env.Readable r := by
  cases h with
  | record hreadable | variant hreadable => exact hreadable

theorem decode_of_not_hidden {c : Codec}
    (hdecode : ∀ r, c = .reference r → env.hiding? .decode r = none) (data : Bytes) :
    c.decode env data = c.decodeAll env data := by
  have hhidden : c.decodeHidden? env (.bytes data) = none := by
    cases c with
    | reference r => simp [Codec.decodeHidden?, hdecode r rfl]
    | _ => rfl
  simp only [Codec.decode, hhidden]

/-- A whole value is read from what stands on the wire for it. -/
theorem Wire.decode {c : Codec} {v : Value} {b : Bytes} (hsound : env.Sound c)
    (hdecode : ∀ r, c = .reference r → env.hiding? .decode r = none)
    (h : Wire env strict 0 c v b) : c.decode env b = .ok v := by
  obtain ⟨enough, hyields⟩ := h.yields hsound (.refl c)
  have hwhole := hyields enough (Nat.le_refl _) [] [] (Nat.zero_le _)
  have hopen : ∀ r, c = .reference r → env.hiding? .decodeFrom r = none := by
    rintro r rfl
    exact h.readable.2
  have hown : c.decodeFromOwn env (.ofBytes b) 0 = .ok (v, b.length) := by
    simpa using Codec.decodeFromOwn_of_reading hsound hopen hwhole (by simp)
  have hsize : (Source.ofBytes b).size = b.length := rfl
  rw [decode_of_not_hidden hdecode, Codec.decodeAll]
  simp [hown, Bind.bind, Except.bind, hsize, Pure.pure, Except.pure]

/-- What a whole reading gives stands on the wire, as all of the data. -/
theorem wire_of_decode {c : Codec} {v : Value} {data : Bytes} (hsound : env.Sound c)
    (hopen : ∀ r, c = .reference r → env.hiding? .decodeFrom r = none)
    (hdecode : ∀ r, c = .reference r → env.hiding? .decode r = none)
    (h : c.decode env data = .ok v) : Wire env False data.length c v data := by
  rw [decode_of_not_hidden hdecode, Codec.decodeAll] at h
  obtain ⟨⟨u, next⟩, hread, h⟩ := bind_ok h
  have hsize : (Source.ofBytes data).size = data.length := rfl
  by_cases hnext : next = (Source.ofBytes data).size
  case neg => simp [hnext] at h
  case pos =>
    simp only [hnext, if_true] at h
    cases h
    obtain ⟨level, -, hown⟩ := Codec.decodeFromOwn_eq_reading hsound.room hopen (.ofBytes data) 0
    have hreads := Codec.reads_wire hsound (fun hno : False => hno.elim) level [] data
    rw [hown] at hread
    simp only [Reads, List.nil_append, List.length_nil, Int.natCast_zero, hread] at hreads
    obtain ⟨used, left, hdata, hused, hwire⟩ := hreads
    have hleft : left = [] := by
      have hlength := congrArg List.length hdata
      rw [List.length_append] at hlength
      rw [hsize] at hnext
      exact List.length_eq_zero_iff.mp (by omega)
    rw [hleft, List.append_nil] at hdata
    exact hdata ▸ hwire

theorem roundTrip_of_wire {c : Codec} {v : Value} {b : Bytes} (hsound : env.Sound c)
    (hencode : ∀ r v b, Reaches env c (.reference r) → Wire env True 0 (.reference r) v b →
      env.hiding? .encodeTo r = none)
    (hdecode : ∀ r, c = .reference r → env.hiding? .decode r = none)
    (h : Wire env True 0 c v b) : RoundTrip env c v b := by
  have hwrites : Writes (c.encodeTo env v) b := by
    rw [Environment.encodeTo_eq_writing hsound.room]
    exact h.writes trivial hsound hencode (.refl c) _ (Nat.lt_succ_self _)
  refine ⟨hwrites, encode_of_writes hwrites, fun pre post => ?_, h.decode hsound hdecode⟩
  have hreads := Codec.yields_decodeFrom hsound (h.yields hsound (.refl c)) pre post (Nat.zero_le _)
  rwa [← List.append_assoc, List.length_append] at hreads

/-! ### Where an alternative stands in the way -/

theorem Codec.readable_of_decodeFrom (hroom : env.room = .unbounded) {r : Reference}
    {data : Source} {offset : Int} {result : Value × Int}
    (h : (Codec.reference r).decodeFrom env data offset = .ok result) : env.Readable r := by
  by_contra hnot
  obtain ⟨f, -, hf⟩ := Environment.not_readable hnot
  rw [Environment.decodeFrom_eq_reading hroom, Environment.possibleLevels, hf] at h
  cases h

/-- Where an alternative hides the operation, writing writes nothing. -/
theorem Codec.writes_nil_of_hidden (hroom : env.room = .unbounded) {r : Reference} {v : Value}
    {b : Bytes} {c : AlternativeClass} (hhidden : env.hiding? .encodeTo r = some c)
    (h : Writes ((Codec.reference r).encodeTo env v) b) : b = [] := by
  rw [Environment.encodeTo_eq_writing hroom, Environment.writing_succ, hhidden] at h
  by_cases htakes : c.takes 2 = true
  · simp only [htakes, if_true] at h
    exact h.unique .nothing
  · simp only [htakes] at h
    cases h []

/-- A type with alternatives has no value of no bytes. -/
theorem Wire.ne_nil_of_hidden {r : Reference} {op : Operation} {c : AlternativeClass}
    (hhidden : env.hiding? op r = some c) {v : Value} {b : Bytes}
    (h : Wire env strict pad (.reference r) v b) : b ≠ [] := by
  cases h with
  | record _ hlayout _ hv =>
      simp [Environment.hiding_of_made hv op] at hhidden
  | variant => simp

theorem Wire.length_le_of_bytes {c : Codec} {b w : Bytes} {v : Value}
    (h : Wire env strict pad c v w) (hv : v = .bytes b) : b.length ≤ w.length := by
  induction c using Codec.parts_induction generalizing w with
  | step c ih =>
      cases h with
      | bytes =>
          obtain rfl := Value.bytes.inj hv
          rw [countedForm, List.length_append]
          exact Nat.le_add_left ..
      | fixedBytes =>
          obtain rfl := Value.bytes.inj hv
          exact Nat.le_refl _
      | present _ h => exact Nat.le_succ_of_le (ih _ List.mem_cons_self h)
      | map =>
          unfold Decoder.mapOf Value.dictOf? at hv
          split at hv <;> simp at hv
      | record _ _ _ hmade =>
          obtain ⟨_, _, _, _, rfl⟩ := Environment.makeRecord_ok hmade
          cases hv
      | variant _ _ _ _ hmade =>
          obtain ⟨_, _, _, _, rfl⟩ := Environment.makeVariant_ok hmade
          cases hv
      | _ => cases hv

theorem WireAll.exists_of_mem {cs : List Codec} {vs : List Value} {v : Value} {b : Bytes}
    (h : WireAll env strict pad cs vs b) (hv : v ∈ vs) :
    ∃ c w, Wire env strict pad c v w ∧ w.length ≤ b.length := by
  induction vs generalizing cs b with
  | nil => cases hv
  | cons u vs ih =>
      cases h with
      | @cons c _ b _ _ bs hu hvs =>
          rcases List.mem_cons.mp hv with rfl | hmem
          · exact ⟨c, b, hu, by simp⟩
          · obtain ⟨d, w, hw, hle⟩ := ih hvs hmem
            exact ⟨d, w, hw, by rw [List.length_append]; omega⟩

/-- What an alternative makes of the data is not what stands in the data: it would have to hold
all of it. -/
theorem Wire.ne_made {r : Reference} (hsound : env.Sound root)
    (hr : Reaches env root (.reference r)) {c : AlternativeClass}
    (hhidden : env.hiding? .decode r = some c) {v : Value} {b : Bytes}
    (hmade : c.make? r.owner [.bytes b] = some v) : ¬ Wire env strict pad (.reference r) v b := by
  have hclass : env.alternative? r.owner Operation.decode.name = some c := by
    cases r with
    | declared | alternative => exact hhidden
    | instantiation => cases hhidden
  have hlabel : c.label = Operation.decode.name := by
    simpa using List.find?_some hclass
  simp only [AlternativeClass.make?] at hmade
  split at hmade
  case isFalse => cases hmade
  next htakes =>
    simp only [Option.some.injEq] at hmade
    obtain ⟨a, attributes, hattributes⟩ : ∃ a attributes, c.attributes = a :: attributes := by
      cases hattributes : c.attributes with
      | nil => simp [AlternativeClass.takes, hattributes] at htakes
      | cons a attributes => exact ⟨a, attributes, rfl⟩
    intro h
    cases h with
    | record _ _ _ hv =>
        obtain ⟨_, _, _, _, rfl⟩ := Environment.makeRecord_ok hv
        cases hmade
    | @variant _ alternatives alt vs _ bs _ hlayout ha hvs hv =>
        obtain ⟨c', given, hc', hgiven, rfl⟩ := Environment.makeVariant_ok hv
        simp only [Value.variant.injEq, true_and] at hmade
        obtain rfl : c' = c := by
          rw [← hmade.1, hlabel, hclass] at hc'
          simpa using hc'.symm
        have hfit := hsound.variant_fits hr hlayout ha hc'
        have hlen := hvs.length_eq
        rw [List.length_map] at hlen
        have hname : a.name ∈ alt.fields.map (·.1) :=
          (hfit.2 _).mpr (by simp [hattributes])
        obtain ⟨f, hf, hfname⟩ := List.mem_map.mp hname
        have hmem : some (.bytes (alt.index :: bs)) ∈ vs.map some := by
          rw [← find_of_arrange hfit hlen hgiven]
          refine List.mem_map.mpr ⟨f, hf, ?_⟩
          simp [← hmade.2, hattributes, hfname]
        obtain ⟨d, w, hw, hle⟩ := hvs.exists_of_mem (by simpa using hmem)
        have hbytes := hw.length_le_of_bytes rfl
        rw [List.length_cons] at hbytes
        omega

/-! ### The exact condition -/

/-- The codec has values, and all of them are written as nothing. -/
def AlwaysEmpty (env : Environment) (c : Codec) : Prop :=
  (∃ v, HasForm env c v) ∧ ∀ v, HasForm env c v → c.encode env v = .ok []

theorem alwaysEmpty_of_wire (hsound : env.Sound root)
    (hencode : ∀ r v b, Reaches env root (.reference r) →
      Wire env True 0 (.reference r) v b → env.hiding? .encodeTo r = none)
    {v : Value} (hv : Wire env True 0 root v []) : AlwaysEmpty env root := by
  refine ⟨⟨v, hv.hasForm trivial⟩, fun v' hform => ?_⟩
  have hempty := hv.empty_of_form rfl hform
  have hwrites := hempty.writes trivial hsound hencode (.refl root) _ (Nat.lt_succ_self _)
  rw [← Environment.encodeTo_eq_writing hsound.room] at hwrites
  exact encode_of_writes hwrites

theorem itemsCount_of_not_alwaysEmpty (hsound : env.Sound root)
    (hencode : ∀ r v b, Reaches env root (.reference r) →
      Wire env True 0 (.reference r) v b → env.hiding? .encodeTo r = none)
    (h : ∀ item, Reaches env root (.sequence item) → item = .unit ∨ ¬ AlwaysEmpty env item) :
    ItemsCount env root := by
  intro item hreach
  have hitem : Reaches env root item := hreach.first
  rcases h item hreach with rfl | hnot
  · exact .inl rfl
  · exact .inr fun v hv => hnot (alwaysEmpty_of_wire (hsound.of_reaches hitem)
      (fun r u b hr => hencode r u b (hitem.trans hr)) hv)

theorem hiding_of_roundTrip (hsound : env.Sound root) {r : Reference}
    (hr : Reaches env root (.reference r)) {v : Value} {b : Bytes}
    (h : RoundTrip env (.reference r) v b) {op : Operation} (hop : op ∈ roundTripOperations) :
    env.hiding? op r = none := by
  have hreads : (Codec.reference r).decodeFrom env (.ofBytes ([] ++ b)) ([] : Bytes).length =
      .ok (v, b.length) := by simpa using h.reads [] []
  have hreadable := Codec.readable_of_decodeFrom hsound.room hreads
  obtain ⟨used, left, hused, hnext, hwire⟩ := Codec.wire_of_decodeFrom
    (hsound.of_reaches hr) (fun h : False => h.elim) hreads
  have hall : used = b := by
    have hlen : left = [] := by
      have hlength := congrArg List.length hused
      rw [List.length_append] at hlength
      simp only [List.nil_append] at hnext
      exact List.length_eq_zero_iff.mp (by omega)
    rw [hused, hlen, List.append_nil]
  rw [hall] at hwire
  simp only [roundTripOperations, List.mem_cons, List.not_mem_nil, or_false] at hop
  obtain rfl | rfl | rfl | rfl := hop
  · exact hreadable.1
  · cases hhidden : env.hiding? .encodeTo r with
    | none => rfl
    | some c =>
        exact absurd (Codec.writes_nil_of_hidden hsound.room hhidden h.writes)
          (hwire.ne_nil_of_hidden hhidden)
  · exact hreadable.2
  · cases hhidden : env.hiding? .decode r with
    | none => rfl
    | some c =>
        have hdecode := h.decode
        simp only [Codec.decode, Codec.decodeHidden?, hhidden, Option.map_some] at hdecode
        cases hmade : c.make? r.owner [.bytes b] with
        | none => simp [hmade] at hdecode
        | some v' =>
            obtain rfl : v' = v := by simpa [hmade] using hdecode
            exact absurd hwire (Wire.ne_made hsound hr hhidden hmade)

/-- A sum with one alternative of no fields. -/
def single (label : String) : Environment where
  shapes := [("E", .sum [⟨label, some 0, []⟩])]
  instantiations := []
  layouts := [(.declared "E", .sum [⟨label, 0, []⟩])]

def singleCodec : Codec := .reference (.declared "E")

theorem single_nodes {label : String} {c : Codec} (h : Reaches (single label) singleCodec c) :
    c = singleCodec := by
  refine List.mem_singleton.mp (Reaches.mem_of_closed List.mem_cons_self ?_ h)
  simp [singleCodec, single, Environment.partsOf, Environment.layout?, Reference.binding,
    Layout.codecs]

theorem single_sound (label : String) : (single label).Sound singleCodec := by
  refine ⟨rfl, fun c hc => ?_⟩
  rw [single_nodes hc]
  refine ⟨_, rfl, List.nodup_singleton _, List.nodup_singleton _, fun a ha => ?_⟩
  rw [List.mem_singleton.mp ha]
  exact ⟨⟨label, some 0, []⟩, by simp [Environment.alternative?, Environment.alternatives,
    Environment.shape?, single, Reference.owner], .of_names List.nodup_nil rfl⟩

/-- A chain ends, or is a number and a chain. -/
def chains : Environment where
  shapes := [("Chain", .sum [⟨"End", some 0, []⟩,
    ⟨"Link", some 1, [⟨"value", none⟩, ⟨"next", none⟩]⟩])]
  instantiations := []
  layouts := [(.declared "Chain", .sum [⟨"End", 0, []⟩,
    ⟨"Link", 1, [("value", .compact .u8), ("next", .reference (.declared "Chain"))]⟩])]

def chain : Codec := .reference (.declared "Chain")

def chainOf (n : Nat) (next : Value) : Value :=
  .variant "Chain" "Link" [("value", .compact (.int n)), ("next", next)]

def chainEnd : Value := .variant "Chain" "End" []

theorem chain_nodes {c : Codec} (h : Reaches chains chain c) :
    c ∈ [chain, .compact .u8, .u8] := by
  refine Reaches.mem_of_closed List.mem_cons_self ?_ h
  simp [chain, chains, Environment.partsOf, Environment.layout?, Reference.binding, Layout.codecs,
    Codec.parts, Codec.u8]

theorem chain_reference {r : Reference} (h : Reaches chains chain (.reference r)) :
    r = .declared "Chain" := by
  have hmem := chain_nodes h
  simpa only [chain, Codec.u8, List.mem_cons, Codec.reference.injEq, reduceCtorEq,
    List.not_mem_nil, or_false] using hmem

theorem chain_sound : chains.Sound chain := by
  refine ⟨rfl, fun c hc => ?_⟩
  have hmem := chain_nodes hc
  simp only [List.mem_cons, List.not_mem_nil, or_false] at hmem
  obtain rfl | rfl | rfl := hmem
  · refine ⟨_, rfl, by decide, by decide, ?_⟩
    intro a ha
    simp only [List.mem_cons, List.not_mem_nil, or_false] at ha
    obtain rfl | rfl := ha
    · exact ⟨_, rfl, .of_names (by decide) rfl⟩
    · exact ⟨_, rfl, .of_names (by decide) rfl⟩
  · trivial
  · trivial

theorem chainEnd_form : HasForm chains chain chainEnd :=
  .variant rfl List.mem_cons_self .nil rfl

theorem chainOf_form {n : Nat} (hn : n < 256) {next : Value} (h : HasForm chains chain next) :
    HasForm chains chain (chainOf n next) := by
  refine .variant rfl (List.mem_cons_of_mem _ List.mem_cons_self) (.cons ?_ (.cons h .nil)) rfl
  refine .compact (by unfold Compact.bound; omega) fun kind hkind => ?_
  obtain rfl : (⟨false, .w8⟩ : IntKind) = kind := by simpa [Codec.intKind?, Codec.u8] using hkind
  have hgreatest : IntKind.greatest ⟨false, .w8⟩ = 255 := rfl
  omega

end InkBindings.Scale
