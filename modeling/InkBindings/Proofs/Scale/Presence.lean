import InkBindings.Proofs.Scale.Loosened
import InkBindings.Proofs.Scale.WireOrder

/-!
What options keep. The marker in front tells whether there is a value, and so does what is read,
unless the value behind the marker can be none itself: the unit is none, and so is an option that
has no value.
-/

namespace InkBindings

namespace Value

theorem depthOfEntries_le_pairs (es : List (Value × Value)) :
    depthOfEntries es ≤ depthOfItems (es.map fun e => .tuple [e.1, e.2]) := by
  induction es with
  | nil => exact Nat.le_refl _
  | cons e rest ih =>
      simp only [List.map_cons, depthOfEntries, depthOfItems, depth, Nat.max_zero]
      omega

end Value

namespace Scale

variable {env : Environment} {key value : Codec}

/-! ### What has been read is written again -/

/-- The value is encoded, whether lists or tuples stand for the lists in it. -/
def Rewrites (env : Environment) (c : Codec) (v : Value) : Prop :=
  ∀ w, Loosened v w → ∃ b, c.encode env w = .ok b

theorem Rewrites.encode {c : Codec} {v : Value} (h : Rewrites env c v) :
    ∃ b, c.encode env v = .ok b :=
  h v (.same v)

theorem Rewrites.of_loosened {c : Codec} {v w : Value} (h : Rewrites env c v)
    (hw : Loosened v w) : Rewrites env c w :=
  fun u hu => h u (hw.trans hu)

theorem rewrites_of_eq {c : Codec} {v : Value} {b : Bytes} (hv : ∀ w, Loosened v w → w = v)
    (h : c.encode env v = .ok b) : Rewrites env c v :=
  fun w hw => ⟨b, (hv w hw).symm ▸ h⟩

theorem exists_encodedAll {cs : List Codec} {vs ws : List Value}
    (h : List.Forall₂ (Rewrites env) cs vs) (hws : AllLoosened vs ws) :
    ∃ b, EncodedAll env cs ws b := by
  induction h generalizing ws with
  | nil =>
      cases hws
      exact ⟨_, .nil⟩
  | cons hv _ ih =>
      cases hws with
      | cons hw hws =>
          obtain ⟨b, hb⟩ := hv _ hw
          obtain ⟨bs, hbs⟩ := ih hws
          exact ⟨_, .cons hb hbs⟩

section
variable (hroom : env.room = .unbounded) {vs : List Value}

include hroom

theorem rewrites_tuple {items : List Codec} (h : List.Forall₂ (Rewrites env) items vs) :
    Rewrites env (.tuple items) (.tuple vs) := by
  intro w hw
  obtain ⟨ws, hws, rfl⟩ := hw.of_tuple
  obtain ⟨b, hb⟩ := exists_encodedAll h hws
  exact ⟨b, Codec.encode_tuple hroom hb⟩

theorem rewrites_array {item : Codec}
    (h : List.Forall₂ (Rewrites env) (List.replicate vs.length item) vs) :
    Rewrites env (.array item vs.length) (.list vs) := by
  intro w hw
  obtain ⟨ws, hws, hcases⟩ := hw.of_list
  obtain ⟨b, hb⟩ := exists_encodedAll h hws
  rw [hws.length_eq] at hb ⊢
  have hdepth : ∀ u ∈ ws, u.depth ≤ w.depth := by
    intro u hu
    have hle := Nat.le_succ_of_le (Value.depth_le_of_item hu)
    obtain rfl | rfl := hcases <;> exact hle
  have hmembers : w.members? = some ws := by obtain rfl | rfl := hcases <;> rfl
  exact ⟨b, Codec.encode_array hroom hmembers hdepth hb⟩

theorem rewrites_sequence {item : Codec} (hlen : vs.length < Compact.bound)
    (h : List.Forall₂ (Rewrites env) (List.replicate vs.length item) vs) :
    Rewrites env (.sequence item) (.list vs) := by
  intro w hw
  obtain ⟨ws, hws, hcases⟩ := hw.of_list
  obtain ⟨b, hb⟩ := exists_encodedAll h hws
  rw [hws.length_eq] at hb hlen
  have hdepth : ∀ u ∈ ws, u.depth ≤ w.depth := by
    intro u hu
    have hle := Nat.le_succ_of_le (Value.depth_le_of_item hu)
    obtain rfl | rfl := hcases <;> exact hle
  have hmembers : w.members? = some ws := by obtain rfl | rfl := hcases <;> rfl
  exact ⟨_, Codec.encode_sequence hroom hmembers hdepth hlen hb⟩

theorem rewrites_option {inner : Codec} {v : Value} (h : Rewrites env inner v) :
    Rewrites env (.option inner) v := by
  intro w hw
  by_cases hnone : w = .none
  · subst hnone
    exact ⟨_, Codec.encode_none hroom inner⟩
  · obtain ⟨b, hb⟩ := h w hw
    exact ⟨_, Codec.encode_some hroom hnone hb⟩

theorem rewrites_ok {ok err : Codec} {v : Value} (h : Rewrites env ok v) :
    Rewrites env (.result ok err) (.ok v) := by
  obtain ⟨b, hb⟩ := h.encode
  exact rewrites_of_eq (fun w hw => by cases hw; rfl) (Codec.encode_ok hroom hb)

theorem rewrites_err {ok err : Codec} {v : Value} (h : Rewrites env err v) :
    Rewrites env (.result ok err) (.err v) := by
  obtain ⟨b, hb⟩ := h.encode
  exact rewrites_of_eq (fun w hw => by cases hw; rfl) (Codec.encode_err hroom hb)

/-! ### Maps -/

/-- The entry is written, whether lists or tuples stand for the lists in it. -/
def RewritesEntry (env : Environment) (key value : Codec) (e : Value × Value) : Prop :=
  Rewrites env key e.1 ∧ Rewrites env value e.2

omit hroom in
/-- Keys are read as they are made fit for a dictionary. -/
theorem rewrites_pairs {count : Nat}
    (h : List.Forall₂ (Rewrites env) (List.replicate count [key, value]).flatten vs) :
    (Decoder.pairUp vs).length = count ∧
      ∀ e ∈ Decoder.pairUp vs, RewritesEntry env key value e := by
  induction count generalizing vs with
  | zero =>
      cases h
      exact ⟨rfl, List.forall_mem_nil _⟩
  | succ count ih =>
      rw [List.replicate_succ, List.flatten_cons, List.cons_append, List.cons_append,
        List.nil_append] at h
      obtain _ | ⟨hkey, _ | ⟨hvalue, hrest⟩⟩ := h
      obtain ⟨hlen, hentries⟩ := ih hrest
      refine ⟨congrArg (· + 1) hlen, List.forall_mem_cons.mpr ⟨⟨?_, hvalue⟩, hentries⟩⟩
      exact hkey.of_loosened (hashableKey_loosened _)

omit hroom in
theorem loosened_pairs {es : List (Value × Value)} {ws : List Value}
    (h : AllLoosened (es.map fun e => .tuple [e.1, e.2]) ws) :
    ∃ es' : List (Value × Value), ws = es'.map (fun e => .tuple [e.1, e.2]) ∧
      List.Forall₂ (fun e e' => Loosened e.1 e'.1 ∧ Loosened e.2 e'.2) es es' := by
  induction es generalizing ws with
  | nil =>
      cases h
      exact ⟨[], rfl, .nil⟩
  | cons e rest ih =>
      obtain _ | ⟨hpair, hrest⟩ := h
      obtain ⟨es', rfl, hes'⟩ := ih hrest
      obtain ⟨ws, hws, rfl⟩ := hpair.of_tuple
      obtain _ | ⟨hkey, _ | ⟨hvalue, _ | _⟩⟩ := hws
      exact ⟨(_, _) :: es', rfl, .cons ⟨hkey, hvalue⟩ hes'⟩

omit hroom in
theorem mapM_pairs (es : List (Value × Value)) :
    (es.map fun e => Value.tuple [e.1, e.2]).mapM (fun m =>
      match m.members? with
      | none => .error .noMembers
      | some parts => .ok parts) =
        (.ok (es.map fun e => [e.1, e.2]) : Except ContainerError (List (List Value))) := by
  induction es with
  | nil => rfl
  | cons e rest ih =>
      rw [List.map_cons, List.mapM_cons, ih]
      rfl

omit hroom in
theorem entriesOf_pairs {w : Value} {es : List (Value × Value)}
    (h : w = .list (es.map fun e => .tuple [e.1, e.2]) ∨
      w = .tuple (es.map fun e => .tuple [e.1, e.2])) :
    Encoder.entriesOf w = .ok (es.map fun e => [e.1, e.2]) := by
  obtain rfl | rfl := h
  · exact mapM_pairs es
  · exact mapM_pairs es

theorem exists_encode_entries {w : Value} {es : List (Value × Value)}
    (hentries : Encoder.entriesOf w = .ok (es.map fun e => [e.1, e.2]))
    (hdepth : Value.depthOfEntries es ≤ w.depth) (hlen : es.length < Compact.bound)
    (h : ∀ e ∈ es, RewritesEntry env key value e) :
    ∃ b, (Codec.map key value).encode env w = .ok b :=
  exists_encode_map hroom hentries hdepth hlen fun e he => ⟨(h e he).1.encode, (h e he).2.encode⟩

/-- A dictionary is written again, and so are the pairs that no dictionary could be made of. -/
theorem rewrites_map {pairs : List (Value × Value)} (hlen : pairs.length < Compact.bound)
    (h : ∀ e ∈ pairs, RewritesEntry env key value e) :
    Rewrites env (.map key value) (Decoder.mapOf pairs) := by
  intro w hw
  cases hdict : Value.dictOf? pairs with
  | some d =>
      obtain ⟨-, es, rfl, -⟩ := Value.dictOf_some hdict
      obtain rfl : w = .dict es := by
        rw [Decoder.mapOf, hdict] at hw
        cases hw
        rfl
      exact exists_encode_entries hroom rfl (Nat.le_succ _)
        (Nat.lt_of_le_of_lt (Value.length_le_of_dictOf hdict) hlen)
        (Value.parts_of_dictOf hdict h)
  | none =>
      rw [Decoder.mapOf, hdict] at hw
      obtain ⟨ws, hws, hcases⟩ := hw.of_list
      obtain ⟨es, rfl, hes⟩ := loosened_pairs hws
      have hdepth : Value.depthOfEntries es ≤ w.depth := by
        have hle := Nat.le_succ_of_le (Value.depthOfEntries_le_pairs es)
        obtain rfl | rfl := hcases <;> exact hle
      have hrewrites : ∀ e ∈ es, RewritesEntry env key value e := by
        intro e he
        obtain ⟨e', he', hkey, hvalue⟩ := forall₂_right hes he
        exact ⟨(h e' he').1.of_loosened hkey, (h e' he').2.of_loosened hvalue⟩
      exact exists_encode_entries hroom (entriesOf_pairs hcases) hdepth
        (hes.length_eq ▸ hlen) hrewrites

/-- A value that lists cannot make any laxer is written again if it is written at all. -/
theorem rewrites_of_writes {c : Codec} {v : Value} {b : Bytes} (hv : ∀ w, Loosened v w → w = v)
    (h : Writes (env.writing (v.depth + 1) c v) b) : Rewrites env c v :=
  rewrites_of_eq hv (Codec.encode_of_writing hroom h)

theorem rewrites_fixedBytes (b : Bytes) : Rewrites env (.fixedBytes b.length) (.bytes b) := by
  have hwrites : Writes (Encoder.fixedBytes (.fixedBytes b.length) b.length (.bytes b)) b :=
    writes_fixedBytes rfl
  exact rewrites_of_writes hroom (fun _ h => by cases h; rfl) hwrites

end

/-! ### Declared types -/

section
variable {r : Reference} (hsound : env.Sound (.reference r)) (hreadable : env.Readable r)
  (hopen : env.hiding? .encodeTo r = none) {vs : List Value} {v : Value}

include hsound hreadable hopen

theorem rewrites_record {fields : Fields} (hlayout : env.layout? r = some (.record fields))
    (hmade : env.makeRecord r.owner ((fields.map (·.1)).zip vs) = .ok v)
    (h : List.Forall₂ (Rewrites env) (fields.map (·.2)) vs) : Rewrites env (.reference r) v := by
  obtain ⟨b, hb⟩ := exists_encodedAll h (.same vs)
  have hencode := Codec.encode_record hsound hreadable.1 hopen hlayout hmade hb
  obtain ⟨_, _, _, _, rfl⟩ := Environment.makeRecord_ok hmade
  exact rewrites_of_eq (fun _ h => by cases h; rfl) hencode

theorem rewrites_variant {alternatives : List Alternative} {a : Alternative}
    (hlayout : env.layout? r = some (.sum alternatives)) (ha : a ∈ alternatives)
    (hmade : env.makeVariant r.owner a.label ((a.fields.map (·.1)).zip vs) = .ok v)
    (h : List.Forall₂ (Rewrites env) (a.fields.map (·.2)) vs) : Rewrites env (.reference r) v := by
  obtain ⟨b, hb⟩ := exists_encodedAll h (.same vs)
  have hencode := Codec.encode_variant hsound hreadable.1 hopen hlayout ha hmade hb
  obtain ⟨_, _, _, _, rfl⟩ := Environment.makeVariant_ok hmade
  exact rewrites_of_eq (fun _ h => by cases h; rfl) hencode

end

section
variable {root : Codec}

mutual

/-- What stands on the wire can be written again, though perhaps not as the same bytes. -/
theorem Wire.rewrites (hsound : env.Sound root)
    (hopen : ∀ r, Reaches env root (.reference r) → env.hiding? .encodeTo r = none) {pad : Nat}
    {c : Codec} {v : Value} {b : Bytes} :
    Wire env False pad c v b → Reaches env root c → Rewrites env c v
  | .int hleast hgreatest, _ =>
      rewrites_of_writes hsound.room (fun _ h => by cases h; rfl) (writes_integer hleast hgreatest)
  | .bool b, _ => rewrites_of_writes hsound.room (fun _ h => by cases h; rfl) (writes_bool b)
  | .char c, _ => rewrites_of_writes hsound.room (fun _ h => by cases h; rfl) (writes_char c)
  | .str h, _ => rewrites_of_writes hsound.room (fun _ h => by cases h; rfl) (writes_str h)
  | .unit, _ => rewrites_of_writes hsound.room (fun _ h => by cases h; rfl) .nothing
  | .bytes h, _ => rewrites_of_writes hsound.room (fun _ h => by cases h; rfl) (writes_bytes h)
  | .accountId id, _ => rewrites_of_writes hsound.room (fun _ h => by cases h; rfl)
      (writes_identifier .accountId (v := .accountId id) rfl)
  | .hash id, _ => rewrites_of_writes hsound.room (fun _ h => by cases h; rfl)
      (writes_identifier .hash (v := .hash id) rfl)
  | .fixedBytes hlen, _ => hlen ▸ rewrites_fixedBytes hsound.room _
  | .compact hn hkind, _ =>
      rewrites_of_writes hsound.room (fun _ h => by cases h; rfl) (writes_compact hn hkind)
  | .tuple h, hreach =>
      rewrites_tuple hsound.room (h.rewrites hsound hopen fun d hd => hreach.trans (.part hd))
  | .array hlen h, hreach => by
      subst hlen
      exact rewrites_array hsound.room (h.rewrites hsound hopen hreach.first.replicate)
  | .sequence hlen _ h, hreach =>
      rewrites_sequence hsound.room hlen (h.rewrites hsound hopen hreach.first.replicate)
  | .absent, _ => rewrites_of_writes hsound.room (fun _ h => by cases h; rfl) (.byte 0)
  | .present _ h, hreach => rewrites_option hsound.room
      (h.rewrites hsound hopen hreach.first)
  | .ok h, hreach => rewrites_ok hsound.room
      (h.rewrites hsound hopen hreach.first)
  | .err h, hreach => rewrites_err hsound.room
      (h.rewrites hsound hopen hreach.second)
  | .map _ hcount _ h, hreach => by
      obtain ⟨hlen, hentries⟩ :=
        rewrites_pairs (h.rewrites hsound hopen (hreach.entries _))
      exact rewrites_map hsound.room (hlen ▸ hcount) hentries
  | .langError, _ =>
      rewrites_of_writes hsound.room (fun _ h => by cases h; rfl) writes_langError
  | .raisedLangError, _ =>
      rewrites_of_writes hsound.room (fun _ h => by cases h; rfl) writes_langError
  | .record hreadable hlayout h hmade, hreach =>
      rewrites_record (hsound.of_reaches hreach) hreadable (hopen _ hreach) hlayout hmade
        (h.rewrites hsound hopen fun d hd =>
          hreach.trans (.part (Environment.mem_partsOf_record hlayout hd)))
  | .variant hreadable hlayout ha h hmade, hreach =>
      rewrites_variant (hsound.of_reaches hreach) hreadable (hopen _ hreach) hlayout ha hmade
        (h.rewrites hsound hopen fun d hd =>
          hreach.trans (.part (Environment.mem_partsOf_sum hlayout ha hd)))

theorem WireAll.rewrites (hsound : env.Sound root)
    (hopen : ∀ r, Reaches env root (.reference r) → env.hiding? .encodeTo r = none) {pad : Nat}
    {cs : List Codec} {vs : List Value} {b : Bytes} :
    WireAll env False pad cs vs b → (∀ c ∈ cs, Reaches env root c) →
      List.Forall₂ (Rewrites env) cs vs
  | .nil, _ => .nil
  | .cons h hs, hreach =>
      .cons (h.rewrites hsound hopen (hreach _ List.mem_cons_self))
        (hs.rewrites hsound hopen fun c hc => hreach c (List.mem_cons_of_mem _ hc))

end
end

/-! ### The marker -/

/-- The value that is read for an option is none exactly if the marker says so. -/
def TellsPresence (env : Environment) (c : Codec) : Prop :=
  ∀ data v, (Codec.option c).decode env data = .ok v → (v = .none ↔ data.head? = some 0)

/-- What is read for an option is written again behind the same marker. -/
def KeepsMarker (env : Environment) (c : Codec) : Prop :=
  ∀ data v, (Codec.option c).decode env data = .ok v → ∃ marker rest more,
    data = marker :: rest ∧ (Codec.option c).encode env v = .ok (marker :: more)

theorem isSingle_option_iff {c : Codec} :
    (Codec.option c).IsSingle ↔ c ≠ .unit ∧ ∀ inner, c ≠ .option inner := by
  cases c <;> simp [Codec.IsSingle]

theorem sound_option {c : Codec} (h : env.Sound c) : env.Sound (.option c) := by
  refine .of_parts h.room trivial fun d hd => ?_
  obtain rfl := List.mem_singleton.mp hd
  exact h

section
variable {c : Codec} (hsound : env.Sound c)

include hsound

/-- The only codecs whose values can be none are the unit and options. -/
theorem exists_wire_none (h : ¬ (Codec.option c).IsSingle) : ∃ b, Wire env False 0 c .none b := by
  cases c with
  | unit => exact ⟨[], .unit⟩
  | option inner => exact ⟨[0], .absent⟩
  | _ => exact absurd trivial h

/-- A none that is marked as a value is read as no value, and written as none. -/
theorem decode_marked_none {b : Bytes} (h : Wire env False 0 c .none b) :
    (Codec.option c).decode env (1 :: b) = .ok .none :=
  (Wire.present False.elim h).decode (sound_option hsound) nofun

theorem tellsPresence_iff :
    TellsPresence env c ↔ c ≠ .unit ∧ ∀ inner, c ≠ .option inner := by
  rw [← isSingle_option_iff]
  constructor
  · intro h
    by_contra hnot
    obtain ⟨b, hb⟩ := exists_wire_none hsound hnot
    have hmarker := (h _ _ (decode_marked_none hsound hb)).mp rfl
    cases hmarker
  · intro hsingle data v h
    cases wire_of_decode (sound_option hsound) nofun nofun h with
    | absent => simp
    | present _ hv => simpa using hv.ne_none hsingle

theorem keepsMarker_iff
    (hopen : ∀ r, Reaches env c (.reference r) → env.hiding? .encodeTo r = none) :
    KeepsMarker env c ↔ c ≠ .unit ∧ ∀ inner, c ≠ .option inner := by
  rw [← isSingle_option_iff]
  constructor
  · intro h
    by_contra hnot
    obtain ⟨b, hb⟩ := exists_wire_none hsound hnot
    obtain ⟨marker, rest, more, hdata, hencode⟩ := h _ _ (decode_marked_none hsound hb)
    rw [Codec.encode_none hsound.room] at hencode
    cases hdata
    cases hencode
  · intro hsingle data v h
    cases wire_of_decode (sound_option hsound) nofun nofun h with
    | absent => exact ⟨0, [], [], rfl, Codec.encode_none hsound.room c⟩
    | @present _ _ b _ hv =>
        obtain ⟨more, hmore⟩ := (hv.rewrites hsound hopen (.refl c)).encode
        exact ⟨1, b, more, rfl, Codec.encode_some hsound.room (hv.ne_none hsingle) hmore⟩

end

end Scale
end InkBindings
