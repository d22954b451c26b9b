import InkBindings.Proofs.Scale.RoundTrip
import InkBindings.Proofs.Scale.WritingLevels

/-!
Sequences whose items take no bytes. Such a sequence is written as its length alone, and the reader
takes the length for more than can follow, unless the item is the unit itself.
-/

namespace InkBindings.Scale
variable {env : Environment} {item : Codec}

/-- All values of the codec are written as nothing. -/
def WritesNothing (env : Environment) (c : Codec) : Prop :=
  ∀ v, HasForm env c v → c.encode env v = .ok []

/-- Codecs that are put together in such a way that their values take no bytes. -/
inductive ZeroSized (env : Environment) : Codec → Prop
  | unit : ZeroSized env .unit
  | tuple {items} : (∀ c ∈ items, ZeroSized env c) → ZeroSized env (.tuple items)
  | noItems (c) : ZeroSized env (.array c 0)
  | array {c} (length) : ZeroSized env c → ZeroSized env (.array c length)
  | noBytes : ZeroSized env (.fixedBytes 0)
  | record {r fields} : env.layout? r = some (.record fields) →
      (∀ c ∈ fields.map (·.2), ZeroSized env c) → ZeroSized env (.reference r)

/-! ### Writing -/

theorem HaveForms.encoded_nothing {cs : List Codec} {vs : List Value}
    (hcs : ∀ c ∈ cs, WritesNothing env c) : HaveForms env cs vs → EncodedAll env cs vs []
  | .nil => .nil
  | .cons h hs =>
      .cons (hcs _ List.mem_cons_self _ h)
        (hs.encoded_nothing fun c hc => hcs c (List.mem_cons_of_mem _ hc))

variable {vs : List Value}

theorem encoded_nothing_items (hitem : WritesNothing env item)
    (h : HaveForms env (List.replicate vs.length item) vs) :
    EncodedAll env (List.replicate vs.length item) vs [] :=
  h.encoded_nothing fun _ hc => List.eq_of_mem_replicate hc ▸ hitem

theorem depth_le_list {v : Value} (hv : v ∈ vs) : v.depth ≤ (Value.list vs).depth :=
  Nat.le_succ_of_le (Value.depth_le_of_item hv)

/-- Codecs of no size write nothing for any value. -/
theorem ZeroSized.writesNothing {c : Codec} (hsound : env.Sound c) (h : ZeroSized env c) :
    WritesNothing env c := by
  have hroom := hsound.room
  induction h with
  | unit =>
      intro v hv
      cases hv
      exact Codec.encode_of_writing hroom .nothing
  | tuple _ ih =>
      intro v hv
      cases hv with
      | tuple hvs =>
          have hitems := fun c hc => ih c hc (hsound.of_reaches (.part hc))
          exact Codec.encode_tuple hroom (hvs.encoded_nothing hitems)
  | noItems c =>
      intro v hv
      cases hv with
      | @array _ _ vs hlen _ =>
          obtain rfl := List.length_eq_zero_iff.mp (Int.ofNat_inj.mp hlen).symm
          have hitems : EncodedAll env (List.replicate ([] : List Value).length c) [] [] := .nil
          exact Codec.encode_array hroom rfl (List.forall_mem_nil _) hitems
  | array length _ ih =>
      intro v hv
      cases hv with
      | array hlen hvs =>
          subst hlen
          have hitem := ih (hsound.of_reaches (.part List.mem_cons_self))
          exact Codec.encode_array hroom rfl (fun _ hw => depth_le_list hw)
            (encoded_nothing_items hitem hvs)
  | noBytes =>
      intro v hv
      cases hv with
      | @fixedBytes _ b hlen =>
          obtain rfl := List.length_eq_zero_iff.mp (Int.ofNat_inj.mp hlen).symm
          have hwrites : Writes (Encoder.fixedBytes (.fixedBytes 0) ([] : Bytes).length (.bytes []))
            [] := writes_fixedBytes rfl
          exact Codec.encode_of_writing hroom hwrites
  | @record r fields hlayout _ ih =>
      intro v hv
      cases hv with
      | variant hlayout' => simp [hlayout] at hlayout'
      | record hlayout' hvs hmade =>
          obtain rfl : _ = fields := by simpa [hlayout] using hlayout'.symm
          have hopen := Environment.hiding_of_made hmade
          exact Codec.encode_record hsound (hopen _) (hopen _) hlayout hmade
            (hvs.encoded_nothing fun c hc =>
              ih c hc (hsound.of_reaches (.part (Environment.mem_partsOf_record hlayout hc))))

theorem encode_sequence_of_writesNothing (hroom : env.room = .unbounded)
    (hitem : WritesNothing env item) (h : HasForm env (.sequence item) (.list vs)) :
    (Codec.sequence item).encode env (.list vs) = .ok (Compact.encode vs.length) := by
  cases h with
  | sequence hlen hvs =>
      have hencode := Codec.encode_sequence hroom rfl (fun _ hw => depth_le_list hw) hlen
        (encoded_nothing_items hitem hvs)
      rwa [List.append_nil] at hencode

/-! ### Reading -/

theorem HaveForms.wire_nothing {strict : Prop} {pad : Nat} {cs : List Codec} {vs : List Value}
    (hcs : ∀ c ∈ cs, ∀ v, HasForm env c v → Wire env strict pad c v []) :
    HaveForms env cs vs → WireAll env strict pad cs vs []
  | .nil => .nil
  | .cons h hs =>
      .cons (hcs _ List.mem_cons_self _ h)
        (hs.wire_nothing fun c hc => hcs c (List.mem_cons_of_mem _ hc))

theorem wire_nothing_items {strict : Prop} {pad : Nat}
    (hitem : ∀ v, HasForm env item v → Wire env strict pad item v [])
    (h : HaveForms env (List.replicate vs.length item) vs) :
    WireAll env strict pad (List.replicate vs.length item) vs [] :=
  h.wire_nothing fun _ hc => List.eq_of_mem_replicate hc ▸ hitem

/-- No bytes at all are read as a value of a codec of no size. -/
theorem ZeroSized.wire (strict : Prop) (pad : Nat) {c : Codec} (h : ZeroSized env c) {v : Value}
    (hv : HasForm env c v) : Wire env strict pad c v [] := by
  induction h generalizing v with
  | unit =>
      cases hv
      exact .unit
  | tuple _ ih =>
      cases hv with
      | tuple hvs => exact .tuple (hvs.wire_nothing fun c hc v => ih c hc)
  | noItems =>
      cases hv with
      | @array _ _ vs hlen _ =>
          obtain rfl := List.length_eq_zero_iff.mp (Int.ofNat_inj.mp hlen).symm
          exact .array rfl .nil
  | array length _ ih =>
      cases hv with
      | array hlen hvs => exact .array hlen (wire_nothing_items (fun v => ih) hvs)
  | noBytes =>
      cases hv with
      | @fixedBytes _ b hlen =>
          obtain rfl := List.length_eq_zero_iff.mp (Int.ofNat_inj.mp hlen).symm
          exact .fixedBytes rfl
  | @record r fields hlayout _ ih =>
      cases hv with
      | variant hlayout' => simp [hlayout] at hlayout'
      | record hlayout' hvs hmade =>
          obtain rfl : _ = fields := by simpa [hlayout] using hlayout'.symm
          have hopen := Environment.hiding_of_made hmade
          exact .record ⟨hopen _, hopen _⟩ hlayout (hvs.wire_nothing fun c hc v => ih c hc) hmade

theorem ZeroSized.wire_sequence {pad : Nat} (h : ZeroSized env item)
    (hvs : HasForm env (.sequence item) (.list vs))
    (hfits : item.isUnit = true ∨ vs.length ≤ pad) :
    Wire env True pad (.sequence item) (.list vs) (Compact.encode vs.length) := by
  cases hvs with
  | sequence hlen hvs =>
      have hwire := Wire.sequence hlen (hfits.imp_right fun hle => Nat.le_add_left_of_le hle)
        (wire_nothing_items (fun v => h.wire True pad) hvs)
      rwa [List.append_nil] at hwire

/-- More items than there are bytes are refused, unless they are units. -/
theorem reading_sequence_short (hunit : item.isUnit = false) {count : Nat}
    (hcount : count < Compact.bound) (pre post : Bytes) (hpost : post.length < count)
    (level : Nat) :
    env.reading level (.sequence item) (.ofBytes (pre ++ (Compact.encode count ++ post)))
      pre.length = .error (.bytes (.sequenceTooLong count)) := by
  have hfits : Decoder.fits count (.ofBytes (pre ++ (Compact.encode count ++ post)))
      (pre ++ Compact.encode count).length = false := by
    have hsize : (Source.ofBytes (pre ++ (Compact.encode count ++ post))).size =
        (pre ++ (Compact.encode count ++ post)).length := rfl
    simp only [Decoder.fits, hsize, decide_eq_false_iff_not, List.length_append]
    omega
  simp only [Environment.reading, Codec.decoder, Decoder.sequence, Compact.decode_encode hcount,
    bind, Except.bind, hfits, hunit]
  rfl

/-- Whether a sequence of items of no size is read depends on what stands behind it. -/
theorem decodeFrom_sequence_of_zeroSized (hsound : env.Sound (.sequence item))
    (hitem : ZeroSized env item) (hvs : HasForm env (.sequence item) (.list vs))
    (pre post : Bytes) :
    (Codec.sequence item).decodeFrom env (.ofBytes (pre ++ (Compact.encode vs.length ++ post)))
      pre.length =
      if item.isUnit = true ∨ vs.length ≤ post.length then
        .ok (.list vs, (pre ++ Compact.encode vs.length).length)
      else .error (.bytes (.sequenceTooLong vs.length)) := by
  split
  · next hfits =>
      have hwire := hitem.wire_sequence hvs hfits
      exact Codec.yields_decodeFrom hsound (hwire.yields hsound (.refl _)) pre post (Nat.le_refl _)
  · next hfits =>
      simp only [not_or, Bool.not_eq_true, Nat.not_le] at hfits
      cases hvs with
      | sequence hlen _ =>
          rw [Environment.decodeFrom_eq_reading hsound.room]
          exact reading_sequence_short hfits.1 hlen pre post hfits.2 _

theorem decode_sequence_short (hroom : env.room = .unbounded) (hunit : item.isUnit = false)
    {count : Nat} (hcount : count < Compact.bound) (hpos : 0 < count) :
    (Codec.sequence item).decode env (Compact.encode count) =
      .error (.bytes (.sequenceTooLong count)) := by
  obtain ⟨level, -, hown⟩ := Codec.decodeFromOwn_eq_reading (c := .sequence item) hroom nofun
    (.ofBytes (Compact.encode count)) 0
  have hshort : env.reading level (.sequence item) (.ofBytes ([] ++ (Compact.encode count ++ [])))
      ([] : Bytes).length = .error (.bytes (.sequenceTooLong count)) :=
    reading_sequence_short hunit hcount [] [] hpos level
  rw [List.append_nil, List.nil_append] at hshort
  simp only [List.length_nil, Int.natCast_zero] at hshort
  simp only [Codec.decode, Codec.decodeHidden?, Codec.decodeAll, hown, hshort]
  rfl

/-! ### There and back -/

/-- The list is encoded, and decoding gives the same list. -/
def ListTrip (env : Environment) (item : Codec) (vs : List Value) : Prop :=
  ∃ b, (Codec.sequence item).encode env (.list vs) = .ok b ∧
    (Codec.sequence item).decode env b = .ok (.list vs)

theorem wire_sequence_nil (item : Codec) :
    Wire env True 0 (.sequence item) (.list []) (Compact.encode 0) := by
  have hwire : Wire env True 0 (.sequence item) (.list []) (Compact.encode 0 ++ []) :=
    .sequence (Compact.lt_bound (by decide)) (.inr (Nat.zero_le _)) .nil
  rwa [List.append_nil] at hwire

theorem not_listTrip (hroom : env.room = .unbounded) (hitem : WritesNothing env item)
    (hunit : item ≠ .unit) (hvs : HasForm env (.sequence item) (.list vs)) (hne : vs ≠ []) :
    ¬ ListTrip env item vs := by
  rintro ⟨b, hencode, hdecode⟩
  rw [encode_sequence_of_writesNothing hroom hitem hvs] at hencode
  obtain rfl := Except.ok.inj hencode
  have hisUnit : item.isUnit = false := by
    cases item with
    | unit => exact absurd rfl hunit
    | _ => rfl
  cases hvs with
  | sequence hlen _ =>
      rw [decode_sequence_short hroom hisUnit hlen (List.length_pos_iff.mpr hne)] at hdecode
      cases hdecode

/-- A list of values that are written as nothing comes back exactly if it is empty or one of
units. Among the codecs of such values are those of no size. -/
theorem listTrip_iff (hsound : env.Sound (.sequence item)) :
    (ZeroSized env item → WritesNothing env item) ∧
      (WritesNothing env item → ∀ vs, HasForm env (.sequence item) (.list vs) →
        (ListTrip env item vs ↔ item = .unit ∨ vs = [])) := by
  refine ⟨ZeroSized.writesNothing (hsound.of_reaches (.part List.mem_cons_self)), ?_⟩
  intro hitem vs hvs
  constructor
  · intro htrip
    by_contra hnot
    simp only [not_or] at hnot
    exact not_listTrip hsound.room hitem hnot.1 hvs hnot.2 htrip
  · intro h
    refine ⟨_, encode_sequence_of_writesNothing hsound.room hitem hvs, ?_⟩
    obtain rfl | rfl := h
    · exact (ZeroSized.unit.wire_sequence hvs (.inl rfl)).decode hsound nofun
    · exact (wire_sequence_nil item).decode hsound nofun

/-- Markers are records without fields. -/
def markers : Environment where
  shapes := [("Marker", .record [])]
  instantiations := []
  layouts := [(.declared "Marker", .record [])]

def marker : Codec := .reference (.declared "Marker")

theorem markers_nodes {c : Codec} (h : Reaches markers (.sequence marker) c) :
    c ∈ [.sequence marker, marker] := by
  refine Reaches.mem_of_closed List.mem_cons_self ?_ h
  simp [marker, markers, Environment.partsOf, Environment.layout?, Reference.binding, Layout.codecs,
    Codec.parts]

theorem markers_sound : markers.Sound (.sequence marker) := by
  refine ⟨rfl, fun c hc => ?_⟩
  have hmem := markers_nodes hc
  simp only [List.mem_cons, List.not_mem_nil, or_false] at hmem
  obtain rfl | rfl := hmem
  · trivial
  · exact ⟨_, rfl, [], rfl, .of_names List.nodup_nil rfl⟩

theorem marker_form : HasForm markers (.sequence marker) (.list [.record "Marker" []]) :=
  .sequence (Compact.lt_bound (by decide)) (.cons (.record rfl .nil rfl) .nil)

theorem markers_listTrip :
    ListTrip markers marker [] ∧ ¬ ListTrip markers marker [.record "Marker" []] := by
  obtain ⟨hzero, htrip⟩ := listTrip_iff markers_sound
  have hnothing := hzero (.record rfl nofun)
  constructor
  · exact (htrip hnothing [] (.sequence (Compact.lt_bound (by decide)) .nil)).mpr (.inr rfl)
  · intro h
    exact absurd ((htrip hnothing _ marker_form).mp h) (by simp [marker])

/-- A list of one marker does not come back, although markers take no bytes. -/
theorem not_listTrip_marker : ¬ ∀ env item, Environment.Sound env (.sequence item) →
    ZeroSized env item → ∀ vs, HasForm env (.sequence item) (.list vs) → ListTrip env item vs := by
  intro h
  have hzero : ZeroSized markers marker := .record rfl nofun
  have hitem := hzero.writesNothing (markers_sound.of_reaches (.part List.mem_cons_self))
  exact not_listTrip rfl hitem nofun marker_form (List.cons_ne_nil _ _)
    (h _ _ markers_sound hzero _ marker_form)

end InkBindings.Scale
