import InkBindings.Proofs.Scale.Instances
import InkBindings.Proofs.Scale.Wire

/-!
What writing a value gives. Wherever no alternative stands in the way of its class, a value is
written as its strict form, at any level that the nesting of the value leaves room for.
-/

namespace InkBindings.Scale

theorem WireAll.length_eq {env : Environment} {strict : Prop} {pad : Nat} {cs : List Codec}
    {vs : List Value} {b : Bytes} (h : WireAll env strict pad cs vs b) : vs.length = cs.length := by
  induction cs generalizing vs b with
  | nil => cases h; rfl
  | cons c rest ih =>
      cases h with
      | cons hc hs => rw [List.length_cons, List.length_cons, ih hs]

theorem bytesOf_of_writes {write : EStateM EncodeFailure Buffer Unit} {b : Bytes}
    (h : Writes write b) : Codec.bytesOf write = .ok b := by
  have hrun : write.run .empty = .ok () (.ofBytes b) := h []
  simp [Codec.bytesOf, hrun]

theorem encode_of_writes {env : Environment} {c : Codec} {v : Value} {b : Bytes}
    (h : Writes (c.encodeTo env v) b) : c.encode env v = .ok b :=
  bytesOf_of_writes h

theorem Encoder.option_of_ne_none {inner : Encoder} {v : Value} (h : v ≠ .none) :
    Encoder.option inner v = (do Buffer.writeByte 1; inner v) := by
  cases v with
  | none => exact absurd rfl h
  | _ => rfl

namespace Environment

variable {env : Environment}

/-- The fields of an instance are found under their names, before the members of its class. -/
theorem fields_given {fields : Fields} {attributes : List Attribute} {vs : List Value}
    {given : List (String × Value)} (hfit : FieldsFit fields attributes)
    (hlen : vs.length = fields.length)
    (h : arrange? attributes ((fields.map (·.1)).zip vs) = some given) (v : Value) :
    fields.map (fun f => env.fieldOf? v given f.1) = vs.map some := by
  rw [← find_of_arrange hfit hlen h]
  refine List.map_congr_left fun f hf => ?_
  have hmem : (given.find? (·.1 = f.1)).map (·.2) ∈ vs.map some := by
    rw [← find_of_arrange hfit hlen h]
    exact List.mem_map_of_mem (f := fun f => (given.find? (·.1 = f.1)).map (·.2)) hf
  obtain ⟨w, -, hw⟩ := List.mem_map.mp hmem
  rw [fieldOf?, ← hw, Option.some_or]

/-! An instance that was made of values is nested deeper than each of them, and is written as the
values in their order. -/

section
variable {root : Codec} {r : Reference} {vs : List Value} {v : Value} {b : Bytes} {level : Nat}
  (hsound : env.Sound root) (hreach : Reaches env root (.reference r))

include hsound hreach

theorem depth_lt_of_makeRecord {fields : Fields}
    (hlayout : env.layout? r = some (.record fields)) (hlen : vs.length = fields.length)
    (hmade : env.makeRecord r.owner ((fields.map (·.1)).zip vs) = .ok v) :
    ∀ w ∈ vs, w.depth < v.depth := by
  intro w hw
  obtain ⟨attributes, given, hattributes, hgiven, rfl⟩ := makeRecord_ok hmade
  have hfit := hsound.record_fits hreach hlayout hattributes
  obtain ⟨name, hmem⟩ := mem_of_arrange hfit hlen hgiven hw
  exact Nat.lt_succ_of_le (Value.depth_le_of_field hmem)

theorem depth_lt_of_makeVariant {alternatives : List Alternative} {a : Alternative}
    (hlayout : env.layout? r = some (.sum alternatives)) (ha : a ∈ alternatives)
    (hlen : vs.length = a.fields.length)
    (hmade : env.makeVariant r.owner a.label ((a.fields.map (·.1)).zip vs) = .ok v) :
    ∀ w ∈ vs, w.depth < v.depth := by
  intro w hw
  obtain ⟨c, given, hc, hgiven, rfl⟩ := makeVariant_ok hmade
  have hfit := hsound.variant_fits hreach hlayout ha hc
  obtain ⟨name, hmem⟩ := mem_of_arrange hfit hlen hgiven hw
  exact Nat.lt_succ_of_le (Value.depth_le_of_field hmem)

variable (hcodec : env.hiding? .codec r = none) (hopen : env.hiding? .encodeTo r = none)

include hcodec hopen

theorem writes_record {fields : Fields} (hlayout : env.layout? r = some (.record fields))
    (hlen : vs.length = fields.length)
    (hmade : env.makeRecord r.owner ((fields.map (·.1)).zip vs) = .ok v)
    (h : Writes (Encoder.each ((fields.map (·.2)).map (env.writing level)) vs) b) :
    Writes (env.writing (level + 1) (.reference r) v) b := by
  obtain ⟨attributes, given, hattributes, hgiven, rfl⟩ := makeRecord_ok hmade
  have hfit := hsound.record_fits hreach hlayout hattributes
  rw [writing_of_layout hlayout hcodec hopen]
  simp only [layoutEncoder, if_true]
  rw [Encoder.fields_eq_each _ _ _ (fields_given hfit hlen hgiven _)]
  rwa [List.map_map] at h

theorem writes_variant {alternatives : List Alternative} {a : Alternative}
    (hlayout : env.layout? r = some (.sum alternatives)) (ha : a ∈ alternatives)
    (hlen : vs.length = a.fields.length)
    (hmade : env.makeVariant r.owner a.label ((a.fields.map (·.1)).zip vs) = .ok v)
    (h : Writes (Encoder.each ((a.fields.map (·.2)).map (env.writing level)) vs) b) :
    Writes (env.writing (level + 1) (.reference r) v) (a.index :: b) := by
  obtain ⟨c, given, hc, hgiven, rfl⟩ := makeVariant_ok hmade
  have hfit := hsound.variant_fits hreach hlayout ha hc
  have hfind := find_of_nodup Alternative.label (hsound.layout_fits hreach hlayout).2.1 ha
  rw [writing_of_layout hlayout hcodec hopen]
  simp only [layoutEncoder, if_true, hfind]
  rw [Encoder.fields_eq_each _ _ _ (fields_given hfit hlen hgiven _)]
  rw [List.map_map] at h
  exact .append (.byte _) h

end

end Environment

section
variable {env : Environment} {strict : Prop} {pad : Nat} {root : Codec}

mutual

theorem Wire.writes (hstrict : strict) (hsound : env.Sound root)
    (hopen : ∀ r v b, Reaches env root (.reference r) → Wire env strict pad (.reference r) v b →
      env.hiding? .encodeTo r = none) {c : Codec} {v : Value} {b : Bytes} :
    Wire env strict pad c v b → Reaches env root c → ∀ level, v.depth < level →
      Writes (env.writing level c v) b
  | .int hleast hgreatest, _, _, _ => writes_integer hleast hgreatest
  | .bool b, _, _, _ => writes_bool b
  | .char c, _, _, _ => writes_char c
  | .str h, _, _, _ => writes_str h
  | .unit, _, _, _ => .nothing
  | .bytes h, _, _, _ => writes_bytes h
  | .accountId id, _, _, _ => writes_identifier .accountId (v := .accountId id) rfl
  | .hash id, _, _, _ => writes_identifier .hash (v := .hash id) rfl
  | .fixedBytes hlen, _, _, _ => by
      subst hlen
      exact writes_fixedBytes (v := .bytes b) rfl
  | .compact hn hkind, _, _, _ => writes_compact hn hkind
  | .tuple h, hreach, level, hlevel => by
      have heach := h.writes hstrict hsound hopen (fun d hd => hreach.trans (.part hd)) level
        fun v hv => Nat.lt_of_le_of_lt (Value.depth_le_of_item hv) (Nat.lt_of_succ_lt hlevel)
      simpa only [Environment.writing_tuple, Encoder.tuple, List.length_map, h.length_eq,
        if_true] using heach
  | .array hlen h, hreach, level, hlevel => by
      have heach := h.writes hstrict hsound hopen hreach.first.replicate level
        fun v hv => Nat.lt_of_le_of_lt (Value.depth_le_of_item hv) (Nat.lt_of_succ_lt hlevel)
      rw [List.map_replicate, ← Encoder.all_eq_each] at heach
      simpa only [Environment.writing_array, Encoder.array, Value.members?, hlen, if_true]
        using heach
  | .sequence hlen _ h, hreach, level, hlevel => by
      have heach := h.writes hstrict hsound hopen hreach.first.replicate level
        fun v hv => Nat.lt_of_le_of_lt (Value.depth_le_of_item hv) (Nat.lt_of_succ_lt hlevel)
      rw [List.map_replicate, ← Encoder.all_eq_each] at heach
      exact .append (Compact.writes_encodeValue hlen) heach
  | .absent, _, _, _ => .byte 0
  | .present hv h, hreach, level, hlevel => by
      have hinner := h.writes hstrict hsound hopen hreach.first level hlevel
      rw [Environment.writing_option, Encoder.option_of_ne_none (hv hstrict)]
      exact .append (.byte 1) hinner
  | .ok h, hreach, level, hlevel =>
      .append (.byte 0) (h.writes hstrict hsound hopen hreach.first
        level (Nat.lt_of_succ_lt hlevel))
  | .err h, hreach, level, hlevel =>
      .append (.byte 1) (h.writes hstrict hsound hopen hreach.second
        level (Nat.lt_of_succ_lt hlevel))
  | .map hnot _ _ _, _, _, _ => absurd hstrict hnot
  | .langError, _, _, _ => writes_langError
  | .raisedLangError, _, _, _ => writes_langError
  | .record hreadable hlayout h hv, hreach, level + 1, hlevel => by
      have hlen := h.length_eq
      rw [List.length_map] at hlen
      have hdepth := Environment.depth_lt_of_makeRecord hsound hreach hlayout hlen hv
      refine Environment.writes_record hsound hreach hreadable.1
        (hopen _ _ _ hreach (.record hreadable hlayout h hv)) hlayout hlen hv ?_
      exact h.writes hstrict hsound hopen
        (fun d hd => hreach.trans (.part (Environment.mem_partsOf_record hlayout hd))) level
        fun w hw => Nat.lt_of_lt_of_le (hdepth w hw) (Nat.le_of_lt_succ hlevel)
  | .variant hreadable hlayout ha h hv, hreach, level + 1, hlevel => by
      have hlen := h.length_eq
      rw [List.length_map] at hlen
      have hdepth := Environment.depth_lt_of_makeVariant hsound hreach hlayout ha hlen hv
      refine Environment.writes_variant hsound hreach hreadable.1
        (hopen _ _ _ hreach (.variant hreadable hlayout ha h hv)) hlayout ha hlen hv ?_
      exact h.writes hstrict hsound hopen
        (fun d hd => hreach.trans (.part (Environment.mem_partsOf_sum hlayout ha hd))) level
        fun w hw => Nat.lt_of_lt_of_le (hdepth w hw) (Nat.le_of_lt_succ hlevel)

theorem WireAll.writes (hstrict : strict) (hsound : env.Sound root)
    (hopen : ∀ r v b, Reaches env root (.reference r) → Wire env strict pad (.reference r) v b →
      env.hiding? .encodeTo r = none) {cs : List Codec} {vs : List Value} {b : Bytes} :
    WireAll env strict pad cs vs b → (∀ c ∈ cs, Reaches env root c) → ∀ level,
      (∀ v ∈ vs, v.depth < level) → Writes (Encoder.each (cs.map (env.writing level)) vs) b
  | .nil, _, _, _ => .nothing
  | .cons h hs, hreach, level, hlevel =>
      .append
        (h.writes hstrict hsound hopen (hreach _ List.mem_cons_self) level
          (hlevel _ List.mem_cons_self))
        (hs.writes hstrict hsound hopen (fun c hc => hreach c (List.mem_cons_of_mem _ hc)) level
          fun v hv => hlevel v (List.mem_cons_of_mem _ hv))

end
end

end InkBindings.Scale
