import InkBindings.Proofs.Scale.CompactForm

/-!
Compact integers as a bijection. A number below the bound is written in one way, and every other
value is refused. A number is read at a place of the data if what it is written as stands there, and
otherwise not.
-/

namespace InkBindings.Scale.Compact
variable {n next : Int}

/-- Only numbers from zero to the bound have a compact form. Truth values are no numbers. -/
def Compactable (v : Value) : Prop :=
  ∃ n : Int, v = .int n ∧ 0 ≤ n ∧ n < 2 ^ 536

theorem Compactable.exists_int {v : Value} (h : Compactable v) : ∃ n, v = .int n :=
  let ⟨n, heq, _⟩ := h
  ⟨n, heq⟩

/-- The computation fails because of the value, whatever the buffer holds, and writes nothing. -/
def Refuses (write : EStateM EncodeFailure Buffer Unit) : Prop :=
  ∃ e, ∀ before, write.run (.ofBytes before) = .error (.value e) (.ofBytes before)

theorem Refuses.throw (e : EncodeError) : Refuses (throw (.value e)) :=
  ⟨e, fun _ => rfl⟩

/-! ### Writing -/

theorem lt_pow_iff (hn : 0 ≤ n) (k : Nat) : n < 2 ^ k ↔ n.toNat < 2 ^ k := by
  rw [Int.toNat_lt hn]
  norm_cast

theorem lt_bound_iff (hn : 0 ≤ n) : n < 2 ^ 536 ↔ n.toNat < bound := by
  have hbits : 8 * 67 = 536 := rfl
  unfold bound
  rw [hbits]
  exact lt_pow_iff hn _

theorem writes_int (hn : 0 ≤ n) (h : n < 2 ^ 536) :
    Writes (encodeValue (.int n)) (encode n.toNat) := by
  have hwrites := writes_encodeValue ((lt_bound_iff hn).mp h)
  rwa [Int.toNat_of_nonneg hn] at hwrites

theorem writes_or_refuses (v : Value) :
    (Compactable v ∧ ∃ b, Writes (encodeValue v) b) ∨
      (¬ Compactable v ∧ Refuses (encodeValue v)) := by
  cases v with
  | int n =>
      have hform : Compactable (.int n) ↔ 0 ≤ n ∧ n < 2 ^ 536 :=
        ⟨fun ⟨_, heq, h⟩ => Value.int.inj heq ▸ h, fun h => ⟨n, rfl, h⟩⟩
      rw [hform]
      by_cases hn : 0 ≤ n
      · by_cases h : n < 2 ^ 536
        · exact .inl ⟨⟨hn, h⟩, encode n.toNat, writes_int hn h⟩
        · have hlarge : bound ≤ n.toNat := Nat.le_of_not_lt (mt (lt_bound_iff hn).mpr h)
          refine .inr ⟨fun hboth => h hboth.2, ?_⟩
          rw [encodeValue, if_neg (Int.not_lt.mpr hn), if_pos hlarge]
          exact .throw _
      · refine .inr ⟨fun hboth => hn hboth.1, ?_⟩
        rw [encodeValue, if_pos (Int.not_le.mp hn)]
        exact .throw _
  | _ => exact .inr ⟨fun h => absurd h.exists_int (by simp), .throw _⟩

/-! ### Reading -/

theorem decode_of_length_lt {data : Bytes} {offset : Nat} (h : data.length < offset) :
    decode (.ofBytes data) offset =
      .error (.bytes (.truncated 1 offset (data.length - offset))) := by
  have hlt : (data.length : Int) < offset + 1 := by omega
  rw [decode, Source.takeTag, Source.take]
  simp only [Source.ofBytes, Source.size?, List.size_toArray, hlt, if_true]
  rfl

/-- What is read starts in the data, and is the form that the number is written in. -/
theorem decode_ofBytes (data : Bytes) (offset : Nat) :
    (∃ e, decode (.ofBytes data) offset = .error (.bytes e)) ∨
      ∃ pre n left, n < bound ∧ data = pre ++ (encode n ++ left) ∧ offset = pre.length ∧
        decode (.ofBytes data) offset = .ok (n, (pre ++ encode n).length) := by
  by_cases h : offset ≤ data.length
  · have hsplit : data.take offset ++ data.drop offset = data := List.take_append_drop offset data
    have hlength : (data.take offset).length = offset := List.length_take_of_le h
    have hreads : Reads (fun f => ∃ e, f = .bytes e) _ decode (data.take offset)
        (data.drop offset) := reads_decode fun e => ⟨e, rfl⟩
    rw [Reads, hsplit, hlength] at hreads
    split at hreads
    · next n next hdecode =>
        obtain ⟨used, left, hrest, rfl, k, rfl, hk, rfl⟩ := hreads
        exact .inr ⟨data.take offset, k, left, hk, by rw [← hrest, hsplit], hlength.symm, hdecode⟩
    · next f hdecode =>
        obtain ⟨e, rfl⟩ := hreads
        exact .inl ⟨e, hdecode⟩
  · exact .inl ⟨_, decode_of_length_lt (Nat.lt_of_not_le h)⟩

theorem extract_append (pre used left : Bytes) :
    (pre ++ (used ++ left)).extract pre.length (pre ++ used).length = used := by
  simp

theorem exists_stretch {data : Bytes} {first last : Nat} (h : first ≤ last)
    (hlast : last ≤ data.length) :
    ∃ pre used left : Bytes,
      data = pre ++ (used ++ left) ∧ first = pre.length ∧ last = (pre ++ used).length := by
  refine ⟨data.take first, (data.drop first).take (last - first), data.drop last, ?_, ?_, ?_⟩
  · have hrest := List.take_append_drop (last - first) (data.drop first)
    rw [List.drop_drop, Nat.add_sub_cancel' h] at hrest
    rw [hrest, List.take_append_drop]
  · rw [List.length_take_of_le (Nat.le_trans h hlast)]
  · simp only [List.length_append, List.length_take, List.length_drop]
    omega

/-- A number is read where the form that it is written in stands, and nowhere else. -/
theorem decode_eq_ok_iff {data : Bytes} {offset : Nat} :
    decode (.ofBytes data) offset = .ok (n, next) ↔ 0 ≤ n ∧ n < 2 ^ 536 ∧
      offset ≤ next ∧ next ≤ data.length ∧
      Writes (encodeValue (.int n)) (data.extract offset next.toNat) := by
  constructor
  · intro h
    obtain ⟨e, herror⟩ | ⟨pre, k, left, hk, rfl, rfl, hdecode⟩ := decode_ofBytes data offset
    · rw [herror] at h
      cases h
    · rw [hdecode] at h
      cases h
      have hlt : (k : Int) < 2 ^ 536 := (lt_bound_iff (Int.natCast_nonneg k)).mpr hk
      rw [Int.toNat_natCast, extract_append]
      have hlast : (pre ++ encode k).length = pre.length + (encode k).length := List.length_append
      have hdata : (pre ++ (encode k ++ left)).length = (pre ++ encode k).length + left.length := by
        rw [← List.append_assoc, List.length_append]
      exact ⟨Int.natCast_nonneg k, hlt, by omega, by omega, writes_encodeValue hk⟩
  · rintro ⟨hn, h, hoffset, hlength, hwrites⟩
    obtain ⟨last, rfl⟩ := Int.eq_ofNat_of_zero_le (Int.le_trans (Int.natCast_nonneg offset) hoffset)
    have hform := (writes_int hn h).unique hwrites
    rw [Int.toNat_natCast] at hform
    obtain ⟨pre, used, left, rfl, rfl, rfl⟩ : ∃ pre used left : Bytes,
        data = pre ++ (used ++ left) ∧ offset = pre.length ∧ last = (pre ++ used).length :=
      exists_stretch (Int.ofNat_le.mp hoffset) (Int.ofNat_le.mp hlength)
    rw [extract_append] at hform
    have hdecode := decode_encode ((lt_bound_iff hn).mp h) pre left
    rw [hform, Int.toNat_of_nonneg hn] at hdecode
    exact hdecode

end InkBindings.Scale.Compact
