import InkBindings.Proofs.Scale.Reads
import InkBindings.Scale.Compact

/-!
Compact integers have one written form each. Reading accepts exactly these forms: the bytes that
are taken are those that writing the number gives, in all four modes.
-/

namespace InkBindings

namespace Bytes

theorem ofNat_one {n : Nat} (h : n < 256) : ofNat 1 n = [UInt8.ofNat n] := by
  simp [ofNat, Nat.mod_eq_of_lt h]

theorem toNat_byte {n : Nat} (h : n < 256) : (UInt8.ofNat n).toNat = n := by
  simpa [UInt8.toNat_ofNat'] using h

theorem toNat_concat (b : Bytes) (x : UInt8) :
    toNat (b ++ [x]) = toNat b + 256 ^ b.length * x.toNat := by
  induction b with
  | nil => simp [toNat]
  | cons y rest ih =>
      simp only [List.cons_append, toNat, ih, List.length_cons, Nat.pow_succ]
      rw [Nat.mul_add, Nat.mul_right_comm, Nat.mul_comm 256 (256 ^ rest.length * x.toNat),
        Nat.add_assoc, Nat.mul_assoc]

/-- The last byte is not zero exactly if fewer bytes would not do. -/
theorem le_toNat_concat (b : Bytes) (x : UInt8) :
    256 ^ b.length ≤ toNat (b ++ [x]) ↔ x ≠ 0 := by
  rw [toNat_concat]
  constructor
  · rintro h rfl
    have hlt := toNat_lt b
    simp at h
    omega
  · intro hx
    have hpos : 0 < x.toNat := Nat.pos_of_ne_zero fun h0 => hx (UInt8.toNat_inj.mp h0)
    exact Nat.le_trans (Nat.le_mul_of_pos_right _ hpos) (Nat.le_add_left ..)

end Bytes

namespace Scale.Compact

theorem lt_bound {n : Nat} (h : n < 2 ^ 6) : n < bound := by
  unfold bound
  omega

theorem byteLength_eq {n size : Nat} (hs : 0 < size) (hlow : 256 ^ (size - 1) ≤ n)
    (hhigh : n < 256 ^ size) : byteLength n = size := by
  have hpow : ∀ k, 256 ^ k = 2 ^ (8 * k) := fun k => by rw [Nat.pow_mul]
  have hpos : n ≠ 0 := Nat.ne_of_gt (Nat.lt_of_lt_of_le (Nat.pow_pos (by omega)) hlow)
  rw [hpow] at hlow hhigh
  have h1 := (Nat.le_log2 hpos).mpr hlow
  have h2 := (Nat.log2_lt hpos).mpr hhigh
  simp only [byteLength]
  omega

theorem lt_pow_byteLength {n : Nat} (h : n ≠ 0) : n < 256 ^ byteLength n := by
  have hpow : 256 ^ byteLength n = 2 ^ (8 * byteLength n) := by rw [Nat.pow_mul]
  rw [hpow]
  apply (Nat.log2_lt h).mp
  simp only [byteLength]
  omega

theorem pow_le_of_byteLength {n : Nat} (h : n ≠ 0) : 256 ^ (byteLength n - 1) ≤ n := by
  have hpow : 256 ^ (byteLength n - 1) = 2 ^ (8 * (byteLength n - 1)) := by rw [Nat.pow_mul]
  rw [hpow]
  apply (Nat.le_log2 h).mp
  simp only [byteLength]
  omega

theorem byteLength_bounds {n : Nat} (hlow : 2 ^ 30 ≤ n) (hhigh : n < bound) :
    4 ≤ byteLength n ∧ byteLength n ≤ 67 := by
  have hpos : n ≠ 0 := by omega
  have h1 := (Nat.le_log2 hpos).mpr hlow
  have h2 := (Nat.log2_lt hpos).mpr hhigh
  simp only [byteLength]
  omega

theorem bound_eq : bound = 256 ^ 67 := by
  have hbyte : (2 : Nat) ^ 8 = 256 := by decide
  simp only [bound, Nat.pow_mul, hbyte]

theorem encode_ne_nil (n : Nat) : encode n ≠ [] := by
  simp only [encode]
  split
  · simp [Bytes.ofNat]
  · split
    · simp [Bytes.ofNat]
    · split <;> simp [Bytes.ofNat]

/-! ### Reading by mode -/

/-- A number of `width` bytes of which the two low bits are the mode. -/
def decodeShort (width least : Nat) (fault : CompactFault) : Reader Int := fun data offset => do
  let (raw, next) ← data.takeBytes offset width
  let n := Bytes.toNat raw / 4
  if n < least then throw (.bytes (.nonCanonical fault))
  return (n, next)

/-- A number of `size` bytes behind the first one. -/
def decodeLong (size : Nat) : Reader Int := fun data offset => do
  let (taken, next) ← data.take offset size
  match taken.tags.getLast? with
  | none => throw .noByte
  | some last =>
    if last.is 0 then throw (.bytes (.nonCanonical .trailingZero))
    let n := Bytes.toNat (← taken.toBytes)
    if n < 2 ^ 30 then throw (.bytes (.nonCanonical .bigInteger))
    return (n, next)

theorem decode_cons (pre : Bytes) (x : UInt8) (left : Bytes) :
    decode (.ofBytes (pre ++ x :: left)) pre.length =
      match x.toNat % 4 with
      | 0 => .ok ((x.toNat / 4 : Nat), (pre ++ [x]).length)
      | 1 => decodeShort 2 (2 ^ 6) .twoByte (.ofBytes (pre ++ x :: left)) pre.length
      | 2 => decodeShort 4 (2 ^ 14) .fourByte (.ofBytes (pre ++ x :: left)) pre.length
      | _ => decodeLong (x.toNat / 4 + 4) (.ofBytes (pre ++ x :: left)) (pre ++ [x]).length := by
  have hmode : ((x.toNat : Int) % 4).toNat = x.toNat % 4 := by omega
  rw [decode, Source.takeTag_append]
  simp only [Tag.integer, Tag.integer?, Bind.bind, Except.bind, hmode]
  generalize x.toNat % 4 = mode
  obtain _ | _ | _ | _ := mode <;> rfl

/-! ### The form that is written is read -/

theorem decodeShort_encode {width least n low : Nat} (fault : CompactFault) (pre left : Bytes)
    (hlow : low < 4) (hleast : least ≤ n) (hn : 4 * n + low < 256 ^ width) :
    decodeShort width least fault (.ofBytes (pre ++ (Bytes.ofNat width (4 * n + low) ++ left)))
      pre.length = .ok (n, (pre ++ Bytes.ofNat width (4 * n + low)).length) := by
  have htake := Source.takeBytes_append pre (Bytes.ofNat width (4 * n + low)) left
  rw [Bytes.length_ofNat] at htake
  have hvalue : (4 * n + low) / 4 = n := by omega
  have hnot : ¬ n < least := by omega
  simp only [decodeShort, htake, Bind.bind, Except.bind, Bytes.toNat_ofNat hn, hvalue, hnot,
    if_false]
  rfl

theorem decodeLong_encode {n size : Nat} (pre left : Bytes) (hs : 0 < size)
    (hlow : 256 ^ (size - 1) ≤ n) (hhigh : n < 256 ^ size) (hn : 2 ^ 30 ≤ n) :
    decodeLong size (.ofBytes (pre ++ (Bytes.ofNat size n ++ left))) pre.length =
      .ok (n, (pre ++ Bytes.ofNat size n).length) := by
  have htake := Source.take_append pre (Bytes.ofNat size n) left
  have hvalue := Bytes.toNat_ofNat hhigh
  have hlen := Bytes.length_ofNat size n
  have hne : Bytes.ofNat size n ≠ [] := List.ne_nil_of_length_pos (hlen.symm ▸ hs)
  obtain ⟨init, x, hb⟩ : ∃ init x, Bytes.ofNat size n = init ++ [x] :=
    ⟨_, _, (List.dropLast_concat_getLast hne).symm⟩
  rw [hb] at htake hvalue hlen ⊢
  have hinit : init.length = size - 1 := by simp at hlen; omega
  have hx : x ≠ 0 := (Bytes.le_toNat_concat init x).mp (by rwa [hvalue, hinit])
  have hlast : (Stretch.bytes (init ++ [x])).tags.getLast? = some (.byte x) := by
    simp [Stretch.tags]
  have hzero : (Tag.byte x).is 0 = false := by simpa [Tag.is] using hx
  have hnot : ¬ n < 2 ^ 30 := by omega
  rw [hlen] at htake
  simp only [decodeLong, htake, Bind.bind, Except.bind, hlast, hzero, Stretch.toBytes, hvalue,
    hnot, if_false]
  rfl

/-- What is written of a number is read as the number, whatever comes before and behind. -/
theorem decode_encode {n : Nat} (hn : n < bound) (pre left : Bytes) :
    decode (.ofBytes (pre ++ (encode n ++ left))) pre.length =
      .ok (n, (pre ++ encode n).length) := by
  simp only [encode]
  split
  · next h =>
      have hx := Bytes.toNat_byte (n := 4 * n) (by omega)
      have h0 : 4 * n % 4 = 0 := by omega
      have hq : 4 * n / 4 = n := by omega
      rw [Bytes.ofNat_one (by omega), List.singleton_append, decode_cons, hx]
      simp only [h0, hq]
  split
  · next h =>
      have hshort := decodeShort_encode .twoByte pre left (by omega : 1 < 4)
        (by omega : 2 ^ 6 ≤ n) (by omega : 4 * n + 1 < 256 ^ 2)
      have hx : (4 * n + 1) % 256 % 4 = 1 := by omega
      rw [Bytes.ofNat] at hshort ⊢
      rw [List.cons_append, decode_cons, Bytes.toNat_byte (by omega)]
      simpa only [hx, List.cons_append] using hshort
  split
  · next h =>
      have hshort := decodeShort_encode .fourByte pre left (by omega : 2 < 4)
        (by omega : 2 ^ 14 ≤ n) (by omega : 4 * n + 2 < 256 ^ 4)
      have hx : (4 * n + 2) % 256 % 4 = 2 := by omega
      rw [Bytes.ofNat] at hshort ⊢
      rw [List.cons_append, decode_cons, Bytes.toNat_byte (by omega)]
      simpa only [hx, List.cons_append] using hshort
  · next h =>
      have hlong : 2 ^ 30 ≤ n := by omega
      obtain ⟨h4, h67⟩ := byteLength_bounds hlong hn
      have hsize : 4 * (byteLength n - 4) + 3 < 256 := by omega
      have hx : (4 * (byteLength n - 4) + 3) % 4 = 3 := by omega
      have hq : (4 * (byteLength n - 4) + 3) / 4 + 4 = byteLength n := by omega
      have hdecode := decodeLong_encode (pre ++ [UInt8.ofNat (4 * (byteLength n - 4) + 3)]) left
        (by omega) (pow_le_of_byteLength (by omega)) (lt_pow_byteLength (by omega)) hlong
      simp only [Bytes.ofNat_one hsize]
      rw [List.append_assoc, List.singleton_append, decode_cons, Bytes.toNat_byte hsize]
      simp only [hx, hq]
      simpa using hdecode

/-! ### What is read is a form that is written -/

variable {E : DecodeFailure → Prop} {pre rest : Bytes}

theorem reads_decodeShort (hE : ∀ e, E (.bytes e)) (width least : Nat) (fault : CompactFault) :
    Reads E (fun (n : Int) used => used.length = width ∧ n = (Bytes.toNat used / 4 : Nat) ∧
        least ≤ Bytes.toNat used / 4)
      (decodeShort width least fault) pre rest := by
  refine .bind (.takeBytes hE width) ?_
  rintro raw used left - ⟨rfl, hlen⟩
  refine .guard (fun _ => hE _) fun h => .done ?_
  rw [List.append_nil]
  exact ⟨hlen, rfl, Nat.le_of_not_lt h⟩

theorem reads_decodeLong (hE : ∀ e, E (.bytes e)) (size : Nat) (hs : 0 < size) :
    Reads E (fun (n : Int) used => used.length = size ∧ n = Bytes.toNat used ∧
        256 ^ (size - 1) ≤ Bytes.toNat used ∧ 2 ^ 30 ≤ Bytes.toNat used)
      (decodeLong size) pre rest := by
  refine .bind (.take hE size) ?_
  rintro s used left - ⟨rfl, hlen⟩
  have hne : used ≠ [] := List.ne_nil_of_length_pos (hlen.symm ▸ hs)
  obtain ⟨init, x, rfl⟩ : ∃ init x, used = init ++ [x] :=
    ⟨_, _, (List.dropLast_concat_getLast hne).symm⟩
  have hinit : init.length = size - 1 := by simp at hlen; omega
  have hlast : (Stretch.bytes (init ++ [x])).tags.getLast? = some (.byte x) := by
    simp [Stretch.tags]
  simp only [hlast]
  refine .guard (fun _ => hE _) fun hx => ?_
  refine .guard (fun _ => hE _) fun h => .done ?_
  rw [List.append_nil, ← hinit]
  refine ⟨by simpa using hlen, rfl, ?_, Nat.le_of_not_lt h⟩
  exact (Bytes.le_toNat_concat init x).mpr (by simpa [Tag.is] using hx)

/-- The first byte tells the mode that the whole number has. -/
theorem toNat_mod_four {x : UInt8} {left used left' : Bytes} (h : x :: left = used ++ left')
    (hne : used ≠ []) : Bytes.toNat used % 4 = x.toNat % 4 := by
  cases used with
  | nil => exact absurd rfl hne
  | cons y more =>
      obtain ⟨rfl, -⟩ := List.cons.inj h
      simp only [Bytes.toNat]
      omega

/-- Only the one written form of a number is read as it. -/
theorem reads_decode (hE : ∀ e, E (.bytes e)) :
    Reads E (fun (n : Int) used => ∃ k : Nat, n = k ∧ k < bound ∧ used = encode k)
      decode pre rest := by
  cases rest with
  | nil => exact .of_error (by rw [decode, Source.takeTag_nil]; rfl) (hE _)
  | cons x left =>
      have hx : x.toNat < 256 := x.toNat_lt
      have hdecode := decode_cons pre x left
      match hmode : x.toNat % 4 with
      | 0 =>
          rw [hmode] at hdecode
          refine .of_ok hdecode rfl ⟨x.toNat / 4, rfl, ?_, ?_⟩
          · unfold bound; omega
          · have h4 : 4 * (x.toNat / 4) = x.toNat := by omega
            rw [encode, if_pos (by omega), h4, Bytes.ofNat_one hx, UInt8.ofNat_toNat]
      | 1 =>
          rw [hmode] at hdecode
          refine .congr hdecode ((reads_decodeShort hE 2 (2 ^ 6) .twoByte).mono ?_)
          rintro n used left' hrest ⟨hlen, rfl, hleast⟩
          have hmod := toNat_mod_four hrest (List.ne_nil_of_length_pos (by omega))
          have hlt : Bytes.toNat used < 256 ^ 2 := hlen ▸ Bytes.toNat_lt used
          have h4 : 4 * (Bytes.toNat used / 4) + 1 = Bytes.toNat used := by omega
          refine ⟨_, rfl, by unfold bound; omega, ?_⟩
          rw [encode, if_neg (by omega), if_pos (by omega), h4, ← hlen, Bytes.ofNat_toNat]
      | 2 =>
          rw [hmode] at hdecode
          refine .congr hdecode ((reads_decodeShort hE 4 (2 ^ 14) .fourByte).mono ?_)
          rintro n used left' hrest ⟨hlen, rfl, hleast⟩
          have hmod := toNat_mod_four hrest (List.ne_nil_of_length_pos (by omega))
          have hlt : Bytes.toNat used < 256 ^ 4 := hlen ▸ Bytes.toNat_lt used
          have h4 : 4 * (Bytes.toNat used / 4) + 2 = Bytes.toNat used := by omega
          refine ⟨_, rfl, by unfold bound; omega, ?_⟩
          rw [encode, if_neg (by omega), if_neg (by omega), if_pos (by omega), h4, ← hlen,
            Bytes.ofNat_toNat]
      | mode + 3 =>
          rw [hmode] at hdecode
          change Reads E _ decode pre ([x] ++ left)
          refine .behind ((reads_decodeLong hE (x.toNat / 4 + 4) (by omega)).mono ?_) hdecode
          rintro n used left' - ⟨hlen, rfl, hlow, hlong⟩
          have hlt : Bytes.toNat used < 256 ^ (x.toNat / 4 + 4) := hlen ▸ Bytes.toNat_lt used
          have hsize := byteLength_eq (by omega) hlow hlt
          have hhead : 4 * (x.toNat / 4 + 4 - 4) + 3 = x.toNat := by omega
          refine ⟨_, rfl, ?_, ?_⟩
          · rw [bound_eq]
            exact Nat.lt_of_lt_of_le hlt (Nat.pow_le_pow_right (by omega) (by omega))
          · rw [encode, if_neg (by omega), if_neg (by omega), if_neg (by omega)]
            simp only [hsize, hhead, Bytes.ofNat_one hx, UInt8.ofNat_toNat]
            rw [← hlen, Bytes.ofNat_toNat]

/-! ### Writing -/

theorem encode_length_of_lt {n : Nat} (h : n < 2 ^ 6) : (encode n).length = 1 := by
  rw [encode, if_pos h, Bytes.length_ofNat]

/-- The parts in which a number is written make up its form. -/
theorem writes_write (n : Nat) : Writes (write n) (encode n) := by
  simp only [write]
  split
  · exact .bytes _
  · next h =>
      obtain ⟨x, tail, hx⟩ := List.exists_cons_of_ne_nil (encode_ne_nil n)
      simp only [hx, List.headD_cons, List.tail_cons]
      split
      · exact .append (.byte x) (.bytes tail)
      · next hlong =>
          have hlen := encode_length_of_lt (n := n) (by omega)
          have htail : tail = [] := by simpa [hx] using hlen
          rw [htail]
          exact .append (.byte x) .nothing

theorem writes_encodeValue {n : Nat} (h : n < bound) :
    Writes (encodeValue (.int n)) (encode n) := by
  have hneg : ¬ (n : Int) < 0 := by omega
  have hlarge : ¬ bound ≤ n := Nat.not_le_of_lt h
  simp only [encodeValue, hneg, hlarge, if_false, Int.toNat_natCast]
  exact writes_write n

end Scale.Compact
end InkBindings
