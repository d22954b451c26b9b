import InkBindings.Proofs.Scale.CompactIntegers
import InkBindings.Proofs.Scale.ReadBack

/-!
Byte strings and the lists of their bytes. What the codecs of byte strings take at once, those of
sequences and arrays take byte by byte. They write the same, and what one reads the other reads too.
-/

namespace InkBindings.Scale
variable {rest : Bytes} {count : Nat}

def byteItems (b : Bytes) : List Value := b.map fun x => .int x.toNat

@[simp] theorem length_byteItems (b : Bytes) : (byteItems b).length = b.length := List.length_map _

/-- A byte is the number that has it for its only byte. -/
theorem integerBytes_byte (x : UInt8) :
    IntKind.least ⟨false, .w8⟩ ≤ (x.toNat : Int) ∧ (x.toNat : Int) ≤ IntKind.greatest ⟨false, .w8⟩ ∧
      Encoder.integerBytes ⟨false, .w8⟩ x.toNat = [x] := by
  have hlen : [x].length = (IntKind.mk false .w8).width.bytes := rfl
  have hvalue : Decoder.integerOf false [x] = x.toNat := by simp [Decoder.integerOf, Bytes.toNat]
  obtain ⟨hleast, hgreatest⟩ := integerOf_bounds hlen
  have hform := integerBytes_integerOf hlen
  rw [hvalue] at hleast hgreatest hform
  exact ⟨hleast, hgreatest, hform⟩

/-! ### Writing -/

theorem writes_byteItem (x : UInt8) : Writes (Encoder.integer ⟨false, .w8⟩ (.int x.toNat)) [x] := by
  obtain ⟨hleast, hgreatest, hform⟩ := integerBytes_byte x
  have hwrites := writes_integer hleast hgreatest
  rwa [hform] at hwrites

theorem writes_byteItems (b : Bytes) :
    Writes (Encoder.all (Encoder.integer ⟨false, .w8⟩) (byteItems b)) b := by
  induction b with
  | nil => exact .nothing
  | cons x rest ih => exact .append (writes_byteItem x) ih

theorem encode_fixedBytes (env : Environment) (b : Bytes) :
    (Codec.fixedBytes b.length).encode env (.bytes b) = .ok b := by
  have hwrites : Writes (Encoder.fixedBytes (.fixedBytes b.length) b.length (.bytes b)) b :=
    writes_fixedBytes rfl
  exact encode_of_writes hwrites

theorem encode_byteArray (env : Environment) (b : Bytes) :
    (Codec.array .u8 b.length).encode env (.list (byteItems b)) = .ok b := by
  have hwrites : Writes (Encoder.array (.array .u8 b.length) (Encoder.integer ⟨false, .w8⟩) b.length
      (.list (byteItems b))) b := by
    simp only [Encoder.array, Value.members?, length_byteItems, if_true]
    exact writes_byteItems b
  exact encode_of_writes hwrites

/-- What would follow a refusal has no part in the outcome. -/
theorem bytesOf_eq_of_refuses {first second second' : EStateM EncodeFailure Buffer Unit}
    (h : Compact.Refuses first) :
    Codec.bytesOf (do first; second) = Codec.bytesOf (do first; second') := by
  obtain ⟨e, he⟩ := h
  have hfirst : first .empty = .error (.value e) .empty := he []
  have hfails (next : EStateM EncodeFailure Buffer Unit) :
      EStateM.bind first (fun _ => next) .empty = .error (.value e) .empty := by
    rw [EStateM.bind, hfirst]
  have hrun (next : EStateM EncodeFailure Buffer Unit) :
      (do first; next : EStateM EncodeFailure Buffer Unit).run .empty = .error (.value e) .empty :=
    hfails next
  rw [Codec.bytesOf, Codec.bytesOf, hrun, hrun]

/-- Where the length is too large for its compact form, both fail over it. -/
theorem encode_bytes_eq (env : Environment) (b : Bytes) :
    Codec.bytes.encode env (.bytes b) = (Codec.sequence .u8).encode env (.list (byteItems b)) := by
  have hbytes : Codec.bytes.encodeTo env (.bytes b) =
      (do Compact.encodeValue (.int b.length); Buffer.write b) := rfl
  have hitems : (Codec.sequence .u8).encodeTo env (.list (byteItems b)) = (do
      Compact.encodeValue (.int b.length)
      Encoder.all (Encoder.integer ⟨false, .w8⟩) (byteItems b)) := by
    rw [← length_byteItems b]
    rfl
  obtain ⟨-, form, hform⟩ | ⟨-, hrefuses⟩ := Compact.writes_or_refuses (.int b.length)
  · have hwhole := hform.append (.bytes b)
    have heach := hform.append (writes_byteItems b)
    rw [← hbytes] at hwhole
    rw [← hitems] at heach
    rw [encode_of_writes hwhole, encode_of_writes heach]
  · rw [Codec.encode, Codec.encode, hbytes, hitems]
    exact bytesOf_eq_of_refuses hrefuses

/-! ### Reading -/

/-- The same bytes are read in both ways, up to the same place, or in neither. -/
inductive SameBytes :
    Except DecodeFailure (Value × Int) → Except DecodeFailure (Value × Int) → Prop
  | read (b : Bytes) (next : Int) :
      SameBytes (.ok (.bytes b, next)) (.ok (.list (byteItems b), next))
  | refused (e e' : DecodeError) : SameBytes (.error (.bytes e)) (.error (.bytes e'))

theorem integer_byte (pre : Bytes) (x : UInt8) (left : Bytes) :
    Decoder.integer ⟨false, .w8⟩ (.ofBytes (pre ++ (x :: left))) pre.length =
      .ok (.int x.toNat, (pre ++ [x]).length) := by
  obtain ⟨hleast, hgreatest, hform⟩ := integerBytes_byte x
  have hyields : Yields 0 (Decoder.integer ⟨false, .w8⟩) (.int x.toNat) _ :=
    yields_integer hleast hgreatest
  rw [hform] at hyields
  exact hyields pre left (Nat.zero_le _)

theorem integer_nil (pre : Bytes) :
    Decoder.integer ⟨false, .w8⟩ (.ofBytes (pre ++ [])) pre.length =
      .error (.bytes (.truncated 1 pre.length 0)) := by
  have htake : Source.take (.ofBytes (pre ++ [])) pre.length (1 : Nat) =
      .error (.bytes (.truncated 1 pre.length 0)) := Source.take_short Nat.zero_lt_one
  simp only [Decoder.integer, Source.takeBytes, IntWidth.bytes, htake]
  rfl

theorem repeated_bytes (pre used left : Bytes) (read : List Value) :
    Decoder.repeated (Decoder.integer ⟨false, .w8⟩) (.ofBytes (pre ++ (used ++ left))) used.length
      read pre.length = .ok (read.reverse ++ byteItems used, (pre ++ used).length) := by
  induction used generalizing pre read with
  | nil => simp [Decoder.repeated, byteItems, Pure.pure, Except.pure]
  | cons x used ih =>
      have hmore := ih (pre ++ [x]) (.int x.toNat :: read)
      rw [List.append_assoc, List.append_assoc] at hmore
      simp only [List.length_cons, Decoder.repeated, List.cons_append, integer_byte, Bind.bind,
        Except.bind]
      refine hmore.trans ?_
      simp [byteItems]

theorem repeated_short (pre : Bytes) (h : rest.length < count) (read : List Value) :
    ∃ e, Decoder.repeated (Decoder.integer ⟨false, .w8⟩) (.ofBytes (pre ++ rest)) count read
      pre.length = .error (.bytes e) := by
  induction rest generalizing pre count read with
  | nil =>
      obtain ⟨count, rfl⟩ := Nat.exists_eq_add_one_of_ne_zero (Nat.ne_of_gt h)
      simp only [Decoder.repeated, integer_nil, Bind.bind, Except.bind]
      exact ⟨_, rfl⟩
  | cons x left ih =>
      obtain ⟨count, rfl⟩ := Nat.exists_eq_add_one_of_ne_zero (Nat.ne_zero_of_lt h)
      have hmore := ih (pre ++ [x]) (Nat.lt_of_succ_lt_succ h) (.int x.toNat :: read)
      rw [List.append_assoc, List.singleton_append] at hmore
      simpa only [Decoder.repeated, integer_byte, Bind.bind, Except.bind] using hmore

theorem sameBytes_fixed (pre rest : Bytes) (count : Nat) :
    SameBytes (Decoder.fixedBytes count (.ofBytes (pre ++ rest)) pre.length)
      (Decoder.array (Decoder.integer ⟨false, .w8⟩) count (.ofBytes (pre ++ rest)) pre.length) := by
  simp only [Decoder.fixedBytes, Decoder.array, Int.toNat_natCast]
  by_cases h : count ≤ rest.length
  · obtain ⟨used, left, rfl, rfl⟩ : ∃ used left, rest = used ++ left ∧ count = used.length :=
      ⟨rest.take count, rest.drop count, (List.take_append_drop count rest).symm,
        (List.length_take_of_le h).symm⟩
    rw [Source.take_append, repeated_bytes]
    exact .read used _
  · have hshort : rest.length < count := Nat.lt_of_not_le h
    obtain ⟨e, he⟩ := repeated_short pre hshort []
    rw [Source.take_short hshort, he]
    exact .refused _ e

section
variable {data : Source} {offset n next : Int}
  (hcount : Compact.decode data offset = .ok (n, next))

include hcount

theorem bytes_of_count : Decoder.bytes data offset = Decoder.fixedBytes n data next := by
  rw [Decoder.bytes, Decoder.counted, hcount]
  rfl

theorem sequence_of_count (item : Decoder) :
    Decoder.sequence false item data offset =
      if Decoder.fits n data next then Decoder.array item n data next
      else .error (.bytes (.sequenceTooLong n)) := by
  rw [Decoder.sequence, hcount]
  cases hfits : Decoder.fits n data next <;> simp only [Bind.bind, Except.bind, hfits] <;> rfl

end

/-- What the guard before a sequence refuses would run short anyway. -/
theorem sameBytes_counted (data : Bytes) (offset : Nat) :
    SameBytes (Decoder.bytes (.ofBytes data) offset)
      (Decoder.sequence false (Decoder.integer ⟨false, .w8⟩) (.ofBytes data) offset) := by
  obtain ⟨e, herror⟩ | ⟨pre, n, left, -, rfl, rfl, hcount⟩ := Compact.decode_ofBytes data offset
  · simp only [Decoder.bytes, Decoder.counted, Decoder.sequence, herror]
    exact .refused e e
  · rw [bytes_of_count hcount, sequence_of_count hcount, ← List.append_assoc]
    split
    · exact sameBytes_fixed (pre ++ Compact.encode n) left n
    · next hfits =>
        have hshort : left.length < n := Nat.lt_of_not_le (mt Decoder.fits_iff.mpr hfits)
        rw [Decoder.fixedBytes, Source.take_short hshort]
        exact .refused _ _

end InkBindings.Scale
