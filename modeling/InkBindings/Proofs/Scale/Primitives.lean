import InkBindings.Proofs.Scale.CompactForm
import InkBindings.Scale.Decode
import InkBindings.Scale.Encode

/-!
The codecs without parts. For each one: what is written of its values, that it is read back
wherever it stands, and that nothing else is read.
-/

namespace InkBindings.Scale
variable {E : DecodeFailure → Prop} {pre rest : Bytes} {pad : Nat}

/-! ### Integers -/

namespace IntKind

/-- Half of the numbers of a kind are below zero if it is signed. -/
theorem half (k : IntKind) : ∃ h : Nat, 2 ^ (k.bits - 1) = h ∧ 2 ^ k.bits = 2 * h ∧
    256 ^ k.width.bytes = 2 * h := by
  have hpos : 0 < k.bits := by
    simp only [bits]
    cases k.width <;> decide
  have hsucc : 2 ^ k.bits = 2 * 2 ^ (k.bits - 1) := by
    rw [← Nat.pow_succ']
    congr 1
    omega
  have hbytes : 256 ^ k.width.bytes = 2 ^ k.bits := by rw [bits, Nat.pow_mul]
  exact ⟨_, rfl, hsucc, hbytes.trans hsucc⟩

theorem least_le_zero (k : IntKind) : k.least ≤ 0 := by
  obtain ⟨h, hhalf, -, -⟩ := k.half
  simp only [least]
  split
  · have hcast : (2 : Int) ^ (k.bits - 1) = h := by exact_mod_cast hhalf
    omega
  · exact Int.le_refl 0

end IntKind

theorem length_integerBytes (kind : IntKind) (n : Int) :
    (Encoder.integerBytes kind n).length = kind.width.bytes := Bytes.length_ofNat ..

/-- The remainder of a signed number is its two's complement. -/
theorem emod_twice {n h : Int} (hlow : -h ≤ n) (hhigh : n < h) :
    n % (2 * h) = if n < 0 then n + 2 * h else n := by
  split
  · rw [← Int.add_emod_right n (2 * h), Int.emod_eq_of_lt (by omega) (by omega)]
  · exact Int.emod_eq_of_lt (by omega) (by omega)

theorem toNat_integerBytes (kind : IntKind) (n : Int) :
    (Bytes.toNat (Encoder.integerBytes kind n) : Int) = n % 2 ^ kind.bits := by
  obtain ⟨h, hhalf, hbits, hbytes⟩ := kind.half
  have hbits' : (2 : Int) ^ kind.bits = 2 * h := by exact_mod_cast hbits
  have hpos : 0 < h := hhalf ▸ Nat.pow_pos (by omega)
  have hnonneg : 0 ≤ n % (2 * h : Int) := Int.emod_nonneg _ (by omega)
  have hlt : n % (2 * h : Int) < 2 * h := Int.emod_lt_of_pos _ (by omega)
  rw [Encoder.integerBytes, hbits', Bytes.toNat_ofNat (by rw [hbytes]; omega)]
  omega

theorem integerOf_integerBytes {kind : IntKind} {n : Int} (hleast : kind.least ≤ n)
    (hgreatest : n ≤ kind.greatest) :
    Decoder.integerOf kind.signed (Encoder.integerBytes kind n) = n := by
  obtain ⟨h, hhalf, hbits, hbytes⟩ := kind.half
  have hhalf' : (2 : Int) ^ (kind.bits - 1) = h := by exact_mod_cast hhalf
  have hbits' : (2 : Int) ^ kind.bits = 2 * h := by exact_mod_cast hbits
  have hvalue := toNat_integerBytes kind n
  simp only [IntKind.least, IntKind.greatest, hhalf', hbits'] at hleast hgreatest
  rw [hbits'] at hvalue
  simp only [Decoder.integerOf, length_integerBytes, hbytes]
  cases hs : kind.signed with
  | false =>
      simp only [hs, Bool.false_eq_true, if_false] at hleast hgreatest
      rw [Int.emod_eq_of_lt hleast (by omega)] at hvalue
      simpa using hvalue
  | true =>
      simp only [hs, if_true] at hleast hgreatest
      rw [emod_twice (by omega) (by omega)] at hvalue
      simp only [Bool.true_and, decide_eq_true_eq]
      split at hvalue <;> split <;> omega

theorem integerOf_bounds {kind : IntKind} {b : Bytes} (hlen : b.length = kind.width.bytes) :
    kind.least ≤ Decoder.integerOf kind.signed b ∧
      Decoder.integerOf kind.signed b ≤ kind.greatest := by
  obtain ⟨h, hhalf, hbits, hbytes⟩ := kind.half
  have hhalf' : (2 : Int) ^ (kind.bits - 1) = h := by exact_mod_cast hhalf
  have hbits' : (2 : Int) ^ kind.bits = 2 * h := by exact_mod_cast hbits
  have hlt := Bytes.toNat_lt b
  rw [hlen, hbytes] at hlt
  simp only [IntKind.least, IntKind.greatest, hhalf', hbits', Decoder.integerOf, hlen, hbytes]
  cases hs : kind.signed with
  | false => simp; omega
  | true =>
      simp only [Bool.true_and, decide_eq_true_eq, if_true]
      split <;> omega

theorem integerBytes_integerOf {kind : IntKind} {b : Bytes} (hlen : b.length = kind.width.bytes) :
    Encoder.integerBytes kind (Decoder.integerOf kind.signed b) = b := by
  obtain ⟨h, hhalf, hbits, hbytes⟩ := kind.half
  have hbits' : (2 : Int) ^ kind.bits = 2 * h := by exact_mod_cast hbits
  have hlt := Bytes.toNat_lt b
  rw [hlen, hbytes] at hlt
  have hmod : Decoder.integerOf kind.signed b % 2 ^ kind.bits = Bytes.toNat b := by
    simp only [Decoder.integerOf, hlen, hbytes, hbits']
    split
    · rw [← Int.add_emod_right, Int.emod_eq_of_lt (by omega) (by omega)]
      omega
    · exact Int.emod_eq_of_lt (by omega) (by omega)
  rw [Encoder.integerBytes, hmod, Int.toNat_natCast, ← hlen, Bytes.ofNat_toNat]

theorem writes_integer {kind : IntKind} {n : Int} (hleast : kind.least ≤ n)
    (hgreatest : n ≤ kind.greatest) :
    Writes (Encoder.integer kind (.int n)) (Encoder.integerBytes kind n) := by
  simp only [Encoder.integer, Encoder.checkInteger, hleast, hgreatest, and_self, if_true]
  exact .bytes _

theorem yields_integer {kind : IntKind} {n : Int} (hleast : kind.least ≤ n)
    (hgreatest : n ≤ kind.greatest) :
    Yields pad (Decoder.integer kind) (.int n) (Encoder.integerBytes kind n) := by
  have htake := Yields.takeBytes pad (Encoder.integerBytes kind n)
  rw [length_integerBytes] at htake
  refine htake.bind_nil ?_
  simp only [integerOf_integerBytes hleast hgreatest]
  exact .done _

theorem reads_integer (hE : ∀ e, E (.bytes e)) (kind : IntKind) :
    Reads E (fun v used => ∃ n, v = .int n ∧ kind.least ≤ n ∧ n ≤ kind.greatest ∧
        used = Encoder.integerBytes kind n)
      (Decoder.integer kind) pre rest := by
  refine .bind (.takeBytes hE kind.width.bytes) ?_
  rintro raw used left - ⟨rfl, hlen⟩
  obtain ⟨hleast, hgreatest⟩ := integerOf_bounds hlen
  refine .done ⟨_, rfl, hleast, hgreatest, ?_⟩
  rw [List.append_nil, integerBytes_integerOf hlen]

/-! ### Truth values and characters -/

/-- A truth value is one byte. -/
def boolByte (b : Bool) : UInt8 := if b then 1 else 0

theorem writes_bool (b : Bool) : Writes (Encoder.bool (.bool b)) [boolByte b] :=
  .byte _

theorem yields_bool (b : Bool) : Yields pad Decoder.bool (.bool b) [boolByte b] := by
  refine (Yields.takeTag pad (boolByte b)).bind_nil ?_
  cases b with
  | false => exact .done (Value.bool false)
  | true => exact .done (Value.bool true)

theorem reads_bool (hE : ∀ e, E (.bytes e)) :
    Reads E (fun v used => ∃ b, v = .bool b ∧ used = [boolByte b]) Decoder.bool pre rest := by
  refine .bind (.takeTag hE) ?_
  rintro tag used left - ⟨x, rfl, rfl⟩
  refine .guard (c := fun _ _ => decide (1 < x) = true) (fun _ => hE _) fun hx => .done ⟨x == 1, rfl, ?_⟩
  have hle : x ≤ 1 := by simpa using hx
  have hcases : x = 0 ∨ x = 1 := by
    have hnat : x.toNat ≤ 1 := UInt8.le_iff_toNat_le.mp hle
    rcases Nat.le_one_iff_eq_zero_or_eq_one.mp hnat with h | h
    · exact .inl (UInt8.toNat_inj.mp h)
    · exact .inr (UInt8.toNat_inj.mp h)
  rcases hcases with rfl | rfl <;> rfl

theorem writes_char (c : Char) :
    Writes (Encoder.char (.str (String.singleton c))) (Bytes.ofNat 4 c.toNat) := by
  simp only [Encoder.char, String.toList_singleton]
  exact .bytes _

theorem char_toNat_ofNat {n : Nat} (h : n.isValidChar) : (Char.ofNat n).toNat = n := by
  rw [Char.ofNat, dif_pos h]
  rfl

theorem char_lt (c : Char) : c.toNat < 256 ^ 4 := c.val.toNat_lt

theorem yields_char (c : Char) :
    Yields pad Decoder.char (.str (String.singleton c)) (Bytes.ofNat 4 c.toNat) := by
  have htake := Yields.takeBytes pad (Bytes.ofNat 4 c.toNat)
  rw [Bytes.length_ofNat] at htake
  refine htake.bind_nil ?_
  have hvalid : c.toNat.isValidChar := c.valid
  simp only [Bytes.toNat_ofNat (char_lt c), hvalid, if_true, Char.ofNat_toNat]
  exact .done _

theorem reads_char (hE : ∀ e, E (.bytes e)) :
    Reads E (fun v used => ∃ c, v = .str (String.singleton c) ∧ used = Bytes.ofNat 4 c.toNat)
      Decoder.char pre rest := by
  refine .bind (.takeBytes hE 4) ?_
  rintro raw used left - ⟨rfl, hlen⟩
  by_cases h : (Bytes.toNat raw).isValidChar
  · simp only [h, if_true]
    refine .done ⟨Char.ofNat (Bytes.toNat raw), rfl, ?_⟩
    rw [char_toNat_ofNat h, List.append_nil, ← hlen, Bytes.ofNat_toNat]
  · simp only [h, if_false]
    exact .fail (hE _)

/-! ### Byte strings and texts -/

/-- A byte string behind its length. -/
def countedForm (b : Bytes) : Bytes := Compact.encode b.length ++ b

theorem writes_counted {b : Bytes} (h : b.length < Compact.bound) :
    Writes (Encoder.counted b) (countedForm b) :=
  .append (Compact.writes_encodeValue h) (.bytes b)

theorem yields_compact {n : Nat} (h : n < Compact.bound) :
    Yields pad Compact.decode n (Compact.encode n) :=
  fun pre left _ => Compact.decode_encode h pre left

theorem yields_counted {b : Bytes} (h : b.length < Compact.bound) :
    Yields pad Decoder.counted (.bytes b) (countedForm b) :=
  (yields_compact h).bind (.take pad b)

theorem reads_counted (hE : ∀ e, E (.bytes e)) :
    Reads E (fun s used => ∃ b, s = .bytes b ∧ b.length < Compact.bound ∧ used = countedForm b)
      Decoder.counted pre rest := by
  refine .bind (Compact.reads_decode hE) ?_
  rintro n used left - ⟨k, rfl, hk, rfl⟩
  refine (Reads.take hE k).mono ?_
  rintro s raw left' - ⟨rfl, rfl⟩
  exact ⟨raw, rfl, hk, rfl⟩

theorem writes_bytes {b : Bytes} (h : b.length < Compact.bound) :
    Writes (Encoder.bytes (.bytes b)) (countedForm b) :=
  writes_counted h

theorem yields_bytes {b : Bytes} (h : b.length < Compact.bound) :
    Yields pad Decoder.bytes (.bytes b) (countedForm b) :=
  (yields_counted h).bind_nil (.done _)

theorem reads_bytes (hE : ∀ e, E (.bytes e)) :
    Reads E (fun v used => ∃ b, v = .bytes b ∧ b.length < Compact.bound ∧ used = countedForm b)
      Decoder.bytes pre rest := by
  refine .bind (reads_counted hE) ?_
  rintro s used left - ⟨b, rfl, hb, rfl⟩
  exact .done ⟨b, rfl, hb, by simp⟩

theorem toText_ofText (s : String) : Bytes.toText? (Bytes.ofText s) = some s := by
  have hvalid : s.toByteArray.IsValidUTF8 := s.isValidUTF8
  unfold Bytes.toText? Bytes.ofText String.fromUTF8?
  simp only [Array.toArray_toList]
  rw [dif_pos (by simpa using hvalid)]
  rfl

theorem ofText_of_toText {b : Bytes} {s : String} (h : Bytes.toText? b = some s) :
    Bytes.ofText s = b := by
  unfold Bytes.toText? String.fromUTF8? at h
  split at h
  · cases h
    simp [Bytes.ofText, String.fromUTF8]
  · cases h

theorem writes_str {s : String} (h : (Bytes.ofText s).length < Compact.bound) :
    Writes (Encoder.str (.str s)) (countedForm (Bytes.ofText s)) :=
  writes_counted h

theorem yields_str {s : String} (h : (Bytes.ofText s).length < Compact.bound) :
    Yields pad Decoder.str (.str s) (countedForm (Bytes.ofText s)) := by
  refine (yields_counted h).bind_nil ?_
  simp only [Stretch.text, Utf8.decode, toText_ofText]
  exact .done _

theorem reads_str (hE : ∀ e, E (.bytes e)) :
    Reads E (fun v used => ∃ s, v = .str s ∧ (Bytes.ofText s).length < Compact.bound ∧
        used = countedForm (Bytes.ofText s))
      Decoder.str pre rest := by
  refine .bind (reads_counted hE) ?_
  rintro s used left - ⟨b, rfl, hb, rfl⟩
  cases htext : Bytes.toText? b with
  | none =>
      simp only [Stretch.text, Utf8.decode, htext]
      exact .fail (hE _)
  | some s =>
      simp only [Stretch.text, Utf8.decode, htext]
      obtain rfl := ofText_of_toText htext
      exact .done ⟨s, rfl, hb, by simp⟩

theorem writes_fixedBytes {codec : Codec} {b : Bytes} {v : Value}
    (hv : v.byteContent? = some b) :
    Writes (Encoder.fixedBytes codec b.length v) b := by
  simp only [Encoder.fixedBytes, hv, if_true]
  exact .bytes b

theorem writes_identifier (c : Codec) {v : Value} {id : Identifier}
    (hv : v.byteContent? = some id.bytes) :
    Writes (Encoder.fixedBytes c identifierSize v) id.bytes := by
  rw [← id.size_eq]
  exact writes_fixedBytes hv

theorem yields_fixedBytes (b : Bytes) : Yields pad (Decoder.fixedBytes b.length) (.bytes b) b :=
  (Yields.take pad b).bind_nil (.done _)

theorem reads_fixedBytes (hE : ∀ e, E (.bytes e)) (length : Nat) :
    Reads E (fun v used => v = .bytes used ∧ used.length = length)
      (Decoder.fixedBytes length) pre rest := by
  refine .bind (.take hE length) ?_
  rintro s used left - ⟨rfl, hlen⟩
  exact .done ⟨by simp [Stretch.toValue], by simpa using hlen⟩

theorem yields_identifier (kind : IdentifierKind) (id : Identifier) :
    Yields pad (Decoder.identifier kind) (kind.wrap id) id.bytes := by
  have htake := Yields.take pad id.bytes
  rw [id.size_eq] at htake
  refine htake.bind_nil ?_
  have hid : Decoder.identifierOf kind (.bytes id.bytes) = .ok id := by
    simp [Decoder.identifierOf, IdentifierKind.ofBytes, Identifier.ofBytes?, id.size_eq]
  simp only [hid]
  exact .done _

theorem reads_identifier (hE : ∀ e, E (.bytes e)) (kind : IdentifierKind) :
    Reads E (fun v used => ∃ id : Identifier, v = kind.wrap id ∧ used = id.bytes)
      (Decoder.identifier kind) pre rest := by
  refine .bind (.take hE identifierSize) ?_
  rintro s used left - ⟨rfl, hlen⟩
  have hid : Decoder.identifierOf kind (.bytes used) = .ok ⟨used, hlen⟩ := by
    simp [Decoder.identifierOf, IdentifierKind.ofBytes, Identifier.ofBytes?, hlen]
  simp only [hid]
  exact .done ⟨⟨used, hlen⟩, rfl, by simp⟩

/-! ### Compact values, the unit and the language error -/

theorem writes_compact {kind? : Option IntKind} {n : Nat} (hn : n < Compact.bound)
    (hkind : ∀ kind, kind? = some kind → (n : Int) ≤ kind.greatest) :
    Writes (Encoder.compact kind? (.compact (.int n))) (Compact.encode n) := by
  have hwrites := Compact.writes_encodeValue hn
  cases kind? with
  | none => exact hwrites
  | some kind =>
      have hleast : kind.least ≤ n := Int.le_trans kind.least_le_zero (Int.natCast_nonneg n)
      simp only [Encoder.compact, Encoder.unwrapCompact, Encoder.checkInteger, hleast,
        hkind kind rfl, and_self, if_true]
      exact hwrites

theorem yields_compactValue {kind? : Option IntKind} {n : Nat} (hn : n < Compact.bound)
    (hkind : ∀ kind, kind? = some kind → (n : Int) ≤ kind.greatest) :
    Yields pad (Decoder.compact kind?) (.compact (.int n)) (Compact.encode n) := by
  refine (yields_compact hn).bind_nil ?_
  cases kind? with
  | none => exact .done _
  | some kind =>
      have hnot : ¬ kind.greatest < n := Int.not_lt.mpr (hkind kind rfl)
      simp only [hnot, if_false]
      exact .done _

theorem reads_compact (hE : ∀ e, E (.bytes e)) (kind? : Option IntKind) :
    Reads E (fun v used => ∃ n : Nat, v = .compact (.int n) ∧ n < Compact.bound ∧
        (∀ kind, kind? = some kind → (n : Int) ≤ kind.greatest) ∧ used = Compact.encode n)
      (Decoder.compact kind?) pre rest := by
  refine .bind (Compact.reads_decode hE) ?_
  rintro n used left - ⟨k, rfl, hk, rfl⟩
  cases kind? with
  | none => exact .done ⟨k, rfl, hk, by simp, by simp⟩
  | some kind =>
      refine .guard (fun _ => hE _) fun h => .done ⟨k, rfl, hk, ?_, by simp⟩
      rintro _ ⟨⟩
      exact Int.not_lt.mp h

theorem yields_chosen {α : Type} {index : α → UInt8} {alternatives : List α} {owner : String}
    {a : α} (h : alternatives.find? (index · = index a) = some a) :
    Yields pad (Decoder.chosen index alternatives owner) a [index a] := by
  refine (Yields.takeTag pad (index a)).bind_nil ?_
  have heq : (fun b => (Tag.byte (index a)).is (index b)) = fun b => decide (index b = index a) :=
    funext fun b => by rw [Tag.is, BEq.comm, Bool.beq_eq_decide_eq]
  simp only [Tag.isHashable, heq, h]
  exact .done _

theorem reads_chosen {α : Type} (hE : ∀ e, E (.bytes e)) (index : α → UInt8)
    (alternatives : List α) (owner : String) :
    Reads E (fun a used => a ∈ alternatives ∧ used = [index a])
      (Decoder.chosen index alternatives owner) pre rest := by
  refine .bind (.takeTag hE) ?_
  rintro tag used left - ⟨x, rfl, rfl⟩
  cases hfind : alternatives.find? (fun a => (Tag.byte x).is (index a)) with
  | none =>
      simp only [Tag.isHashable, hfind]
      exact .fail (hE _)
  | some a =>
      simp only [Tag.isHashable, hfind]
      have hx : x = index a := by simpa [Tag.is] using List.find?_some hfind
      exact .done ⟨List.mem_of_find?_eq_some hfind, by simp [hx]⟩

theorem writes_langError : Writes (Encoder.langError .langError) [langErrorIndex] :=
  .byte _

theorem yields_langErrorOf (wrap : Value) :
    Yields pad (Decoder.langErrorOf wrap) wrap [langErrorIndex] := by
  have hchosen : Yields pad (Decoder.chosen id [langErrorIndex] Value.langErrorName) langErrorIndex
      [langErrorIndex] := yields_chosen rfl
  exact hchosen.bind_nil (.done _)

theorem reads_langErrorOf (hE : ∀ e, E (.bytes e)) (wrap : Value) :
    Reads E (fun v used => v = wrap ∧ used = [langErrorIndex]) (Decoder.langErrorOf wrap)
      pre rest := by
  refine .bind (reads_chosen hE id [langErrorIndex] _) ?_
  rintro x used left - ⟨hx, rfl⟩
  exact .done ⟨rfl, by simpa using hx⟩

end InkBindings.Scale
