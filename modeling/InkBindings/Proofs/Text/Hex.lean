import InkBindings.Metadata.Reading
import Mathlib.Data.List.Basic

/-!
Texts that are read as bytes in hexadecimal. They have two digits for each byte, in either case, and
blanks around these; bytes that are written are read back. Where nothing but digits is wanted, a
text with blanks is accepted all the same if it has an even number of them.
-/

namespace InkBindings.Hex

/-- A digit, which may be of either case. -/
def IsDigit (c : Char) : Prop :=
  '0' ≤ c ∧ c ≤ '9' ∨ 'a' ≤ c ∧ c ≤ 'f' ∨ 'A' ≤ c ∧ c ≤ 'F'

instance (c : Char) : Decidable (IsDigit c) :=
  inferInstanceAs (Decidable ('0' ≤ c ∧ c ≤ '9' ∨ 'a' ≤ c ∧ c ≤ 'f' ∨ 'A' ≤ c ∧ c ≤ 'F'))

/-- Two digits for each of the bytes, with blanks before, between and behind them. -/
inductive Spaced : List Char → Bytes → Prop
  | nil : Spaced [] []
  | blank {c rest b} : isBlank c = true → Spaced rest b → Spaced (c :: rest) b
  | byte {c d x rest b} : [c, d].map Char.toLower = encodeByte x → Spaced rest b →
      Spaced (c :: d :: rest) (x :: b)

/-- The value is the text, or the text behind a mark. -/
def Marked (value : String) (text : List Char) : Prop :=
  value.toList = text ∨ value.toList = '0' :: 'x' :: text ∨ value.toList = '0' :: 'X' :: text

/-! ### Digits -/

theorem toLower_of_not_ascii {c : Char} (hc : ¬ c.toNat < 128) : c.toLower = c := by
  have hupper : ¬ (c.val ≥ 'A'.val ∧ c.val ≤ 'Z'.val) := by
    rintro ⟨-, h⟩
    have hle : c.toNat ≤ 90 := h
    omega
  exact dif_neg hupper

theorem digit?_of_not_ascii {c : Char} (hc : ¬ c.toNat < 128) : digit? c = none := by
  have hnot {d : Char} (hd : d.toNat < 128) : ¬ c ≤ d := by
    intro h
    have hle : c.toNat ≤ d.toNat := h
    omega
  rw [digit?, if_neg fun h => hnot (by decide) h.2, if_neg fun h => hnot (by decide) h.2,
    if_neg fun h => hnot (by decide) h.2]

theorem digit_readable : ∀ n < 16,
    digit? (digit n) = some n ∧ isBlank (digit n) = false ∧ (digit n).toNat < 128 := by
  decide

/-- The ASCII characters are looked at one by one. -/
theorem ascii_digit : ∀ k < 128,
    (∀ n < 16, digit? (Char.ofNat k) = some n ↔ (Char.ofNat k).toLower = digit n) ∧
      ∀ n ∈ digit? (Char.ofNat k),
        n < 16 ∧ IsDigit (Char.ofNat k) ∧ isBlank (Char.ofNat k) = false := by
  decide +kernel

/-- A digit has its value in either case. -/
theorem digit?_eq_some_iff {c : Char} {n : Nat} (hn : n < 16) :
    digit? c = some n ↔ c.toLower = digit n := by
  by_cases hc : c.toNat < 128
  · rw [← Char.ofNat_toNat c]
    exact (ascii_digit c.toNat hc).1 n hn
  · rw [digit?_of_not_ascii hc, toLower_of_not_ascii hc]
    refine ⟨nofun, ?_⟩
    rintro rfl
    exact absurd (digit_readable n hn).2.2 hc

structure ReadsDigit (c : Char) (n : Nat) : Prop where
  lt : n < 16
  isDigit : IsDigit c
  notBlank : isBlank c = false
  ascii : c.toNat < 128

theorem readsDigit_of_digit? {c : Char} {n : Nat} (h : digit? c = some n) : ReadsDigit c n := by
  have hascii : c.toNat < 128 := by
    by_contra hc
    rw [digit?_of_not_ascii hc] at h
    cases h
  have hc := (ascii_digit c.toNat hascii).2 n
  rw [Char.ofNat_toNat] at hc
  obtain ⟨hn, hdigit, hblank⟩ := hc h
  exact ⟨hn, hdigit, hblank, hascii⟩

theorem digit?_of_isDigit {c : Char} (h : IsDigit c) : ∃ n, digit? c = some n := by
  rw [digit?]
  split
  · exact ⟨_, rfl⟩
  · next hdecimal =>
      split
      · exact ⟨_, rfl⟩
      · next hlower =>
          rw [if_pos ((h.resolve_left hdecimal).resolve_left hlower)]
          exact ⟨_, rfl⟩

theorem notBlank_of_isDigit {c : Char} (h : IsDigit c) : isBlank c = false := by
  obtain ⟨n, hn⟩ := digit?_of_isDigit h
  exact (readsDigit_of_digit? hn).notBlank

theorem ascii_of_isBlank {c : Char} (h : isBlank c = true) : c.toNat < 128 := by
  simp only [isBlank, Bool.or_eq_true, beq_iff_eq, Bool.and_eq_true, decide_eq_true_eq] at h
  obtain rfl | h := h
  · decide
  · omega

/-! ### Bytes -/

theorem encodeByte_ofNat {high low : Nat} (hhigh : high < 16) (hlow : low < 16) :
    encodeByte (UInt8.ofNat (16 * high + low)) = [digit high, digit low] := by
  have hvalue : (UInt8.ofNat (16 * high + low)).toNat = 16 * high + low := by
    rw [UInt8.toNat_ofNat']
    omega
  have hhalves : (16 * high + low) / 16 = high ∧ (16 * high + low) % 16 = low := by omega
  rw [encodeByte, hvalue, hhalves.1, hhalves.2]

/-- Two digits are of the byte that has their values for its halves. -/
theorem map_toLower_eq_iff {c d : Char} {x : UInt8} : [c, d].map Char.toLower = encodeByte x ↔
    ∃ high low, digit? c = some high ∧ digit? d = some low ∧
      x = UInt8.ofNat (16 * high + low) := by
  have hx : x.toNat < 256 := x.toNat_lt
  constructor
  · intro h
    obtain ⟨hhigh, hlow⟩ : c.toLower = digit (x.toNat / 16) ∧ d.toLower = digit (x.toNat % 16) := by
      simpa [encodeByte] using h
    refine ⟨_, _, (digit?_eq_some_iff (by omega)).mpr hhigh,
      (digit?_eq_some_iff (by omega)).mpr hlow, ?_⟩
    rw [Nat.div_add_mod]
    exact UInt8.ofNat_toNat.symm
  · rintro ⟨high, low, hhigh, hlow, rfl⟩
    have hc := (readsDigit_of_digit? hhigh).lt
    have hd := (readsDigit_of_digit? hlow).lt
    rw [encodeByte_ofNat hc hd, List.map_cons, List.map_cons, List.map_nil,
      (digit?_eq_some_iff hc).mp hhigh, (digit?_eq_some_iff hd).mp hlow]

theorem encodeChars_cons (x : UInt8) (b : Bytes) :
    encodeChars (x :: b) = encodeByte x ++ encodeChars b :=
  List.flatMap_cons

theorem length_encodeChars (b : Bytes) : (encodeChars b).length = 2 * b.length := by
  induction b with
  | nil => rfl
  | cons x rest ih =>
      rw [encodeChars_cons, List.length_append, ih]
      simp only [encodeByte, List.length_cons, List.length_nil]
      omega

theorem map_toLower_encodeChars (b : Bytes) : (encodeChars b).map Char.toLower = encodeChars b := by
  have hdigit : ∀ n < 16, (digit n).toLower = digit n := by decide
  refine (List.map_congr_left fun c hc => ?_).trans (List.map_id _)
  obtain ⟨x, -, hc⟩ := List.mem_flatMap.mp hc
  have hx : x.toNat < 256 := x.toNat_lt
  simp only [encodeByte, List.mem_cons, List.not_mem_nil, or_false] at hc
  obtain rfl | rfl := hc
  · exact hdigit _ (by omega)
  · exact hdigit _ (by omega)

/-! ### Blanks and digits -/

theorem spaced_blank_iff {c : Char} {rest : List Char} {b : Bytes} (hc : isBlank c = true) :
    Spaced (c :: rest) b ↔ Spaced rest b := by
  refine ⟨fun h => ?_, .blank hc⟩
  cases h with
  | blank _ hrest => exact hrest
  | byte hbyte _ =>
      obtain ⟨high, -, hhigh, -⟩ := map_toLower_eq_iff.mp hbyte
      rw [(readsDigit_of_digit? hhigh).notBlank] at hc
      cases hc

theorem spaced_byte_iff {c d : Char} {rest : List Char} {b : Bytes} (hc : isBlank c = false) :
    Spaced (c :: d :: rest) b ↔ ∃ high low b', digit? c = some high ∧ digit? d = some low ∧
      Spaced rest b' ∧ b = UInt8.ofNat (16 * high + low) :: b' := by
  constructor
  · intro h
    cases h with
    | blank hblank _ =>
        rw [hc] at hblank
        cases hblank
    | byte hbyte hrest =>
        obtain ⟨high, low, hhigh, hlow, rfl⟩ := map_toLower_eq_iff.mp hbyte
        exact ⟨high, low, _, hhigh, hlow, hrest, rfl⟩
  · rintro ⟨high, low, b', hhigh, hlow, hrest, rfl⟩
    exact .byte (map_toLower_eq_iff.mpr ⟨high, low, hhigh, hlow, rfl⟩) hrest

theorem Spaced.ascii {text : List Char} {b : Bytes} (h : Spaced text b) :
    ∀ c ∈ text, c.toNat < 128 := by
  induction h with
  | nil => nofun
  | blank hc _ ih => exact List.forall_mem_cons.mpr ⟨ascii_of_isBlank hc, ih⟩
  | byte hbyte _ ih =>
      obtain ⟨high, low, hhigh, hlow, -⟩ := map_toLower_eq_iff.mp hbyte
      exact List.forall_mem_cons.mpr ⟨(readsDigit_of_digit? hhigh).ascii,
        List.forall_mem_cons.mpr ⟨(readsDigit_of_digit? hlow).ascii, ih⟩⟩

theorem spaced_nil_iff {b : Bytes} : Spaced [] b ↔ b = [] := by
  refine ⟨fun h => ?_, fun h => h ▸ .nil⟩
  cases h
  rfl

theorem not_spaced_single {c : Char} {b : Bytes} (hc : ¬ isBlank c = true) : ¬ Spaced [c] b := by
  intro h
  cases h with
  | blank hblank _ => exact hc hblank

theorem decodeChars_eq_ok_iff {position : Nat} {text : List Char} {b : Bytes} :
    decodeChars position text = .ok b ↔ Spaced text b := by
  fun_induction decodeChars position text generalizing b with
  | case1 position => rw [spaced_nil_iff, Except.ok.injEq, eq_comm]
  | case2 position c hc => rw [spaced_blank_iff hc, spaced_nil_iff, Except.ok.injEq, eq_comm]
  | case3 position c hc _ | case4 position c hc _ =>
      exact iff_of_false nofun (not_spaced_single hc)
  | case5 position c d rest hc ih => rw [spaced_blank_iff hc, ih]
  | case6 position c d rest hc hhigh =>
      rw [spaced_byte_iff (by simpa using hc)]
      simp [hhigh]
  | case7 position c d rest hc high hhigh hlow =>
      rw [spaced_byte_iff (by simpa using hc)]
      simp [hlow]
  | case8 position c d rest hc high hhigh low hlow ih =>
      rw [spaced_byte_iff (by simpa using hc)]
      simp only [hhigh, hlow, ← ih]
      cases hrest : decodeChars (position + 2) rest with
      | error place => simp [Except.map]
      | ok rest' => simp [Except.map, eq_comm]

theorem decode_eq_ok_iff {s : String} {b : Bytes} : decode s = .ok b ↔ Spaced s.toList b := by
  rw [decode]
  split
  · next position hposition =>
      refine iff_of_false nofun fun h => ?_
      obtain ⟨hlt, hout, -⟩ := List.findIdx?_eq_some_iff_getElem.mp hposition
      have hascii := h.ascii _ (List.getElem_mem hlt)
      have hnot : 128 ≤ s.toList[position].toNat := by simpa using hout
      omega
  · exact decodeChars_eq_ok_iff

/-! ### Digits only -/

/-- Digits of bytes, in whichever case, are read as these bytes. -/
theorem spaced_of_map_toLower {text : List Char} {b : Bytes}
    (h : text.map Char.toLower = encodeChars b) : Spaced text b := by
  induction b generalizing text with
  | nil =>
      rw [List.map_eq_nil_iff.mp h]
      exact .nil
  | cons x b ih =>
      rw [encodeChars_cons] at h
      obtain ⟨first, rest, rfl, hfirst, hrest⟩ := List.map_eq_append_iff.mp h
      have hlength : first.length = 2 := by
        rw [← List.length_map Char.toLower, hfirst]
        rfl
      obtain ⟨c, d, rfl⟩ := List.length_eq_two.mp hlength
      exact .byte hfirst (ih hrest)

theorem spaced_encodeChars (b : Bytes) : Spaced (encodeChars b) b :=
  spaced_of_map_toLower (map_toLower_encodeChars b)

theorem map_toLower_of_spaced {text : List Char} {b : Bytes} (h : Spaced text b)
    (hblank : ∀ c ∈ text, isBlank c = false) :
    text.map Char.toLower = encodeChars b ∧ ∀ c ∈ text, IsDigit c := by
  induction h with
  | nil => exact ⟨rfl, nofun⟩
  | @blank c rest b hc _ _ =>
      rw [hblank c List.mem_cons_self] at hc
      cases hc
  | @byte c d x rest b hbyte _ ih =>
      obtain ⟨hrest, hdigits⟩ := ih fun e he =>
        hblank e (List.mem_cons_of_mem _ (List.mem_cons_of_mem _ he))
      obtain ⟨high, low, hhigh, hlow, -⟩ := map_toLower_eq_iff.mp hbyte
      refine ⟨?_, List.forall_mem_cons.mpr ⟨(readsDigit_of_digit? hhigh).isDigit,
        List.forall_mem_cons.mpr ⟨(readsDigit_of_digit? hlow).isDigit, hdigits⟩⟩⟩
      rw [encodeChars_cons, ← hbyte, ← hrest]
      rfl

theorem exists_of_digits : ∀ {text : List Char}, (∀ c ∈ text, IsDigit c) → text.length % 2 = 0 →
    ∃ b, text.map Char.toLower = encodeChars b
  | [], _, _ => ⟨[], rfl⟩
  | [_], _, heven => absurd heven (by simp)
  | c :: d :: rest, hdigits, heven => by
      obtain ⟨hc, hd, hrest⟩ : IsDigit c ∧ IsDigit d ∧ ∀ e ∈ rest, IsDigit e := by
        simpa only [List.forall_mem_cons] using hdigits
      obtain ⟨b, hb⟩ := exists_of_digits hrest (by simp only [List.length_cons] at heven; omega)
      obtain ⟨high, hhigh⟩ := digit?_of_isDigit hc
      obtain ⟨low, hlow⟩ := digit?_of_isDigit hd
      have hbyte := map_toLower_eq_iff.mpr ⟨high, low, hhigh, hlow, rfl⟩
      refine ⟨UInt8.ofNat (16 * high + low) :: b, ?_⟩
      rw [encodeChars_cons, ← hbyte, ← hb]
      rfl

/-! ### The mark -/

theorem Marked.mem {value : String} {text : List Char} (h : Marked value text) {c : Char}
    (hc : c ∈ text) : c ∈ value.toList := by
  obtain hvalue | hvalue | hvalue := h <;> simp [hvalue, hc]

theorem Marked.notBlank {value : String} {text : List Char} (h : Marked value text)
    (htext : ∀ c ∈ text, isBlank c = false) : ∀ c ∈ value.toList, isBlank c = false := by
  obtain hvalue | hvalue | hvalue := h
  · rwa [hvalue]
  · rw [hvalue, List.forall_mem_cons, List.forall_mem_cons]
    exact ⟨by decide, by decide, htext⟩
  · rw [hvalue, List.forall_mem_cons, List.forall_mem_cons]
    exact ⟨by decide, by decide, htext⟩

theorem marked_stripMark (value : String) : Marked value (stripMark value).toList := by
  rw [stripMark]
  split
  · next rest hvalue => exact .inr (.inl (by rw [hvalue, String.toList_ofList]))
  · next rest hvalue => exact .inr (.inr (by rw [hvalue, String.toList_ofList]))
  · exact .inl rfl

/-- Bytes that are written have a mark in front. -/
theorem marked_encode (b : Bytes) : Marked ("0x" ++ encode b) (encodeChars b) := by
  refine .inr (.inl ?_)
  simp only [encode, String.toList_append, String.toList_ofList]
  rfl

theorem not_spaced_mark {c : Char} {rest : List Char} {b : Bytes} (hc : c.toLower = 'x') :
    ¬ Spaced ('0' :: c :: rest) b := by
  intro h
  obtain ⟨high, low, b', -, hlow, -, -⟩ := (spaced_byte_iff (by decide)).mp h
  have hlt := (readsDigit_of_digit? hlow).lt
  rw [digit?_eq_some_iff hlt, hc] at hlow
  have hnot : ∀ n < 16, 'x' ≠ digit n := by decide
  exact hnot low hlt hlow

/-- The mark of what is read is never taken for a part of it. -/
theorem stripMark_of_spaced {value : String} {text : List Char} {b : Bytes}
    (hmarked : Marked value text) (h : Spaced text b) : (stripMark value).toList = text := by
  rw [stripMark]
  obtain hvalue | hvalue | hvalue := hmarked
  · split
    · next rest hmark =>
        rw [← hvalue, hmark] at h
        exact absurd h (not_spaced_mark rfl)
    · next rest hmark =>
        rw [← hvalue, hmark] at h
        exact absurd h (not_spaced_mark rfl)
    · exact hvalue
  · simp only [hvalue, String.toList_ofList]
  · simp only [hvalue, String.toList_ofList]

end InkBindings.Hex

namespace InkBindings.Metadata

open Hex (Marked Spaced IsDigit isBlank encodeChars)

variable {field value : String} {length : Option Int} {b : Bytes}

/-- Bytes are read of a text that spells them, if it has an even number of characters. -/
theorem readHex_eq_ok_iff : readHex field length value = .ok b ↔
    ∃ text, Marked value text ∧ Spaced text b ∧ text.length % 2 = 0 ∧
      ∀ n ∈ length, n = b.length := by
  have hlength (b : Bytes) : length.all (· = (b.length : Int)) = true ↔
      ∀ n ∈ length, n = b.length := by
    cases length <;> simp
  constructor
  · intro h
    simp only [readHex] at h
    split at h
    · cases h
    · next heven =>
        split at h
        · cases h
        · next b' hdecode =>
            split at h
            · next hfits =>
                cases h
                refine ⟨_, Hex.marked_stripMark value, Hex.decode_eq_ok_iff.mp hdecode, ?_,
                  (hlength b).mp hfits⟩
                rw [String.length_toList]
                omega
            · cases h
  · rintro ⟨text, hmarked, hspaced, heven, hfits⟩
    have htext := Hex.stripMark_of_spaced hmarked hspaced
    have hdecode : Hex.decode (Hex.stripMark value) = .ok b :=
      Hex.decode_eq_ok_iff.mpr (htext ▸ hspaced)
    have heven' : (Hex.stripMark value).length % 2 = 0 := by
      rw [← String.length_toList, htext]
      exact heven
    simp only [readHex, heven', hdecode, (hlength b).mpr hfits]
    rfl

theorem readHex_error {e : MetadataError} (h : readHex field length value = .error e) :
    e = .invalidHex field value length := by
  simp only [readHex] at h
  split at h
  · cases h
    rfl
  · split at h
    · cases h
      rfl
    · split at h
      · cases h
      · cases h
        rfl

/-- Bytes are read of all their spellings in digits, with a mark or without one. -/
theorem readHex_spelled {digits : List Char} (hmarked : Marked value digits)
    (hdigits : digits.map Char.toLower = encodeChars b) (hlength : ∀ n ∈ length, n = b.length) :
    readHex field length value = .ok b := by
  refine readHex_eq_ok_iff.mpr ⟨digits, hmarked, Hex.spaced_of_map_toLower hdigits, ?_, hlength⟩
  rw [← List.length_map Char.toLower, hdigits, Hex.length_encodeChars]
  omega

theorem readHex_written (field : String) {b : Bytes} {length : Nat} (h : b.length = length) :
    readHex field (some length) ("0x" ++ Hex.encode b) = .ok b := by
  refine readHex_spelled (Hex.marked_encode b) (Hex.map_toLower_encodeChars b) ?_
  rintro n ⟨⟩
  rw [h]

theorem length_of_readHex {field value : String} {length : Nat} {b : Bytes}
    (h : readHex field (some length) value = .ok b) : b.length = length := by
  obtain ⟨-, -, -, -, hlength⟩ := readHex_eq_ok_iff.mp h
  exact Int.ofNat.inj (hlength length rfl).symm

/-! ### What is accepted -/

/-- The value consists of digits behind a mark or without one, two for each byte, and as many as
the length asks for. -/
structure Spells (length : Option Int) (value : String) (digits : List Char) : Prop where
  marked : Marked value digits
  isDigit : ∀ c ∈ digits, IsDigit c
  even : digits.length % 2 = 0
  fits : ∀ n ∈ length, (digits.length : Int) = 2 * n

/-- Just the values that spell bytes are accepted, as the bytes that are written with the same
digits in lower case. -/
def AcceptsDigitsOnly (field : String) (length : Option Int) (value : String) : Prop :=
  (∀ digits, Spells length value digits →
      ∃ b, readHex field length value = .ok b ∧ encodeChars b = digits.map Char.toLower) ∧
    ((¬ ∃ digits, Spells length value digits) →
      readHex field length value = .error (.invalidHex field value length))

theorem exists_readHex {digits : List Char} (h : Spells length value digits) :
    ∃ b, readHex field length value = .ok b ∧ encodeChars b = digits.map Char.toLower := by
  obtain ⟨b, hb⟩ := Hex.exists_of_digits h.isDigit h.even
  refine ⟨b, readHex_spelled h.marked hb fun n hn => ?_, hb.symm⟩
  have hlength := congrArg List.length hb
  rw [List.length_map, Hex.length_encodeChars] at hlength
  have hfits := h.fits n hn
  omega

theorem spells_of_readHex (h : readHex field length value = .ok b)
    (hblank : ∀ c ∈ value.toList, isBlank c = false) : ∃ digits, Spells length value digits := by
  obtain ⟨text, hmarked, hspaced, heven, hfits⟩ := readHex_eq_ok_iff.mp h
  obtain ⟨hlower, hdigit⟩ :=
    Hex.map_toLower_of_spaced hspaced fun c hc => hblank c (hmarked.mem hc)
  refine ⟨text, hmarked, hdigit, heven, fun n hn => ?_⟩
  have hlength := congrArg List.length hlower
  rw [List.length_map, Hex.length_encodeChars] at hlength
  rw [hfits n hn]
  omega

theorem acceptsDigitsOnly_iff : AcceptsDigitsOnly field length value ↔
    ∀ b, readHex field length value = .ok b → ∀ c ∈ value.toList, isBlank c = false := by
  constructor
  · rintro ⟨-, hrefuses⟩ b hb
    by_cases hspells : ∃ digits, Spells length value digits
    · obtain ⟨digits, h⟩ := hspells
      exact h.marked.notBlank fun c hc => Hex.notBlank_of_isDigit (h.isDigit c hc)
    · rw [hrefuses hspells] at hb
      cases hb
  · refine fun hblank => ⟨fun digits => exists_readHex, fun hspells => ?_⟩
    cases hread : readHex field length value with
    | ok b => exact absurd (spells_of_readHex hread (hblank b hread)) hspells
    | error e => rw [readHex_error hread]

/-- Bytes are read of their spellings with blanks between the bytes, if they have an even number of
characters, and any other value is refused. So a value is accepted just if it spells bytes, unless
it is accepted with blanks; all spellings of bytes in digits are read as these. -/
theorem readHex_accepts (field : String) (length : Option Int) (value : String) :
    (∀ b, readHex field length value = .ok b ↔ ∃ text, Marked value text ∧ Spaced text b ∧
      text.length % 2 = 0 ∧ ∀ n ∈ length, n = b.length) ∧
    (∀ e, readHex field length value = .error e → e = .invalidHex field value length) ∧
    (AcceptsDigitsOnly field length value ↔
      ∀ b, readHex field length value = .ok b → ∀ c ∈ value.toList, isBlank c = false) ∧
    ∀ b digits, Marked value digits → digits.map Char.toLower = encodeChars b →
      (∀ n ∈ length, n = b.length) → readHex field length value = .ok b :=
  ⟨fun _ => readHex_eq_ok_iff, fun _ => readHex_error, acceptsDigitsOnly_iff,
    fun _ _ => readHex_spelled⟩

theorem not_acceptsDigitsOnly_spaced : ¬ AcceptsDigitsOnly "f" none "12  34" := by
  intro h
  have hblank := acceptsDigitsOnly_iff.mp h [0x12, 0x34] rfl ' ' (by decide)
  cases hblank

end InkBindings.Metadata
