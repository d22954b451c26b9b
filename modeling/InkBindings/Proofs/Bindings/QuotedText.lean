import InkBindings.Proofs.Bindings.Literals
import InkBindings.Proofs.Text.Hex
import InkBindings.Text.Quoted

/-!
Text that is quoted for the emitted module. Each character of it is escaped or stands for itself, so
that the literal ends at its last quote.
-/

namespace InkBindings.Bindings

open Text (commonEscape? escapeChar isPrintable paddedHex quoteMark quote)

/-! ### Numbers in hexadecimal -/

theorem exists_digit_of_toDigits {base : Nat} (hbase : 0 < base) {n : Nat} {c : Char}
    (h : c ∈ Nat.toDigits base n) : ∃ d < base, c = d.digitChar := by
  have hcore : ∀ fuel n (acc : List Char), c ∈ Nat.toDigitsCore base fuel n acc →
      c ∈ acc ∨ ∃ d < base, c = d.digitChar := by
    intro fuel
    induction fuel with
    | zero => exact fun n acc hc => .inl hc
    | succ fuel ih =>
        intro n acc hc
        have hacc (hc : c ∈ (n % base).digitChar :: acc) :
            c ∈ acc ∨ ∃ d < base, c = d.digitChar := by
          obtain rfl | hc := List.mem_cons.mp hc
          · exact .inr ⟨_, Nat.mod_lt n hbase, rfl⟩
          · exact .inl hc
        rw [Nat.toDigitsCore] at hc
        split at hc
        · exact hacc hc
        · exact (ih _ _ hc).elim hacc .inr
  exact (hcore _ _ _ h).resolve_left List.not_mem_nil

theorem isPlainChar_of_paddedHex {width n : Nat} {c : Char} (h : c ∈ paddedHex width n) :
    isPlainChar c = true := by
  have hdigit : ∀ d < 16, isPlainChar d.digitChar = true := by decide
  obtain h | h := List.mem_append.mp h
  · rw [List.eq_of_mem_replicate h]
    rfl
  · obtain ⟨d, hd, rfl⟩ := exists_digit_of_toDigits (by decide) h
    exact hdigit d hd

theorem isPlain_encode (b : Bytes) : IsPlain (Hex.encode b) := by
  have hdigit : ∀ n < 16, isPlainChar (Hex.digit n) = true := by decide
  intro c hc
  rw [Hex.encode, String.toList_ofList] at hc
  obtain ⟨x, -, hc⟩ := List.mem_flatMap.mp hc
  have hx : x.toNat < 256 := x.toNat_lt
  simp only [Hex.encodeByte, List.mem_cons, List.not_mem_nil, or_false] at hc
  obtain rfl | rfl := hc
  · exact hdigit _ (by omega)
  · exact hdigit _ (by omega)

/-! ### Escapes -/

theorem exists_quoteMark (cs : List Char) : ∃ mark : Mark, quoteMark cs = mark.char := by
  rw [quoteMark]
  split
  · exact ⟨.double, rfl⟩
  · exact ⟨.single, rfl⟩

theorem read_plainChars (mark : Mark) {cs : List Char} (h : ∀ c ∈ cs, isPlainChar c = true) :
    (Mode.short mark).read cs = ([], .short mark) := by
  have hread := IsPlain.read_short (s := String.ofList cs) (by simpa [IsPlain] using h) mark
  rwa [String.toList_ofList] at hread

/-- An escape by number keeps to the literal. -/
theorem read_numbered (mark : Mark) {first : Char} (hfirst : isPlainChar first = true)
    (width n : Nat) :
    (Mode.short mark).read (['\\', first] ++ paddedHex width n) = ([], .short mark) := by
  have hplain := plainChar_iff.mp hfirst
  have hslash : (Mode.short mark).step '\\' = ([], .shortEscape mark) := by cases mark <;> rfl
  have hreturn : first ≠ '\r' := by
    rintro rfl
    cases hplain.lineEnd
  have hstep : (Mode.shortEscape mark).step first = ([], .short mark) := by
    simp only [Mode.step, hplain.nonnull, hreturn, if_false]
  have hdigits := read_plainChars mark fun c (hc : c ∈ paddedHex width n) =>
    isPlainChar_of_paddedHex hc
  rw [List.cons_append, List.singleton_append, Mode.read_cons, hslash, Mode.read_cons, hstep,
    hdigits]
  rfl

theorem read_commonEscape {mark : Mark} {c : Char} {escaped : List Char}
    (h : commonEscape? mark.char c = some escaped) :
    (Mode.short mark).read escaped = ([], .short mark) := by
  simp only [commonEscape?, Bool.or_eq_true, decide_eq_true_eq] at h
  split_ifs at h with hself
  · cases h
    obtain rfl | rfl := hself <;> cases mark <;> rfl
  all_goals
    cases h
    cases mark <;> rfl

/-- What is printable and needs no escape stands for itself in the literal. -/
theorem read_printable {mark : Mark} {c : Char} (h : commonEscape? mark.char c = none)
    (hprintable : isPrintable c = true) : (Mode.short mark).read [c] = ([], .short mark) := by
  simp only [commonEscape?, Bool.or_eq_true, decide_eq_true_eq] at h
  split_ifs at h with hself hline hreturn htab
  obtain ⟨hmark, hslash⟩ := not_or.mp hself
  have hnull : c.toNat ≠ 0 := by
    intro hnull
    simp [isPrintable, hnull] at hprintable
  simp [Mode.read, Mode.step, hnull, Mode.inShort, hmark, hslash, Mode.isLineEnd, hline, hreturn]

/-- What a character is written as keeps to the literal. -/
theorem read_escapeChar (mark : Mark) (c : Char) :
    (Mode.short mark).read (escapeChar mark.char c) = ([], .short mark) := by
  rw [escapeChar]
  split
  · next escaped hescape => exact read_commonEscape hescape
  · next hescape =>
      split_ifs with hprintable
      · exact read_printable hescape hprintable
      · exact read_numbered mark rfl _ _
      · exact read_numbered mark rfl _ _
      · exact read_numbered mark rfl _ _

theorem isComplete_quote {s t : String} (ht : IsPlain t) (hne : t ≠ "") :
    IsComplete (quote s ++ t) := by
  obtain ⟨mark, hmark⟩ := exists_quoteMark s.toList
  have hcontent : ∀ cs : List Char,
      (Mode.short mark).read (cs.flatMap (escapeChar mark.char)) = ([], .short mark) := by
    intro cs
    induction cs with
    | nil => rfl
    | cons c rest ih =>
        rw [List.flatMap_cons, Mode.read_append, read_escapeChar, ih]
        rfl
  have hchars : (quote s ++ t).toList =
      mark.char :: (s.toList.flatMap (escapeChar mark.char) ++ mark.char :: t.toList) := by
    simp [quote, Text.quoteChars, hmark]
  rw [IsComplete, tokens, hchars,
    read_short (hcontent _) ht (.inr (mt String.toList_eq_nil_iff.mp hne))]

end InkBindings.Bindings
