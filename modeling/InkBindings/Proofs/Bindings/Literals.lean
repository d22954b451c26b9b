import InkBindings.Bindings.Docstring
import InkBindings.Proofs.Bindings.Lexing

/-!
The literals of the emitted module: documentation, which is escaped, and texts that are put between
quotes as they are.
-/

namespace InkBindings.Bindings

/-! ### Texts in three quotes -/

/-- In a literal in three double quotes. -/
inductive Mode.IsInner : Mode → Prop
  | long (marks : Nat) : IsInner (.long .double marks)
  | escape : IsInner (.longEscape .double)

namespace Mode
variable {m : Mode} {cs : List Char}

theorem step_inner (h : m.IsInner) {c : Char} (hc : (m.step c).1 = []) :
    (m.step c).2.IsInner ∨ (m.step c).2 = broken := by
  by_cases hnull : c.toNat = 0
  · simp [step, hnull]
  cases h with
  | long marks =>
      simp only [step, hnull, if_false, inLong] at hc ⊢
      split_ifs at hc ⊢
      · exact .inl (.long _)
      · exact .inl .escape
      · exact .inl (.long _)
  | escape =>
      simp only [step, hnull, if_false]
      exact .inl (.long 0)

/-- What leaves nothing closes nothing. -/
theorem read_inner (h : m.IsInner) (hcs : (m.read cs).1 = []) :
    (m.read cs).2.IsInner ∨ (m.read cs).2 = broken := by
  induction cs generalizing m with
  | nil => exact .inl h
  | cons c rest ih =>
      rw [read_cons, List.append_eq_nil_iff] at hcs
      rw [read_cons]
      rcases step_inner h hcs.1 with hinner | hbroken
      · exact ih hinner hcs.2
      · rw [hbroken, read_broken]
        exact .inr rfl

end Mode

/-- The text can stand in a literal in three quotes: it does not close it. -/
def IsEnclosed (s : String) : Prop :=
  ((Mode.long .double 0).read s.toList).1 = [] ∧ ((Mode.long .double 0).read s.toList).2 ≠ .broken

/-- The text can stand in a literal in three quotes, and can be followed by these. -/
def IsContent (s : String) : Prop :=
  (Mode.long .double 0).read s.toList = ([], .long .double 0)

theorem IsContent.append {s t : String} (hs : IsContent s) (ht : IsContent t) :
    IsContent (s ++ t) := by
  rw [IsContent, String.toList_append, Mode.read_append, hs, ht]
  rfl

theorem IsPlain.isContent {s : String} (h : IsPlain s) : IsContent s := by
  rw [IsPlain] at h
  rw [IsContent]
  revert h
  induction s.toList with
  | nil => exact fun _ => rfl
  | cons c rest ih =>
      intro h
      obtain ⟨hc, hrest⟩ := List.forall_mem_cons.mp h
      have hstep : (Mode.long .double 0).step c = ([], .long .double 0) := by
        have hc := plainChar_iff.mp hc
        simp only [Mode.step, hc.nonnull, if_false, Mode.inLong, hc.ne_mark, hc.backslash]
      rw [Mode.read_cons, hstep, ih hrest]
      rfl

/-- Between other characters it does not matter how the text ends. -/
theorem IsEnclosed.isContent {s : String} (h : IsEnclosed s) : IsContent ("``" ++ s ++ "``") := by
  have hinner := (Mode.read_inner (.long 0) h.1).resolve_right h.2
  have hend : ((Mode.long .double 0).read s.toList).2.read "``".toList = ([], .long .double 0) := by
    generalize ((Mode.long .double 0).read s.toList).2 = m at hinner
    cases hinner with
    | long marks => rfl
    | escape => rfl
  have hbefore : (Mode.long .double 0).read "``".toList = ([], .long .double 0) := rfl
  rw [IsContent, String.toList_append, String.toList_append, Mode.read_append, Mode.read_append,
    hbefore]
  simp only [h.1, hend, List.append_nil]

/-- A literal in three quotes. -/
def literal (content : String) : String :=
  tripleQuote ++ content ++ tripleQuote

theorem read_literal {s : String} (h : IsContent s) :
    Mode.code.read (literal s).toList = ([.opened .double true, .closed], .code) := by
  have hopen : Mode.code.read tripleQuote.toList = ([.opened .double true], .long .double 0) := rfl
  have hclose : (Mode.long .double 0).read tripleQuote.toList = ([.closed], .code) := rfl
  rw [literal, String.toList_append, String.toList_append, Mode.read_append, Mode.read_append,
    hopen, h, hclose]
  rfl

/-- What stands in a literal in three quotes makes no difference. -/
theorem alike_literal {before s t : String} (hbefore : IsComplete before) (hs : IsContent s)
    (ht : IsContent t) : Alike (before ++ literal s) (before ++ literal t) :=
  alike_of_read hbefore (by rw [read_literal hs]) (by rw [read_literal hs, read_literal ht])

/-! ### Texts in one quote -/

/-- The text can stand in a literal in single quotes, with nothing in it that closes or breaks
it. -/
structure IsLabel (s : String) : Prop where
  read : (Mode.short .double).read s.toList = ([], .short .double)
  line : '\n' ∉ s.toList

theorem IsPlain.isLabel {s : String} (h : IsPlain s) : IsLabel s := by
  refine ⟨h.read_short .double, fun hnewline => ?_⟩
  have hplain := (plainChar_iff.mp (h _ hnewline)).lineEnd
  cases hplain

/-- A literal in single marks, with code behind it. -/
theorem read_short {mark : Mark} {cs rest : List Char}
    (hcs : (Mode.short mark).read cs = ([], .short mark))
    (hrest : ∀ c ∈ rest, isPlainChar c = true) (hne : cs ≠ [] ∨ rest ≠ []) :
    Mode.code.read (mark.char :: (cs ++ mark.char :: rest)) =
      ([.opened mark false, .closed] ++ rest.map .char, .code) := by
  have hcode : Mode.code.read rest = (rest.map .char, .code) := by
    have hread := IsPlain.read_code (s := String.ofList rest) (by simpa [IsPlain] using hrest)
    rwa [String.toList_ofList] at hread
  have hopening : Mode.code.step mark.char = ([], .opening mark false) := by cases mark <;> rfl
  rw [Mode.read_cons, hopening]
  change (Mode.opening mark false).read (cs ++ mark.char :: rest) = _
  cases cs with
  | nil =>
      -- The next character tells that no third mark follows the two.
      obtain ⟨c, more, rfl⟩ := List.exists_cons_of_ne_nil (hne.resolve_left (not_not_intro rfl))
      obtain ⟨hc, -⟩ := List.forall_mem_cons.mp hrest
      have hplain := plainChar_iff.mp hc
      have htwice : (Mode.opening mark false).step mark.char = ([], .opening mark true) := by
        cases mark <;> rfl
      have hstep : (Mode.opening mark true).step c =
          ([.opened mark false, .closed] ++ (Mode.code.step c).1, (Mode.code.step c).2) := by
        simp only [Mode.step, hplain.nonnull, hplain.ne_mark, if_false]
      rw [Mode.read_cons] at hcode
      obtain ⟨hpieces, hmode⟩ := Prod.mk.inj hcode
      rw [List.nil_append, Mode.read_cons, htwice, Mode.read_cons, hstep]
      refine Prod.ext ?_ hmode
      simp only [List.nil_append, List.append_assoc, hpieces]
  | cons c more =>
      rw [Mode.read_cons] at hcs
      obtain ⟨hpieces, hlast⟩ := Prod.mk.inj hcs
      rw [List.append_eq_nil_iff] at hpieces
      have hnull : c.toNat ≠ 0 := by
        intro hnull
        simp [Mode.step, hnull, Mode.read_broken] at hlast
      have hmark : c ≠ mark.char := by
        rintro rfl
        have hclosing : (Mode.short mark).step mark.char = ([.closed], .code) := by
          cases mark <;> rfl
        rw [hclosing] at hpieces
        cases hpieces.1
      have hstep : (Mode.opening mark false).step c =
          (.opened mark false :: ((Mode.short mark).step c).1, ((Mode.short mark).step c).2) := by
        simp only [Mode.step, hnull, if_false, hmark]
      have hopen : (Mode.opening mark false).read (c :: more) =
          ([.opened mark false], .short mark) := by
        rw [Mode.read_cons, hstep, hpieces.1, hpieces.2, hlast]
        rfl
      have hclose : (Mode.short mark).step mark.char = ([.closed], .code) := by
        cases mark <;> rfl
      rw [Mode.read_append, hopen, Mode.read_cons, hclose, hcode]
      rfl

theorem read_quoted {s t : String} (hs : IsLabel s) (ht : IsPlain t) (hne : s ≠ "" ∨ t ≠ "") :
    Mode.code.read ("\"" ++ s ++ "\"" ++ t).toList =
      ([.opened .double false, .closed] ++ t.toList.map .char, .code) := by
  have hchars : ("\"" ++ s ++ "\"" ++ t).toList =
      Mark.double.char :: (s.toList ++ Mark.double.char :: t.toList) := by
    simp [Mark.char]
  rw [hchars]
  exact read_short hs.read ht (hne.imp (mt String.toList_eq_nil_iff.mp)
    (mt String.toList_eq_nil_iff.mp))

/-- What stands in a literal in single quotes makes no difference. -/
theorem alike_quoted {before s t after : String} (hbefore : IsComplete before) (hs : IsLabel s)
    (ht : IsLabel t) (hafter : IsPlain after) (hne : after ≠ "") :
    Alike (before ++ ("\"" ++ s ++ "\"" ++ after)) (before ++ ("\"" ++ t ++ "\"" ++ after)) :=
  alike_of_read hbefore (by rw [read_quoted hs hafter (.inr hne)])
    (by rw [read_quoted hs hafter (.inr hne), read_quoted ht hafter (.inr hne)])

theorem isComplete_quoted {s t : String} (hs : IsLabel s) (ht : IsPlain t)
    (hne : s ≠ "" ∨ t ≠ "") :
    IsComplete ("\"" ++ s ++ "\"" ++ t) := by
  rw [IsComplete, tokens, read_quoted hs ht hne]

end InkBindings.Bindings
