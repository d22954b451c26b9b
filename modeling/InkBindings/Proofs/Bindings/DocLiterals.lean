import InkBindings.Proofs.Bindings.Literals

/-!
Documentation as literals. What is escaped closes no literal, so that reading goes back to the code
behind it, or breaks off at its end.
-/

namespace InkBindings.Bindings

open Text (unlines)

/-- Backslashes come in pairs. -/
inductive Paired : List Char → Prop
  | nil : Paired []
  | pair {cs : List Char} : Paired cs → Paired ('\\' :: '\\' :: cs)
  | other {c : Char} {cs : List Char} : c ≠ '\\' → Paired cs → Paired (c :: cs)

theorem paired_escaped (cs : List Char) : Paired (cs.flatMap escapeBackslash) := by
  induction cs with
  | nil => exact .nil
  | cons c rest ih =>
      rw [List.flatMap_cons, escapeBackslash]
      split
      · exact .pair ih
      · next hc => exact .other hc ih

theorem Paired.of_quote {cs : List Char} (h : Paired ('"' :: cs)) : Paired cs := by
  cases h with
  | other _ h => exact h

/-- How many quotes come first. -/
def quotesAhead : List Char → Nat
  | '"' :: rest => quotesAhead rest + 1
  | _ => 0

theorem quotesAhead_of_ne {c : Char} (hc : c ≠ '"') (rest : List Char) :
    quotesAhead (c :: rest) = 0 := by
  unfold quotesAhead
  split
  · next h => exact absurd (List.cons.inj h).1 hc
  · rfl

theorem quotesAhead_le_one {rest : List Char}
    (h : ∀ more, '"' :: rest = '"' :: '"' :: '"' :: more → False) : quotesAhead rest ≤ 1 := by
  match rest with
  | [] => exact Nat.zero_le 1
  | [c] =>
      by_cases hc : c = '"'
      · subst hc
        exact Nat.le_refl 1
      · rw [quotesAhead_of_ne hc]
        exact Nat.zero_le 1
  | c :: d :: more =>
      by_cases hc : c = '"'
      · subst hc
        have hd : d ≠ '"' := by
          rintro rfl
          exact h more rfl
        exact Nat.le_of_eq (congrArg (· + 1) (quotesAhead_of_ne hd more))
      · rw [quotesAhead_of_ne hc]
        exact Nat.zero_le 1

/-- The mode fits what is still to be escaped: the quotes behind and ahead are no more than two,
or none of them is behind. -/
inductive Mode.Awaits : Mode → List Char → Prop
  | long {marks : Nat} {cs : List Char} : Paired cs → marks = 0 ∨ marks + quotesAhead cs ≤ 2 →
      Awaits (.long .double marks) cs
  | escape {cs : List Char} : Paired cs → Awaits (.longEscape .double) ('\\' :: cs)
  | broken {cs : List Char} : Awaits .broken cs

/-- One character is read, and what comes next is awaited. -/
theorem Mode.Awaits.step {m : Mode} {c : Char} {rest : List Char} (h : m.Awaits (c :: rest))
    (hquotes : ∀ more, c :: rest = '"' :: '"' :: '"' :: more → False) :
    (m.step c).1 = [] ∧ (m.step c).2.Awaits rest := by
  by_cases hnull : c.toNat = 0
  · simp only [Mode.step, hnull, if_true]
    exact ⟨trivial, .broken⟩
  cases h with
  | long hpaired hmarks =>
      rename_i marks
      cases hpaired with
      | pair hpaired => exact ⟨rfl, .escape hpaired⟩
      | other hc hpaired =>
          by_cases hquote : c = '"'
          · subst hquote
            have hahead := quotesAhead_le_one hquotes
            rw [quotesAhead] at hmarks
            have hlt : marks ≠ 2 := by omega
            have hstep : (Mode.long .double marks).step '"' = ([], .long .double (marks + 1)) := by
              simp [Mode.step, Mode.inLong, Mark.char, hlt]
            rw [hstep]
            exact ⟨rfl, .long hpaired (.inr (by omega))⟩
          · have hmark : c ≠ Mark.double.char := hquote
            have hstep : (Mode.long .double marks).step c = ([], .long .double 0) := by
              simp [Mode.step, hnull, Mode.inLong, hmark, hc]
            rw [hstep]
            exact ⟨rfl, .long hpaired (.inl rfl)⟩
  | escape hpaired => exact ⟨rfl, .long hpaired (.inl rfl)⟩
  | broken =>
      simp only [Mode.step, hnull, if_false]
      exact ⟨trivial, .broken⟩

theorem Mode.Awaits.triple {m : Mode} {rest : List Char}
    (h : m.Awaits ('"' :: '"' :: '"' :: rest)) :
    m.read ['\\', '"', '\\', '"', '\\', '"'] = ([], .long .double 0) ∧ Paired rest ∨
      m = .broken := by
  cases h with
  | long hpaired => exact .inl ⟨rfl, hpaired.of_quote.of_quote.of_quote⟩
  | broken => exact .inr rfl

/-- What is escaped closes no literal. -/
theorem read_escapeTriples {m : Mode} {cs : List Char} (h : m.Awaits cs) :
    (m.read (escapeTriples cs)).1 = [] ∧ (m.read (escapeTriples cs)).2.Awaits [] := by
  fun_induction escapeTriples cs generalizing m with
  | case1 rest ih =>
      rw [Mode.read_append]
      rcases h.triple with ⟨hread, hpaired⟩ | rfl
      · rw [hread]
        have hrest : (Mode.long .double 0).Awaits rest := .long hpaired (.inl rfl)
        simpa using ih hrest
      · rw [Mode.read_broken, Mode.read_broken]
        exact ⟨rfl, .broken⟩
  | case2 c rest hquotes ih =>
      have hstep := h.step (by simpa using hquotes)
      rw [Mode.read_cons, hstep.1, List.nil_append]
      exact ih hstep.2
  | case3 => exact ⟨rfl, h⟩

/-- Characters as they are written in a literal. -/
def escaped (cs : List Char) : List Char :=
  escapeTriples (cs.flatMap escapeBackslash)

theorem docLine_eq (line : String) :
    docLine line = String.ofList (escaped (Text.strip line).toList) := rfl

/-- Reading what is escaped leaves nothing and stays in the literal. -/
theorem read_escaped (cs : List Char) :
    ((Mode.long .double 0).read (escaped cs)).1 = [] ∧
      ((Mode.long .double 0).read (escaped cs)).2.Awaits [] :=
  read_escapeTriples (.long (paired_escaped cs) (.inl rfl))

theorem read_docLine (line : String) :
    ((Mode.long .double 0).read (docLine line).toList).1 = [] ∧
      ((Mode.long .double 0).read (docLine line).toList).2.Awaits [] := by
  rw [docLine_eq, String.toList_ofList]
  exact read_escaped _

/-! ### The literals -/

theorem escapeLast_eq (cs : List Char) :
    (∃ init, cs = init ++ ['"'] ∧ escapeLast cs = init ++ ['\\', '"']) ∨
      escapeLast cs = cs ∧ cs.getLast? ≠ some '"' := by
  fun_induction escapeLast cs with
  | case1 => exact .inr ⟨rfl, nofun⟩
  | case2 => exact .inl ⟨[], rfl, rfl⟩
  | case3 c rest hlast ih =>
      rcases ih with ⟨init, hrest, heq⟩ | ⟨heq, hne⟩
      · exact .inl ⟨c :: init, by rw [hrest]; rfl, by rw [heq]; rfl⟩
      · refine .inr ⟨by rw [heq], ?_⟩
        cases rest with
        | nil => simpa using hlast
        | cons d more => simpa [List.getLast?_cons_cons] using hne

/-- Reading goes back to the code behind a line feed, or breaks off. -/
def Mode.Returns (m : Mode) (cs : List Char) : Prop :=
  (m.read (cs ++ ['\n'])).2 = .code ∨ (m.read (cs ++ ['\n'])).2 = .broken

theorem Mode.Returns.append {m : Mode} {cs ds : List Char} (h : (m.read cs).2.Returns ds) :
    m.Returns (cs ++ ds) := by
  rw [Mode.Returns, List.append_assoc, Mode.read_append]
  exact h

theorem returns_of_broken (cs : List Char) : Mode.broken.Returns cs :=
  .inr (by rw [Mode.read_broken])

theorem returns_of_quote {m : Mode} (h : m.IsInner ∨ m = .broken) :
    m.Returns (['\\', '"'] ++ tripleQuote.toList) := by
  rcases h with h | rfl
  · cases h with
    | long marks => exact .inl rfl
    | escape => exact .inr rfl
  · exact returns_of_broken _

theorem alike_of_returns {content : String}
    (h : (Mode.long .double 0).Returns (content.toList ++ tripleQuote.toList)) :
    Alike (tripleQuote ++ content ++ tripleQuote) (tripleQuote ++ content ++ tripleQuote) := by
  have hopen : Mode.code.read tripleQuote.toList = ([.opened .double true], .long .double 0) := rfl
  have hread : (tokens (tripleQuote ++ content ++ tripleQuote ++ "\n")).2 =
      ((Mode.long .double 0).read (content.toList ++ tripleQuote.toList ++ ['\n'])).2 := by
    rw [tokens, String.append_assoc, String.append_assoc, String.toList_append, Mode.read_append,
      hopen]
    simp
  refine ⟨rfl, ?_⟩
  rw [hread]
  exact h

/-- Behind another character than a quote no mark counts. -/
theorem read_last {m : Mode} (h : m.IsInner) {c : Char} (hc : c ≠ '"') :
    ∀ marks, (m.read [c]).2 = .long .double marks → marks = 0 := by
  intro marks hmarks
  have hmark : c ≠ Mark.double.char := hc
  by_cases hnull : c.toNat = 0
  · simp [Mode.read, Mode.step, hnull] at hmarks
  cases h with
  | long n =>
      by_cases hslash : c = '\\'
      · simp [Mode.read, Mode.step, Mode.inLong, hslash, Mark.char] at hmarks
      · simpa [Mode.read, Mode.step, hnull, Mode.inLong, hmark, hslash, eq_comm] using hmarks
  | escape => simpa [Mode.read, Mode.step, hnull, eq_comm] using hmarks

/-- Behind a line that does not end in a quote no mark counts. -/
theorem marks_of_last {cs : List Char} {marks : Nat}
    (hpieces : ((Mode.long .double 0).read cs).1 = []) (hlast : cs.getLast? ≠ some '"')
    (hmode : ((Mode.long .double 0).read cs).2 = .long .double marks) : marks = 0 := by
  obtain rfl | ⟨init, c, rfl⟩ := List.eq_nil_or_concat' cs
  · cases hmode
    rfl
  · rw [List.getLast?_concat, Ne, Option.some_inj] at hlast
    rw [Mode.read_append] at hpieces hmode
    have hinit := Mode.read_inner (.long 0)
      (List.append_eq_nil_iff.mp hpieces).1
    rcases hinit with hinner | hbroken
    · exact read_last hinner hlast marks hmode
    · rw [hbroken, Mode.read_broken] at hmode
      cases hmode

/-- Behind a line that does not end in a quote, the literal can be closed. -/
theorem returns_docLine {cs : List Char} (hpieces : ((Mode.long .double 0).read cs).1 = [])
    (hawaits : ((Mode.long .double 0).read cs).2.Awaits []) (hlast : cs.getLast? ≠ some '"') :
    ((Mode.long .double 0).read cs).2.Returns tripleQuote.toList := by
  have hmarks : ∀ marks, ((Mode.long .double 0).read cs).2 = .long .double marks → marks = 0 :=
    fun _ => marks_of_last hpieces hlast
  generalize ((Mode.long .double 0).read cs).2 = m at hawaits hmarks
  cases hawaits with
  | long _ _ =>
      rw [hmarks _ rfl]
      exact .inl rfl
  | broken => exact returns_of_broken _

theorem Mode.Awaits.newline {m : Mode} (h : m.Awaits []) :
    (m.read "\n".toList).2 = .long .double 0 ∨ (m.read "\n".toList).2 = .broken := by
  cases h with
  | long _ _ => exact .inl rfl
  | broken => exact .inr (by rw [Mode.read_broken])

/-- Lines of documentation lead back to where they began, or nowhere. -/
theorem read_docLines {ls : List String} (h : ∀ l ∈ ls, ∃ doc, l = docLine doc) :
    ((Mode.long .double 0).read (unlines ls ++ "\n").toList).2 = .long .double 0 ∨
      ((Mode.long .double 0).read (unlines ls ++ "\n").toList).2 = .broken := by
  have hline : ∀ l ∈ ls, ((Mode.long .double 0).read (l ++ "\n").toList).2 = .long .double 0 ∨
      ((Mode.long .double 0).read (l ++ "\n").toList).2 = .broken := by
    intro l hl
    obtain ⟨doc, rfl⟩ := h l hl
    simpa only [String.toList_append, Mode.read_append] using (read_docLine doc).2.newline
  clear h
  induction ls with
  | nil => exact .inl rfl
  | cons l rest ih =>
      obtain ⟨hl, hrest⟩ := List.forall_mem_cons.mp hline
      cases rest with
      | nil => simpa [unlines] using hl
      | cons k rest =>
          have hsplit : (unlines (l :: k :: rest) ++ "\n").toList =
              (l ++ "\n").toList ++ (unlines (k :: rest) ++ "\n").toList := by
            rw [unlines, String.intercalate_cons_cons, unlines]
            simp only [String.toList_append, List.append_assoc]
          rw [hsplit, Mode.read_append]
          rcases hl with hl | hl
          · simpa only [hl] using ih hrest
          · exact .inr (by simp only [hl, Mode.read_broken])

theorem trimLines_subset (ls : List String) : trimLines ls ⊆ ls := by
  intro l hl
  rw [trimLines, List.mem_reverse] at hl
  exact (List.dropWhile_sublist _).subset
    (List.mem_reverse.mp ((List.dropWhile_sublist _).subset hl))

theorem exists_of_mem_trimLines {docs : List String} {l : String}
    (h : l ∈ trimLines (docs.map docLine)) : ∃ doc, l = docLine doc := by
  obtain ⟨doc, -, rfl⟩ := List.mem_map.mp (trimLines_subset _ h)
  exact ⟨doc, rfl⟩

/-- Documentation leads back to the code, or reading breaks off in it. -/
theorem alike_docstring {docs : List String} {doc : String} (h : docstring? docs = some doc) :
    Alike doc doc := by
  have hlines : ∀ l ∈ trimLines (docs.map docLine), ∃ doc, l = docLine doc :=
    fun l => exists_of_mem_trimLines
  rw [docstring?] at h
  generalize trimLines (docs.map docLine) = ls at h hlines
  split at h
  · cases h
  · next line =>
      cases h
      obtain ⟨source, rfl⟩ := hlines line (List.mem_singleton_self _)
      obtain ⟨hpieces, hawaits⟩ := read_docLine source
      refine alike_of_returns ?_
      rw [String.toList_ofList]
      rcases escapeLast_eq (docLine source).toList with ⟨init, hinit, heq⟩ | ⟨heq, hlast⟩
      · rw [heq, List.append_assoc]
        rw [hinit, Mode.read_append] at hpieces
        exact .append (returns_of_quote
          (Mode.read_inner (.long 0) (List.append_eq_nil_iff.mp hpieces).1))
      · rw [heq]
        exact .append (returns_docLine hpieces hawaits hlast)
  · cases h
    have hcontent : tripleQuote ++ "\n" ++ unlines ls ++ "\n" ++ tripleQuote =
        tripleQuote ++ ("\n" ++ (unlines ls ++ "\n")) ++ tripleQuote := by
      simp only [String.append_assoc]
    rw [hcontent]
    refine alike_of_returns ?_
    have hnewline : (Mode.long .double 0).read "\n".toList = ([], .long .double 0) := rfl
    rw [String.toList_append, List.append_assoc]
    refine .append ?_
    rw [hnewline]
    refine .append ?_
    rcases read_docLines hlines with hmode | hmode
    · rw [hmode]
      exact .inl rfl
    · rw [hmode]
      exact returns_of_broken _

end InkBindings.Bindings
