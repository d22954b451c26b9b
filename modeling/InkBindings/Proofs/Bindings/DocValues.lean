import InkBindings.Proofs.Bindings.DocLiterals

/-!
What documentation says. As a literal it stands for the lines it was made from, whatever quotes and
backslashes they hold, unless it is a single line that ends in threes of quotes: these have been
escaped when the last of them is escaped once more, which takes the escape away again.
-/

namespace InkBindings.Bindings

open Text (strip unlines plainLineEnds)

/-! ### The values of literals -/

/-- What a backslash and the character behind it stand for, unless the character begins a number
or a name. -/
def escapeValue? (c : Char) : Option (List Char) :=
  match c with
  | '\n' => some []
  | '\\' => some ['\\']
  | '\'' => some ['\'']
  | '"' => some ['"']
  | 'a' => some ['\x07']
  | 'b' => some ['\x08']
  | 'f' => some ['\x0c']
  | 'n' => some ['\n']
  | 'r' => some ['\r']
  | 't' => some ['\t']
  | 'v' => some ['\x0b']
  | c => if c.isDigit && c < '8' || ['x', 'N', 'u', 'U'].contains c then none else some ['\\', c]

/-- What the characters of a literal stand for. Characters that are given by their numbers or names
are left out of account: with these, there is no value. -/
def unescape : List Char → Option (List Char)
  | [] => some []
  | ['\\'] => none
  | '\\' :: c :: rest => do
    let value ← escapeValue? c
    let more ← unescape rest
    return value ++ more
  | c :: rest => (unescape rest).map (c :: ·)

theorem unescape_of_ne {c : Char} (hc : c ≠ '\\') (rest : List Char) :
    unescape (c :: rest) = (unescape rest).map (c :: ·) := by
  rw [unescape]
  · exact fun h => absurd h hc
  · exact fun _ _ h => absurd h hc

theorem unescape_append {cs value : List Char} (h : unescape cs = some value) (ds : List Char) :
    unescape (cs ++ ds) = (unescape ds).map (value ++ ·) := by
  fun_induction unescape cs generalizing value with
  | case1 =>
      cases h
      simp
  | case2 => cases h
  | case3 c rest ih =>
      obtain ⟨first, hfirst, more, hmore, rfl⟩ :
          ∃ first, escapeValue? c = some first ∧
            ∃ more, unescape rest = some more ∧ first ++ more = value := by
        simpa [Option.bind_eq_some_iff] using h
      simp only [List.cons_append, unescape, hfirst, ih hmore, Option.bind_eq_bind,
        Option.bind_some]
      cases unescape ds <;> simp
  | case4 c rest hlast hescape ih =>
      have hc : c ≠ '\\' := by
        rintro rfl
        cases rest with
        | nil => exact hlast rfl rfl
        | cons d more => exact hescape d more rfl rfl
      obtain ⟨more, hmore, rfl⟩ := Option.map_eq_some_iff.mp h
      rw [List.cons_append, unescape_of_ne hc, ih hmore, Option.map_map]
      rfl

/-- The text is one literal in three quotes, which ends where the text does and stands for the
value. -/
def IsLiteralOf (text value : String) : Prop :=
  ∃ content, text = literal content ∧ tokens text = ([.opened .double true, .closed], .code) ∧
    unescape (plainLineEnds content.toList) = some value.toList

/-- What stands between the quotes is read as the value. -/
structure Says (content value : String) : Prop where
  read : IsContent content
  value : unescape content.toList = some value.toList
  returnless : '\r' ∉ content.toList

theorem Says.append {content content' value value' : String} (h : Says content value)
    (h' : Says content' value') : Says (content ++ content') (value ++ value') := by
  refine ⟨h.read.append h'.read, ?_, ?_⟩
  · rw [String.toList_append, unescape_append h.value, h'.value, String.toList_append]
    rfl
  · rw [String.toList_append, List.mem_append]
    exact not_or.mpr ⟨h.returnless, h'.returnless⟩

theorem says_newline : Says "\n" "\n" := ⟨rfl, rfl, by decide⟩

theorem plainLineEnds_of_not_mem {cs : List Char} (h : '\r' ∉ cs) : plainLineEnds cs = cs := by
  fun_induction plainLineEnds cs with
  | case1 => rfl
  | case2 rest ih => exact absurd List.mem_cons_self h
  | case3 c rest _ ih =>
      obtain ⟨hc, hrest⟩ := not_or.mp (fun hmem => h (List.mem_cons.mpr hmem))
      rw [if_neg (Ne.symm hc), ih hrest]

theorem Says.isLiteralOf {content value : String} (h : Says content value) :
    IsLiteralOf (literal content) value :=
  ⟨content, rfl, read_literal h.read, by rw [plainLineEnds_of_not_mem h.returnless, h.value]⟩

/-! ### What is escaped -/

def countQuotes (marks : Nat) (c : Char) : Nat :=
  if c = '"' then marks + 1 else 0

/-- How many quotes come last. -/
def quotesBehind (cs : List Char) : Nat :=
  cs.foldl countQuotes 0

theorem exists_of_quotesBehind {cs : List Char} {n : Nat} (h : quotesBehind cs = n + 1) :
    ∃ init, cs = init ++ ['"'] ∧ quotesBehind init = n := by
  obtain rfl | ⟨init, c, rfl⟩ := List.eq_nil_or_concat' cs
  · cases h
  · rw [quotesBehind, List.foldl_append, List.foldl_cons, List.foldl_nil, countQuotes] at h
    split at h
    · next hc =>
        subst hc
        exact ⟨init, rfl, Nat.succ.inj h⟩
    · cases h

theorem quotesBehind_doubled (cs : List Char) :
    quotesBehind (cs.flatMap escapeBackslash) = quotesBehind cs := by
  have hstep (marks : Nat) (c : Char) :
      (escapeBackslash c).foldl countQuotes marks = countQuotes marks c := by
    rw [escapeBackslash]
    split
    · next hc =>
        subst hc
        rfl
    · rfl
  rw [quotesBehind, List.foldl_flatMap, quotesBehind]
  simp only [hstep]

theorem quotesAhead_doubled (cs : List Char) :
    quotesAhead (cs.flatMap escapeBackslash) = quotesAhead cs := by
  induction cs with
  | nil => rfl
  | cons c rest ih =>
      rw [List.flatMap_cons, escapeBackslash]
      split
      · next hc =>
          subst hc
          rfl
      · by_cases hc : c = '"'
        · subst hc
          exact congrArg (· + 1) ih
        · rw [List.singleton_append, quotesAhead_of_ne hc, quotesAhead_of_ne hc]

theorem escapeTriples_of_ne {c : Char} (hc : c ≠ '"') (rest : List Char) :
    escapeTriples (c :: rest) = c :: escapeTriples rest := by
  rw [escapeTriples]
  exact fun _ h => absurd h hc

theorem escapeTriples_quote {rest : List Char} (h : quotesAhead rest ≤ 1) :
    escapeTriples ('"' :: rest) = '"' :: escapeTriples rest := by
  rw [escapeTriples]
  rintro more - rfl
  simp [quotesAhead] at h

theorem foldl_countQuotes_of_ne {c : Char} (hc : c ≠ '"') (rest : List Char) (marks : Nat) :
    (c :: rest).foldl countQuotes marks = rest.foldl countQuotes 0 := by
  rw [List.foldl_cons, countQuotes, if_neg hc]

/-- Behind a quote that does not begin three of them, the others go on or stop before the end. -/
theorem stops_or_ends {rest : List Char} (h : quotesAhead rest ≤ 1) :
    rest = [] ∨ rest = ['"'] ∨ (∀ ds, quotesAhead (rest ++ ds) ≤ 1) ∧
      ∀ marks, rest.foldl countQuotes marks = rest.foldl countQuotes 0 := by
  match rest with
  | [] => exact .inl rfl
  | c :: more =>
      by_cases hc : c = '"'
      · subst hc
        match more with
        | [] => exact .inr (.inl rfl)
        | d :: more =>
            have hd : d ≠ '"' := by
              rintro rfl
              simp [quotesAhead] at h
            refine .inr (.inr ⟨fun ds => ?_, fun marks => ?_⟩)
            · exact Nat.le_of_eq (congrArg (· + 1) (quotesAhead_of_ne hd (more ++ ds)))
            · change (d :: more).foldl countQuotes _ = (d :: more).foldl countQuotes _
              rw [foldl_countQuotes_of_ne hd, foldl_countQuotes_of_ne hd]
      · refine .inr (.inr ⟨fun ds => ?_, fun marks => ?_⟩)
        · rw [List.cons_append, quotesAhead_of_ne hc]
          exact Nat.zero_le 1
        · rw [foldl_countQuotes_of_ne hc, foldl_countQuotes_of_ne hc]

theorem escapeTriples_append_of_marks {cs ds : List Char} {marks : Nat} (hmarks : marks % 3 = 0)
    (h : cs.foldl countQuotes marks % 3 = 0 ∨
      cs.foldl countQuotes marks % 3 + quotesAhead ds ≤ 2) :
    escapeTriples (cs ++ ds) = escapeTriples cs ++ escapeTriples ds := by
  fun_induction escapeTriples cs generalizing marks with
  | case1 rest ih =>
      have hmarks : (marks + 1 + 1 + 1) % 3 = 0 := by omega
      simp only [List.cons_append, escapeTriples, ih hmarks h, List.nil_append]
  | case2 c rest hquotes ih =>
      rw [List.cons_append, List.cons_append]
      by_cases hc : c = '"'
      · subst hc
        have hahead : quotesAhead rest ≤ 1 :=
          quotesAhead_le_one fun more heq => hquotes more rfl (List.cons.inj heq).2
        rw [List.foldl_cons, countQuotes, if_pos rfl] at h
        rcases stops_or_ends hahead with rfl | rfl | ⟨hstops, hfold⟩
        · rw [List.foldl_nil] at h
          exact escapeTriples_quote (by rw [List.nil_append]; omega)
        · rw [List.foldl_cons, countQuotes, if_pos rfl, List.foldl_nil] at h
          have hends : quotesAhead ds = 0 := by omega
          have hbehind : quotesAhead (['"'] ++ ds) ≤ 1 :=
            Nat.le_of_eq (congrArg (· + 1) hends)
          rw [escapeTriples_quote hbehind, ih (Nat.zero_mod 3) (.inr (by rw [hends]; decide))]
        · rw [hfold] at h
          rw [escapeTriples_quote (hstops ds), ih (Nat.zero_mod 3) h]
      · rw [foldl_countQuotes_of_ne hc] at h
        rw [escapeTriples_of_ne hc, ih (Nat.zero_mod 3) h]
  | case3 => rfl

/-- What comes behind is escaped on its own if no three quotes begin before it. -/
theorem escapeTriples_append {cs ds : List Char}
    (h : quotesBehind cs % 3 = 0 ∨ quotesBehind cs % 3 + quotesAhead ds ≤ 2) :
    escapeTriples (cs ++ ds) = escapeTriples cs ++ escapeTriples ds :=
  escapeTriples_append_of_marks (Nat.zero_mod 3) h

theorem escaped_append {cs ds : List Char}
    (h : quotesBehind cs % 3 = 0 ∨ quotesBehind cs % 3 + quotesAhead ds ≤ 2) :
    escaped (cs ++ ds) = escaped cs ++ escaped ds := by
  rw [← quotesBehind_doubled, ← quotesAhead_doubled ds] at h
  rw [escaped, List.flatMap_append, escapeTriples_append h, escaped, escaped]

theorem unescape_escaped (cs : List Char) : unescape (escaped cs) = some cs := by
  unfold escaped
  fun_induction escapeTriples cs with
  | case1 rest ih =>
      have hdoubled : ('"' :: '"' :: '"' :: rest).flatMap escapeBackslash =
          '"' :: '"' :: '"' :: rest.flatMap escapeBackslash := rfl
      have hquotes : unescape ['\\', '"', '\\', '"', '\\', '"'] = some ['"', '"', '"'] := rfl
      rw [hdoubled, escapeTriples, unescape_append hquotes, ih]
      rfl
  | case2 c rest hquotes ih =>
      rw [List.flatMap_cons, escapeBackslash]
      split
      · next hc =>
          subst hc
          have hslashes : unescape ['\\', '\\'] = some ['\\'] := rfl
          change unescape (escapeTriples ('\\' :: '\\' :: rest.flatMap escapeBackslash)) = _
          rw [escapeTriples_of_ne (by decide), escapeTriples_of_ne (by decide)]
          change unescape (['\\', '\\'] ++ _) = _
          rw [unescape_append hslashes, ih]
          rfl
      · next hslash =>
          rw [List.singleton_append]
          have hescape : escapeTriples (c :: rest.flatMap escapeBackslash) =
              c :: escapeTriples (rest.flatMap escapeBackslash) := by
            by_cases hc : c = '"'
            · subst hc
              refine escapeTriples_quote ?_
              rw [quotesAhead_doubled]
              exact quotesAhead_le_one fun more heq => hquotes more rfl (List.cons.inj heq).2
            · exact escapeTriples_of_ne hc _
          rw [hescape, unescape_of_ne hslash, ih]
          rfl
  | case3 => rfl

theorem mem_of_escapeTriples {c : Char} {cs : List Char} (h : c ∈ escapeTriples cs) :
    c = '\\' ∨ c ∈ cs := by
  fun_induction escapeTriples cs with
  | case1 rest ih =>
      rcases List.mem_append.mp h with hquotes | hrest
      · simp only [List.mem_cons, List.not_mem_nil, or_false] at hquotes ⊢
        tauto
      · rcases ih hrest with hslash | hmem
        · exact .inl hslash
        · simp [hmem]
  | case2 d rest hquotes ih =>
      rcases List.mem_cons.mp h with rfl | hrest
      · exact .inr List.mem_cons_self
      · exact (ih hrest).imp_right (List.mem_cons_of_mem d)
  | case3 => cases h

/-- The characters can stand in a source as they are. -/
def IsUnbroken (cs : List Char) : Prop :=
  ∀ c ∈ cs, c ≠ '\r' ∧ c.toNat ≠ 0

instance (cs : List Char) : Decidable (IsUnbroken cs) :=
  List.decidableBAll (fun c => c ≠ '\r' ∧ c.toNat ≠ 0) cs

theorem IsUnbroken.returnless {cs : List Char} (h : IsUnbroken cs) : '\r' ∉ cs :=
  fun hmem => (h _ hmem).1 rfl

theorem IsUnbroken.escaped {cs : List Char} (h : IsUnbroken cs) : IsUnbroken (escaped cs) := by
  intro c hc
  have hslash : '\\' ≠ '\r' ∧ '\\'.toNat ≠ 0 := ⟨by decide, by decide⟩
  rcases mem_of_escapeTriples hc with rfl | hmem
  · exact hslash
  · obtain ⟨d, hd, hc⟩ := List.mem_flatMap.mp hmem
    rw [escapeBackslash] at hc
    split at hc
    · simp only [List.mem_cons, List.not_mem_nil, or_false, or_self] at hc
      exact hc ▸ hslash
    · exact List.mem_singleton.mp hc ▸ h d hd

theorem Mode.read_unbroken {m : Mode} {cs : List Char} (h : m.IsInner) (hcs : (m.read cs).1 = [])
    (hunbroken : IsUnbroken cs) : (m.read cs).2.IsInner := by
  induction cs generalizing m with
  | nil => exact h
  | cons c rest ih =>
      rw [read_cons, List.append_eq_nil_iff] at hcs
      obtain ⟨⟨-, hnull⟩, hrest⟩ := List.forall_mem_cons.mp hunbroken
      have hstep : (m.step c).2.IsInner := by
        refine (step_inner h hcs.1).resolve_right ?_
        intro hbroken
        cases h with
        | long marks =>
            simp only [step, hnull, if_false, inLong] at hbroken
            split_ifs at hbroken
        | escape => simp [step, hnull] at hbroken
      exact ih hstep hcs.2 hrest

theorem read_escaped_unbroken {cs : List Char} (h : IsUnbroken cs) :
    ∃ marks, (Mode.long .double 0).read (escaped cs) = ([], .long .double marks) := by
  obtain ⟨hpieces, hawaits⟩ := read_escaped cs
  have hinner := Mode.read_unbroken (.long 0) hpieces h.escaped
  generalize (Mode.long .double 0).read (escaped cs) = result at hpieces hawaits hinner ⊢
  obtain ⟨pieces, mode⟩ := result
  subst hpieces
  cases hinner with
  | long marks => exact ⟨marks, rfl⟩
  | escape => cases hawaits

/-! ### The literals -/

/-- The line ends in three quotes, or six, or more of them. -/
def EndsInThrees (cs : List Char) : Prop :=
  0 < quotesBehind cs ∧ quotesBehind cs % 3 = 0

instance (cs : List Char) : Decidable (EndsInThrees cs) :=
  instDecidableAnd

theorem escapeLast_concat (cs : List Char) : escapeLast (cs ++ ['"']) = cs ++ ['\\', '"'] := by
  rcases escapeLast_eq (cs ++ ['"']) with ⟨init, hinit, heq⟩ | ⟨-, hlast⟩
  · rw [heq, List.append_cancel_right hinit]
  · exact absurd List.getLast?_concat hlast

theorem getLast?_escaped {cs : List Char} (h : quotesBehind cs = 0) :
    (escaped cs).getLast? ≠ some '"' := by
  rw [← quotesBehind_doubled] at h
  rw [escaped]
  obtain hcs | ⟨init, c, hcs⟩ := List.eq_nil_or_concat' (cs.flatMap escapeBackslash)
  · rw [hcs]
    exact nofun
  · rw [hcs, quotesBehind, List.foldl_append, List.foldl_cons, List.foldl_nil, countQuotes] at h
    have hc : c ≠ '"' := by
      rintro rfl
      cases h
    have hahead : quotesBehind init % 3 + quotesAhead [c] ≤ 2 := by
      rw [quotesAhead_of_ne hc]
      omega
    rw [hcs, escapeTriples_append (.inr hahead), escapeTriples_of_ne hc, escapeTriples,
      List.getLast?_concat]
    exact fun heq => hc (Option.some.inj heq)

theorem says_line {line : String} (h : IsUnbroken line.toList) :
    Says (String.ofList (escaped line.toList) ++ "\n") (line ++ "\n") := by
  obtain ⟨marks, hread⟩ := read_escaped_unbroken h
  have htoList : (String.ofList (escaped line.toList) ++ "\n").toList =
      escaped line.toList ++ ['\n'] := by
    rw [String.toList_append, String.toList_ofList]
    rfl
  constructor
  · rw [IsContent, htoList, Mode.read_append, hread]
    rfl
  · rw [htoList, unescape_append (unescape_escaped _), String.toList_append]
    rfl
  · rw [htoList, List.mem_append]
    exact not_or.mpr ⟨h.escaped.returnless, by decide⟩

/-- A line of its own can be closed after its last quote is escaped, unless it is escaped
already. -/
theorem says_escapeLast {line : String} (h : IsUnbroken line.toList)
    (hends : ¬ EndsInThrees line.toList) :
    Says (String.ofList (escapeLast (escaped line.toList))) line := by
  cases hcount : quotesBehind line.toList with
  | zero =>
      have hlast := getLast?_escaped hcount
      obtain ⟨marks, hread⟩ := read_escaped_unbroken h
      have hmarks : marks = 0 := marks_of_last (by rw [hread]) hlast (by rw [hread])
      have heq : escapeLast (escaped line.toList) = escaped line.toList := by
        rcases escapeLast_eq (escaped line.toList) with ⟨init, hinit, -⟩ | ⟨heq, -⟩
        · exact absurd (by rw [hinit, List.getLast?_concat]) hlast
        · exact heq
      constructor
      · rw [IsContent, String.toList_ofList, heq, hread, hmarks]
      · rw [String.toList_ofList, heq, unescape_escaped]
      · rw [String.toList_ofList, heq]
        exact h.escaped.returnless
  | succ n =>
      obtain ⟨init, hinit, rfl⟩ := exists_of_quotesBehind hcount
      have hbehind : quotesBehind init % 3 + quotesAhead ['"'] ≤ 2 := by
        rw [EndsInThrees, hcount] at hends
        change quotesBehind init % 3 + 1 ≤ 2
        omega
      have heq : escapeLast (escaped line.toList) = escaped init ++ ['\\', '"'] := by
        rw [hinit, escaped_append (.inr hbehind)]
        exact escapeLast_concat _
      have hunbroken : IsUnbroken init := by
        intro c hc
        exact h c (by rw [hinit]; exact List.mem_append_left _ hc)
      obtain ⟨marks, hread⟩ := read_escaped_unbroken hunbroken
      constructor
      · rw [IsContent, String.toList_ofList, heq, Mode.read_append, hread]
        rfl
      · rw [String.toList_ofList, heq, unescape_append (unescape_escaped _), hinit]
        rfl
      · rw [String.toList_ofList, heq, List.mem_append]
        exact not_or.mpr ⟨hunbroken.escaped.returnless, by decide⟩

theorem says_unlines {ls : List String} (h : ∀ l ∈ ls, IsUnbroken l.toList) :
    Says (unlines (ls.map fun l => String.ofList (escaped l.toList)) ++ "\n")
      (unlines ls ++ "\n") := by
  induction ls with
  | nil => exact says_newline
  | cons l rest ih =>
      obtain ⟨hl, hrest⟩ := List.forall_mem_cons.mp h
      cases rest with
      | nil => exact says_line hl
      | cons k rest =>
          have hsplit (l k : String) (rest : List String) :
              unlines (l :: k :: rest) ++ "\n" = l ++ "\n" ++ (unlines (k :: rest) ++ "\n") := by
            rw [unlines, String.intercalate_cons_cons, unlines]
            simp only [String.append_assoc]
          rw [List.map_cons, List.map_cons, hsplit, hsplit]
          exact (says_line hl).append (ih hrest)

/-- Behind threes of quotes the last of them closes the literal, and what follows opens another. -/
theorem not_isLiteralOf {line : String} (h : EndsInThrees line.toList) (value : String) :
    ¬ IsLiteralOf (literal (String.ofList (escapeLast (escaped line.toList)))) value := by
  rintro ⟨content, -, htokens, -⟩
  obtain ⟨n, hn⟩ : ∃ n, quotesBehind line.toList = n + 1 + 1 + 1 := by
    obtain ⟨hpos, hthrees⟩ := h
    exact ⟨quotesBehind line.toList - 3, by omega⟩
  obtain ⟨two, hline, htwo⟩ := exists_of_quotesBehind hn
  obtain ⟨one, rfl, hone⟩ := exists_of_quotesBehind htwo
  obtain ⟨cs, rfl, rfl⟩ := exists_of_quotesBehind hone
  have hcut : quotesBehind cs % 3 = 0 := by
    have := h.2
    omega
  have hescaped : escaped line.toList = (escaped cs ++ ['\\', '"', '\\', '"', '\\']) ++ ['"'] := by
    rw [hline, List.append_assoc, List.append_assoc, escaped_append (.inl hcut), List.append_assoc]
    rfl
  have hopen : Mode.code.read tripleQuote.toList = ([.opened .double true], .long .double 0) := rfl
  have hmode := congrArg Prod.snd htokens
  rw [hescaped, escapeLast_concat, literal, tokens, String.toList_append, String.toList_append,
    String.toList_ofList, Mode.read_append, Mode.read_append, Mode.read_append, Mode.read_append,
    hopen] at hmode
  obtain ⟨-, hawaits⟩ := read_escaped cs
  generalize ((Mode.long .double 0).read (escaped cs)).2 = mode at hmode hawaits
  cases hawaits with
  | long _ _ => cases hmode
  | broken =>
      rw [Mode.read_broken, Mode.read_broken, Mode.read_broken] at hmode
      cases hmode

/-! ### Documentation -/

/-- The lines that documentation is about. -/
def docLines (docs : List String) : List String :=
  trimLines (docs.map strip)

/-- What lines say: one as it stands, several in lines of their own. -/
def docValue : List String → String
  | [line] => line
  | ls => "\n" ++ unlines ls ++ "\n"

/-- There is documentation if there are lines for it, and it is a literal that stands for them. -/
def IsWellFormed (docs : List String) : Prop :=
  docLines docs = [] ∧ docstring? docs = none ∨
    ∃ doc, docstring? docs = some doc ∧ IsLiteralOf doc (docValue (docLines docs))

theorem trimLines_map {f : String → String} (h : ∀ l, (f l).isEmpty = l.isEmpty)
    (ls : List String) : trimLines (ls.map f) = (trimLines ls).map f := by
  have hcomp : (fun l => (f l).isEmpty) = fun l : String => l.isEmpty := funext h
  have hdrop (ls : List String) : (ls.map f).dropWhile (·.isEmpty) =
      (ls.dropWhile (·.isEmpty)).map f := by
    rw [List.dropWhile_map]
    exact congrArg (fun p => (ls.dropWhile p).map f) hcomp
  rw [trimLines, hdrop, ← List.map_reverse, hdrop, ← List.map_reverse, trimLines]

theorem isEmpty_escaped (line : String) :
    (String.ofList (escaped line.toList)).isEmpty = line.isEmpty := by
  have hnil : escaped line.toList = [] ↔ line.toList = [] := by
    refine ⟨fun h => ?_, fun h => by rw [h]; rfl⟩
    have hvalue := unescape_escaped line.toList
    rw [h] at hvalue
    exact (Option.some.inj hvalue).symm
  rw [Bool.eq_iff_iff, String.isEmpty_iff, String.isEmpty_iff, ← String.toList_eq_nil_iff,
    ← String.toList_eq_nil_iff, String.toList_ofList]
  exact hnil

theorem mem_of_dropEndWhile {p : Char → Bool} {c : Char} {cs : List Char}
    (h : c ∈ Text.dropEndWhile p cs) : c ∈ cs := by
  induction cs with
  | nil => exact h
  | cons d rest ih =>
      rw [Text.dropEndWhile] at h
      split at h
      · split_ifs at h
        · cases h
        · exact List.mem_singleton.mp h ▸ List.mem_cons_self
      · rcases List.mem_cons.mp h with rfl | hmem
        · exact List.mem_cons_self
        · exact List.mem_cons_of_mem d (ih hmem)

theorem mem_of_strip {c : Char} {s : String} (h : c ∈ (strip s).toList) : c ∈ s.toList := by
  rw [strip, String.toList_ofList, Text.trimChars] at h
  exact (List.dropWhile_sublist _).subset (mem_of_dropEndWhile h)

theorem docLines_unbroken {docs : List String} (h : ∀ doc ∈ docs, IsUnbroken doc.toList) :
    ∀ line ∈ docLines docs, IsUnbroken line.toList := by
  intro line hline
  obtain ⟨doc, hdoc, rfl⟩ := List.mem_map.mp (trimLines_subset _ hline)
  exact fun c hc => h doc hdoc c (mem_of_strip hc)

/-- Documentation is well formed unless it is one line that ends in threes of quotes. -/
theorem isWellFormed_iff {docs : List String} (h : ∀ doc ∈ docs, IsUnbroken doc.toList) :
    IsWellFormed docs ↔ ¬ ∃ line, docLines docs = [line] ∧ EndsInThrees line.toList := by
  have hunbroken := docLines_unbroken h
  have hlines : trimLines (docs.map docLine) =
      (docLines docs).map fun line => String.ofList (escaped line.toList) := by
    rw [docLines, ← trimLines_map isEmpty_escaped, List.map_map]
    rfl
  rw [IsWellFormed, docstring?, hlines]
  generalize docLines docs = ls at hunbroken
  rcases ls with _ | ⟨line, _ | ⟨k, rest⟩⟩
  · refine ⟨fun _ => ?_, fun _ => .inl ⟨rfl, rfl⟩⟩
    rintro ⟨line, hline, -⟩
    cases hline
  · have hline := hunbroken line (List.mem_singleton_self line)
    rw [List.map_singleton]
    constructor
    · rintro (⟨hnil, -⟩ | ⟨doc, hdoc, hliteral⟩) ⟨same, hsame, hends⟩
      · cases hnil
      · cases hsame
        cases hdoc
        rw [String.toList_ofList] at hliteral
        exact not_isLiteralOf hends _ hliteral
    · intro hends
      refine .inr ⟨_, rfl, ?_⟩
      rw [String.toList_ofList]
      exact (says_escapeLast hline fun h => hends ⟨line, rfl, h⟩).isLiteralOf
  · refine ⟨fun _ => ?_, fun _ => .inr ⟨_, rfl, ?_⟩⟩
    · rintro ⟨same, hsame, -⟩
      cases hsame
    · have hsays := says_newline.append (says_unlines hunbroken)
      simpa only [List.map_cons, literal, docValue, String.append_assoc] using hsays.isLiteralOf

/-- Of four quotes one is left behind the three, which alone can be escaped. -/
theorem fourQuotes_isWellFormed : (∀ doc ∈ [" \\\"\"\"\" ", ""], IsUnbroken doc.toList) ∧
    IsWellFormed [" \\\"\"\"\" ", ""] := by
  have hunbroken : ∀ doc ∈ [" \\\"\"\"\" ", ""], IsUnbroken doc.toList := by decide
  have hlines : docLines [" \\\"\"\"\" ", ""] = ["\\\"\"\"\""] := rfl
  refine ⟨hunbroken, (isWellFormed_iff hunbroken).mpr ?_⟩
  rintro ⟨line, hline, -, hthrees⟩
  obtain rfl : "\\\"\"\"\"" = line := (List.cons.inj (hlines.symm.trans hline)).1
  exact absurd hthrees (by decide)

/-- Of three quotes the last is escaped twice. -/
theorem not_isWellFormed_threeQuotes :
    (∀ doc ∈ ["\"\"\""], IsUnbroken doc.toList) ∧ ¬ IsWellFormed ["\"\"\""] := by
  refine ⟨by decide, ?_⟩
  rintro (⟨hnil, -⟩ | ⟨doc, hdoc, hliteral⟩)
  · exact absurd hnil (by decide)
  · obtain rfl : literal (String.ofList (escapeLast (escaped "\"\"\"".toList))) = doc :=
      Option.some.inj hdoc
    exact not_isLiteralOf (by decide) _ hliteral

end InkBindings.Bindings
