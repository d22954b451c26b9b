import InkBindings.Proofs.Text.Lines

/-!
The emitted module as it is read from left to right. Reading leaves out what stands in literals and
comments; the characters that remain, with the places of the literals, make up its tokens.
-/

namespace InkBindings.Bindings

/-- What a literal begins and ends with, once or three times. -/
inductive Mark
  | single
  | double
  deriving DecidableEq, Repr

def Mark.char : Mark → Char
  | .single => '\''
  | .double => '"'

def Mark.ofChar? (c : Char) : Option Mark :=
  if c = '\'' then some .single else if c = '"' then some .double else none

inductive Mode
  | code
  | comment
  /-- Behind one mark or two, which may be the first of three. -/
  | opening (mark : Mark) (twice : Bool)
  | short (mark : Mark)
  | shortEscape (mark : Mark)
  /-- Behind an escaped carriage return, which a line feed may belong to. -/
  | shortReturn (mark : Mark)
  /-- In a literal in three marks, behind so many that may be the last. -/
  | long (mark : Mark) (marks : Nat)
  | longEscape (mark : Mark)
  /-- Behind what no source may have. -/
  | broken
  deriving DecidableEq, Repr

/-- What is left of a source without the contents of literals and comments. -/
inductive Piece
  | char (c : Char)
  | opened (mark : Mark) (long : Bool)
  | closed
  deriving DecidableEq, Repr

namespace Mode

def isLineEnd (c : Char) : Bool :=
  c == '\n' || c == '\r'

def inCode (c : Char) : List Piece × Mode :=
  match Mark.ofChar? c with
  | some mark => ([], .opening mark false)
  | none => if c = '#' then ([], .comment) else ([.char c], .code)

def inShort (mark : Mark) (c : Char) : List Piece × Mode :=
  if c = mark.char then ([.closed], .code)
  else if c = '\\' then ([], .shortEscape mark)
  else if isLineEnd c then ([], .broken)
  else ([], .short mark)

def inLong (mark : Mark) (marks : Nat) (c : Char) : List Piece × Mode :=
  if c = mark.char then
    if marks = 2 then ([.closed], .code) else ([], .long mark (marks + 1))
  else if c = '\\' then ([], .longEscape mark)
  else ([], .long mark 0)

/-- Reads a character. There is no source with a null character. -/
def step (m : Mode) (c : Char) : List Piece × Mode :=
  if c.toNat = 0 then ([], .broken)
  else
    match m with
    | .code => inCode c
    | .comment => if isLineEnd c then ([.char c], .code) else ([], .comment)
    | .opening mark false =>
      if c = mark.char then ([], .opening mark true)
      else ((inShort mark c).1.cons (.opened mark false), (inShort mark c).2)
    | .opening mark true =>
      if c = mark.char then ([.opened mark true], .long mark 0)
      else ([.opened mark false, .closed] ++ (inCode c).1, (inCode c).2)
    | .short mark => inShort mark c
    | .shortEscape mark => if c = '\r' then ([], .shortReturn mark) else ([], .short mark)
    | .shortReturn mark => if c = '\n' then ([], .short mark) else inShort mark c
    | .long mark marks => inLong mark marks c
    | .longEscape mark => ([], .long mark 0)
    | .broken => ([], .broken)

/-- What is left of the characters, and where they lead. -/
def read (m : Mode) : List Char → List Piece × Mode
  | [] => ([], m)
  | c :: rest =>
    let (pieces, next) := m.step c
    let (more, last) := next.read rest
    (pieces ++ more, last)

theorem read_cons (m : Mode) (c : Char) (rest : List Char) :
    m.read (c :: rest) =
      ((m.step c).1 ++ ((m.step c).2.read rest).1, ((m.step c).2.read rest).2) := rfl

theorem read_append (m : Mode) (cs ds : List Char) :
    m.read (cs ++ ds) =
      ((m.read cs).1 ++ ((m.read cs).2.read ds).1, ((m.read cs).2.read ds).2) := by
  induction cs generalizing m with
  | nil => rfl
  | cons c rest ih =>
      rw [List.cons_append, read_cons, read_cons, ih]
      simp only [List.append_assoc]

theorem read_broken (cs : List Char) : broken.read cs = ([], broken) := by
  induction cs with
  | nil => rfl
  | cons c rest ih =>
      have hstep : broken.step c = ([], broken) := by
        unfold step
        split <;> rfl
      rw [read_cons, hstep, ih]
      rfl

end Mode

/-- What is left of a source, and where reading it ends: in the code, if all that is opened is
closed again. -/
def tokens (source : String) : List Piece × Mode :=
  Mode.code.read source.toList

/-! ### Parts of a source -/

/-- The two texts, each with the end of its line, have the same tokens, and lead back to the code
unless reading breaks off. -/
structure Alike (s t : String) : Prop where
  same : tokens (s ++ "\n") = tokens (t ++ "\n")
  back : (tokens (s ++ "\n")).2 = .code ∨ (tokens (s ++ "\n")).2 = .broken

/-- Reading the text leads back to the code. -/
def IsComplete (s : String) : Prop :=
  (tokens s).2 = .code

/-- A literal is read from its characters, without the bytes that it is kept in. -/
theorem isComplete_ofList {cs : List Char} (h : (Mode.code.read cs).2 = .code) :
    IsComplete (String.ofList cs) := by
  rwa [IsComplete, tokens, String.toList_ofList]

theorem isComplete_empty : IsComplete "" := rfl

theorem Alike.append {s t s' t' : String} (h : Alike s t) (h' : Alike s' t') :
    Alike (s ++ "\n" ++ s') (t ++ "\n" ++ t') := by
  have hsplit (u v : String) : tokens (u ++ "\n" ++ v ++ "\n") =
      ((tokens (u ++ "\n")).1 ++ ((tokens (u ++ "\n")).2.read (v ++ "\n").toList).1,
        ((tokens (u ++ "\n")).2.read (v ++ "\n").toList).2) := by
    rw [String.append_assoc, tokens, String.toList_append, Mode.read_append]
    rfl
  have hsame : (tokens (s ++ "\n")).2.read (s' ++ "\n").toList =
      (tokens (s ++ "\n")).2.read (t' ++ "\n").toList := by
    rcases h.back with hcode | hbroken
    · rw [hcode]
      exact h'.same
    · rw [hbroken, Mode.read_broken, Mode.read_broken]
  refine ⟨?_, ?_⟩
  · rw [hsplit, hsplit, ← h.same, hsame]
  · rw [hsplit]
    rcases h.back with hcode | hbroken
    · rw [hcode]
      exact h'.back
    · rw [hbroken, Mode.read_broken]
      exact .inr rfl

theorem IsComplete.alike {s : String} (h : IsComplete s) : Alike s s := by
  refine ⟨rfl, .inl ?_⟩
  rw [tokens, String.toList_append, Mode.read_append]
  change ((tokens s).2.read _).2 = _
  rw [h]
  rfl

theorem IsComplete.append {s t : String} (hs : IsComplete s) (ht : IsComplete t) :
    IsComplete (s ++ t) := by
  rw [IsComplete, tokens, String.toList_append, Mode.read_append]
  change ((tokens s).2.read _).2 = _
  rw [hs]
  exact ht

/-- The texts differ behind a part that is read first, and reading goes back to the code. -/
theorem alike_of_read {before s t : String} (hbefore : IsComplete before)
    (hcomplete : (Mode.code.read s.toList).2 = .code)
    (hread : Mode.code.read s.toList = Mode.code.read t.toList) :
    Alike (before ++ s) (before ++ t) := by
  have hsame : tokens (before ++ s) = tokens (before ++ t) := by
    rw [tokens, tokens, String.toList_append, String.toList_append, Mode.read_append,
      Mode.read_append]
    change _ = ((tokens before).1 ++ ((tokens before).2.read _).1, ((tokens before).2.read _).2)
    change ((tokens before).1 ++ ((tokens before).2.read _).1, ((tokens before).2.read _).2) = _
    rw [hbefore, hread]
  have hmore (u : String) : tokens (u ++ "\n") =
      ((tokens u).1 ++ ((tokens u).2.read "\n".toList).1, ((tokens u).2.read "\n".toList).2) := by
    rw [tokens, String.toList_append, Mode.read_append]
    rfl
  refine ⟨by rw [hmore, hmore, hsame], (IsComplete.alike ?_).back⟩
  exact hbefore.append hcomplete

theorem alike_unlines {ls ls' : List String} (h : List.Forall₂ Alike ls ls') :
    Alike (Text.unlines ls) (Text.unlines ls') := by
  induction h with
  | nil => exact IsComplete.alike rfl
  | @cons l l' ls ls' hl hls ih =>
      cases hls with
      | nil => simpa [Text.unlines] using hl
      | @cons k k' rest rest' =>
          have hcons (l k : String) (rest : List String) :
              Text.unlines (l :: k :: rest) = l ++ "\n" ++ Text.unlines (k :: rest) := by
            rw [Text.unlines, String.intercalate_cons_cons, Text.unlines]
          rw [hcons, hcons]
          exact hl.append ih

/-! ### Plain texts -/

/-- The character stands for itself, in the code and in literals, and does not end a line. -/
def isPlainChar (c : Char) : Bool :=
  c.toNat != 0 && (Mark.ofChar? c).isNone && c != '#' && c != '\\' && !Mode.isLineEnd c

def IsPlain (s : String) : Prop :=
  ∀ c ∈ s.toList, isPlainChar c = true

instance (s : String) : Decidable (IsPlain s) :=
  List.decidableBAll (fun c => isPlainChar c = true) s.toList

theorem isPlain_ofList {cs : List Char} (h : cs.all isPlainChar = true) :
    IsPlain (String.ofList cs) := by
  rw [IsPlain, String.toList_ofList]
  exact List.all_eq_true.mp h

theorem isPlain_append {s t : String} : IsPlain (s ++ t) ↔ IsPlain s ∧ IsPlain t := by
  simp only [IsPlain, String.toList_append, List.mem_append, or_imp, forall_and]

structure PlainChar (c : Char) : Prop where
  nonnull : c.toNat ≠ 0
  unmarked : Mark.ofChar? c = none
  hash : c ≠ '#'
  backslash : c ≠ '\\'
  lineEnd : Mode.isLineEnd c = false

theorem plainChar_iff {c : Char} : isPlainChar c = true ↔ PlainChar c := by
  simp only [isPlainChar, Bool.and_eq_true, bne_iff_ne, Option.isNone_iff_eq_none,
    Bool.not_eq_true']
  exact ⟨fun ⟨⟨⟨⟨h, h'⟩, h''⟩, h'''⟩, hend⟩ => ⟨h, h', h'', h''', hend⟩,
    fun h => ⟨⟨⟨⟨h.nonnull, h.unmarked⟩, h.hash⟩, h.backslash⟩, h.lineEnd⟩⟩

theorem PlainChar.ne_mark {c : Char} (h : PlainChar c) (mark : Mark) : c ≠ mark.char := by
  rintro rfl
  have hnone := h.unmarked
  cases mark <;> cases hnone

theorem PlainChar.step_code {c : Char} (h : PlainChar c) :
    Mode.code.step c = ([.char c], .code) := by
  simp only [Mode.step, h.nonnull, if_false, Mode.inCode, h.unmarked, h.hash]

theorem PlainChar.inShort {c : Char} (h : PlainChar c) (mark : Mark) :
    Mode.inShort mark c = ([], .short mark) := by
  simp only [Mode.inShort, h.ne_mark mark, h.backslash, h.lineEnd, if_false, Bool.false_eq_true]

theorem IsPlain.read_code {s : String} (h : IsPlain s) :
    Mode.code.read s.toList = (s.toList.map .char, .code) := by
  rw [IsPlain] at h
  revert h
  induction s.toList with
  | nil => exact fun _ => rfl
  | cons c rest ih =>
      intro h
      obtain ⟨hc, hrest⟩ := List.forall_mem_cons.mp h
      rw [Mode.read_cons, (plainChar_iff.mp hc).step_code, ih hrest]
      rfl

theorem IsPlain.isComplete {s : String} (h : IsPlain s) : IsComplete s := by
  rw [IsComplete, tokens, h.read_code]

theorem IsPlain.read_short {s : String} (h : IsPlain s) (mark : Mark) :
    (Mode.short mark).read s.toList = ([], .short mark) := by
  rw [IsPlain] at h
  revert h
  induction s.toList with
  | nil => exact fun _ => rfl
  | cons c rest ih =>
      intro h
      obtain ⟨hc, hrest⟩ := List.forall_mem_cons.mp h
      have hstep : (Mode.short mark).step c = ([], .short mark) := by
        have hc := plainChar_iff.mp hc
        simp only [Mode.step, hc.nonnull, if_false]
        exact hc.inShort mark
      rw [Mode.read_cons, hstep, ih hrest]
      rfl

end InkBindings.Bindings
