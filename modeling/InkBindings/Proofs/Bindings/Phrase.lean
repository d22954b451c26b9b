import InkBindings.Naming

/-!
The expressions of the emitted module as phrases: a word, or phrases in brackets behind a word that
may be empty. A phrase is read from left to right with a stack of open brackets, and reading the
text of a phrase gives the phrase back.
-/

namespace InkBindings.Bindings

inductive Bracket
  | round
  | square
  deriving DecidableEq, Repr

def Bracket.opening : Bracket → Char
  | .round => '('
  | .square => '['

def Bracket.closing : Bracket → Char
  | .round => ')'
  | .square => ']'

inductive Phrase
  | word (w : String)
  | group (head : String) (bracket : Bracket) (items : List Phrase)

/-- What names, numbers and quoted names are made of. -/
def isWordChar (c : Char) : Bool :=
  Naming.isNameChar c || c == '.' || c == '-' || c == '"'

namespace Phrase

mutual

def text : Phrase → String
  | word w => w
  | group head bracket items =>
    head ++ String.singleton bracket.opening ++ ", ".intercalate (texts items) ++
      String.singleton bracket.closing

def texts : List Phrase → List String
  | [] => []
  | p :: rest => text p :: texts rest

end

inductive Wellformed : Phrase → Prop
  | word {w : String} : w ≠ "" → (∀ c ∈ w.toList, isWordChar c) → Wellformed (.word w)
  | group {head : String} {bracket : Bracket} {items : List Phrase} :
      (∀ c ∈ head.toList, isWordChar c) → (∀ p ∈ items, Wellformed p) →
      Wellformed (.group head bracket items)

theorem Wellformed.one {head : String} {bracket : Bracket} {p : Phrase}
    (hhead : ∀ c ∈ head.toList, isWordChar c) (hp : p.Wellformed) :
    (Phrase.group head bracket [p]).Wellformed :=
  .group hhead (List.forall_mem_singleton.mpr hp)

theorem Wellformed.two {head : String} {bracket : Bracket} {p q : Phrase}
    (hhead : ∀ c ∈ head.toList, isWordChar c) (hp : p.Wellformed) (hq : q.Wellformed) :
    (Phrase.group head bracket [p, q]).Wellformed :=
  .group hhead (List.forall_mem_cons.mpr ⟨hp, List.forall_mem_singleton.mpr hq⟩)

/-- What these words have, and phrases in brackets behind these heads if each of them has it. -/
structure Closed (words heads : List String) (P : Phrase → Prop) : Prop where
  word {w : String} : w ∈ words → P (.word w)
  group {head : String} {bracket : Bracket} {items : List Phrase} : head ∈ heads →
    (∀ p ∈ items, P p) → P (.group head bracket items)

theorem Closed.one {words heads : List String} {P : Phrase → Prop} (h : Closed words heads P)
    {head : String} {bracket : Bracket} {p : Phrase} (hhead : head ∈ heads) (hp : P p) :
    P (.group head bracket [p]) :=
  h.group hhead (List.forall_mem_singleton.mpr hp)

theorem Closed.two {words heads : List String} {P : Phrase → Prop} (h : Closed words heads P)
    {head : String} {bracket : Bracket} {p q : Phrase} (hhead : head ∈ heads) (hp : P p)
    (hq : P q) : P (.group head bracket [p, q]) :=
  h.group hhead (List.forall_mem_cons.mpr ⟨hp, List.forall_mem_singleton.mpr hq⟩)

theorem closed_wellformed {words heads : List String}
    (hwords : (words.all fun w => w != "" && w.toList.all isWordChar) = true)
    (hheads : (heads.all fun head => head.toList.all isWordChar) = true) :
    Closed words heads Wellformed where
  word hw := by
    have hchars := List.all_eq_true.mp hwords _ hw
    rw [Bool.and_eq_true, bne_iff_ne] at hchars
    exact .word hchars.1 (List.all_eq_true.mp hchars.2)
  group hhead hitems := .group (List.all_eq_true.mp (List.all_eq_true.mp hheads _ hhead)) hitems

/-! ### Reading -/

/-- What has been read since the last bracket was opened or the last comma. -/
inductive Pending
  | nothing
  | letters (cs : List Char)
  | phrase (p : Phrase)

def Pending.phrase? : Pending → Option Phrase
  | .nothing => none
  | .letters cs => some (.word (String.ofList cs))
  | .phrase p => some p

/-- An open bracket: the word before it, and the phrases before that. -/
structure Frame where
  head : String
  bracket : Bracket
  before : List Phrase

structure Reader where
  frames : List Frame
  before : List Phrase
  pending : Pending

namespace Reader

def start : Reader := ⟨[], [], .nothing⟩

def letter (r : Reader) (c : Char) : Option Reader :=
  match r.pending with
  | .nothing => some { r with pending := .letters [c] }
  | .letters cs => some { r with pending := .letters (cs ++ [c]) }
  | .phrase _ => none

def enter (r : Reader) (b : Bracket) : Option Reader :=
  match r.pending with
  | .nothing => some ⟨⟨"", b, r.before⟩ :: r.frames, [], .nothing⟩
  | .letters cs => some ⟨⟨String.ofList cs, b, r.before⟩ :: r.frames, [], .nothing⟩
  | .phrase _ => none

/-- The phrases in the innermost brackets. Brackets with nothing in them are no phrase that is
missing. -/
def items? (r : Reader) : Option (List Phrase) :=
  match r.pending.phrase?, r.before with
  | some p, before => some (before ++ [p])
  | none, [] => some []
  | none, _ :: _ => none

def leave (r : Reader) (b : Bracket) : Option Reader :=
  match r.frames with
  | [] => none
  | f :: frames =>
    if f.bracket = b then
      r.items?.map fun items => ⟨frames, f.before, .phrase (.group f.head b items)⟩
    else none

def comma (r : Reader) : Option Reader :=
  r.pending.phrase?.map fun p => ⟨r.frames, r.before ++ [p], .nothing⟩

/-- A blank stands behind a comma only. -/
def blank (r : Reader) : Option Reader :=
  match r.pending, r.before with
  | .nothing, _ :: _ => some r
  | _, _ => none

def step (r : Reader) (c : Char) : Option Reader :=
  match c with
  | '(' => r.enter .round
  | '[' => r.enter .square
  | ')' => r.leave .round
  | ']' => r.leave .square
  | ',' => r.comma
  | ' ' => r.blank
  | c => if isWordChar c then r.letter c else none

def run (r : Reader) (cs : List Char) : Option Reader :=
  cs.foldlM step r

end Reader

/-- The phrase that a text is. -/
def ofChars? (cs : List Char) : Option Phrase :=
  match Reader.start.run cs with
  | some ⟨[], [], pending⟩ => pending.phrase?
  | _ => none

def ofText? (s : String) : Option Phrase :=
  ofChars? s.toList

/-! ### Reading what was written -/

/-- How a phrase stands when its last character has been read. -/
def pending : Phrase → Pending
  | word w => .letters w.toList
  | p => .phrase p

theorem phrase_pending (p : Phrase) : p.pending.phrase? = some p := by
  cases p with
  | word w => simp [pending, Pending.phrase?]
  | group head bracket items => rfl

theorem texts_eq_map (ps : List Phrase) : texts ps = ps.map text := by
  induction ps with
  | nil => rfl
  | cons p rest ih => rw [texts, ih, List.map_cons]

namespace Reader

theorem run_append (r : Reader) (cs ds : List Char) :
    r.run (cs ++ ds) = (r.run cs).bind fun r => r.run ds :=
  List.foldlM_append

theorem run_cons (r : Reader) (c : Char) (cs : List Char) :
    r.run (c :: cs) = (r.step c).bind fun r => r.run cs := rfl

theorem step_letter {c : Char} (h : isWordChar c) (r : Reader) : r.step c = r.letter c := by
  simp only [step]
  split <;> first | exact absurd h (by decide) | exact if_pos h

theorem run_letters (r : Reader) {cs ds : List Char} (hpending : r.pending = .letters cs)
    (h : ∀ c ∈ ds, isWordChar c) : r.run ds = some { r with pending := .letters (cs ++ ds) } := by
  induction ds generalizing r cs with
  | nil =>
      obtain ⟨frames, before, pending⟩ := r
      subst hpending
      rw [List.append_nil]
      rfl
  | cons d rest ih =>
      have hstep : r.step d = some { r with pending := .letters (cs ++ [d]) } := by
        rw [step_letter (h d List.mem_cons_self), letter, hpending]
      rw [run_cons, hstep, Option.bind_some, ih _ rfl fun c hc => h c (List.mem_cons_of_mem d hc),
        List.append_assoc, List.singleton_append]

theorem run_word (r : Reader) (hpending : r.pending = .nothing) {w : String} (hne : w ≠ "")
    (h : ∀ c ∈ w.toList, isWordChar c) :
    r.run w.toList = some { r with pending := .letters w.toList } := by
  cases hw : w.toList with
  | nil => exact absurd (String.toList_eq_nil_iff.mp hw) hne
  | cons c rest =>
      have hstep : r.step c = some { r with pending := .letters [c] } := by
        rw [step_letter (h c (by simp [hw])), letter, hpending]
      rw [run_cons, hstep, Option.bind_some,
        run_letters _ rfl fun d hd => h d (by rw [hw]; exact List.mem_cons_of_mem c hd)]
      rfl

theorem run_head (r : Reader) (hpending : r.pending = .nothing) {head : String}
    (h : ∀ c ∈ head.toList, isWordChar c) (b : Bracket) :
    r.run (head.toList ++ [b.opening]) = some ⟨⟨head, b, r.before⟩ :: r.frames, [], .nothing⟩ := by
  have hstep : ∀ r : Reader, r.step b.opening = r.enter b := by
    intro r
    cases b <;> rfl
  have hopen : ∀ r : Reader, r.run [b.opening] = r.enter b := by
    intro r
    rw [run_cons, hstep]
    exact Option.bind_fun_some (r.enter b)
  by_cases hne : head = ""
  · subst hne
    rw [String.toList_empty, List.nil_append, hopen, enter, hpending]
  · rw [run_append, run_word r hpending hne h, Option.bind_some, hopen, enter]
    simp

theorem run_closing {r : Reader} {f : Frame} {frames : List Frame} (hframes : r.frames = f :: frames)
    {items : List Phrase} (hitems : r.items? = some items) :
    r.run [f.bracket.closing] =
      some ⟨frames, f.before, .phrase (.group f.head f.bracket items)⟩ := by
  have hstep : r.step f.bracket.closing = r.leave f.bracket := by
    cases f.bracket <;> rfl
  simp only [run_cons, hstep, leave, hframes, hitems, if_true, Option.map_some, Option.bind_some]
  rfl

/-- The phrases of a group and the bracket behind them. -/
theorem run_items {items : List Phrase}
    (hitems : ∀ p ∈ items, ∀ r : Reader, r.pending = .nothing →
      r.run p.text.toList = some { r with pending := p.pending })
    (f : Frame) (frames : List Frame) (before : List Phrase) (h : items ≠ [] ∨ before = []) :
    (⟨f :: frames, before, .nothing⟩ : Reader).run
        ((", ".intercalate (texts items)).toList ++ [f.bracket.closing]) =
      some ⟨frames, f.before, .phrase (.group f.head f.bracket (before ++ items))⟩ := by
  induction items generalizing before with
  | nil =>
      obtain rfl := h.resolve_left (fun hne => hne rfl)
      rw [texts, String.intercalate_nil, String.toList_empty, List.nil_append]
      exact run_closing rfl rfl
  | cons p rest ih =>
      have hp := hitems p List.mem_cons_self ⟨f :: frames, before, .nothing⟩ rfl
      cases rest with
      | nil =>
          rw [texts, texts, String.intercalate_singleton, run_append, hp, Option.bind_some]
          exact run_closing rfl (by simp only [items?, phrase_pending])
      | cons q rest =>
          have hcomma : (⟨f :: frames, before, p.pending⟩ : Reader).run ", ".toList =
              some ⟨f :: frames, before ++ [p], .nothing⟩ := by
            have hstep : (⟨f :: frames, before, p.pending⟩ : Reader).step ',' =
                some ⟨f :: frames, before ++ [p], .nothing⟩ := by
              simp only [step, comma, phrase_pending, Option.map_some]
            change Reader.run _ [',', ' '] = _
            rw [run_cons, hstep, Option.bind_some]
            cases before <;> rfl
          have hrest := ih (fun q hq => hitems q (List.mem_cons_of_mem p hq)) (before ++ [p])
            (.inl (List.cons_ne_nil q rest))
          rw [texts] at hrest ⊢
          rw [texts, String.intercalate_cons_cons, String.toList_append, String.toList_append,
            List.append_assoc, List.append_assoc, run_append, hp, Option.bind_some, run_append,
            hcomma, Option.bind_some, hrest, List.append_assoc, List.singleton_append]

theorem run_text {p : Phrase} (h : p.Wellformed) (r : Reader) (hpending : r.pending = .nothing) :
    r.run p.text.toList = some { r with pending := p.pending } := by
  induction h generalizing r with
  | word hne hw => exact run_word r hpending hne hw
  | @group head b items hhead _ ih =>
      have hitems := run_items ih ⟨head, b, r.before⟩ r.frames [] (.inr rfl)
      have htext : (Phrase.group head b items).text.toList = (head.toList ++ [b.opening]) ++
          ((", ".intercalate (texts items)).toList ++ [b.closing]) := by
        simp only [text, String.toList_append, String.toList_singleton, List.append_assoc]
      rw [htext, run_append, run_head r hpending hhead, Option.bind_some, hitems]
      rfl

end Reader

theorem ofChars_text {p : Phrase} (h : p.Wellformed) : ofChars? p.text.toList = some p := by
  rw [ofChars?, Reader.run_text h Reader.start rfl]
  exact phrase_pending p

theorem exists_text_group (head : String) (b : Bracket) (items : List Phrase) :
    ∃ cs, (group head b items).text.toList = cs ++ [b.closing] :=
  ⟨(head ++ String.singleton b.opening ++ ", ".intercalate (texts items)).toList, by
    rw [text, String.toList_append, String.toList_singleton]⟩

theorem not_mem_intercalate {c : Char} {separator : String} (hc : c ∉ separator.toList)
    {parts : List String} (h : ∀ s ∈ parts, c ∉ s.toList) :
    c ∉ (separator.intercalate parts).toList := by
  induction parts with
  | nil => simp
  | cons s rest ih =>
      have hs := h s List.mem_cons_self
      have hrest := ih fun t ht => h t (List.mem_cons_of_mem s ht)
      cases rest with
      | nil => simpa using hs
      | cons t rest =>
          rw [String.intercalate_cons_cons]
          simp only [String.toList_append, List.mem_append, not_or]
          exact ⟨⟨hs, hc⟩, hrest⟩

/-- A phrase stands on one line. -/
theorem newline_not_mem_text {p : Phrase} (h : p.Wellformed) : '\n' ∉ p.text.toList := by
  induction h with
  | word _ hw => exact fun hmem => absurd (hw _ hmem) (by decide)
  | @group head b items hhead _ ih =>
      have hitems : ∀ s ∈ texts items, '\n' ∉ s.toList := by
        intro s hs
        rw [texts_eq_map] at hs
        obtain ⟨p, hp, rfl⟩ := List.mem_map.mp hs
        exact ih p hp
      simp only [text, String.toList_append, String.toList_singleton, List.mem_append,
        List.mem_singleton, not_or]
      refine ⟨⟨⟨fun hmem => absurd (hhead _ hmem) (by decide), ?_⟩,
        not_mem_intercalate (by decide) hitems⟩, ?_⟩ <;> cases b <;> decide

/-- Reading the text of a phrase gives it back. -/
theorem ofText_text {p : Phrase} (h : p.Wellformed) : ofText? p.text = some p :=
  ofChars_text h

end Phrase
end InkBindings.Bindings
