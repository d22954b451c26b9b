import InkBindings.Bindings.Printer
import InkBindings.Proofs.Text.Lines
import Mathlib.Data.List.Forall2

/-!
The functions of a class, as the lines of its text have them. They begin at the margin of the body,
each with its decorators, and what stands further to the right belongs to the function above it.
-/

namespace InkBindings.Bindings

/-- A function of a class, with those lines of its body that are not blank. -/
structure Function where
  decorators : List String
  line : String
  body : List String
  deriving DecidableEq, Repr

namespace Function

def isDecorator (line : String) : Bool :=
  line.toList.head? = some '@'

def keyword : String := "def "

def isDefinition (line : String) : Bool :=
  keyword.toList.isPrefixOf line.toList

/-- The name that the function is bound to. -/
def name (f : Function) : String :=
  String.ofList ((f.line.toList.drop keyword.length).takeWhile Naming.isNameChar)

/-- Reads functions from lines at the margin, after some decorators. -/
def readFrom (decorators : List String) : List String → List Function
  | [] => []
  | line :: rest =>
    if isDecorator line then readFrom (decorators ++ [line]) rest
    else if isDefinition line then
      ⟨decorators, line, (rest.takeWhile Text.isInner).filter (· ≠ "")⟩ :: readFrom [] rest
    else readFrom decorators rest

end Function

/-- A line of the body of a class without the margin. -/
def outdent (line : String) : String :=
  String.ofList (line.toList.drop Text.margin.length)

/-- The functions in the body of a class. -/
def functionsOf (body : String) : List Function :=
  Function.readFrom [] ((Text.lines body).map outdent)

/-! ### Lines of the body -/

theorem outdent_indentLine (line : String) :
    outdent (Text.indentLine line) = if line.toList.all Text.isBlank then "" else line := by
  rw [outdent, Text.indentLine]
  split
  · rfl
  · rw [String.toList_append]
    exact String.ofList_toList

/-- The line stands to the right of the margin, and is empty if it is blank. -/
structure IsBodyLine (line : String) : Prop where
  inner : Text.isInner line = true
  blank : line.toList.all Text.isBlank = true → line = ""

theorem isBodyLine_indentLine (line : String) : IsBodyLine (Text.indentLine line) := by
  refine ⟨Text.isInner_indentLine line, ?_⟩
  rw [Text.indentLine]
  split
  · exact fun _ => rfl
  · rename_i hline
    intro hall
    rw [String.toList_append, List.all_append, Bool.and_eq_true] at hall
    exact absurd hall.2 hline

namespace IsBodyLine
variable {line : String}

theorem outdent_indent (h : IsBodyLine line) : outdent (Text.indentLine line) = line := by
  rw [outdent_indentLine]
  split
  · rename_i hblank
    exact (h.blank hblank).symm
  · rfl

theorem not_isDecorator (h : IsBodyLine line) : Function.isDecorator line = false := by
  have hinner := h.inner
  rw [Text.isInner] at hinner
  rw [Function.isDecorator, decide_eq_false_iff_not]
  intro hhead
  rw [hhead] at hinner
  exact absurd hinner (by decide)

theorem not_isDefinition (h : IsBodyLine line) : Function.isDefinition line = false := by
  have hinner := h.inner
  rw [Text.isInner] at hinner
  rw [Function.isDefinition, Bool.eq_false_iff]
  intro hprefix
  obtain ⟨rest, hrest⟩ := List.isPrefixOf_iff_prefix.mp hprefix
  rw [← hrest] at hinner
  exact absurd hinner (by simp [Function.keyword])

end IsBodyLine

/-! ### Members of a class -/

/-- The text of a member has the lines of the function. -/
structure IsMember (text : String) (f : Function) : Prop where
  decorators : ∀ d ∈ f.decorators, Function.isDecorator d = true
  line : Function.isDefinition f.line = true
  lines : ∃ inner, Text.lines text = f.decorators ++ f.line :: inner ∧
    (∀ l ∈ inner, IsBodyLine l) ∧ f.body = inner.filter (· ≠ "")

theorem outdent_of_head {line : String} {c : Char} (hhead : line.toList.head? = some c)
    (hc : Text.isBlank c = false) : outdent (Text.indentLine line) = line := by
  rw [outdent_indentLine, if_neg]
  rw [List.all_eq_true]
  intro hall
  exact Bool.false_ne_true (hc.symm.trans (hall c (List.mem_of_mem_head? hhead)))

theorem head_of_isDefinition {line : String} (h : Function.isDefinition line = true) :
    line.toList.head? = some 'd' := by
  obtain ⟨rest, hrest⟩ := List.isPrefixOf_iff_prefix.mp h
  rw [← hrest]
  rfl

theorem head_of_isDecorator {line : String} (h : Function.isDecorator line = true) :
    line.toList.head? = some '@' :=
  of_decide_eq_true h

/-- The lines of a member in its class, without the margin. -/
def memberLines (text : String) : List String :=
  (Text.lines ("\n" ++ Text.indent text)).map outdent

theorem IsMember.memberLines_eq {text : String} {f : Function} (h : IsMember text f) :
    ∃ inner, memberLines text = "" :: f.decorators ++ f.line :: inner ∧
      (∀ l ∈ inner, IsBodyLine l) ∧ f.body = inner.filter (· ≠ "") := by
  obtain ⟨inner, hlines, hinner, hbody⟩ := h.lines
  refine ⟨inner, ?_, hinner, hbody⟩
  have hdecorators : f.decorators.map (outdent ∘ Text.indentLine) = f.decorators := by
    refine (List.map_congr_left fun d hd => ?_).trans (List.map_id _)
    exact outdent_of_head (head_of_isDecorator (h.decorators d hd)) (by decide)
  have hline : (outdent ∘ Text.indentLine) f.line = f.line :=
    outdent_of_head (head_of_isDefinition h.line) (by decide)
  have hbodyLines : inner.map (outdent ∘ Text.indentLine) = inner :=
    (List.map_congr_left fun l hl => (hinner l hl).outdent_indent).trans (List.map_id _)
  have hsplit : Text.lines ("\n" ++ Text.indent text) = "" :: Text.lines (Text.indent text) := by
    rw [Text.lines, String.toList_append]
    exact congrArg (List.map String.ofList) (Text.splitLines_newline [] _)
  rw [memberLines, hsplit, Text.lines_indent, hlines, List.map_cons, List.map_map, List.map_append,
    List.map_cons, hdecorators, hline, hbodyLines]
  rfl

namespace Function

theorem readFrom_decorators {decorators : List String}
    (h : ∀ d ∈ decorators, isDecorator d = true) (before rest : List String) :
    readFrom before (decorators ++ rest) = readFrom (before ++ decorators) rest := by
  induction decorators generalizing before with
  | nil => rw [List.nil_append, List.append_nil]
  | cons d more ih =>
      rw [List.cons_append, readFrom, if_pos (h d List.mem_cons_self),
        ih (fun d hd => h d (List.mem_cons_of_mem _ hd)), List.append_assoc]
      rfl

theorem readFrom_inner {inner : List String} (h : ∀ l ∈ inner, IsBodyLine l)
    (before rest : List String) : readFrom before (inner ++ rest) = readFrom before rest := by
  induction inner with
  | nil => rfl
  | cons l more ih =>
      have hl := h l List.mem_cons_self
      rw [List.cons_append, readFrom, hl.not_isDecorator, hl.not_isDefinition]
      exact ih fun l hl => h l (List.mem_cons_of_mem _ hl)

end Function

/-- Nothing of these lines would belong to a function above them. -/
def IsClosed (lines : List String) : Prop :=
  (lines.takeWhile Text.isInner).filter (· ≠ "") = []

theorem isClosed_of_head {line : String} {c : Char} (hhead : line.toList.head? = some c)
    (hc : c ≠ ' ') (rest : List String) : IsClosed ("" :: line :: rest) := by
  have hline : Text.isInner line = false := by
    rw [Text.isInner, hhead]
    simpa using hc
  rw [IsClosed, List.takeWhile_cons_of_pos (by rfl), List.takeWhile_cons_of_neg (by simp [hline])]
  rfl

/-- A member is read as its function, whatever comes after it. -/
theorem readFrom_memberLines {text : String} {f : Function} (h : IsMember text f)
    {rest : List String} (hrest : IsClosed rest) :
    Function.readFrom [] (memberLines text ++ rest) = f :: Function.readFrom [] rest ∧
      IsClosed (memberLines text ++ rest) := by
  obtain ⟨inner, hlines, hinner, hbody⟩ := h.memberLines_eq
  have hnot : Function.isDecorator f.line = false := by
    rw [Function.isDecorator, head_of_isDefinition h.line]
    rfl
  constructor
  · -- the body ends where the rest begins, since nothing of the rest belongs to it
    have htake : ((inner ++ rest).takeWhile Text.isInner).filter (· ≠ "") = f.body := by
      rw [List.takeWhile_append_of_pos fun l hl => (hinner l hl).inner, List.filter_append, hrest,
        List.append_nil, hbody]
    rw [hlines, List.cons_append, List.cons_append, List.append_assoc, List.cons_append,
      Function.readFrom, if_neg (by decide), if_neg (by decide),
      Function.readFrom_decorators h.decorators, Function.readFrom, hnot, h.line]
    simp only [Bool.false_eq_true, if_false, if_true, List.nil_append, htake,
      Function.readFrom_inner hinner]
  · rw [hlines]
    cases hdecorators : f.decorators with
    | nil => exact isClosed_of_head (head_of_isDefinition h.line) (by decide) _
    | cons d more =>
        have hd : Function.isDecorator d = true :=
          h.decorators d (hdecorators ▸ List.mem_cons_self)
        exact isClosed_of_head (head_of_isDecorator hd) (by decide) _

theorem readFrom_members {texts : List String} {fs : List Function}
    (h : List.Forall₂ IsMember texts fs) :
    Function.readFrom [] (texts.flatMap memberLines) = fs ∧
      IsClosed (texts.flatMap memberLines) := by
  induction h with
  | nil => exact ⟨rfl, rfl⟩
  | cons hfirst _ ih =>
      obtain ⟨hread, hclosed⟩ := readFrom_memberLines hfirst ih.2
      rw [List.flatMap_cons]
      exact ⟨hread.trans (congrArg _ ih.1), hclosed⟩

/-- The lines of a body are those of its members. -/
theorem lines_memberBlock (first : String) (rest : List String) :
    (Text.lines (memberBlock (first :: rest))).map outdent =
      (first :: rest).flatMap memberLines := by
  rw [memberBlock, Text.lines_unlines (by simp), List.flatMap_map, List.map_flatMap]
  rfl

/-- The functions of a class are its members. -/
theorem functionsOf_memberBlock {texts : List String} {fs : List Function}
    (h : List.Forall₂ IsMember texts fs) :
    functionsOf (memberBlock texts) = fs ∧
      IsClosed ((Text.lines (memberBlock texts)).map outdent) := by
  cases texts with
  | nil =>
      cases h
      exact ⟨rfl, rfl⟩
  | cons first rest =>
      rw [functionsOf, lines_memberBlock]
      exact readFrom_members h

end InkBindings.Bindings
