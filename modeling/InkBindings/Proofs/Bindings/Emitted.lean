import InkBindings.Proofs.Bindings.CodecPhrase
import InkBindings.Proofs.Text.Lines

/-!
What the emitted blocks say of declared types. A block whose last line at the left margin heads a
class tells the name of the class, its base, and the index in the decorator of an alternative. The
statements at the left margin make the codecs of instantiations and bind all layouts. Labels and
documentation may hold anything: no block takes another class for its own, and of two statements
about a name the later one counts.
-/

namespace InkBindings.Bindings

open Naming (IsName isNameChar)
open Text (isInner lines unlines indent)

inductive ClassKind
  | record
  | sum
  deriving DecidableEq, Repr

def ClassKind.ofBase? : String → Option ClassKind
  | "scale.Struct" => some .record
  | "scale.Enum" => some .sum
  | _ => none

/-- The first line of a class with what decorates it. -/
structure ClassHead where
  name : String
  base : String
  index? : Option Int

/-- The name and the base in a line that heads a class. -/
def classLine? (line : String) : Option (String × String) :=
  match line.toList with
  | 'c' :: 'l' :: 'a' :: 's' :: 's' :: ' ' :: rest =>
    match Phrase.ofChars? rest.dropLast, rest.getLast? with
    | some (.group name .round [.word base]), some ':' => some (name, base)
    | _, _ => none
  | _ => none

def isNumberChar (c : Char) : Bool :=
  c.isDigit || c == '-'

/-- The number at the end of a line, behind a quote and a comma. What stands before them is a label
and is not looked at. -/
def lastNumber? (line : String) : Option Int :=
  match line.toList.reverse with
  | ')' :: rest =>
    match rest.dropWhile isNumberChar with
    | ' ' :: ',' :: '"' :: _ => intOfChars? (rest.takeWhile isNumberChar).reverse
    | _ => none
  | _ => none

/-- The class in a block. The decorator of an alternative is above that of its record. -/
def classHead? (block : String) : Option ClassHead :=
  match (lines block).reverse.dropWhile isInner with
  | line :: above =>
    (classLine? line).map fun (name, base) => ⟨name, base, above[1]?.bind lastNumber?⟩
  | [] => none

/-- The name before an operation, and the layout in brackets. -/
def binding? (line : String) : Option (String × List Phrase) :=
  match Phrase.ofText? line with
  | some (.group head .round [.group "" .square items]) =>
    if head.toList.dropWhile isNameChar ∈ [".layout".toList, ".bind".toList] then
      some (String.ofList (head.toList.takeWhile isNameChar), items)
    else none
  | _ => none

/-- The name before an equals sign, and the kind of the codec that it is given. -/
def maker? (line : String) : Option (String × ClassKind) :=
  match line.toList.dropWhile isNameChar with
  | ' ' :: '=' :: ' ' :: rest =>
    let name := String.ofList (line.toList.takeWhile isNameChar)
    match Phrase.ofChars? rest with
    | some (.group "scale.StructCodec" .round [.word _]) => some (name, .record)
    | some (.group "scale.EnumCodec" .round [.word _]) => some (name, .sum)
    | _ => none
  | _ => none

structure Emitted where
  classes : List ClassHead
  makers : List (String × ClassKind)
  bindings : List (String × List Phrase)

namespace Emitted

def ofBlocks (blocks : List String) : Emitted where
  classes := blocks.filterMap classHead?
  makers := (blocks.flatMap lines).filterMap maker?
  bindings := (blocks.flatMap lines).filterMap binding?

def class? (t : Emitted) (name : String) : Option ClassHead :=
  t.classes.find? (·.name = name)

/-- The index of an alternative by its class. -/
def index? (t : Emitted) (className : String) : Option Int :=
  (t.class? className).bind (·.index?)

/-- Whether a name stands for records or for sums: the class of the name, or the codec. -/
def kind? (t : Emitted) (name : String) : Option ClassKind :=
  match t.class? name with
  | some c => ClassKind.ofBase? c.base
  | none => (t.makers.reverse.find? (·.1 = name)).map (·.2)

/-- The layout that was bound to a name last. -/
def bound? (t : Emitted) (name : String) : Option (List Phrase) :=
  (t.bindings.reverse.find? (·.1 = name)).map (·.2)

end Emitted

/-! ### Classes -/

def classText (name base : String) : String :=
  "class " ++ name ++ "(" ++ base ++ "):"

theorem classLine_of_head {name base : String} (hname : ∀ c ∈ name.toList, isWordChar c)
    (hbase : base ≠ "") (hbase' : ∀ c ∈ base.toList, isWordChar c) :
    classLine? (classText name base) = some (name, base) := by
  let p : Phrase := .group name .round [.word base]
  have hp : p.Wellformed := .one hname (.word hbase hbase')
  have htext : (classText name base).toList =
      'c' :: 'l' :: 'a' :: 's' :: 's' :: ' ' :: (p.text.toList ++ [':']) := by
    simp [classText, p, Phrase.text, Phrase.texts, Bracket.opening, Bracket.closing]
  simp only [classLine?, htext, List.dropLast_concat, List.getLast?_concat,
    Phrase.ofChars_text hp]
  rfl

theorem takeWhile_append_of_all {α : Type} {q : α → Bool} {as : List α} (bs : List α)
    (has : ∀ a ∈ as, q a = true) (hbs : ∀ b ∈ bs.head?, q b = false) :
    (as ++ bs).takeWhile q = as ∧ (as ++ bs).dropWhile q = bs := by
  rw [List.takeWhile_append_of_pos has, List.dropWhile_append_of_pos has]
  cases bs with
  | nil => simp
  | cons b rest =>
      have hb : q b = false := hbs b rfl
      simp [hb]

theorem isNumberChar_of_number {n : Int} {c : Char} (h : c ∈ (toString n).toList) :
    isNumberChar c = true := by
  obtain rfl | hdigit := number_chars h
  · rfl
  · simp [isNumberChar, hdigit]

theorem lastNumber_of_end (cs : List Char) (n : Int) :
    lastNumber? (String.ofList (cs ++ ("\", " ++ toString n ++ ")").toList)) = some n := by
  have hreverse : (String.ofList (cs ++ ("\", " ++ toString n ++ ")").toList)).toList.reverse =
      ')' :: ((toString n).toList.reverse ++ ' ' :: ',' :: '"' :: cs.reverse) := by
    simp
  have hnumber : ∀ c ∈ (toString n).toList.reverse, isNumberChar c = true :=
    fun c hc => isNumberChar_of_number (List.mem_reverse.mp hc)
  obtain ⟨htake, hdrop⟩ := takeWhile_append_of_all (' ' :: ',' :: '"' :: cs.reverse) hnumber
    (by simp [isNumberChar])
  rw [lastNumber?, hreverse]
  simp only [htake, hdrop, List.reverse_reverse]
  exact intOfChars_number n

theorem isWordChar_of_isNameChar {c : Char} (h : isNameChar c = true) : isWordChar c = true := by
  simp [isWordChar, h]

theorem isWordChar_of_isName {s : String} (h : IsName s) : ∀ c ∈ s.toList, isWordChar c = true :=
  fun c hc => isWordChar_of_isNameChar (h.chars c hc)

theorem isName_eventClass : IsName eventClass :=
  ⟨by decide, List.all_eq_true.mp (by decide)⟩

theorem newline_not_mem_name {name : String} (h : IsName name) : '\n' ∉ name.toList :=
  fun hmem => absurd (h.chars _ hmem) (by decide)

theorem lines_classText {name base : String} (hname : IsName name)
    (hbase : ∀ c ∈ base.toList, isWordChar c) :
    lines (classText name base) = [classText name base] := by
  refine Text.lines_of_not_mem fun hmem => ?_
  simp only [classText, String.toList_append, List.mem_append] at hmem
  obtain (((h | h) | h) | h) | h := hmem
  · exact absurd h (by decide)
  · exact newline_not_mem_name hname h
  · exact absurd h (by decide)
  · exact absurd (hbase _ h) (by decide)
  · exact absurd h (by decide)

/-- All that follows the first line of a class is further to the right. -/
theorem outer_block (above : List String) {name base : String} (s : String) (hname : IsName name)
    (hbase : ∀ c ∈ base.toList, isWordChar c) :
    (lines (unlines (above ++ [classText name base, indent s]))).reverse.dropWhile isInner =
      classText name base :: (above.flatMap lines).reverse := by
  have hlines : (lines (unlines (above ++ [classText name base, indent s]))).reverse =
      (lines (indent s)).reverse ++
        (classText name base) :: (above.flatMap lines).reverse := by
    rw [Text.lines_unlines (by simp), List.flatMap_append, List.flatMap_cons,
      lines_classText hname hbase]
    simp
  have houter : isInner (classText name base) = false := by
    simp [classText, isInner]
  rw [hlines, List.dropWhile_append_of_pos fun line hmem =>
      Text.isInner_of_indent (List.mem_reverse.mp hmem),
    List.dropWhile_cons_of_neg (by simp [houter])]

/-- The class of a block. -/
theorem classHead_block (above : List String) {name base s : String} (hname : IsName name)
    (hbase : base ≠ "") (hbase' : ∀ c ∈ base.toList, isWordChar c) :
    classHead? (unlines (above ++ [classText name base, indent s])) =
      some ⟨name, base, (above.flatMap lines).reverse[1]?.bind lastNumber?⟩ := by
  rw [classHead?, outer_block above s hname hbase']
  simp only [classLine_of_head (isWordChar_of_isName hname) hbase hbase', Option.map_some]

theorem exists_recordBody (qualifier : String) (docs : List String) (rows : List Row) :
    ∃ s, recordBody qualifier docs rows = indent s :=
  ⟨_, rfl⟩

theorem classHead_recordText {name : String} (hname : IsName name) (docs : List String)
    (rows : List Row) :
    classHead? (recordText name docs rows) = some ⟨name, "scale.Struct", none⟩ := by
  have hline : s!"class {name}(scale.Struct):" = classText name "scale.Struct" := by
    change "class " ++ name ++ "(scale.Struct):" = _
    rw [← String.toList_inj]
    simp [classText]
  rw [recordText, hline]
  exact classHead_block ["@dataclass(frozen=True)"] hname (by decide)
    (List.all_eq_true.mp (by decide))

theorem classHead_sumText {name : String} (hname : IsName name) (docs : List String) :
    classHead? (sumText name docs) = some ⟨name, "scale.Enum", none⟩ := by
  have hline : s!"class {name}(scale.Enum):" = classText name "scale.Enum" := by
    change "class " ++ name ++ "(scale.Enum):" = _
    rw [← String.toList_inj]
    simp [classText]
  rw [sumText, hline]
  exact classHead_block [] hname (by decide) (List.all_eq_true.mp (by decide))

theorem classHead_alternativeText {qualifier base : String} {a : Alternative}
    (hname : IsName a.className) (hbase : IsName base) :
    classHead? (alternativeText qualifier base a) = some ⟨a.className, base, some a.index⟩ := by
  let decorator := s!"@{base}.alternative(\"{a.label}\", {a.index})"
  let suffix := "\", " ++ toString a.index ++ ")"
  have hsuffix : '\n' ∉ suffix.toList := by
    simp only [suffix, String.toList_append, List.mem_append]
    intro hmem
    obtain (h | h) | h := hmem
    · exact absurd h (by decide)
    · exact absurd (isNumberChar_of_number h) (by decide)
    · exact absurd h (by decide)
  have hdecorator : decorator.toList =
      ("@" ++ base ++ ".alternative(\"" ++ a.label).toList ++ suffix.toList := by
    change ("@" ++ base ++ ".alternative(\"" ++ a.label ++ "\", " ++ toString a.index ++ ")").toList
      = _
    simp [suffix]
  obtain ⟨init, last, -, hsplit⟩ := Text.splitLines_append hsuffix
    ("@" ++ base ++ ".alternative(\"" ++ a.label).toList
  have hlines : lines decorator =
      init.map String.ofList ++ [String.ofList (last ++ suffix.toList)] := by
    rw [lines, hdecorator, hsplit, List.map_append, List.map_singleton]
  have hline : s!"class {a.className}({base}):" = classText a.className base := rfl
  obtain ⟨body, hbody⟩ := exists_recordBody qualifier a.docs a.rows
  rw [alternativeText, hline, hbody]
  refine (classHead_block [decorator, "@dataclass(frozen=True)"] hname hbase.nonempty
    (isWordChar_of_isName hbase)).trans ?_
  have hlast : ([decorator, "@dataclass(frozen=True)"].flatMap lines).reverse[1]? =
      some (String.ofList (last ++ suffix.toList)) := by
    have hdataclass : lines "@dataclass(frozen=True)" = ["@dataclass(frozen=True)"] :=
      Text.lines_of_not_mem (by decide)
    simp [hlines, hdataclass]
  rw [hlast, Option.bind_some, lastNumber_of_end]

/-! ### Statements -/

/-- Nothing in a bound layout needs a quote or a bracket of its own. -/
structure PlainLayout (l : Scale.Reference × Layout) : Prop where
  name : IsName (referenceName l.1)
  owner : IsName l.1.owner
  items : ∀ p ∈ layoutItems "" l.2, p.Wellformed

def operationName : Scale.Reference → String
  | .instantiation .. => ".bind"
  | _ => ".layout"

def bindingPhrase (l : Scale.Reference × Layout) : Phrase :=
  .group (referenceName l.1 ++ operationName l.1) .round
    [.group "" .square (layoutItems "" l.2)]

def ClassKind.ofLayout : Layout → ClassKind
  | .record _ => .record
  | .sum _ => .sum

def ClassKind.baseName : ClassKind → String
  | .record => "scale.Struct"
  | .sum => "scale.Enum"

def ClassKind.codecName : ClassKind → String
  | .record => "StructCodec"
  | .sum => "EnumCodec"

/-- The name and the kind of the codec that is made for an instantiation. -/
def makerOf? (l : Scale.Reference × Layout) : Option (String × ClassKind) :=
  match l.1 with
  | .instantiation key _ => some (key, .ofLayout l.2)
  | _ => none

theorem operationName_eq (r : Scale.Reference) :
    operationName r = ".layout" ∨ operationName r = ".bind" := by
  cases r with
  | instantiation => exact .inr rfl
  | _ => exact .inl rfl

theorem isWordChar_operationName (r : Scale.Reference) :
    ∀ c ∈ (operationName r).toList, isWordChar c := by
  obtain h | h := operationName_eq r <;> rw [h] <;> exact List.all_eq_true.mp (by decide)

theorem text_bindingPhrase (l : Scale.Reference × Layout) :
    (bindingPhrase l).text = bindingStatement l := by
  obtain ⟨r, layout⟩ := l
  rw [bindingPhrase, Phrase.text, Phrase.texts, Phrase.texts, text_layoutItems,
    String.intercalate_singleton, ← String.toList_inj]
  cases r <;>
    simp [bindingStatement, operationName, referenceName, Scale.Reference.name, Bracket.opening,
      Bracket.closing]

theorem PlainLayout.wellformed {l : Scale.Reference × Layout} (h : PlainLayout l) :
    (bindingPhrase l).Wellformed := by
  refine .one ?_ (.group (by simp) h.items)
  intro c hc
  rw [String.toList_append] at hc
  obtain hname | hoperation := List.mem_append.mp hc
  · exact isWordChar_of_isName h.name c hname
  · exact isWordChar_operationName l.1 c hoperation

theorem PlainLayout.newline_not_mem {l : Scale.Reference × Layout} (h : PlainLayout l) :
    '\n' ∉ (bindingStatement l).toList := by
  rw [← text_bindingPhrase]
  exact Phrase.newline_not_mem_text h.wellformed

theorem PlainLayout.binding {l : Scale.Reference × Layout} (h : PlainLayout l) :
    binding? (bindingStatement l) = some (referenceName l.1, layoutItems "" l.2) := by
  have hoperation : (operationName l.1).toList.head? = some '.' := by
    obtain h | h := operationName_eq l.1 <;> rw [h] <;> decide
  obtain ⟨htake, hdrop⟩ := takeWhile_append_of_all (operationName l.1).toList h.name.chars
    (by simp [hoperation, isNameChar])
  have hmem : (operationName l.1).toList ∈ [".layout".toList, ".bind".toList] := by
    obtain h | h := operationName_eq l.1 <;> rw [h] <;> decide
  rw [binding?, ← text_bindingPhrase, Phrase.ofText_text h.wellformed]
  simp only [bindingPhrase, String.toList_append, htake, hdrop, if_pos hmem, String.ofList_toList]

theorem PlainLayout.maker_binding {l : Scale.Reference × Layout} (h : PlainLayout l) :
    maker? (bindingStatement l) = none := by
  obtain ⟨rest, hrest⟩ : ∃ rest, (bindingStatement l).toList =
      (referenceName l.1).toList ++ '.' :: rest := by
    obtain ⟨r, layout⟩ := l
    cases r <;> simp [bindingStatement, referenceName, Scale.Reference.name]
  obtain ⟨-, hdrop⟩ := takeWhile_append_of_all ('.' :: rest) h.name.chars (by simp [isNameChar])
  rw [maker?, hrest, hdrop]
  rfl

/-- The statement that makes the codec of an instantiation. -/
def makerText (key owner : String) (kind : ClassKind) : String :=
  key ++ " = " ++ (libraryPhrase kind.codecName [.word owner]).text

theorem codecStatement_instantiation (key owner : String) (layout : Layout) :
    codecStatement? (.instantiation key owner, layout) =
      some (makerText key owner (.ofLayout layout)) := by
  have htext : ∀ kind : ClassKind, makerText key owner kind =
      key ++ " = scale." ++ kind.codecName ++ "(" ++ owner ++ ")" := by
    intro kind
    rw [makerText, text_libraryPhrase, ← String.toList_inj]
    simp [call, Phrase.text]
  rw [htext]
  cases layout with
  | record fields =>
      change some (key ++ " = scale.StructCodec(" ++ owner ++ ")") = _
      refine congrArg some ?_
      rw [← String.toList_inj]
      simp [ClassKind.ofLayout, ClassKind.codecName]
  | sum alternatives =>
      change some (key ++ " = scale.EnumCodec(" ++ owner ++ ")") = _
      refine congrArg some ?_
      rw [← String.toList_inj]
      simp [ClassKind.ofLayout, ClassKind.codecName]

theorem wellformed_maker {owner : String} (howner : IsName owner) (kind : ClassKind) :
    (libraryPhrase kind.codecName [.word owner]).Wellformed := by
  refine .one (List.all_eq_true.mp (by cases kind <;> decide)) ?_
  exact .word howner.nonempty (isWordChar_of_isName howner)

theorem maker_makerText {key owner : String} (hkey : IsName key) (howner : IsName owner)
    (kind : ClassKind) : maker? (makerText key owner kind) = some (key, kind) := by
  have htext : (makerText key owner kind).toList = key.toList ++ ' ' :: '=' :: ' ' ::
      (libraryPhrase kind.codecName [.word owner]).text.toList := by
    simp [makerText]
  obtain ⟨htake, hdrop⟩ := takeWhile_append_of_all
    (' ' :: '=' :: ' ' :: (libraryPhrase kind.codecName [.word owner]).text.toList)
    hkey.chars (by simp [isNameChar])
  rw [maker?, htext, htake, hdrop]
  simp only [Phrase.ofChars_text (wellformed_maker howner kind), String.ofList_toList]
  cases kind <;> rfl

theorem newline_not_mem_makerText {key owner : String} (hkey : IsName key) (howner : IsName owner)
    (kind : ClassKind) : '\n' ∉ (makerText key owner kind).toList := by
  simp only [makerText, String.toList_append, List.mem_append, not_or]
  exact ⟨⟨newline_not_mem_name hkey, by decide⟩,
    Phrase.newline_not_mem_text (wellformed_maker howner kind)⟩

/-- No statement heads a class. -/
theorem classLine_of_end {line : String} {cs : List Char} (h : line.toList = cs ++ [')']) :
    classLine? line = none := by
  simp only [classLine?]
  split
  · next rest hrest =>
      have hlast : rest.getLast? ≠ some ':' := by
        intro hcolon
        have hend : line.toList.getLast? = some ':' := by
          rw [hrest]
          simp [List.getLast?_cons, hcolon]
        rw [h, List.getLast?_concat] at hend
        simp at hend
      split
      · next hcolon => exact absurd hcolon hlast
      · rfl
  · rfl

end InkBindings.Bindings
