import InkBindings.Proofs.Bindings.Indices
import InkBindings.Proofs.Bindings.PlainTypes

/-!
Names in the body of the class of events. All events have their classes there, under names that are
chosen from their labels, and the decorators, the bases and the codecs of the layout are evaluated
where these names are bound. A codec keeps its meaning if none of them is among its names.
-/

namespace InkBindings

namespace Bindings

open Naming (IsName isNameChar)
open Text (isInner lines unlines)

/-! ### The names of expressions -/

/-- The name that an expression begins with, unless that is a number or a name in quotes. -/
def rootName? (cs : List Char) : Option String :=
  match cs.takeWhile isNameChar with
  | [] => none
  | c :: rest => if c.isDigit then none else some (String.ofList (c :: rest))

theorem rootName_of_takeWhile {name : String} (hne : name ≠ "")
    (hdigit : ∀ c ∈ name.toList.head?, c.isDigit = false) {cs : List Char}
    (h : cs.takeWhile isNameChar = name.toList) : rootName? cs = some name := by
  rw [rootName?, h]
  cases hchars : name.toList with
  | nil => exact absurd (String.toList_eq_nil_iff.mp hchars) hne
  | cons c rest =>
      have hc : c.isDigit = false := hdigit c (by rw [hchars]; rfl)
      simp only [hc, Bool.false_eq_true, if_false, ← hchars, String.ofList_toList]

/-- An attribute or a call begins with the name before its first dot or bracket. -/
theorem rootName_append {name : String} (hname : IsName name)
    (hdigit : name.toList.head?.any Char.isDigit = false) {mark : Char}
    (hmark : isNameChar mark = false) (rest : List Char) :
    rootName? (name.toList ++ mark :: rest) = some name := by
  obtain ⟨htake, -⟩ := takeWhile_append_of_all (mark :: rest) hname.chars (by simp [hmark])
  refine rootName_of_takeWhile hname.nonempty (fun c hc => ?_) htake
  rwa [Option.mem_def.mp hc] at hdigit

namespace Phrase

mutual

/-- The names that are looked up when the phrase is evaluated. -/
def names : Phrase → List String
  | word w => (rootName? w.toList).toList
  | group head _ items => (rootName? head.toList).toList ++ namesOfAll items

def namesOfAll : List Phrase → List String
  | [] => []
  | p :: rest => names p ++ namesOfAll rest

end

/-- What expressions stand for: constants, what is found behind an object, and what an object
makes of others that are put in brackets behind it. -/
structure Meaning (α : Type) where
  constant : String → α
  behind : α → String → α
  brackets : α → Bracket → List α → α

variable {α : Type}

def Meaning.word (m : Meaning α) (scope : String → α) (w : String) : α :=
  match rootName? w.toList with
  | some name => m.behind (scope name) (String.ofList (w.toList.drop name.length))
  | none => m.constant w

mutual

/-- What the phrase stands for where names are bound like this. -/
def denote (m : Meaning α) (scope : String → α) : Phrase → α
  | word w => m.word scope w
  | group head bracket items =>
    m.brackets (m.word scope head) bracket (denoteAll m scope items)

def denoteAll (m : Meaning α) (scope : String → α) : List Phrase → List α
  | [] => []
  | p :: rest => denote m scope p :: denoteAll m scope rest

end

theorem Meaning.word_congr (m : Meaning α) {scope scope' : String → α} {w : String}
    (h : ∀ name ∈ (rootName? w.toList).toList, scope name = scope' name) :
    m.word scope w = m.word scope' w := by
  rw [Meaning.word, Meaning.word]
  cases hroot : rootName? w.toList with
  | none => rfl
  | some name =>
      have hname := h name (by rw [hroot]; exact List.mem_singleton_self name)
      simp only [hname]

mutual

/-- Only the names of a phrase matter. -/
theorem denote_congr (m : Meaning α) {scope scope' : String → α} :
    (p : Phrase) → (∀ name ∈ p.names, scope name = scope' name) →
      p.denote m scope = p.denote m scope'
  | word w, h => m.word_congr h
  | group head bracket items, h => by
      obtain ⟨hhead, hitems⟩ := List.forall_mem_append.mp h
      rw [denote, denote, m.word_congr hhead, denoteAll_congr m items hitems]

theorem denoteAll_congr (m : Meaning α) {scope scope' : String → α} :
    (ps : List Phrase) → (∀ name ∈ namesOfAll ps, scope name = scope' name) →
      denoteAll m scope ps = denoteAll m scope' ps
  | [], _ => rfl
  | p :: rest, h => by
      obtain ⟨hp, hrest⟩ := List.forall_mem_append.mp h
      rw [denoteAll, denoteAll, denote_congr m p hp, denoteAll_congr m rest hrest]

end

/-- What tells whether some name of a phrase is marked. -/
def marking : Meaning Bool where
  constant _ := false
  behind marked _ := marked
  brackets marked _ items := marked || items.any id

theorem word_marking (marked : String → Bool) (w : String) :
    marking.word marked w = (rootName? w.toList).toList.any marked := by
  rw [Meaning.word]
  cases rootName? w.toList with
  | none => rfl
  | some name => simp [marking]

mutual

theorem denote_marking (marked : String → Bool) :
    (p : Phrase) → p.denote marking marked = p.names.any marked
  | word w => word_marking marked w
  | group head bracket items => by
      rw [denote, word_marking, names, List.any_append, ← denoteAll_marking marked items]
      rfl

theorem denoteAll_marking (marked : String → Bool) :
    (ps : List Phrase) → (denoteAll marking marked ps).any id = (namesOfAll ps).any marked
  | [] => rfl
  | p :: rest => by
      rw [denoteAll, namesOfAll, List.any_cons, List.any_append, denote_marking marked p,
        denoteAll_marking marked rest]
      rfl

end

/-- The scope of a class in which names are bound to objects of their own. -/
def inside (bound : List String) (own outside : String → α) (name : String) : α :=
  if name ∈ bound then own name else outside name

/-- The phrase stands for the same object in the class and outside of it, whatever that is. -/
def SameInside (bound : List String) (p : Phrase) : Prop :=
  ∀ (α : Type) (m : Meaning α) (own outside : String → α),
    p.denote m (inside bound own outside) = p.denote m outside

theorem sameInside_iff {bound : List String} {p : Phrase} :
    SameInside bound p ↔ ∀ name ∈ p.names, name ∉ bound := by
  constructor
  · intro h name hname hbound
    have hsame := h Bool marking (fun _ => true) (fun _ => false)
    rw [denote_marking, denote_marking] at hsame
    have hmarked : p.names.any (inside bound (fun _ => true) fun _ => false) = true :=
      List.any_eq_true.mpr ⟨name, hname, if_pos hbound⟩
    rw [hmarked] at hsame
    obtain ⟨_, -, hfalse⟩ := List.any_eq_true.mp hsame.symm
    cases hfalse
  · intro h α m own outside
    exact denote_congr m p fun name hname => if_neg (h name hname)

end Phrase

/-! ### Reading the class -/

/-- The name that a decorator begins with. -/
def decoratorName? (line : String) : Option String :=
  match line.toList with
  | '@' :: rest => rootName? rest
  | _ => none

/-- The names in the line that heads a class and in the lines above it, from the last to the first.
Of these the first and the last are decorators; between them there may be the rest of a label. -/
def namesAbove : List String → List String
  | line :: above =>
    (above.getLast?.bind decoratorName?).toList ++ (above.head?.bind decoratorName?).toList ++
      ((classLine? line).bind fun c => rootName? c.2.toList).toList
  | [] => []

/-- The names by which a block makes its class: those of the decorators and of the base. -/
def headNames (block : String) : List String :=
  namesAbove ((lines block).reverse.dropWhile isInner)

/-- The codec of a component in a layout, behind the name in quotes. -/
def componentCodec? : Phrase → Option Phrase
  | .group "" .round [.word _, codec] => some codec
  | _ => none

/-- The codecs of an alternative in a layout, behind its class. -/
def alternativeCodecs : Phrase → List Phrase
  | .group "" .round [.word _, .group "" .square components] =>
    components.filterMap componentCodec?
  | _ => []

/-- The body of the class of events. -/
structure EventBody where
  /-- The classes of the events, which are bound in the body. -/
  classes : List String
  /-- The names in decorators and bases. -/
  heads : List String
  /-- The codecs of all components. -/
  codecs : List Phrase

namespace EventBody

/-- The body as it is read from the line that heads the class of all events, from the blocks of the
events, and from the statement that binds their layout. -/
def ofText (head : String) (members : List String) (statement : String) : EventBody where
  classes := members.filterMap fun block => (classHead? block).map (·.name)
  heads := (head :: members).flatMap headNames
  codecs := ((binding? statement).map (·.2.flatMap alternativeCodecs)).getD []

/-- The names that are looked up in the body. -/
def names (t : EventBody) : List String :=
  t.heads ++ t.codecs.flatMap Phrase.names

/-- No event takes a name that is looked up in the body, and all codecs stand for what they stand
for outside of it. -/
structure ShadowsNothing (t : EventBody) : Prop where
  apart : ∀ name ∈ t.classes, name ∉ t.names
  same : ∀ codec ∈ t.codecs, codec.SameInside (eventClass :: t.classes)

end EventBody

def eventHead : String := "class Event(scale.Enum):"

def eventStatement (events : List Alternative) : String :=
  s!"Event.layout({layoutText moduleQualifier (eventLayout events)})"

def eventBody (events : List Alternative) : EventBody :=
  .ofText eventHead (events.map (alternativeText moduleQualifier eventClass))
    (eventStatement events)

/-- These make up the class. -/
theorem eventText_eq (events : List Alternative) :
    eventText events = unlines [
      "class event:", "    \"\"\"Events emitted by the contract.\"\"\"", "",
      Text.margin ++ eventHead,
      "        \"\"\"One alternative per contract event, in declaration order.\"\"\"",
      memberBlock (events.map (alternativeText moduleQualifier eventClass)),
      Text.margin ++ eventStatement events] := by
  have hstatement : s!"    Event.layout({layoutText moduleQualifier (eventLayout events)})" =
      Text.margin ++ eventStatement events := by
    change "    Event.layout(" ++ layoutText moduleQualifier (eventLayout events) ++ ")" =
      "    " ++ ("Event.layout(" ++ layoutText moduleQualifier (eventLayout events) ++ ")")
    rw [← String.toList_inj]
    simp
  rw [eventText, hstatement]
  rfl

theorem headNames_eventHead : headNames eventHead = ["scale"] := by
  decide

/-- Labels may hold line feeds, but not before the name of the class. -/
theorem lines_decorator (label : String) (index : Int) :
    ∃ first more, lines s!"@{eventClass}.alternative(\"{label}\", {index})" =
      String.ofList ('@' :: ("Event".toList ++ '.' :: first)) :: more := by
  have hline : '\n' ∉ "@Event.".toList := by decide
  obtain ⟨first, more, hsplit⟩ := Text.splitLines_behind hline
    ("alternative(\"" ++ label ++ "\", " ++ toString index ++ ")").toList
  refine ⟨first, more.map String.ofList, ?_⟩
  have hdecorator : s!"@{eventClass}.alternative(\"{label}\", {index})".toList = "@Event.".toList ++
      ("alternative(\"" ++ label ++ "\", " ++ toString index ++ ")").toList := by
    change ("@" ++ "Event" ++ ".alternative(\"" ++ label ++ "\", " ++ toString index ++
      ")").toList = _
    simp
  rw [lines, hdecorator, hsplit, List.map_cons]
  rfl

theorem headNames_alternativeText {a : Alternative} (hname : IsName a.className) :
    headNames (alternativeText moduleQualifier eventClass a) = ["Event", "dataclass", "Event"] := by
  have hword := isWordChar_of_isName isName_eventClass
  have hline : s!"class {a.className}({eventClass}):" = classText a.className eventClass := rfl
  obtain ⟨body, hbody⟩ := exists_recordBody moduleQualifier a.docs a.rows
  obtain ⟨first, more, hlines⟩ := lines_decorator a.label a.index
  have hdataclass : lines "@dataclass(frozen=True)" = ["@dataclass(frozen=True)"] :=
    Text.lines_of_not_mem (by decide)
  have hclass : classLine? (classText a.className eventClass) = some (a.className, eventClass) :=
    classLine_of_head (isWordChar_of_isName hname) isName_eventClass.nonempty hword
  rw [alternativeText, hline, hbody]
  refine (congrArg namesAbove (outer_block
    [s!"@{eventClass}.alternative(\"{a.label}\", {a.index})", "@dataclass(frozen=True)"] body hname
    hword)).trans ?_
  have hevent : decoratorName? (String.ofList ('@' :: ("Event".toList ++ '.' :: first))) =
      some "Event" := by
    rw [decoratorName?, String.toList_ofList]
    exact rootName_append isName_eventClass rfl rfl first
  have hreverse : (String.ofList ('@' :: ("Event".toList ++ '.' :: first)) :: more ++
      ["@dataclass(frozen=True)"]).reverse = "@dataclass(frozen=True)" ::
        (more.reverse ++ [String.ofList ('@' :: ("Event".toList ++ '.' :: first))]) := by
    rw [List.reverse_append, List.reverse_singleton, List.singleton_append, List.reverse_cons]
  have hdecorator : decoratorName? "@dataclass(frozen=True)" = some "dataclass" :=
    have hname : IsName "dataclass" := ⟨by decide, List.all_eq_true.mp (by decide)⟩
    rootName_append hname rfl rfl "frozen=True)".toList
  have hroot : rootName? eventClass.toList = some "Event" := by decide
  rw [List.flatMap_cons, List.flatMap_singleton, hlines, hdataclass, hreverse, namesAbove, hclass,
    ← List.cons_append, List.getLast?_concat, Option.bind_some, hevent, Option.bind_some, hroot,
    List.cons_append, List.head?_cons, Option.bind_some, hdecorator]
  rfl

theorem binding_eventStatement {events : List Alternative}
    (h : ∀ p ∈ layoutItems moduleQualifier (eventLayout events), p.Wellformed) :
    binding? (eventStatement events) =
      some (eventClass, layoutItems moduleQualifier (eventLayout events)) := by
  have htext : (Phrase.group "Event.layout" .round
      [.group "" .square (layoutItems moduleQualifier (eventLayout events))]).text =
      eventStatement events := by
    rw [Phrase.text, Phrase.texts, Phrase.texts, text_layoutItems, String.intercalate_singleton]
    rfl
  have hhead : ∀ c ∈ "Event.layout".toList, isWordChar c := List.all_eq_true.mp (by decide)
  rw [binding?, ← htext, Phrase.ofText_text (.one hhead (.group (by simp) h))]
  rfl

theorem alternativeCodecs_alternativePhrase (a : String × Scale.Fields) :
    alternativeCodecs (alternativePhrase moduleQualifier a) =
      a.2.map fun f => codecPhrase moduleQualifier f.2 := by
  change (a.2.map (fieldPhrase moduleQualifier)).filterMap componentCodec? = _
  rw [List.filterMap_map, ← List.filterMap_eq_map]
  rfl

/-! ### The names of codecs -/

theorem namesOfAll_eq_flatMap (ps : List Phrase) :
    Phrase.namesOfAll ps = ps.flatMap Phrase.names := by
  induction ps with
  | nil => rfl
  | cons p rest ih => rw [Phrase.namesOfAll, ih, List.flatMap_cons]

/-- No number begins with a name. -/
theorem names_numberPhrase (n : Int) : (numberPhrase n).names = [] := by
  rw [numberPhrase, Phrase.names, toList_number]
  split
  · rfl
  · cases hdigits : n.natAbs.repr.toList with
    | nil => rfl
    | cons c rest =>
        have hdigit : c.isDigit = true := by
          have hc : c ∈ n.natAbs.repr.toList := hdigits ▸ List.mem_cons_self
          rw [Nat.toList_repr] at hc
          exact Nat.isDigit_of_mem_toDigits (by decide) (by decide) hc
        have hname : isNameChar c = true := by simp [isNameChar, Char.isAlphanum, hdigit]
        simp [rootName?, hname, hdigit]

/-- What codecs are taken from: the library, the types that it imports, and the module itself. -/
def codecSources : List String :=
  ["scale", "AccountId", "Hash", "LangError", "InkLangError", "_contract"]

/-- What the library is looked up by. -/
theorem closed_names_library {sources : List String}
    (hlibrary : ["scale", "AccountId", "Hash", "InkLangError"] ⊆ sources) :
    Phrase.Closed libraryWords libraryHeads (·.names ⊆ sources) where
  word hw := by
    have hwords : ∀ w ∈ libraryWords,
        (Phrase.word w).names ⊆ ["scale", "AccountId", "Hash", "InkLangError"] := by decide
    exact List.Subset.trans (hwords _ hw) hlibrary
  group hhead hitems := by
    have hheads : ∀ head ∈ libraryHeads, rootName? head.toList = some "scale" := by decide
    rw [Phrase.names, hheads _ hhead, namesOfAll_eq_flatMap]
    refine List.append_subset.mpr ⟨List.cons_subset.mpr ⟨hlibrary (by decide), List.nil_subset _⟩,
      fun name hname => ?_⟩
    obtain ⟨p, hp, hmem⟩ := List.mem_flatMap.mp hname
    exact hitems p hp hmem

/-- A codec is looked up where its parts are, or in the library. -/
theorem names_codecPhrase_of_parts {qualifier : String} {c : Scale.Codec} {sources : List String}
    (hlibrary : ["scale", "AccountId", "Hash", "InkLangError"] ⊆ sources)
    (hlang : c = .langError → "LangError" ∈ sources)
    (hreference : ∀ r, c = .reference r →
      (Phrase.word (qualifier ++ referenceName r)).names ⊆ sources)
    (h : ∀ d ∈ c.parts, (codecPhrase qualifier d).names ⊆ sources) :
    (codecPhrase qualifier c).names ⊆ sources := by
  refine codecPhrase_of_parts (P := (·.names ⊆ sources)) (closed_names_library hlibrary)
    (fun n => ?_) (fun hc => List.cons_subset.mpr ⟨hlang hc, List.nil_subset _⟩) hreference h
  rw [names_numberPhrase]
  exact List.nil_subset _

theorem names_codecPhrase (c : Scale.Codec) :
    (codecPhrase moduleQualifier c).names ⊆ codecSources := by
  induction c using Scale.Codec.parts_induction with
  | step c ih =>
      refine names_codecPhrase_of_parts (by decide) (fun _ => by decide) (fun r _ => ?_) ih
      have hroot : rootName? (moduleQualifier ++ referenceName r).toList = some "_contract" := by
        rw [String.toList_append]
        rfl
      rw [Phrase.names, hroot]
      decide

/-! ### The class of made events -/

/-- What the text of an event is read back from. -/
structure Alternative.PlainEvent (a : Alternative) : Prop where
  name : IsName a.className
  rows : ∀ r ∈ a.rows, IsName r.name ∧ (codecPhrase moduleQualifier r.codec).Wellformed

theorem wellformed_eventLayout {events : List Alternative} (h : ∀ a ∈ events, a.PlainEvent) :
    ∀ p ∈ layoutItems moduleQualifier (eventLayout events), p.Wellformed := by
  intro p hp
  rw [eventLayout, layoutItems, List.map_map] at hp
  obtain ⟨a, ha, rfl⟩ := List.mem_map.mp hp
  refine .two (by simp) (wellformed_name (h a ha).name) (.group (by simp) fun p hp => ?_)
  obtain ⟨component, hcomponent, rfl⟩ := List.mem_map.mp hp
  obtain ⟨r, hr, rfl⟩ := List.mem_map.mp hcomponent
  exact .two (by simp) (wellformed_quoted ((h a ha).rows r hr).1) ((h a ha).rows r hr).2

/-- What is read is what the events were made of. -/
theorem eventBody_eq {events : List Alternative} (h : ∀ a ∈ events, a.PlainEvent) :
    eventBody events = {
      classes := events.map (·.className)
      heads := "scale" :: events.flatMap fun _ => ["Event", "dataclass", "Event"]
      codecs := events.flatMap fun a =>
        a.rows.map fun r => codecPhrase moduleQualifier r.codec } := by
  have hclasses : (events.map (alternativeText moduleQualifier eventClass)).filterMap
      (fun block => (classHead? block).map (·.name)) = events.map (·.className) := by
    rw [List.filterMap_map, ← List.filterMap_eq_map]
    refine List.filterMap_congr fun a ha => ?_
    rw [Function.comp_apply, classHead_alternativeText (h a ha).name isName_eventClass]
    rfl
  have hheads : (events.map (alternativeText moduleQualifier eventClass)).flatMap headNames =
      events.flatMap fun _ => ["Event", "dataclass", "Event"] := by
    rw [List.flatMap_map]
    exact List.flatMap_congr fun a ha => headNames_alternativeText (h a ha).name
  have hcodecs : (layoutItems moduleQualifier (eventLayout events)).flatMap alternativeCodecs =
      events.flatMap fun a => a.rows.map fun r => codecPhrase moduleQualifier r.codec := by
    rw [eventLayout, layoutItems, List.map_map, List.flatMap_map]
    refine List.flatMap_congr fun a _ => ?_
    rw [Function.comp_apply, alternativeCodecs_alternativePhrase, layoutOf, List.map_map]
    rfl
  rw [eventBody, EventBody.ofText, hclasses, List.flatMap_cons, headNames_eventHead, hheads,
    binding_eventStatement (wellformed_eventLayout h), Option.map_some, hcodecs]
  rfl

theorem plain_makeEvents {s : Scope} (hs : ∀ d ∈ s.declarations, IsName d.name)
    {events : List Metadata.Event} {made : List Alternative} (h : makeEvents s events = .ok made) :
    ∀ a ∈ made, a.PlainEvent := by
  intro a ha
  obtain ⟨e, -, hmade⟩ := forall₂_right (made_of_makeEvents h) ha
  refine ⟨isName_className h ha, fun r hr => ?_⟩
  obtain ⟨field, -, hrow⟩ := forall₂_right hmade.rows hr
  have hqualifier : ∀ c ∈ moduleQualifier.toList, isWordChar c := List.all_eq_true.mp (by decide)
  exact ⟨hmade.isName hr, wellformed_codec_of_names hs hqualifier hrow.codec⟩

theorem names_eventBody {events : List Alternative} (h : ∀ a ∈ events, a.PlainEvent) :
    (eventBody events).names ⊆ "Event" :: "dataclass" :: codecSources := by
  rw [eventBody_eq h, EventBody.names]
  refine List.append_subset.mpr ⟨?_, fun name hname => ?_⟩
  · refine List.cons_subset.mpr ⟨by decide, fun name hname => ?_⟩
    obtain ⟨a, -, hmem⟩ := List.mem_flatMap.mp hname
    exact (show ["Event", "dataclass", "Event"] ⊆ _ by decide) hmem
  · obtain ⟨codec, hcodec, hmem⟩ := List.mem_flatMap.mp hname
    obtain ⟨a, -, hrow⟩ := List.mem_flatMap.mp hcodec
    obtain ⟨r, -, rfl⟩ := List.mem_map.mp hrow
    exact List.mem_cons_of_mem _ (List.mem_cons_of_mem _ (names_codecPhrase r.codec hmem))

/-- A class is named like what is looked up exactly if some label becomes that name. -/
theorem mem_classes_iff {s : Scope} {events : List Metadata.Event} {made : List Alternative}
    (h : makeEvents s events = .ok made) {name : String}
    (hname : name ∈ "Event" :: "dataclass" :: codecSources) :
    name ∈ made.map (·.className) ↔
      name ≠ eventClass ∧ ∃ e ∈ events, Naming.sanitize e.label = name := by
  have hsources : ∀ source ∈ "Event" :: "dataclass" :: codecSources,
      source ∉ Naming.keywords ∧ source.toList.getLast? ≠ some '_' := by decide
  obtain ⟨hkeyword, hend⟩ := hsources name hname
  rw [classNames_makeEvents h, Naming.mem_uniqueNames_iff hkeyword hend, List.mem_singleton]
  simp only [List.mem_map, exists_exists_and_eq_and]

theorem classes_eventBody {events : List Alternative} (h : ∀ a ∈ events, a.PlainEvent) :
    (eventBody events).classes = events.map (·.className) := by
  rw [eventBody_eq h]

theorem names_of_codec {events : List Alternative} (h : ∀ a ∈ events, a.PlainEvent) {codec : Phrase}
    (hcodec : codec ∈ (eventBody events).codecs) :
    codec.names ⊆ (eventBody events).names ∧ eventClass ∉ codec.names := by
  refine ⟨fun name hname => ?_, fun hname => ?_⟩
  · exact List.mem_append_right _ (List.mem_flatMap.mpr ⟨codec, hcodec, hname⟩)
  · rw [eventBody_eq h] at hcodec
    obtain ⟨a, -, hrow⟩ := List.mem_flatMap.mp hcodec
    obtain ⟨r, -, rfl⟩ := List.mem_map.mp hrow
    exact absurd (names_codecPhrase r.codec hname) (by decide)

/-- A codec stands for what it stands for elsewhere if no label becomes one of its names. -/
theorem sameInside_codec_iff {s : Scope} {events : List Metadata.Event} {made : List Alternative}
    (hmade : makeEvents s events = .ok made) (hplain : ∀ a ∈ made, a.PlainEvent) {codec : Phrase}
    (hcodec : codec ∈ (eventBody made).codecs) :
    codec.SameInside (eventClass :: (eventBody made).classes) ↔
      ∀ e ∈ events, Naming.sanitize e.label ∉ codec.names := by
  obtain ⟨hsubset, hevent⟩ := names_of_codec hplain hcodec
  have hsources := List.Subset.trans hsubset (names_eventBody hplain)
  rw [Phrase.sameInside_iff, classes_eventBody hplain]
  constructor
  · intro hfree e he hname
    refine hfree _ hname (List.mem_cons_of_mem _ ((mem_classes_iff hmade (hsources hname)).mpr ?_))
    exact ⟨fun heq => hevent (heq ▸ hname), e, he, rfl⟩
  · intro hlabels name hname hbound
    rcases List.mem_cons.mp hbound with rfl | hclass
    · exact hevent hname
    · obtain ⟨-, e, he, rfl⟩ := (mem_classes_iff hmade (hsources hname)).mp hclass
      exact hlabels e he hname

/-- One event of a number. -/
def counting (label : String) : Metadata where
  codeHash := []
  types := [⟨0, .primitive (.int ⟨false, .w32⟩), [], [], []⟩]
  constructors := []
  messages := []
  events := [⟨label, [⟨"count", 0, [], false⟩], []⟩]
  name := none

def countingBindings (label className : String) : Bindings where
  contractName := none
  codeHash := []
  declared := []
  events := [⟨label, 0, className, [⟨"count", .int, .int ⟨false, .w32⟩, []⟩], []⟩]
  namespaces := []
  constructors := []
  messages := []

end Bindings
end InkBindings
