import InkBindings.Proofs.Bindings.PlainTypes
import InkBindings.Proofs.Scale.Appending

/-!
The statements that pack a call. They are read off the text that is emitted and carried out within a
method, where each name stands for an argument or for a buffer. Whatever the labels of the
arguments are, the selector and the encodings of the arguments come out, in order.
-/

namespace InkBindings.Bindings

open Metadata (Argument EntryPoint)
open Naming (IsName isNameChar)

/-! ### Reading statements -/

inductive Statement
  /-- A buffer is begun with these bytes. -/
  | begin (buffer : String) (b : Bytes)
  /-- An argument is encoded behind what is in a buffer. -/
  | append (codec argument buffer : String)

inductive Packed
  | literal (b : Bytes)
  | content (buffer : String)

def byte? : Phrase → Option UInt8
  | .word w =>
    match intOfChars? w.toList with
    | some n => if 0 ≤ n ∧ n < 256 then some (UInt8.ofNat n.toNat) else none
    | none => none
  | .group .. => none

def byteList? : Phrase → Option Bytes
  | .group "" .square items => items.mapM byte?
  | _ => none

def begin? (line : String) : Option Statement :=
  match line.toList.dropWhile isNameChar with
  | ' ' :: '=' :: ' ' :: rest =>
    match Phrase.ofChars? rest with
    | some (.group "bytearray" .round [list]) =>
      (byteList? list).map (.begin (String.ofList (line.toList.takeWhile isNameChar)))
    | _ => none
  | _ => none

/-- What stands before the last opening bracket of a line, and behind it. -/
def aroundLastBracket (line : String) : List Char × List Char :=
  let backwards := line.toList.reverse
  ((backwards.dropWhile (· != '(')).tail.reverse, (backwards.takeWhile (· != '(')).reverse)

def append? (line : String) : Option Statement :=
  let (receiver, inside) := aroundLastBracket line
  let method := ".encode_to".toList
  match Phrase.ofChars? ('(' :: inside) with
  | some (.group "" .round [.word argument, .word buffer]) =>
    if method <:+ receiver then
      let codec := receiver.take (receiver.length - method.length)
      some (.append (String.ofList codec) argument buffer)
    else none
  | _ => none

def statement? (line : String) : Option Statement :=
  (append? line).or (begin? line)

def packed? (expression : String) : Option Packed :=
  match Phrase.ofText? expression with
  | some (.group "bytes" .round [.word buffer]) => some (.content buffer)
  | some (.group "bytes" .round [list]) => (byteList? list).map .literal
  | _ => none

/-! ### Carrying them out -/

inductive Local
  | value (v : Value)
  | buffer (b : Scale.Buffer)

/-- What the names within a method stand for. -/
abbrev Locals := String → Option Local

def Locals.set (l : Locals) (name : String) (x : Local) : Locals :=
  fun n => if n = name then some x else l n

/-- The names of parameters stand for the arguments, and other names for what they did. -/
def Locals.bind (l : Locals) : List (String × Value) → Locals
  | [] => l
  | (name, v) :: rest => Locals.bind (l.set name (.value v)) rest

/-- Carries out a statement where expressions stand for these codecs. -/
def Statement.run (env : Scale.Environment) (codecs : String → Option Scale.Codec) (l : Locals) :
    Statement → Option Locals
  | .begin buffer b => some (l.set buffer (.buffer (.ofBytes b)))
  | .append codec argument buffer =>
    match codecs codec, l argument, l buffer with
    | some c, some (.value v), some (.buffer b) =>
      match (c.encodeTo env v).run b with
      | .ok _ b => some (l.set buffer (.buffer b))
      | .error _ _ => none
    | _, _, _ => none

def Packed.eval (l : Locals) : Packed → Option Bytes
  | .literal b => some b
  | .content name =>
    match l name with
    | some (.buffer b) => some b.bytes
    | _ => none

def runLines (env : Scale.Environment) (codecs : String → Option Scale.Codec) (l : Locals)
    (lines : List String) : Option Locals :=
  lines.foldlM (fun l line => (statement? line).bind (Statement.run env codecs l)) l

/-- The bytes that come out of the statements and the expression behind them. -/
def pack? (env : Scale.Environment) (codecs : String → Option Scale.Codec) (l : Locals)
    (lines : List String) (result : String) : Option Bytes :=
  (runLines env codecs l lines).bind fun l => (packed? result).bind (Packed.eval l)

/-! ### Reading what was written -/

theorem byte_number (b : UInt8) : byte? (numberPhrase b.toNat) = some b := by
  have hlt : b.toNat < 256 := b.toNat_lt
  rw [numberPhrase, byte?, intOfChars_number]
  dsimp only
  rw [if_pos (by omega), Int.toNat_natCast, UInt8.ofNat_toNat]

def selectorPhrase (selector : Bytes) : Phrase :=
  .group "" .square (selector.map fun b => numberPhrase b.toNat)

theorem text_selectorPhrase (selector : Bytes) :
    (selectorPhrase selector).text = selectorText selector := by
  rw [selectorPhrase, text_group_square, List.map_map, selectorText]
  rfl

theorem wellformed_selector (selector : Bytes) : (selectorPhrase selector).Wellformed := by
  refine .group (by simp) fun p hp => ?_
  obtain ⟨b, -, rfl⟩ := List.mem_map.mp hp
  exact wellformed_number _

theorem byteList_selectorPhrase (selector : Bytes) :
    byteList? (selectorPhrase selector) = some selector := by
  rw [selectorPhrase, byteList?]
  induction selector with
  | nil => rfl
  | cons b rest ih =>
      rw [List.map_cons, List.mapM_cons, byte_number, ih]
      rfl

theorem opening_not_mem_name {name : String} (h : IsName name) : '(' ∉ name.toList :=
  fun hmem => absurd (h.chars _ hmem) (by decide)

def appendLine (codec argument buffer : String) : String :=
  codec ++ ".encode_to(" ++ argument ++ ", " ++ buffer ++ ")"

theorem aroundLastBracket_eq (before : String) {inside : String} (h : '(' ∉ inside.toList) :
    aroundLastBracket (before ++ "(" ++ inside) = (before.toList, inside.toList) := by
  have hreverse : (before ++ "(" ++ inside).toList.reverse =
      inside.toList.reverse ++ '(' :: before.toList.reverse := by
    simp
  have hinside : ∀ c ∈ inside.toList.reverse, (c != '(') = true :=
    fun c hc => bne_iff_ne.mpr fun heq => h (heq ▸ List.mem_reverse.mp hc)
  obtain ⟨htake, hdrop⟩ := takeWhile_append_of_all ('(' :: before.toList.reverse) hinside (by simp)
  rw [aroundLastBracket, hreverse]
  simp only [htake, hdrop, List.tail_cons, List.reverse_reverse]

theorem append_appendLine (codec : String) {argument buffer : String} (hargument : IsName argument)
    (hbuffer : IsName buffer) :
    append? (appendLine codec argument buffer) = some (.append codec argument buffer) := by
  let given : Phrase := .group "" .round [.word argument, .word buffer]
  let inside := argument ++ ", " ++ buffer ++ ")"
  have hline : appendLine codec argument buffer = codec ++ ".encode_to" ++ "(" ++ inside := by
    rw [← String.toList_inj]
    simp [appendLine, inside]
  have hopening : '(' ∉ inside.toList := by
    simp only [inside, String.toList_append, List.mem_append, not_or]
    exact ⟨⟨⟨opening_not_mem_name hargument, by decide⟩, opening_not_mem_name hbuffer⟩, by decide⟩
  have hgiven : given.text.toList = '(' :: inside.toList := by
    simp [given, inside, Phrase.text, Phrase.texts, Bracket.opening, Bracket.closing,
      String.intercalate_cons_cons]
  have hphrase : Phrase.ofChars? ('(' :: inside.toList) = some given := by
    rw [← hgiven]
    exact Phrase.ofChars_text (.two (by simp) (wellformed_name hargument) (wellformed_name hbuffer))
  rw [append?, hline, aroundLastBracket_eq _ hopening]
  simp only [hphrase, given, String.toList_append]
  rw [if_pos (List.suffix_append _ _), List.length_append, Nat.add_sub_cancel, List.take_left,
    String.ofList_toList]

def beginLine (buffer : String) (selector : Bytes) : String :=
  buffer ++ " = bytearray(" ++ selectorText selector ++ ")"

theorem begin_beginLine {buffer : String} (hbuffer : IsName buffer) (selector : Bytes) :
    begin? (beginLine buffer selector) = some (.begin buffer selector) := by
  let made : Phrase := .group "bytearray" .round [selectorPhrase selector]
  have hline : (beginLine buffer selector).toList =
      buffer.toList ++ ' ' :: '=' :: ' ' :: made.text.toList := by
    simp [beginLine, made, Phrase.text, Phrase.texts, text_selectorPhrase, Bracket.opening,
      Bracket.closing]
  obtain ⟨htake, hdrop⟩ := takeWhile_append_of_all (' ' :: '=' :: ' ' :: made.text.toList)
    hbuffer.chars (by simp [isNameChar])
  have hmade : Phrase.ofChars? made.text.toList = some made :=
    Phrase.ofChars_text (.one (List.all_eq_true.mp (by decide)) (wellformed_selector selector))
  rw [begin?, hline, htake, hdrop]
  simp only [hmade, made, byteList_selectorPhrase, Option.map_some, String.ofList_toList]

theorem opening_not_mem_selector (selector : Bytes) : '(' ∉ (selectorText selector).toList := by
  have hnumbers : ∀ s ∈ selector.map fun b => toString b.toNat, '(' ∉ s.toList := by
    intro s hs hmem
    obtain ⟨b, -, rfl⟩ := List.mem_map.mp hs
    obtain heq | hdigit := number_chars (n := b.toNat) hmem
    · exact absurd heq (by decide)
    · exact absurd hdigit (by decide)
  simp only [selectorText, String.toList_append, List.mem_append, not_or]
  exact ⟨⟨by decide, Phrase.not_mem_intercalate (by decide) hnumbers⟩, by decide⟩

/-- In the last brackets of a beginning there are no names. -/
theorem append_beginLine (buffer : String) (selector : Bytes) :
    append? (beginLine buffer selector) = none := by
  let given : Phrase := .group "" .round [selectorPhrase selector]
  let inside := selectorText selector ++ ")"
  have hline : beginLine buffer selector = buffer ++ " = bytearray" ++ "(" ++ inside := by
    rw [← String.toList_inj]
    simp [beginLine, inside]
  have hopening : '(' ∉ inside.toList := by
    simp only [inside, String.toList_append, List.mem_append, not_or]
    exact ⟨opening_not_mem_selector selector, by decide⟩
  have hgiven : given.text.toList = '(' :: inside.toList := by
    simp [given, inside, Phrase.text, Phrase.texts, text_selectorPhrase, Bracket.opening,
      Bracket.closing]
  have hphrase : Phrase.ofChars? ('(' :: inside.toList) = some given := by
    rw [← hgiven]
    exact Phrase.ofChars_text (.one (by simp) (wellformed_selector selector))
  rw [append?, hline, aroundLastBracket_eq _ hopening]
  simp only [hphrase, given, selectorPhrase]

theorem statement_appendLine (codec : String) {argument buffer : String}
    (hargument : IsName argument) (hbuffer : IsName buffer) :
    statement? (appendLine codec argument buffer) = some (.append codec argument buffer) := by
  rw [statement?, append_appendLine codec hargument hbuffer, Option.some_or]

theorem statement_beginLine {buffer : String} (hbuffer : IsName buffer) (selector : Bytes) :
    statement? (beginLine buffer selector) = some (.begin buffer selector) := by
  rw [statement?, append_beginLine, Option.none_or, begin_beginLine hbuffer]

theorem packed_content {buffer : String} (hbuffer : IsName buffer) :
    packed? ("bytes(" ++ buffer ++ ")") = some (.content buffer) := by
  let p : Phrase := .group "bytes" .round [.word buffer]
  have hp : p.Wellformed := .one (List.all_eq_true.mp (by decide)) (wellformed_name hbuffer)
  have htext : "bytes(" ++ buffer ++ ")" = p.text := by
    rw [← String.toList_inj]
    simp [p, Phrase.text, Phrase.texts, Bracket.opening, Bracket.closing]
  rw [packed?, htext, Phrase.ofText_text hp]
  rfl

theorem packed_literal (selector : Bytes) :
    packed? ("bytes(" ++ selectorText selector ++ ")") = some (.literal selector) := by
  let p : Phrase := .group "bytes" .round [selectorPhrase selector]
  have hp : p.Wellformed := .one (List.all_eq_true.mp (by decide)) (wellformed_selector selector)
  have htext : "bytes(" ++ selectorText selector ++ ")" = p.text := by
    rw [← String.toList_inj]
    simp [p, Phrase.text, Phrase.texts, text_selectorPhrase, Bracket.opening, Bracket.closing]
  rw [packed?, htext, Phrase.ofText_text hp]
  simp only [p, selectorPhrase]
  rw [← selectorPhrase, byteList_selectorPhrase, Option.map_some]

/-! ### Running what was written -/

namespace Locals

@[simp] theorem set_same (l : Locals) (name : String) (x : Local) : l.set name x name = some x :=
  if_pos rfl

theorem set_of_ne (l : Locals) {name other : String} (h : other ≠ name) (x : Local) :
    l.set name x other = l other :=
  if_neg h

theorem bind_of_not_mem (l : Locals) {given : List (String × Value)} {name : String}
    (h : name ∉ given.map (·.1)) : l.bind given name = l name := by
  induction given generalizing l with
  | nil => rfl
  | cons p rest ih =>
      rw [bind, ih _ (List.not_mem_of_not_mem_cons h), set_of_ne l (List.ne_of_not_mem_cons h)]

/-- Where no two parameters have one name, each stands for its own argument. -/
theorem bind_of_mem (l : Locals) {given : List (String × Value)} (hnodup : (given.map (·.1)).Nodup)
    {p : String × Value} (hp : p ∈ given) : l.bind given p.1 = some (.value p.2) := by
  induction given generalizing l with
  | nil => cases hp
  | cons first rest ih =>
      obtain ⟨hfirst, hrest⟩ := List.nodup_cons.mp hnodup
      rw [bind]
      obtain rfl | hmem := List.mem_cons.mp hp
      · rw [bind_of_not_mem _ hfirst, set_same]
      · exact ih _ hrest hmem

end Locals

/-- What a parameter needs for its argument to be appended as these bytes. -/
structure Appendable (env : Scale.Environment) (codecs : String → Option Scale.Codec) (l : Locals)
    (buffer : String) (p : Parameter) (b : Bytes) : Prop where
  name : IsName p.name
  other : p.name ≠ buffer
  codec : codecs (expression "" p.codec) = some p.codec
  value : ∃ v, l p.name = some (.value v) ∧ p.codec.encode env v = .ok b

section
variable {env : Scale.Environment} {codecs : String → Option Scale.Codec} {l : Locals}
  {buffer : String}

/-- Appending leaves all other names. -/
theorem Appendable.set {p : Parameter} {b : Bytes} (h : Appendable env codecs l buffer p b)
    (x : Local) : Appendable env codecs (l.set buffer x) buffer p b := by
  obtain ⟨v, hvalue, hencode⟩ := h.value
  exact ⟨h.name, h.other, h.codec, v, by rw [Locals.set_of_ne l h.other, hvalue], hencode⟩

theorem runLines_cons {line : String} {rest : List String} {next : Locals}
    (h : (statement? line).bind (Statement.run env codecs l) = some next) :
    runLines env codecs l (line :: rest) = runLines env codecs next rest := by
  rw [runLines, List.foldlM_cons, h, Option.bind_eq_bind, Option.bind_some]
  rfl

def appendOf (buffer : String) (p : Parameter) : String :=
  appendLine (expression "" p.codec) p.name buffer

theorem runLine_append (hbuffer : IsName buffer) {before : Bytes}
    (hbefore : l buffer = some (.buffer (.ofBytes before))) {p : Parameter} {b : Bytes}
    (h : Appendable env codecs l buffer p b) :
    (statement? (appendOf buffer p)).bind (Statement.run env codecs l) =
      some (l.set buffer (.buffer (.ofBytes (before ++ b)))) := by
  obtain ⟨v, hvalue, hencode⟩ := h.value
  have hrun := Scale.Codec.writes_of_encode hencode before
  rw [appendOf, statement_appendLine _ h.name hbuffer, Option.bind_some]
  simp only [Statement.run, h.codec, hvalue, hbefore, hrun]

/-- All arguments go behind what is in the buffer, in order. -/
theorem runLines_append (hbuffer : IsName buffer) {ps : List Parameter} {bs : List Bytes}
    (h : List.Forall₂ (Appendable env codecs l buffer) ps bs) {before : Bytes}
    (hbefore : l buffer = some (.buffer (.ofBytes before))) :
    ∃ next, runLines env codecs l (ps.map (appendOf buffer)) = some next ∧
      next buffer = some (.buffer (.ofBytes (before ++ bs.flatten))) := by
  induction ps generalizing l bs before with
  | nil =>
      cases h
      exact ⟨l, rfl, by rw [List.flatten_nil, List.append_nil, hbefore]⟩
  | cons p rest ih =>
      cases h with
      | @cons _ b _ bs hp hrest =>
          let added := Local.buffer (.ofBytes (before ++ b))
          obtain ⟨next, hnext, hcontent⟩ := ih (hrest.imp fun _ _ hq => hq.set added)
            (Locals.set_same l buffer added)
          refine ⟨next, ?_, ?_⟩
          · rw [List.map_cons, runLines_cons (runLine_append hbuffer hbefore hp), hnext]
          · rw [hcontent, List.flatten_cons, List.append_assoc]

/-- The statements for a selector and arguments. -/
theorem runLines_packing (selector : Bytes) {p : Parameter} {ps : List Parameter}
    {bs : List Bytes} (hbuffer : IsName buffer)
    (h : List.Forall₂ (Appendable env codecs l buffer) (p :: ps) bs) :
    ∃ next, runLines env codecs l
        (beginLine buffer selector :: (p :: ps).map (appendOf buffer)) = some next ∧
      next buffer = some (.buffer (.ofBytes (selector ++ bs.flatten))) := by
  let begun := Local.buffer (.ofBytes selector)
  obtain ⟨next, hnext, hcontent⟩ := runLines_append hbuffer (h.imp fun _ _ hq => hq.set begun)
    (Locals.set_same l buffer begun)
  have hbegun : (statement? (beginLine buffer selector)).bind (Statement.run env codecs l) =
      some (l.set buffer begun) := by
    rw [statement_beginLine hbuffer, Option.bind_some, Statement.run]
  exact ⟨next, by rw [runLines_cons hbegun, hnext], hcontent⟩

end

/-! ### Call headers -/

/-- Each argument is encoded by the codec of its declared type. -/
inductive Encodes (env : Scale.Environment) (s : Scope) :
    List Argument → List Value → List Bytes → Prop
  | nil : Encodes env s [] [] []
  | cons {a c v b as vs bs} : s.codec a.typeId = .ok c → c.encode env v = .ok b →
      Encodes env s as vs bs → Encodes env s (a :: as) (v :: vs) (b :: bs)

structure CallHeader (c : Context) (e : EntryPoint) (selector : Bytes) (ps : List Parameter) :
    Prop where
  /-- No two arguments go by one name, nor does one by a keyword or a name of the module. -/
  nodup : (parameterNames ps).Nodup
  usable : ∀ name ∈ parameterNames ps, name ∉ Naming.keywords ∧ name ∉ c.names
  buffer : bufferName ps ∉ parameterNames ps
  salt : saltName ps ∉ parameterNames ps
  different : bufferName ps ≠ saltName ps
  packed : ∀ (env : Scale.Environment) (codecs : String → Option Scale.Codec) (l : Locals)
    (vs : List Value) (bs : List Bytes),
    (∀ p ∈ ps, codecs (expression "" p.codec) = some p.codec) →
    Encodes env c.scope e.arguments vs bs →
    pack? env codecs (l.bind ((parameterNames ps).zip vs)) (packingLines selector ps)
      (packed selector ps) = some (e.selector ++ bs.flatten)

theorem Encodes.forall₂ {env : Scale.Environment} {s : Scope} {as : List Argument}
    {vs : List Value} {bs : List Bytes} (h : Encodes env s as vs bs) {ps : List Parameter}
    (hps : List.Forall₂ (fun a (p : Parameter) => s.codec a.typeId = .ok p.codec) as ps) :
    ps.length = vs.length ∧
      List.Forall₂ (fun (x : Parameter × Value) b => x.1.codec.encode env x.2 = .ok b) (ps.zip vs)
        bs := by
  induction h generalizing ps with
  | nil =>
      cases hps
      exact ⟨rfl, .nil⟩
  | cons hcodec hencode _ ih =>
      cases hps with
      | cons hp hrest =>
          obtain ⟨hlength, hencodes⟩ := ih hrest
          cases hcodec.symm.trans hp
          exact ⟨by rw [List.length_cons, List.length_cons, hlength], .cons hencode hencodes⟩

theorem isName_bufferName (ps : List Parameter) : IsName (bufferName ps) :=
  Naming.isName_fresh ⟨by decide, List.all_eq_true.mp (by decide)⟩ _

theorem isName_saltName (ps : List Parameter) : IsName (saltName ps) :=
  Naming.isName_fresh ⟨by decide, List.all_eq_true.mp (by decide)⟩ _

theorem head_bufferName (ps : List Parameter) : (bufferName ps).toList.head? = some 'd' :=
  Naming.head_fresh (by decide) _

theorem head_saltName (ps : List Parameter) : (saltName ps).toList.head? = some 's' :=
  Naming.head_fresh (by decide) _

theorem bufferName_ne_saltName (ps : List Parameter) : bufferName ps ≠ saltName ps := by
  intro h
  have hhead := head_bufferName ps
  rw [h, head_saltName] at hhead
  cases hhead

/-- Every argument can be appended in a method that has been called with these. -/
theorem appendable_of_encodes {env : Scale.Environment} {s : Scope} {as : List Argument}
    {codecs : String → Option Scale.Codec} (l : Locals) {ps : List Parameter} {vs : List Value}
    {bs : List Bytes} (h : Encodes env s as vs bs)
    (hps : List.Forall₂ (fun a (p : Parameter) => s.codec a.typeId = .ok p.codec) as ps)
    (hnames : ∀ name ∈ parameterNames ps, IsName name) (hnodup : (parameterNames ps).Nodup)
    (hcodecs : ∀ p ∈ ps, codecs (expression "" p.codec) = some p.codec) :
    List.Forall₂ (Appendable env codecs (l.bind ((parameterNames ps).zip vs)) (bufferName ps)) ps
      bs := by
  obtain ⟨hlength, hencodes⟩ := h.forall₂ hps
  have hfst : (ps.zip vs).map Prod.fst = ps := List.map_fst_zip (Nat.le_of_eq hlength)
  have hgiven : ((parameterNames ps).zip vs).map (·.1) = parameterNames ps :=
    List.map_fst_zip (by rw [parameterNames, List.length_map]; exact Nat.le_of_eq hlength)
  suffices hall : List.Forall₂ (fun (x : Parameter × Value) b =>
      Appendable env codecs (l.bind ((parameterNames ps).zip vs)) (bufferName ps) x.1 b)
      (ps.zip vs) bs by
    rw [← List.forall₂_map_left_iff (f := Prod.fst), hfst] at hall
    exact hall
  refine ((List.forall₂_and_left _ _).mpr ⟨fun x hx => hx, hencodes⟩).imp fun x b hx => ?_
  obtain ⟨hmem, hencode⟩ := hx
  have hp : x.1 ∈ ps := (List.of_mem_zip hmem).1
  have hname : x.1.name ∈ parameterNames ps := List.mem_map_of_mem hp
  have hpair : (x.1.name, x.2) ∈ (parameterNames ps).zip vs := by
    rw [parameterNames, List.zip_map_left]
    exact List.mem_map_of_mem (f := Prod.map (·.name) id) hmem
  exact ⟨hnames _ hname, fun heq => Naming.fresh_not_mem _ _ (heq ▸ hname), hcodecs _ hp, x.2,
    Locals.bind_of_mem l (hgiven.symm ▸ hnodup) hpair, hencode⟩

theorem packingLines_cons (selector : Bytes) (p : Parameter) (ps : List Parameter) :
    packingLines selector (p :: ps) =
      beginLine (bufferName (p :: ps)) selector ::
        (p :: ps).map (appendOf (bufferName (p :: ps))) := by
  have happend : ∀ (buffer : String) (q : Parameter),
      expression "" q.codec ++ s!".encode_to({q.name}, {buffer})" = appendOf buffer q := by
    intro buffer q
    rw [← String.toList_inj]
    simp [appendOf, appendLine, toString]
  simp only [packingLines, happend, List.isEmpty_cons, Bool.false_eq_true, if_false]
  rfl

theorem callHeader_of_parameters {c : Context} {e : EntryPoint} {ps : List Parameter}
    (h : makeParameters c e = .ok ps) : CallHeader c e e.selector ps := by
  obtain ⟨hnames, hmade⟩ := makeParameters_ok h
  have hcodecs := hmade.imp fun _ _ hp => hp.codec
  have hnodup : (parameterNames ps).Nodup := hnames ▸ Naming.nodup_uniqueNames _ _
  have hplain : ∀ name ∈ parameterNames ps, IsName name :=
    fun name hname => Naming.isName_of_uniqueNames (hnames ▸ hname)
  refine ⟨hnodup, fun name hname => Naming.not_mem_of_uniqueNames (hnames ▸ hname),
    Naming.fresh_not_mem _ _, Naming.fresh_not_mem _ _, bufferName_ne_saltName ps, ?_⟩
  intro env codecs l vs bs hstands hencodes
  have happendable := appendable_of_encodes l hencodes hcodecs hplain hnodup hstands
  cases ps with
  | nil =>
      cases happendable
      rw [List.flatten_nil, List.append_nil]
      change (packed? ("bytes(" ++ selectorText e.selector ++ ")")).bind (Packed.eval _) = _
      rw [packed_literal]
      rfl
  | cons p rest =>
      obtain ⟨next, hnext, hcontent⟩ :=
        runLines_packing e.selector (isName_bufferName _) happendable
      have hpacked : packed e.selector (p :: rest) = "bytes(" ++ bufferName (p :: rest) ++ ")" :=
        rfl
      rw [pack?, packingLines_cons, hnext, Option.bind_some, hpacked,
        packed_content (isName_bufferName _), Option.bind_some, Packed.eval, hcontent]
      simp

def numbersAndFlags : Context where
  scope := ⟨⟨[⟨0, .primitive (.int ⟨false, .w16⟩), [], [], []⟩,
    ⟨1, .primitive .bool, [], [], []⟩]⟩, [], .unbounded⟩
  names := moduleNames

/-- Two arguments have the label of the buffer, and one a keyword. -/
def clashing : EntryPoint where
  label := "new"
  selector := [155, 174, 157, 94]
  arguments := [⟨"data", 0⟩, ⟨"data", 1⟩, ⟨"class", 0⟩]
  returnType := none
  mutates := true
  payable := false
  docs := []

def clashingParameters : List Parameter :=
  [⟨"data", .int, .int ⟨false, .w16⟩⟩, ⟨"data_", .bool, .bool⟩,
    ⟨"class_", .int, .int ⟨false, .w16⟩⟩]

def numberOrFlag (expression : String) : Option Scale.Codec :=
  if expression = "scale.U16" then some (.int ⟨false, .w16⟩)
  else if expression = "scale.BOOL" then some .bool
  else none

end InkBindings.Bindings
