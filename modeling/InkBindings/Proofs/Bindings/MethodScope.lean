import InkBindings.Proofs.Bindings.EventScope
import InkBindings.Proofs.Bindings.Failing
import InkBindings.Proofs.Bindings.Faithful
import InkBindings.Proofs.Bindings.MethodText
import InkBindings.Proofs.Bindings.References
import Mathlib.Data.List.TakeWhile

/-!
Names in the body of a method. What is bound there are the parameters, the buffer that a call is
packed in, and the salt of a constructor; classes and codecs are looked up in the module. Parameters
are named against the module and its declarations, but not against the codecs of instantiations, and
the buffer and the salt are named against the parameters only.
-/

namespace InkBindings.Bindings

open ExprTree (IsIdentifier)
open Metadata (Declaration EntryPoint TypeId)
open Naming (IsName)

/-! ### Reading a method -/

/-- The names that are bound in a body, and the expressions that are evaluated there, but for the
arguments and what they are packed in. -/
structure MethodBody where
  bound : List String
  evaluated : List Phrase

namespace MethodBody

/-- A statement begins the buffer, or appends to it by a codec. -/
def ofStatement? : Statement → Option MethodBody
  | .begin buffer _ => some ⟨[buffer], [.word "bytearray"]⟩
  | .append codec _ _ => (Phrase.ofText? codec).map fun p => ⟨[], [p]⟩

def ofLine? (line : String) : Option MethodBody :=
  (statement? line).bind ofStatement?

/-- What a call is made with: its class, what is called, what makes bytes of the buffer, and what
the result is read by. -/
def madeWith? : Phrase → Option (List Phrase)
  | .group kind .round [called, .group convert .round _, result] =>
    some [.word kind, called, .word convert, result]
  | _ => none

/-- The body of these lines and of a call that is returned behind them. -/
def ofLines? (parameters lines : List String) (call : List Char) : Option MethodBody := do
  let statements ← lines.mapM ofLine?
  let expressions ← (Phrase.ofChars? call).bind madeWith?
  return ⟨parameters ++ statements.flatMap (·.bound),
    statements.flatMap (·.evaluated) ++ expressions⟩

/-- No name that is bound is looked up in the module, and all expressions stand for what they stand
for outside of the body. -/
structure HidesNothing (t : MethodBody) : Prop where
  apart : ∀ name ∈ t.evaluated.flatMap Phrase.names, name ∉ t.bound
  same : ∀ p ∈ t.evaluated, p.SameInside t.bound

theorem hidesNothing_iff_apart (t : MethodBody) :
    t.HidesNothing ↔ ∀ p ∈ t.evaluated, ∀ name ∈ p.names, name ∉ t.bound := by
  constructor
  · exact fun h p hp => Phrase.sameInside_iff.mp (h.same p hp)
  · intro h
    refine ⟨fun name hname => ?_, fun p hp => Phrase.sameInside_iff.mpr (h p hp)⟩
    obtain ⟨p, hp, hmem⟩ := List.mem_flatMap.mp hname
    exact h p hp name hmem

end MethodBody

def returnedChars (line : String) : List Char :=
  line.toList.drop "return ".length

theorem returnedChars_return (call : String) : returnedChars ("return " ++ call) = call.toList := by
  rw [returnedChars, String.toList_append]
  exact List.drop_left

/-- A call without its last argument. -/
def withoutLast (call : List Char) : List Char :=
  (call.reverse.dropWhile (· != ',')).tail.reverse ++ [')']

/-- The statement that a constructor ends with. The salt is its last argument. -/
def constructorResult (k : Constructor) : String :=
  "return " ++ constructorCall k ++ "(CODE_HASH, " ++ packed k.selector k.parameters ++
    (", Instance, salt=" ++ saltName k.parameters ++ ")")

theorem constructorText_result (k : Constructor) :
    constructorText k = functionText ["@staticmethod"]
      ("def " ++ k.name ++ "(" ++ constructorParameters k)
      ((docstring? k.docs).toList ++ packingLines k.selector k.parameters ++
        [constructorResult k]) :=
  constructorText_eq k

def Message.body? (x : Message) : Option MethodBody :=
  MethodBody.ofLines? (parameterNames x.signature.parameters)
    (packingLines x.selector x.signature.parameters) (returnedChars (messageResult x))

def Constructor.body? (k : Constructor) : Option MethodBody :=
  MethodBody.ofLines? (parameterNames k.parameters ++ [saltName k.parameters])
    (packingLines k.selector k.parameters) (withoutLast (returnedChars (constructorResult k)))

/-! ### What is read -/

/-- The buffer, if there is anything to be put in it. -/
def buffers (ps : List Parameter) : List String :=
  if ps.isEmpty then [] else [bufferName ps]

def packedPhrase (selector : Bytes) (ps : List Parameter) : Phrase :=
  .group "bytes" .round [if ps.isEmpty then selectorPhrase selector else .word (bufferName ps)]

theorem text_packedPhrase (selector : Bytes) (ps : List Parameter) :
    (packedPhrase selector ps).text = packed selector ps := by
  have htext : ∀ p : Phrase,
      (Phrase.group "bytes" .round [p]).text = "bytes(" ++ p.text ++ ")" := by
    intro p
    rw [← String.toList_inj]
    simp [Phrase.text, Phrase.texts, Bracket.opening, Bracket.closing]
  rw [packedPhrase, htext, packed]
  split
  · rw [text_selectorPhrase]
    rfl
  · rfl

theorem wellformed_packedPhrase (selector : Bytes) (ps : List Parameter) :
    (packedPhrase selector ps).Wellformed := by
  refine .one (List.all_eq_true.mp (by decide)) ?_
  split
  · exact wellformed_selector selector
  · exact wellformed_name (isName_bufferName ps)

/-- A call of three arguments as it is written. -/
theorem ofChars_call {kind : String} (hkind : ∀ c ∈ kind.toList, isWordChar c) {p q r : Phrase}
    (hp : p.Wellformed) (hq : q.Wellformed) (hr : r.Wellformed) :
    Phrase.ofChars? (kind ++ "(" ++ p.text ++ ", " ++ q.text ++ ", " ++ r.text ++ ")").toList =
      some (.group kind .round [p, q, r]) := by
  have htext : kind ++ "(" ++ p.text ++ ", " ++ q.text ++ ", " ++ r.text ++ ")" =
      (Phrase.group kind .round [p, q, r]).text := by
    rw [← String.toList_inj]
    simp [Phrase.text, Phrase.texts, Bracket.opening, Bracket.closing, String.intercalate_cons_cons]
  rw [htext]
  refine Phrase.ofChars_text (.group hkind ?_)
  exact List.forall_mem_cons.mpr
    ⟨hp, List.forall_mem_cons.mpr ⟨hq, List.forall_mem_singleton.mpr hr⟩⟩

theorem madeWith_messageResult {x : Message} (h : (codecPhrase "" x.returnCodec).Wellformed) :
    (Phrase.ofChars? (returnedChars (messageResult x))).bind MethodBody.madeWith? =
      some [.word x.signature.callType.name, .word "self.account_id", .word "bytes",
        codecPhrase "" x.returnCodec] := by
  have hkind : ∀ c ∈ x.signature.callType.name.toList, isWordChar c := by
    cases x.signature.callType <;> exact List.all_eq_true.mp (by decide)
  have hself : (Phrase.word "self.account_id").Wellformed :=
    .word (by decide) (List.all_eq_true.mp (by decide))
  have hresult : messageResult x = "return " ++ (x.signature.callType.name ++ "(" ++
      (Phrase.word "self.account_id").text ++ ", " ++
      (packedPhrase x.selector x.signature.parameters).text ++ ", " ++
      (codecPhrase "" x.returnCodec).text ++ ")") := by
    rw [text_packedPhrase, text_codecPhrase, messageResult, ← String.toList_inj]
    simp [Phrase.text]
  rw [hresult, returnedChars_return, ofChars_call hkind hself (wellformed_packedPhrase _ _) h]
  rfl

theorem withoutLast_append (before : List Char) {after : List Char} (h : ',' ∉ after) :
    withoutLast (before ++ ',' :: after) = before ++ [')'] := by
  have hreverse : (before ++ ',' :: after).reverse = after.reverse ++ ',' :: before.reverse := by
    simp
  have hafter : ∀ c ∈ after.reverse, (c != ',') = true :=
    fun c hc => bne_iff_ne.mpr fun heq => h (heq ▸ List.mem_reverse.mp hc)
  obtain ⟨-, hdrop⟩ := takeWhile_append_of_all (',' :: before.reverse) hafter (by simp)
  rw [withoutLast, hreverse, hdrop, List.tail_cons, List.reverse_reverse]

theorem madeWith_constructorResult (k : Constructor) :
    (Phrase.ofChars? (withoutLast (returnedChars (constructorResult k)))).bind
        MethodBody.madeWith? =
      some [.word (constructorCall k), .word "CODE_HASH", .word "bytes", .word "Instance"] := by
  have hkind : ∀ c ∈ (constructorCall k).toList, isWordChar c := by
    rw [constructorCall]
    split <;> exact List.all_eq_true.mp (by decide)
  have hword : ∀ w ∈ ["CODE_HASH", "Instance"], (Phrase.word w).Wellformed := by
    intro w hw
    have hplain : ∀ w ∈ ["CODE_HASH", "Instance"], w ≠ "" ∧ w.toList.all isWordChar = true := by
      decide
    exact .word (hplain w hw).1 (List.all_eq_true.mp (hplain w hw).2)
  let before := constructorCall k ++ "(" ++ (Phrase.word "CODE_HASH").text ++ ", " ++
    (packedPhrase k.selector k.parameters).text ++ ", " ++ (Phrase.word "Instance").text
  have hresult : constructorResult k =
      "return " ++ (before ++ ("," ++ (" salt=" ++ saltName k.parameters ++ ")"))) := by
    simp only [before]
    rw [text_packedPhrase, constructorResult, ← String.toList_inj]
    simp [Phrase.text]
  have hreturned : returnedChars (constructorResult k) =
      before.toList ++ ',' :: (" salt=" ++ saltName k.parameters ++ ")").toList := by
    rw [hresult, returnedChars_return]
    simp
  have hcomma : ',' ∉ (" salt=" ++ saltName k.parameters ++ ")").toList := by
    have hsalt : ',' ∉ (saltName k.parameters).toList :=
      fun hmem => absurd ((isName_saltName k.parameters).chars _ hmem) (by decide)
    simp [hsalt]
  have hcall : before.toList ++ [')'] = (before ++ ")").toList := by
    simp
  rw [hreturned, withoutLast_append _ hcomma, hcall, ofChars_call hkind (hword _ (by decide))
    (wellformed_packedPhrase _ _) (hword _ (by decide))]
  rfl

theorem ofLine_beginLine {buffer : String} (hbuffer : IsName buffer) (selector : Bytes) :
    MethodBody.ofLine? (beginLine buffer selector) = some ⟨[buffer], [.word "bytearray"]⟩ := by
  rw [MethodBody.ofLine?, statement_beginLine hbuffer, Option.bind_some, MethodBody.ofStatement?]

theorem ofLine_appendOf {buffer : String} (hbuffer : IsName buffer) {p : Parameter}
    (hname : IsName p.name) (hcodec : (codecPhrase "" p.codec).Wellformed) :
    MethodBody.ofLine? (appendOf buffer p) = some ⟨[], [codecPhrase "" p.codec]⟩ := by
  rw [MethodBody.ofLine?, appendOf, statement_appendLine _ hname hbuffer, Option.bind_some,
    MethodBody.ofStatement?, ← text_codecPhrase, Phrase.ofText_text hcodec, Option.map_some]

/-- A parameter that is read back from what is written for it. -/
structure Parameter.Plain (p : Parameter) : Prop where
  name : IsName p.name
  codec : (codecPhrase "" p.codec).Wellformed

/-- All codecs are taken in the statements of a call, and the buffer is bound. -/
theorem exists_packingStatements (selector : Bytes) {ps : List Parameter}
    (h : ∀ p ∈ ps, p.Plain) :
    ∃ statements first, (packingLines selector ps).mapM MethodBody.ofLine? = some statements ∧
      statements.flatMap (·.bound) = buffers ps ∧ first ⊆ [.word "bytearray"] ∧
      statements.flatMap (·.evaluated) = first ++ ps.map fun p => codecPhrase "" p.codec := by
  cases ps with
  | nil => exact ⟨[], [], rfl, rfl, List.nil_subset _, rfl⟩
  | cons p rest =>
      have hbuffer := isName_bufferName (p :: rest)
      have happended : ∀ qs : List Parameter, (∀ q ∈ qs, q.Plain) →
          (qs.map (appendOf (bufferName (p :: rest)))).mapM MethodBody.ofLine? =
            some (qs.map fun q => ⟨[], [codecPhrase "" q.codec]⟩) := by
        intro qs hqs
        induction qs with
        | nil => rfl
        | cons q more ih =>
            obtain ⟨hq, hmore⟩ := List.forall_mem_cons.mp hqs
            rw [List.map_cons, List.mapM_cons, ofLine_appendOf hbuffer hq.name hq.codec, ih hmore]
            rfl
      refine ⟨⟨[bufferName (p :: rest)], [.word "bytearray"]⟩ ::
        (p :: rest).map fun q => ⟨[], [codecPhrase "" q.codec]⟩, [.word "bytearray"], ?_, ?_,
        List.Subset.refl _, ?_⟩
      · rw [packingLines_cons, List.mapM_cons, ofLine_beginLine hbuffer, happended _ h]
        rfl
      · simp [buffers, List.flatMap_map]
      · simp [List.flatMap_map, ← List.map_eq_flatMap]

/-! ### The names of codecs -/

theorem names_subset_libraryPhrase (name : String) {arguments : List Phrase} {p : Phrase}
    (h : p ∈ arguments) : p.names ⊆ (libraryPhrase name arguments).names := by
  rw [libraryPhrase, Phrase.names, namesOfAll_eq_flatMap]
  intro n hn
  exact List.mem_append_right _ (List.mem_flatMap.mpr ⟨p, h, hn⟩)

theorem names_part_subset {qualifier : String} {c d : Scale.Codec} (h : d ∈ c.parts) :
    (codecPhrase qualifier d).names ⊆ (codecPhrase qualifier c).names := by
  cases c with
  | tuple items =>
      refine names_subset_libraryPhrase _ ?_
      rw [codecPhrases_eq_map]
      exact List.mem_map_of_mem h
  | compact _ | option _ | sequence _ | array _ _ =>
      obtain rfl := List.mem_singleton.mp h
      exact names_subset_libraryPhrase _ List.mem_cons_self
  | result a b | map a b =>
      obtain rfl | rfl : d = a ∨ d = b := by simpa [Scale.Codec.parts] using h
      · exact names_subset_libraryPhrase _ List.mem_cons_self
      · exact names_subset_libraryPhrase _ (List.mem_cons_of_mem _ List.mem_cons_self)
  | _ => cases h

/-- Each reference is looked up wherever it stands in a codec. -/
theorem names_reference_subset {c : Scale.Codec} {r : Scale.Reference} (h : r ∈ c.references) :
    (Phrase.word (referenceName r)).names ⊆ (codecPhrase "" c).names := by
  induction c using Scale.Codec.parts_induction with
  | step c ih =>
      obtain rfl | ⟨d, hd, hr⟩ := Scale.Codec.mem_references_iff.mp h
      · rw [codecPhrase, String.empty_append]
        exact List.Subset.refl _
      · exact List.Subset.trans (ih d hd hr) (names_part_subset hd)

/-- Beside references there are only names of the module. -/
theorem Scope.Yields.names {s : Scope} {c : Scale.Codec} (h : s.Yields c) :
    (codecPhrase "" c).names ⊆
      moduleNames ++ c.references.flatMap fun r => (Phrase.word (referenceName r)).names := by
  induction h with
  | @mk c hlang hreference _ ih =>
      refine names_codecPhrase_of_parts ?_ (absurd · hlang) (fun r hr => ?_) fun d hd => ?_
      · exact List.Subset.trans (by decide) (List.subset_append_left moduleNames _)
      · subst hr
        rw [String.empty_append]
        intro name hname
        refine List.mem_append_right _ (List.mem_flatMap.mpr ⟨r, ?_, hname⟩)
        exact Scale.Codec.mem_references_iff.mpr (.inl rfl)
      · intro name hname
        obtain hmodule | hmem := List.mem_append.mp (ih d hd hname)
        · exact List.mem_append_left _ hmodule
        · obtain ⟨r, hr, hname⟩ := List.mem_flatMap.mp hmem
          refine List.mem_append_right _ (List.mem_flatMap.mpr ⟨r, ?_, hname⟩)
          exact Scale.Codec.mem_references_iff.mpr (.inr ⟨d, hd, hr⟩)

/-! ### Names that are apart -/

/-- The parameters do not take the codec of an instantiation, nor do the buffer and the salt take
a class. -/
def Spared (parameters chosen : List String) : Scale.Reference → Prop
  | .instantiation key _ => ∀ name ∈ (Phrase.word key).names, name ∉ parameters
  | r => r.name ∉ chosen

/-- The references in the codecs of these types are spared. -/
def Scope.Spares (s : Scope) (ids : List TypeId) (parameters chosen : List String) : Prop :=
  ∀ id ∈ ids, ∀ c, s.codec id = .ok c → ∀ r ∈ c.references, Spared parameters chosen r

/-- What parameters are named against, and what the names of the buffer and the salt never are. -/
structure LocalNames (s : Scope) (parameters chosen : List String) : Prop where
  parameters_apart : ∀ name ∈ moduleNames ++ s.declarations.map (·.name), name ∉ parameters
  chosen_apart : ∀ name ∈ moduleNames, name ∉ chosen
  chosen_head : ∀ name ∈ chosen, name.toList.head? ≠ some '_'

theorem names_identifier {name : String} (h : IsIdentifier name) :
    (Phrase.word name).names = [name] := by
  have hroot : rootName? name.toList = some name :=
    rootName_of_takeWhile h.name.nonempty h.head (List.takeWhile_eq_self_iff.mpr h.name.chars)
  rw [Phrase.names, hroot, Option.toList_some]

theorem head_names_instanceName {d : Declaration} {id : TypeId} {name : String}
    (h : name ∈ (Phrase.word (d.instanceName id)).names) : name.toList.head? = some '_' := by
  obtain ⟨rest, hrest⟩ : ∃ rest, (d.instanceName id).toList = '_' :: rest :=
    ⟨_, (List.cons_head?_tail (head_instanceName d id)).symm⟩
  rw [Phrase.names, rootName?, hrest, List.takeWhile_cons_of_pos (by decide)] at h
  obtain rfl := List.mem_singleton.mp h
  rw [String.toList_ofList]
  rfl

section
variable {s : Scope} {parameters chosen : List String} (h : LocalNames s parameters chosen)
  (hs : ∀ d ∈ s.declarations, IsIdentifier d.name)
include h hs

/-- Codecs of instantiations are no names for the buffer or the salt, and classes none for
parameters. -/
theorem spared_iff {d : Declaration} (hd : d ∈ s.declarations) (id : TypeId) :
    Spared parameters chosen (entryReference d id) ↔
      ∀ name ∈ (Phrase.word (referenceName (entryReference d id))).names,
        name ∉ parameters ++ chosen := by
  by_cases hgeneric : d.isGeneric = true
  · rw [entryReference, if_pos hgeneric]
    refine forall₂_congr fun name hname => ?_
    rw [List.mem_append, not_or]
    exact (and_iff_left fun hmem => h.chosen_head name hmem (head_names_instanceName hname)).symm
  · have hfree : d.name ∉ parameters :=
      h.parameters_apart _ (List.mem_append_right _ (List.mem_map_of_mem hd))
    have hname : referenceName (.declared d.name) = d.name := rfl
    rw [entryReference, if_neg hgeneric, hname, names_identifier (hs d hd),
      List.forall_mem_singleton, List.mem_append, not_or]
    exact (and_iff_right hfree).symm

theorem apart_iff_spared {c : Scale.Codec} (hc : s.Yields c) :
    (∀ name ∈ (codecPhrase "" c).names, name ∉ parameters ++ chosen) ↔
      ∀ r ∈ c.references, Spared parameters chosen r := by
  constructor
  · intro hapart r hr
    obtain ⟨d, hd, id, rfl⟩ := hc.references r hr
    exact (spared_iff h hs hd id).mpr fun name hname =>
      hapart name (names_reference_subset hr hname)
  · intro hspared name hname
    obtain hmodule | hmem := List.mem_append.mp (hc.names hname)
    · rw [List.mem_append, not_or]
      exact ⟨h.parameters_apart name (List.mem_append_left _ hmodule), h.chosen_apart name hmodule⟩
    · obtain ⟨r, hr, hname⟩ := List.mem_flatMap.mp hmem
      obtain ⟨d, hd, id, rfl⟩ := hc.references r hr
      exact (spared_iff h hs hd id).mp (hspared _ hr) name hname

/-- A body that evaluates such codecs, and beside them only expressions of the module. -/
theorem hidesNothing_iff_spared {t : MethodBody} (hbound : t.bound = parameters ++ chosen)
    {others : List Phrase} {codecs : List Scale.Codec}
    (hevaluated : ∀ p, p ∈ t.evaluated ↔ p ∈ others ∨ p ∈ codecs.map (codecPhrase ""))
    (hothers : ∀ p ∈ others, p.names ⊆ moduleNames) (hcodecs : ∀ c ∈ codecs, s.Yields c) :
    t.HidesNothing ↔ ∀ c ∈ codecs, ∀ r ∈ c.references, Spared parameters chosen r := by
  have hfree : ∀ p ∈ others, ∀ name ∈ p.names, name ∉ parameters ++ chosen := by
    intro p hp name hname
    have hmodule := hothers p hp hname
    rw [List.mem_append, not_or]
    exact ⟨h.parameters_apart name (List.mem_append_left _ hmodule), h.chosen_apart name hmodule⟩
  rw [t.hidesNothing_iff_apart, hbound]
  simp only [hevaluated, or_imp, forall_and, List.forall_mem_map]
  rw [and_iff_right hfree]
  exact forall₂_congr fun c hc => apart_iff_spared h hs (hcodecs c hc)

end

/-! ### The names of methods -/

/-- What is chosen is the wanted name with underscores behind it, and no other. -/
theorem fresh_not_mem_of_forms {word : String} {names : List String}
    (h : ∀ name ∈ names, (word.toList.isPrefixOf name.toList &&
      (name.toList.drop word.toList.length).all (· == '_')) = false) (taken : List String) :
    Naming.fresh word taken ∉ names := by
  obtain ⟨count, hcount⟩ := Naming.exists_padded_fresh word taken
  intro hmem
  have hbegins : word.toList.isPrefixOf (word.toList ++ List.replicate count '_') = true :=
    List.isPrefixOf_iff_prefix.mpr (List.prefix_append _ _)
  have hform := h _ hmem
  rw [hcount, Naming.toList_padded, List.drop_left, hbegins] at hform
  simp at hform

theorem chosen_subset {ps : List Parameter} {more : List String} (hmore : more ⊆ [saltName ps]) :
    more ++ buffers ps ⊆ [saltName ps, bufferName ps] := by
  refine List.append_subset.mpr ⟨List.Subset.trans hmore (by simp), ?_⟩
  rw [buffers]
  split <;> simp

/-- Parameters are named against all names in use, and those of the module are among them. -/
theorem localNames {room : Room} {m : Metadata} {c : Context} {e : EntryPoint}
    {ps : List Parameter} (hc : (Context.ofMetadata room m).Extends c)
    (hps : makeParameters c e = .ok ps) {more : List String} (hmore : more ⊆ [saltName ps]) :
    LocalNames c.scope (parameterNames ps) (more ++ buffers ps) := by
  obtain ⟨hnames, -⟩ := makeParameters_ok hps
  have hchosen {name : String} (hname : name ∈ more ++ buffers ps) :
      name = saltName ps ∨ name = bufferName ps := by
    simpa using chosen_subset hmore hname
  constructor
  · intro name hname hmem
    rw [hc.scope] at hname
    rw [hnames] at hmem
    exact (Naming.not_mem_of_uniqueNames hmem).2 (hc.names hname)
  · intro name hname hmem
    obtain rfl | rfl := hchosen hmem
    · exact fresh_not_mem_of_forms (by decide) _ hname
    · exact fresh_not_mem_of_forms (by decide) _ hname
  · intro name hname
    obtain rfl | rfl := hchosen hname
    · rw [head_saltName]
      decide
    · rw [head_bufferName]
      decide

theorem spares_append (s : Scope) (ids ids' : List TypeId) (parameters chosen : List String) :
    s.Spares (ids ++ ids') parameters chosen ↔
      s.Spares ids parameters chosen ∧ s.Spares ids' parameters chosen :=
  List.forall_mem_append

theorem spares_arguments_iff {c : Context} {e : EntryPoint} {ps : List Parameter}
    (hps : makeParameters c e = .ok ps) (parameters chosen : List String) :
    c.scope.Spares e.argumentIds parameters chosen ↔
      ∀ codec ∈ ps.map (·.codec), ∀ r ∈ codec.references, Spared parameters chosen r := by
  obtain ⟨-, hmade⟩ := makeParameters_ok hps
  simp only [Scope.Spares, Metadata.EntryPoint.argumentIds, List.forall_mem_map]
  constructor
  · intro h p hp
    obtain ⟨a, ha, hparameter⟩ := forall₂_right hmade hp
    exact h a ha p.codec hparameter.codec
  · intro h a ha codec hcodec
    obtain ⟨p, hp, hparameter⟩ := forall₂_right hmade.flip ha
    cases hparameter.codec.symm.trans hcodec
    exact h p hp

/-- A message that returns nothing reads it by a codec without references. -/
theorem spares_returned_iff {s : Scope} {e : EntryPoint} {codec : Scale.Codec}
    (h : returnCodec s e = .ok codec) (parameters chosen : List String) :
    s.Spares e.returnType.toList parameters chosen ↔
      ∀ r ∈ codec.references, Spared parameters chosen r := by
  rw [returnCodec] at h
  split at h
  · next id hid =>
      rw [hid, Option.toList_some, Scope.Spares, List.forall_mem_singleton]
      refine ⟨fun hall => hall codec h, fun hall codec' hcodec' => ?_⟩
      cases h.symm.trans hcodec'
      exact hall
  · next hnone =>
      cases h
      simp [hnone, Scope.Spares, Scale.Codec.references]

theorem plain_makeParameters {c : Context} (hs : ∀ d ∈ c.scope.declarations, IsName d.name)
    {e : EntryPoint} {ps : List Parameter} (h : makeParameters c e = .ok ps) :
    ∀ p ∈ ps, p.Plain ∧ c.scope.Yields p.codec := by
  intro p hp
  obtain ⟨a, -, ha⟩ := forall₂_right (makeParameters_ok h).2 hp
  exact ⟨⟨isName_parameter h hp, wellformed_codec_of_names hs (by simp) ha.codec⟩,
    yields_of_codecWithin ha.codec⟩

theorem plain_returnCodec {s : Scope} (hs : ∀ d ∈ s.declarations, IsName d.name) {e : EntryPoint}
    {codec : Scale.Codec} (h : returnCodec s e = .ok codec) :
    (codecPhrase "" codec).Wellformed ∧ s.Yields codec := by
  rw [returnCodec] at h
  split at h
  · exact ⟨wellformed_codec_of_names hs (by simp) h, yields_of_codecWithin h⟩
  · cases h
    exact ⟨.word (by decide) (List.all_eq_true.mp (by decide)), .mk (by simp) (by simp)
      (List.forall_mem_nil _)⟩

section
variable {room : Room} {m : Metadata}

/-- A body that packs arguments, with a call that is made of words of the module and of codecs. -/
theorem exists_body {c : Context} (hc : (Context.ofMetadata room m).Extends c) {e : EntryPoint}
    {ps : List Parameter} (hps : makeParameters c e = .ok ps) (selector : Bytes)
    {more : List String} (hmore : more ⊆ [saltName ps]) {call : List Char} (words : List String)
    (returned : List Scale.Codec)
    (hcall : (Phrase.ofChars? call).bind MethodBody.madeWith? =
      some (words.map Phrase.word ++ returned.map (codecPhrase "")))
    (hwords : ∀ w ∈ words, (Phrase.word w).names ⊆ moduleNames)
    (hreturned : ∀ codec ∈ returned, c.scope.Yields codec) :
    ∃ t, MethodBody.ofLines? (parameterNames ps ++ more) (packingLines selector ps) call = some t ∧
      (t.HidesNothing ↔ c.scope.Spares e.argumentIds (parameterNames ps) (more ++ buffers ps) ∧
        ∀ codec ∈ returned, ∀ r ∈ codec.references,
          Spared (parameterNames ps) (more ++ buffers ps) r) := by
  have hs : ∀ d ∈ c.scope.declarations, IsIdentifier d.name := by
    rw [hc.scope]
    exact fun d hd => isIdentifier_of_mem_declarations hd
  have hplain := plain_makeParameters (fun d hd => (hs d hd).name) hps
  obtain ⟨statements, first, hstatements, hbound, hfirst, hevaluated⟩ :=
    exists_packingStatements selector fun p hp => (hplain p hp).1
  let others := first ++ words.map Phrase.word
  let codecs := ps.map (·.codec) ++ returned
  have hothers : ∀ p ∈ others, p.names ⊆ moduleNames := by
    refine List.forall_mem_append.mpr ⟨fun p hp => ?_, List.forall_mem_map.mpr hwords⟩
    obtain rfl := List.mem_singleton.mp (hfirst hp)
    decide
  have hcodecs : ∀ codec ∈ codecs, c.scope.Yields codec :=
    List.forall_mem_append.mpr ⟨List.forall_mem_map.mpr fun p hp => (hplain p hp).2, hreturned⟩
  let t : MethodBody := ⟨parameterNames ps ++ more ++ buffers ps,
    first ++ ps.map (fun p => codecPhrase "" p.codec) ++
      (words.map Phrase.word ++ returned.map (codecPhrase ""))⟩
  have hmembers : ∀ p, p ∈ t.evaluated ↔ p ∈ others ∨ p ∈ codecs.map (codecPhrase "") := by
    intro p
    simp only [t, others, codecs, List.map_append, List.map_map, List.mem_append,
      Function.comp_def]
    tauto
  refine ⟨t, ?_, ?_⟩
  · simp only [MethodBody.ofLines?, hstatements, hcall, hbound, hevaluated, Option.bind_eq_bind,
      Option.bind_some]
    rfl
  · rw [hidesNothing_iff_spared (localNames hc hps hmore) hs (List.append_assoc _ _ _) hmembers
      hothers hcodecs, spares_arguments_iff hps]
    exact List.forall_mem_append

theorem exists_constructorBody {e : EntryPoint} {k : Constructor}
    (h : ConstructorBehind (.ofMetadata room m) e k) : ∃ t, k.body? = some t ∧
      (t.HidesNothing ↔ (Scope.ofMetadata room m).Spares e.argumentIds
        (parameterNames k.parameters) (saltName k.parameters :: buffers k.parameters)) := by
  obtain ⟨c, name, hc, hk⟩ := h
  have hwords : ∀ w ∈ [constructorCall k, "CODE_HASH", "bytes", "Instance"],
      (Phrase.word w).names ⊆ moduleNames := by
    rw [constructorCall]
    split <;> decide
  obtain ⟨t, ht, hhides⟩ := exists_body hc (madeConstructor hk).parameters k.selector
    (List.Subset.refl _) _ [] (madeWith_constructorResult k) hwords (List.forall_mem_nil _)
  refine ⟨t, ht, hhides.trans ?_⟩
  rw [hc.scope]
  exact and_iff_left (List.forall_mem_nil _)

theorem exists_messageBody {mutators : List Bytes} {e : EntryPoint} {x : Message}
    (h : MethodBehind (.ofMetadata room m) mutators e x) : ∃ t, x.body? = some t ∧
      (t.HidesNothing ↔ (Scope.ofMetadata room m).Spares (e.argumentIds ++ e.returnType.toList)
        (parameterNames x.signature.parameters) (buffers x.signature.parameters)) := by
  obtain ⟨c, name, hc, hx⟩ := h
  have hx := madeMessage hx
  have hs : ∀ d ∈ c.scope.declarations, IsName d.name := by
    rw [hc.scope]
    exact fun d hd => (isIdentifier_of_mem_declarations hd).name
  have hwords : ∀ w ∈ [x.signature.callType.name, "self.account_id", "bytes"],
      (Phrase.word w).names ⊆ moduleNames := by
    cases x.signature.callType <;> decide
  obtain ⟨hplain, hyields⟩ := plain_returnCodec hs hx.codec
  obtain ⟨t, ht, hhides⟩ := exists_body hc hx.parameters x.selector (List.nil_subset _) _
    [x.returnCodec] (madeWith_messageResult hplain) hwords (List.forall_mem_singleton.mpr hyields)
  rw [List.append_nil] at ht
  refine ⟨t, ht, hhides.trans ?_⟩
  have hscope : c.scope = Scope.ofMetadata room m := hc.scope
  rw [← hscope, List.forall_mem_singleton, spares_append, spares_returned_iff hx.codec]
  rfl

end

/-- An argument has the name of the buffer, and pairs are packed and read. -/
def linking : Metadata :=
  { chains with
    constructors := [⟨"new", [0, 0, 0, 1], [⟨"data", 3⟩], none, true, false, []⟩]
    messages := [⟨"link", [0, 0, 0, 2], [⟨"pair", 2⟩], some 1, false, false, []⟩] }

def newChain : Constructor :=
  ⟨"new", [], [⟨"data", .declared "Chain" [], chainCodec⟩], [0, 0, 0, 1], false⟩

def linkPair : Message where
  signature := ⟨"link", [],
    [⟨"pair", .declared "Pair" [.declared "Chain" []], pairCodec "_Pair_2"⟩], .read,
    .declared "Pair" [.int]⟩
  selector := [0, 0, 0, 2]
  returnCodec := pairCodec "_Pair_1"

/-- A message takes a type that is declared under the name of the buffer. -/
def overwritten : Metadata :=
  { callableOnly [⟨"put", [0, 0, 0, 1], [⟨"value", 1⟩], none, true, false, []⟩] with
    types := [⟨0, .primitive (.int ⟨false, .w32⟩), [], [], []⟩,
      ⟨1, .composite (.positional [⟨0, none, []⟩]), ["m", "data"], [], []⟩] }

def putData : Message where
  signature := ⟨"put", [], [⟨"value", .declared "data" [], .reference (.declared "data")⟩], .exec,
    .none⟩
  selector := [0, 0, 0, 1]
  returnCodec := .unit

def overwrittenBindings : Bindings where
  contractName := none
  codeHash := []
  declared := [⟨"data", [], .record [⟨"_0", .int, .int ⟨false, .w32⟩, []⟩],
    [(.declared "data", .record [("_0", .int ⟨false, .w32⟩)])]⟩]
  events := []
  namespaces := []
  constructors := []
  messages := [putData]

end InkBindings.Bindings
