import InkBindings.Proofs.Bindings.AnnotationPhrase
import InkBindings.Proofs.Bindings.CallTypes
import InkBindings.Proofs.Bindings.ClassText

/-!
The methods of the emitted classes as functions of these. Each begins with one line that has its
name, parameters and result, and each that makes a call has the selector in its body.
-/

namespace InkBindings.Bindings

open Metadata (EntryPoint TypeId)
open Naming (IsName isNameChar)

/-- The function with this text: statements of the body may be of several lines. -/
def functionOf (decorators : List String) (line : String) (body : List String) : Function :=
  ⟨decorators, line, (body.flatMap fun s => Text.lines (Text.indent s)).filter (· ≠ "")⟩

theorem isMember_functionText {decorators : List String} {line : String}
    (hdecorators : ∀ d ∈ decorators, Function.isDecorator d = true ∧ '\n' ∉ d.toList)
    (hline : Function.isDefinition line = true) (hnewline : '\n' ∉ line.toList)
    (body : List String) :
    IsMember (functionText decorators line body) (functionOf decorators line body) := by
  refine ⟨fun d hd => (hdecorators d hd).1, hline, _, ?_, ?_, rfl⟩
  · have hlines : decorators.flatMap Text.lines = decorators := by
      rw [List.flatMap_congr fun d hd => Text.lines_of_not_mem (hdecorators d hd).2,
        List.flatMap_singleton']
    rw [functionText, Text.lines_unlines (by simp), List.flatMap_append, hlines,
      List.flatMap_cons, Text.lines_of_not_mem hnewline, List.flatMap_map]
    rfl
  · intro l hl
    obtain ⟨s, -, hl⟩ := List.mem_flatMap.mp hl
    rw [Text.lines_indent] at hl
    obtain ⟨l, -, rfl⟩ := List.mem_map.mp hl
    exact isBodyLine_indentLine l

/-- A line of a definition, up to its parameters. -/
theorem name_functionOf {name : String} (hname : IsName name) (decorators : List String)
    (parameters : String) (body : List String) :
    (functionOf decorators ("def " ++ name ++ "(" ++ parameters) body).name = name := by
  obtain ⟨htake, -⟩ := takeWhile_append_of_all ('(' :: parameters.toList) hname.chars
    (by simp [isNameChar])
  have hline : ("def " ++ name ++ "(" ++ parameters).toList =
      Function.keyword.toList ++ (name.toList ++ '(' :: parameters.toList) := by
    simp [Function.keyword]
  have hdrop : (Function.keyword.toList ++ (name.toList ++ '(' :: parameters.toList)).drop
      Function.keyword.length = name.toList ++ '(' :: parameters.toList := List.drop_left
  simp only [Function.name, functionOf, hline, hdrop, htake, String.ofList_toList]

theorem isDefinition_line (rest : String) : Function.isDefinition ("def " ++ rest) = true := by
  rw [Function.isDefinition, String.toList_append]
  exact List.isPrefixOf_iff_prefix.mpr (List.prefix_append _ _)

/-- The function has a line with the selector. -/
def Function.Packs (f : Function) (selector : Bytes) : Prop :=
  ∃ line ∈ f.body, (selectorText selector).toList <:+: line.toList

/-- A statement of one line is a line of the body. -/
theorem lines_indent_of_line {s : String} (hnewline : '\n' ∉ s.toList)
    (hblank : s.toList.all Text.isBlank = false) :
    Text.lines (Text.indent s) = [Text.margin ++ s] := by
  rw [Text.indent_of_line hnewline hblank, Text.lines_of_not_mem]
  simpa [Text.margin] using hnewline

/-- A statement of one line that has the selector. -/
theorem packs_of_statement {decorators body : List String} {line s : String} {selector : Bytes}
    (hs : s ∈ body) (hnewline : '\n' ∉ s.toList)
    (hselector : (selectorText selector).toList <:+: s.toList) :
    (functionOf decorators line body).Packs selector := by
  have hbracket : '[' ∈ (selectorText selector).toList := by
    rw [selectorText, String.toList_append, String.toList_append]
    exact List.mem_append_left _ (List.mem_append_left _ List.mem_cons_self)
  have hblank : s.toList.all Text.isBlank = false :=
    List.all_eq_false.mpr ⟨'[', hselector.subset hbracket, by decide⟩
  refine ⟨Text.margin ++ s, List.mem_filter.mpr ⟨List.mem_flatMap.mpr ⟨s, hs, ?_⟩, ?_⟩, ?_⟩
  · rw [lines_indent_of_line hnewline hblank]
    exact List.mem_singleton_self _
  · simp [Text.margin, String.append_eq_empty_iff]
  · rw [String.toList_append]
    exact hselector.trans (List.suffix_append _ _).isInfix

/-! ### Parameters and results -/

theorem annotation_wellformed {s : Scope} (hs : ∀ d ∈ s.declarations, IsName d.name) {depth : Nat}
    {room : Room} {id : TypeId} {a : Annotation} (h : s.annotationWithin depth room id = .ok a) :
    ( annotationPhrase "" a).Wellformed := by
  have hclosed : Phrase.Closed annotationWords annotationHeads Phrase.Wellformed :=
    Phrase.closed_wellformed (by decide) (by decide)
  refine annotationPhrase_of_declared hclosed (fun d hd => ?_) (fun d hd ps hps => ?_) h
  · rw [String.empty_append]
    exact wellformed_name (hs d hd)
  · rw [String.empty_append]
    exact .group (isWordChar_of_isName (hs d hd)) hps

section
variable {c : Context} {e : EntryPoint}

theorem newline_not_mem_annotation (hs : ∀ d ∈ c.scope.declarations, IsName d.name) {id : TypeId}
    {a : Annotation} (h : c.scope.annotation id = .ok a) : '\n' ∉ (a.text "").toList := by
  rw [← text_annotationPhrase]
  exact Phrase.newline_not_mem_text (annotation_wellformed hs h)

theorem newline_not_mem_parameters (hs : ∀ d ∈ c.scope.declarations, IsName d.name)
    {ps : List Parameter} (h : makeParameters c e = .ok ps) :
    ∀ p ∈ ps, '\n' ∉ (parameterText p).toList := by
  intro p hp
  obtain ⟨a, -, ha⟩ := forall₂_right (makeParameters_ok h).2 hp
  have hname : '\n' ∉ p.name.toList := newline_not_mem_name (isName_parameter h hp)
  simpa [parameterText, hname] using newline_not_mem_annotation hs ha.spelling

theorem newline_not_mem_returnAnnotation (hs : ∀ d ∈ c.scope.declarations, IsName d.name)
    {a : Annotation} (h : returnAnnotation c.scope e = .ok a) : '\n' ∉ (a.text "").toList := by
  rw [ returnAnnotation] at h
  split at h
  · exact newline_not_mem_annotation hs h
  · cases h
    decide

end

/-! ### Selectors -/

theorem newline_not_mem_selector (selector : Bytes) : '\n' ∉ (selectorText selector).toList := by
  rw [← text_selectorPhrase]
  exact Phrase.newline_not_mem_text (wellformed_selector selector)

/-- The selector stands where the buffer is made, or in the call itself. -/
theorem packs_of_result {decorators docs : List String} {line : String} {selector : Bytes}
    {ps : List Parameter} {before after : String}
    (hbefore : '\n' ∉ before.toList) (hafter : '\n' ∉ after.toList) :
    (functionOf decorators line (docs ++ packingLines selector ps ++
      [before ++ packed selector ps ++ after])).Packs selector := by
  have hpacked := newline_not_mem_packed selector ps
  cases ps with
  | nil =>
      refine packs_of_statement (List.mem_append_right _ (List.mem_singleton_self _)) ?_ ?_
      · simp [hbefore, hafter, hpacked]
      · have hliteral : packed selector [] = "bytes(" ++ selectorText selector ++ ")" := rfl
        rw [hliteral]
        exact ⟨before.toList ++ "bytes(".toList, ")".toList ++ after.toList, by simp⟩
  | cons p rest =>
      rw [packingLines_cons]
      have hbuffer := newline_not_mem_name (isName_bufferName (p :: rest))
      refine packs_of_statement (s := beginLine (bufferName (p :: rest)) selector) ?_ ?_ ?_
      · simp
      · simp [beginLine, hbuffer, newline_not_mem_selector]
      · exact ⟨(bufferName (p :: rest)).toList ++ " = bytearray(".toList, ")".toList, by
          simp [beginLine]⟩

/-! ### Constructors -/

def constructorCall (k : Constructor) : String :=
  if k.payable then "InstantiateCallNeedsValue" else "InstantiateCall"

def constructorParameters (k : Constructor) : String :=
  ", ".intercalate (k.parameters.map parameterText ++
    ["*", saltName k.parameters ++ ": bytes = b\"\""]) ++ ") -> " ++ constructorCall k ++
    "[Instance]:"

def constructorBody (k : Constructor) : List String :=
  (docstring? k.docs).toList ++ packingLines k.selector k.parameters ++
    ["return " ++ constructorCall k ++ "(CODE_HASH, " ++ packed k.selector k.parameters ++
      (", Instance, salt=" ++ saltName k.parameters ++ ")")]

def constructorFunction (k : Constructor) : Function :=
  functionOf ["@staticmethod"] ("def " ++ k.name ++ "(" ++ constructorParameters k)
    (constructorBody k)

theorem constructorText_eq (k : Constructor) :
    constructorText k = functionText ["@staticmethod"]
      ("def " ++ k.name ++ "(" ++ constructorParameters k) (constructorBody k) := by
  rw [constructorText, constructorBody]
  congr 1
  · rw [← String.toList_inj]
    simp [constructorParameters, constructorCall, toString]
  · congr 2
    rw [← String.toList_inj]
    simp [constructorCall, toString]

theorem newline_not_mem_append {s t : String} (hs : '\n' ∉ s.toList) (ht : '\n' ∉ t.toList) :
    '\n' ∉ (s ++ t).toList := by
  rw [String.toList_append, List.mem_append, not_or]
  exact ⟨hs, ht⟩

theorem newline_not_mem_constructorCall (k : Constructor) :
    '\n' ∉ (constructorCall k).toList := by
  rw [constructorCall]
  split <;> decide

theorem newline_not_mem_saltName (ps : List Parameter) : '\n' ∉ (saltName ps).toList :=
  newline_not_mem_name (isName_saltName ps)

/-- A definition stands on one line if what comes after its name does. -/
theorem isMember_definition {decorators : List String} {name rest : String}
    (hdecorators : ∀ d ∈ decorators, Function.isDecorator d = true ∧ '\n' ∉ d.toList)
    (hname : IsName name) (hrest : '\n' ∉ rest.toList) (body : List String) :
    IsMember (functionText decorators ("def " ++ name ++ "(" ++ rest) body)
      (functionOf decorators ("def " ++ name ++ "(" ++ rest) body) := by
  refine isMember_functionText hdecorators ?_ ?_ body
  · rw [String.append_assoc, String.append_assoc]
    exact isDefinition_line _
  · simp [newline_not_mem_name hname, hrest]

theorem isMember_constructorText {k : Constructor} (hname : IsName k.name)
    (hps : ∀ p ∈ k.parameters, '\n' ∉ (parameterText p).toList) :
    IsMember (constructorText k) (constructorFunction k) := by
  have hparameters : '\n' ∉ (", ".intercalate (k.parameters.map parameterText ++
      ["*", saltName k.parameters ++ ": bytes = b\"\""])).toList := by
    refine Phrase.not_mem_intercalate (by decide) fun s hs => ?_
    obtain hs | hs := List.mem_append.mp hs
    · obtain ⟨p, hp, rfl⟩ := List.mem_map.mp hs
      exact hps p hp
    · obtain rfl | rfl : s = "*" ∨ s = saltName k.parameters ++ ": bytes = b\"\"" := by
        simpa using hs
      · decide
      · simp [newline_not_mem_saltName]
  rw [constructorText_eq]
  refine isMember_definition (by simp [Function.isDecorator]) hname ?_ _
  refine newline_not_mem_append (newline_not_mem_append (newline_not_mem_append ?_ ?_) ?_) ?_
  · exact hparameters
  · decide
  · exact newline_not_mem_constructorCall k
  · decide

theorem packs_constructorFunction (k : Constructor) :
    (constructorFunction k).Packs k.selector :=
  packs_of_result (by simp [newline_not_mem_constructorCall]) (by simp [newline_not_mem_saltName])

/-! ### Messages -/

def signatureParameters (s : Signature) : String :=
  ", ".intercalate ("self" :: s.parameters.map parameterText) ++ ") -> " ++ s.callType.name ++
    "[" ++ s.returns.text "" ++ "]:"

theorem signatureLine_eq (s : Signature) :
    signatureLine s = "def " ++ s.name ++ "(" ++ signatureParameters s := by
  rw [signatureLine, ← String.toList_inj]
  simp [signatureParameters, toString]

def signatureFunction (s : Signature) : Function :=
  functionOf ["@abc.abstractmethod"] ("def " ++ s.name ++ "(" ++ signatureParameters s)
    [(docstring? s.docs).getD "..."]

def messageFunction (x : Message) : Function :=
  functionOf [] ("def " ++ x.signature.name ++ "(" ++ signatureParameters x.signature)
    ((docstring? x.signature.docs).toList ++ packingLines x.selector x.signature.parameters ++
      [messageResult x])

/-- What a signature is written with stands on one line. -/
structure Signature.OneLine (s : Signature) : Prop where
  name : IsName s.name
  parameters : ∀ p ∈ s.parameters, '\n' ∉ (parameterText p).toList
  returns : '\n' ∉ (s.returns.text "").toList

theorem Signature.OneLine.newline_not_mem {s : Signature} (h : s.OneLine) :
    '\n' ∉ (signatureParameters s).toList := by
  have hparameters :
      '\n' ∉ (", ".intercalate ("self" :: s.parameters.map parameterText)).toList := by
    refine Phrase.not_mem_intercalate (by decide) fun p hp => ?_
    obtain rfl | hp := List.mem_cons.mp hp
    · decide
    · obtain ⟨q, hq, rfl⟩ := List.mem_map.mp hp
      exact h.parameters q hq
  have hcall : '\n' ∉ (") -> " ++ s.callType.name ++ "[").toList := by
    cases s.callType <;> decide
  have hsplit : signatureParameters s =
      ", ".intercalate ("self" :: s.parameters.map parameterText) ++
        (") -> " ++ s.callType.name ++ "[") ++ s.returns.text "" ++ "]:" := by
    simp only [signatureParameters, String.append_assoc]
  rw [hsplit]
  exact newline_not_mem_append (newline_not_mem_append (newline_not_mem_append hparameters hcall)
    h.returns) (by decide)

theorem isMember_signatureText {s : Signature} (h : s.OneLine) :
    IsMember (signatureText s) (signatureFunction s) := by
  rw [signatureText, signatureLine_eq]
  exact isMember_definition (by simp [Function.isDecorator]) h.name h.newline_not_mem _

theorem isMember_messageText {x : Message} (h : x.signature.OneLine) :
    IsMember (messageText x) (messageFunction x) := by
  rw [messageText_eq, signatureLine_eq]
  exact isMember_definition (by simp) h.name h.newline_not_mem _

theorem packs_messageFunction {x : Message} (h : '\n' ∉ (expression "" x.returnCodec).toList) :
    (messageFunction x).Packs x.selector := by
  have hcall : '\n' ∉ x.signature.callType.name.toList := by
    cases x.signature.callType <;> decide
  exact packs_of_result (by simp [hcall]) (by simp [h])

/-! ### Properties -/

def propertyFunction (n : Namespace) : Function :=
  functionOf ["@property"] ("def " ++ n.property ++ "(" ++ ("self) -> " ++ n.interface ++ ":"))
    ["return " ++ n.implementation ++ "(self.account_id)"]

theorem newline_not_mem_propertyResult {n : Namespace} (h : IsName n.implementation) :
    '\n' ∉ ("return " ++ n.implementation ++ "(self.account_id)").toList := by
  simp [newline_not_mem_name h]

theorem not_blank_propertyResult (n : Namespace) :
    ("return " ++ n.implementation ++ "(self.account_id)").toList.all Text.isBlank = false :=
  List.all_eq_false.mpr ⟨'r', by simp, by decide⟩

theorem propertyText_eq {n : Namespace} (h : IsName n.implementation) :
    propertyText n = functionText ["@property"]
      ("def " ++ n.property ++ "(" ++ ("self) -> " ++ n.interface ++ ":"))
      ["return " ++ n.implementation ++ "(self.account_id)"] := by
  rw [functionText, List.map_singleton, Text.indent_of_line (newline_not_mem_propertyResult h)
    (not_blank_propertyResult n), propertyText, ← String.toList_inj]
  simp [Text.unlines, toString, Text.margin]

theorem isMember_propertyText {n : Namespace} (hproperty : IsName n.property)
    (hinterface : IsName n.interface) (himplementation : IsName n.implementation) :
    IsMember (propertyText n) (propertyFunction n) := by
  rw [propertyText_eq himplementation]
  refine isMember_definition (by simp [Function.isDecorator]) hproperty ?_ _
  simp [newline_not_mem_name hinterface]

/-- The property returns an instance of the implementation. -/
theorem body_propertyFunction {n : Namespace} (h : IsName n.implementation) :
    (propertyFunction n).body = ["    return " ++ n.implementation ++ "(self.account_id)"] := by
  rw [propertyFunction, functionOf, List.flatMap_singleton,
    lines_indent_of_line (newline_not_mem_propertyResult h) (not_blank_propertyResult n)]
  have hline : Text.margin ++ ("return " ++ n.implementation ++ "(self.account_id)") =
      "    return " ++ n.implementation ++ "(self.account_id)" := by
    rw [← String.toList_inj]
    simp [Text.margin]
  rw [hline]
  simp [String.append_eq_empty_iff]

end InkBindings.Bindings
