import InkBindings.Proofs.Bindings.MadeMethods
import InkBindings.Proofs.Bindings.Packing
import InkBindings.Proofs.Metadata.Declarations

/-!
The call types of the methods of a contract. A method is for a call that changes the contract if any
message with the selector of its own does, so all methods go by their own messages exactly if no two
messages of one selector differ in that.
-/

namespace InkBindings

open Metadata (EntryPoint inherentOf membersOf namespacesOf)

/-- Whether a message changes the contract that is called by the selector. -/
def Metadata.changesBy (m : Metadata) (selector : Bytes) : Bool :=
  m.messages.any fun e => e.mutates && e.selector == selector

namespace Bindings

open Naming (IsName isNameChar)

def callTypeFor (changes payable : Bool) : CallType :=
  if changes then if payable then .execNeedsValue else .exec else .read

/-- The class of what a function returns, as its last line has it. -/
def returned? (function : String) : Option String :=
  let last := ((Text.lines function).getLastD "").toList.dropWhile (· == ' ')
  let called := last.drop "return ".length
  match "return ".toList.isPrefixOf last, called.dropWhile isNameChar with
  | true, '(' :: _ => some (String.ofList (called.takeWhile isNameChar))
  | _, _ => none

/-! ### What a method returns -/

/-- A function ends with its last statement, if this is one line. -/
theorem getLast_lines_functionText {result : String} (hline : '\n' ∉ result.toList)
    (hblank : result.toList.all Text.isBlank = false) (decorators : List String)
    (signature : String) (body : List String) :
    (Text.lines (functionText decorators signature (body ++ [result]))).getLastD "" =
      Text.margin ++ result := by
  have hindented : '\n' ∉ (Text.margin ++ result).toList := by
    simpa [Text.margin] using hline
  have hlines : decorators ++ signature :: (body ++ [result]).map Text.indent =
      (decorators ++ signature :: body.map Text.indent) ++ [Text.margin ++ result] := by
    rw [List.map_append, List.map_singleton, Text.indent_of_line hline hblank]
    simp
  rw [functionText, hlines, Text.lines_unlines (by simp), List.flatMap_append,
    List.flatMap_singleton, Text.lines_of_not_mem hindented, List.getLastD_concat]

theorem returned_of_getLast {function result : String} {t : CallType}
    (h : (Text.lines function).getLastD "" = Text.margin ++ ("return " ++ t.name ++ "(" ++ result)) :
    returned? function = some t.name := by
  have hname : ∀ c ∈ t.name.toList, isNameChar c = true := by
    cases t <;> exact List.all_eq_true.mp (by decide)
  obtain ⟨htake, hdrop⟩ := takeWhile_append_of_all ('(' :: result.toList) hname
    (by simp [isNameChar])
  have hlast : (Text.margin ++ ("return " ++ t.name ++ "(" ++ result)).toList.dropWhile (· == ' ') =
      "return ".toList ++ (t.name.toList ++ '(' :: result.toList) := by
    simp [Text.margin]
  have hkeyword : "return ".toList.isPrefixOf
      ("return ".toList ++ (t.name.toList ++ '(' :: result.toList)) = true :=
    List.isPrefixOf_iff_prefix.mpr (List.prefix_append _ _)
  have hcalled : ("return ".toList ++ (t.name.toList ++ '(' :: result.toList)).drop
      "return ".length = t.name.toList ++ '(' :: result.toList := List.drop_left
  simp only [returned?, h, hlast, hkeyword, hcalled, htake, hdrop, String.ofList_toList]

theorem newline_not_mem_packed (selector : Bytes) (ps : List Parameter) :
    '\n' ∉ (packed selector ps).toList := by
  have hbytes : ∀ s : String, '\n' ∉ s.toList → '\n' ∉ ("bytes(" ++ s ++ ")").toList := by
    intro s hs
    simpa using hs
  rw [packed]
  split
  · refine hbytes _ ?_
    rw [← text_selectorPhrase]
    exact Phrase.newline_not_mem_text (wellformed_selector selector)
  · exact hbytes _ (newline_not_mem_name (isName_bufferName ps))

theorem newline_not_mem_returnCodec {c : Context} (hs : ∀ d ∈ c.scope.declarations, IsName d.name)
    {e : EntryPoint} {codec : Scale.Codec} (h : returnCodec c.scope e = .ok codec) :
    '\n' ∉ (expression "" codec).toList := by
  rw [returnCodec] at h
  split at h
  · rw [← text_codecPhrase]
    exact Phrase.newline_not_mem_text (wellformed_codec_of_names hs (by simp) h)
  · cases h
    decide

/-- The statement that the method of a message ends with. -/
def messageResult (x : Message) : String :=
  "return " ++ x.signature.callType.name ++ "(self.account_id, " ++
    packed x.selector x.signature.parameters ++ (", " ++ expression "" x.returnCodec ++ ")")

theorem messageText_eq (x : Message) :
    messageText x = functionText [] (signatureLine x.signature)
      ((docstring? x.signature.docs).toList ++ packingLines x.selector x.signature.parameters ++
        [messageResult x]) := by
  rw [messageText]
  congr 3
  rw [← String.toList_inj]
  simp [messageResult, toString]

theorem newline_not_mem_messageResult {x : Message}
    (h : '\n' ∉ (expression "" x.returnCodec).toList) : '\n' ∉ (messageResult x).toList := by
  have hclass : '\n' ∉ x.signature.callType.name.toList := by
    cases x.signature.callType <;> decide
  simp [messageResult, hclass, h, newline_not_mem_packed]

theorem not_blank_messageResult (x : Message) :
    (messageResult x).toList.all Text.isBlank = false :=
  List.all_eq_false.mpr ⟨'r', by simp [messageResult], by decide⟩

/-- A message returns an instance of the class that its call type tells. -/
theorem returned_messageText {room : Room} {m : Metadata} {mutators : List Bytes}
    {e : EntryPoint} {x : Message} (h : MethodOf (Scope.ofMetadata room m) mutators e x) :
    returned? (messageText x) = some x.signature.callType.name := by
  obtain ⟨c, name, hscope, h⟩ := h
  have hs : ∀ d ∈ c.scope.declarations, IsName d.name := by
    rw [hscope]
    exact fun d hd => Metadata.Registry.isName_of_mem_declarations hd
  have hline := newline_not_mem_messageResult (newline_not_mem_returnCodec hs (madeMessage h).codec)
  have hresult : messageResult x = "return " ++ x.signature.callType.name ++ "(" ++
      ("self.account_id, " ++ packed x.selector x.signature.parameters ++ ", " ++
        expression "" x.returnCodec ++ ")") := by
    rw [← String.toList_inj]
    simp [messageResult]
  have hlast := getLast_lines_functionText hline (not_blank_messageResult x) []
    (signatureLine x.signature)
    ((docstring? x.signature.docs).toList ++ packingLines x.selector x.signature.parameters)
  rw [← messageText_eq, hresult] at hlast
  exact returned_of_getLast hlast

/-! ### The calls of a contract -/

theorem callType_eq (m : Metadata) (e : EntryPoint) :
    callType (mutatorSelectors m) e = callTypeFor (m.changesBy e.selector) e.payable := by
  have hcontains : (mutatorSelectors m).contains e.selector = m.changesBy e.selector := by
    rw [Bool.eq_iff_iff]
    simp [mutatorSelectors, Metadata.mutators, Metadata.changesBy, and_assoc]
  rw [callType, hcontains]
  rfl

theorem eq_of_name_callTypeFor {changes changes' payable : Bool}
    (h : (callTypeFor changes payable).name = (callTypeFor changes' payable).name) :
    changes = changes' := by
  revert h
  cases changes <;> cases changes' <;> cases payable <;> decide

theorem changesBy_of_mutates {m : Metadata} {e : EntryPoint} (he : e ∈ m.messages)
    (h : e.mutates = true) : m.changesBy e.selector = true :=
  List.any_eq_true.mpr ⟨e, he, by simp [h]⟩

/-- The methods of a contract return calls of the type for their selectors. These are of the type
for their messages exactly if of any two messages with one selector both change the contract or
neither does. -/
theorem callTypes_iff {room : Room} {m : Metadata} {b : Bindings} (h : within? room m = .ok b) :
    EachMethod m b (fun e x =>
        x.signature.callType = callTypeFor (m.changesBy e.selector) e.payable ∧
          returned? (messageText x) = some x.signature.callType.name) ∧
      (EachMethod m b (fun e x =>
          returned? (messageText x) = some (callTypeFor e.mutates e.payable).name) ↔
        ∀ e ∈ m.messages, ∀ e' ∈ m.messages, e'.selector = e.selector → e'.mutates = true →
          e.mutates = true) := by
  have hcalls : EachMethod m b fun e x =>
      x.signature.callType = callTypeFor (m.changesBy e.selector) e.payable ∧
        returned? (messageText x) = some x.signature.callType.name := by
    refine (eachMethod_of_within h).imp fun e _ x hx => ⟨?_, returned_messageText hx⟩
    obtain ⟨c, name, -, hx⟩ := hx
    rw [← callType_eq, callType_of_makeMessage hx]
  refine ⟨hcalls, fun hown e he e' he' hselector hmutates => ?_, fun hagree => ?_⟩
  · obtain ⟨x, htold, htype, hreturned⟩ := (hown.and hcalls).exists_of_mem he
    rw [htype, htold] at hreturned
    rw [eq_of_name_callTypeFor (Option.some.inj hreturned), ← hselector]
    exact changesBy_of_mutates he' hmutates
  · refine hcalls.imp fun e he x hx => ?_
    have hsame : m.changesBy e.selector = e.mutates := by
      rw [Bool.eq_iff_iff]
      refine ⟨fun hchanges => ?_, changesBy_of_mutates he⟩
      obtain ⟨e', he', hboth⟩ := List.any_eq_true.mp hchanges
      obtain ⟨hmutates, hselector⟩ := Bool.and_eq_true_iff.mp hboth
      exact hagree e he e' he' (beq_iff_eq.mp hselector) hmutates
    rw [hx.2, hx.1, hsame]

/-- Messages without arguments and results. -/
def callable (label : String) (selector : Bytes) (mutates payable : Bool) : EntryPoint :=
  ⟨label, selector, [], none, mutates, payable, []⟩

def callableOnly (messages : List EntryPoint) : Metadata :=
  ⟨[], [], [], messages, [], none⟩

/-- One message looks, one changes, and one of a namespace changes and takes a payment. -/
def purse : Metadata :=
  callableOnly [callable "look" [0, 0, 0, 1] false true, callable "put" [0, 0, 0, 2] true false,
    callable "Trade::buy" [0, 0, 0, 3] true true]

theorem purse_callTypes : ∃ b, within? .unbounded purse = .ok b ∧
    EachMethod purse b fun e x =>
      returned? (messageText x) = some (callTypeFor e.mutates e.payable).name :=
  ⟨_, rfl, (callTypes_iff rfl).2.mpr (by decide)⟩

/-- A message that leaves the contract as it is has the selector of one that changes it. -/
def shared : Metadata :=
  callableOnly [callable "look" [0, 0, 0, 1] false false, callable "put" [0, 0, 0, 1] true false]

theorem shared_not_callTypes : ¬ ∀ room m b, within? room m = .ok b →
    EachMethod m b fun e x =>
      returned? (messageText x) = some (callTypeFor e.mutates e.payable).name := by
  intro h
  obtain ⟨b, hb⟩ : ∃ b, within? .unbounded shared = .ok b := ⟨_, rfl⟩
  have hboth := (h .unbounded shared b hb).and (eachMethod_of_within hb)
  have hmethods := hboth.inherent
  generalize b.messages = xs at hmethods
  cases hmethods with
  | cons hlook _ =>
      obtain ⟨htold, hmade⟩ := hlook
      rw [returned_messageText hmade] at htold
      obtain ⟨c, name, -, hx⟩ := hmade
      rw [callType_of_makeMessage hx] at htold
      exact absurd (Option.some.inj htold) (by decide)

end Bindings
end InkBindings
