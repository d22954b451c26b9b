import InkBindings.Proofs.Bindings.CompleteBindings
import InkBindings.Proofs.Bindings.DocLiterals
import InkBindings.Proofs.Bindings.ShiftedText

/-!
The text of the parts of bindings that have no labels in them. What stands on a line or on several
leads back to the code, or to a literal that reading breaks off in.
-/

namespace InkBindings.Bindings

open Naming (IsName)
open Text (indent unlines)

/-- The text leads back to the code unless reading breaks off in it. -/
abbrev Returns (s : String) : Prop := Alike s s

theorem returns_unlines {ls : List String} (h : ∀ l ∈ ls, Returns l) : Returns (unlines ls) :=
  alike_unlines (List.forall₂_same.mpr h)

theorem returns_docs {docs : List String} : ∀ l ∈ (docstring? docs).toList, Returns l :=
  fun _ hl => alike_docstring (Option.mem_toList.mp hl)

theorem returns_docs_getD {docs : List String} {other : String} (h : IsComplete other) :
    Returns ((docstring? docs).getD other) := by
  cases hdoc : docstring? docs with
  | none => exact h.alike
  | some doc => exact alike_docstring hdoc

/-! ### Records -/

section
variable {qualifier : String} {rows : List Row} (h : ∀ r ∈ rows, r.Complete qualifier)
include h

theorem returns_rowLines : ∀ l ∈ rows.flatMap (rowLines qualifier), Returns l := by
  intro l hl
  obtain ⟨r, hr, hl⟩ := List.mem_flatMap.mp hl
  obtain rfl | hl := List.mem_cons.mp hl
  · have hcolon : IsComplete ": " := isComplete_ofList rfl
    have hrow := h r hr
    exact (((isComplete_name hrow.name).append hcolon).append hrow.annotation).alike
  · exact returns_docs l hl

theorem returns_recordBody (docs : List String) : Returns (recordBody qualifier docs rows) := by
  have hrows := returns_rowLines h
  have hempty : Returns "" := isComplete_empty.alike
  have hpass : IsComplete "pass" := isComplete_ofList rfl
  simp only [recordBody]
  refine Alike.indent (returns_unlines fun l hl => ?_)
  cases hdoc : docstring? docs with
  | none =>
      cases hcomponents : rows.flatMap (rowLines qualifier) with
      | nil =>
          simp only [hdoc, hcomponents, List.mem_singleton] at hl
          exact hl ▸ hpass.alike
      | cons first rest =>
          simp only [hdoc, hcomponents] at hl
          exact hrows l (hcomponents ▸ hl)
  | some doc =>
      have hreturns := alike_docstring hdoc
      cases hcomponents : rows.flatMap (rowLines qualifier) with
      | nil =>
          simp only [hdoc, hcomponents, List.mem_singleton] at hl
          exact hl ▸ hreturns
      | cons first rest =>
          simp only [hdoc, hcomponents, List.mem_cons] at hl
          obtain rfl | rfl | hl := hl
          · exact hreturns
          · exact hempty
          · exact hrows l (hcomponents ▸ List.mem_cons.mpr hl)

theorem completeFields_layoutOf : ∀ f ∈ layoutOf rows, CompleteField qualifier f := by
  intro f hf
  obtain ⟨r, hr, rfl⟩ := List.mem_map.mp hf
  exact ⟨(h r hr).name, (h r hr).codec⟩

end

/-! ### Declared types -/

theorem returns_recordText {name : String} (hname : IsName name) (docs : List String)
    {rows : List Row} (h : ∀ r ∈ rows, r.Complete "") : Returns (recordText name docs rows) := by
  have hdecorator : IsComplete "@dataclass(frozen=True)" := isComplete_ofList rfl
  have hclass : IsComplete "class " := isComplete_ofList rfl
  have hbase : IsComplete "(scale.Struct):" := isComplete_ofList rfl
  exact alike_unlines (.cons hdecorator.alike
    (.cons ((hclass.append (isComplete_name hname)).append hbase).alike
      (.cons (returns_recordBody h docs) .nil)))

theorem returns_sumText {name : String} (hname : IsName name) (docs : List String) :
    Returns (sumText name docs) := by
  have hclass : IsComplete "class " := isComplete_ofList rfl
  have hbase : IsComplete "(scale.Enum):" := isComplete_ofList rfl
  have hpass : IsComplete "pass" := isComplete_ofList rfl
  exact alike_unlines (.cons ((hclass.append (isComplete_name hname)).append hbase).alike
    (.cons (returns_docs_getD hpass).indent .nil))

theorem CompleteLayout.returns_binding {l : Scale.Reference × Layout} (h : CompleteLayout l) :
    Returns (bindingStatement l) := by
  have hbind : IsComplete ".bind(" := isComplete_ofList rfl
  have hlayout : IsComplete ".layout(" := isComplete_ofList rfl
  have hclosing : IsComplete ")" := isComplete_ofList rfl
  obtain ⟨reference, layout⟩ := l
  have hreference := h.reference
  cases reference with
  | instantiation key owner =>
      exact (((hreference.append hbind).append h.layout).append hclosing).alike
  | declared name | alternative owner label =>
      exact (((hreference.append hlayout).append h.layout).append hclosing).alike

theorem CompleteLayout.returns_codec {l : Scale.Reference × Layout} (h : CompleteLayout l)
    {statement : String} (hstatement : codecStatement? l = some statement) :
    Returns statement := by
  have hrecord : IsComplete " = scale.StructCodec(" := isComplete_ofList rfl
  have hsum : IsComplete " = scale.EnumCodec(" := isComplete_ofList rfl
  have hclosing : IsComplete ")" := isComplete_ofList rfl
  obtain ⟨reference, layout⟩ := l
  have hreference := h.reference
  cases reference with
  | instantiation key owner =>
      cases layout with
      | record fields =>
          cases hstatement
          exact (((hreference.append hrecord).append h.owner).append hclosing).alike
      | sum alternatives =>
          cases hstatement
          exact (((hreference.append hsum).append h.owner).append hclosing).alike
  | declared name | alternative owner label => cases hstatement

theorem returns_statementBlock {statements : List String} (h : ∀ s ∈ statements, Returns s) :
    ∀ block ∈ statementBlock statements, Returns block := by
  cases statements with
  | nil => exact nofun
  | cons first rest => exact List.forall_mem_singleton.mpr (returns_unlines h)

/-! ### Functions -/

theorem returns_functionText {decorators : List String} (hdecorators : ∀ d ∈ decorators, Returns d)
    {line : String} (hline : IsComplete line) {body : List String} (hbody : ∀ s ∈ body, Returns s) :
    Returns (functionText decorators line body) := by
  refine returns_unlines fun l hl => ?_
  obtain hl | hl := List.mem_append.mp hl
  · exact hdecorators l hl
  · obtain rfl | hl := List.mem_cons.mp hl
    · exact hline.alike
    · obtain ⟨s, hs, rfl⟩ := List.mem_map.mp hl
      exact (hbody s hs).indent

theorem returns_memberBlock {members : List String} (h : ∀ m ∈ members, Returns m) :
    Returns (memberBlock members) := by
  refine returns_unlines fun l hl => ?_
  obtain ⟨m, hm, rfl⟩ := List.mem_map.mp hl
  exact isComplete_empty.alike.append (h m hm).indent

theorem Parameter.Complete.isComplete {p : Parameter} (h : p.Complete) :
    IsComplete (parameterText p) := by
  have hcolon : IsComplete ": " := isComplete_ofList rfl
  exact ((isComplete_name h.name).append hcolon).append h.annotation

theorem isComplete_selector (selector : Bytes) : IsComplete (selectorText selector) := by
  have hopening : IsComplete "[" := isComplete_ofList rfl
  have hcomma : IsComplete ", " := isComplete_ofList rfl
  have hclosing : IsComplete "]" := isComplete_ofList rfl
  refine (hopening.append (isComplete_intercalate hcomma fun l hl => ?_)).append hclosing
  obtain ⟨b, -, rfl⟩ := List.mem_map.mp hl
  exact (isPlain_number b.toNat).isComplete

section
variable {ps : List Parameter} (hps : ∀ p ∈ ps, p.Complete) (selector : Bytes)

include hps in
theorem returns_packingLines : ∀ l ∈ packingLines selector ps, Returns l := by
  have hbuffer := isComplete_name (isName_bufferName ps)
  have hmaking : IsComplete " = bytearray(" := isComplete_ofList rfl
  have hwriting : IsComplete ".encode_to(" := isComplete_ofList rfl
  have hcomma : IsComplete ", " := isComplete_ofList rfl
  have hclosing : IsComplete ")" := isComplete_ofList rfl
  simp only [packingLines]
  split
  · exact fun _ hl => absurd hl List.not_mem_nil
  · intro l hl
    obtain rfl | hl := List.mem_cons.mp hl
    · exact (((hbuffer.append hmaking).append (isComplete_selector selector)).append hclosing).alike
    · obtain ⟨p, hp, rfl⟩ := List.mem_map.mp hl
      have hp := hps p hp
      exact (hp.codec.append ((((hwriting.append (isComplete_name hp.name)).append hcomma).append
        hbuffer).append hclosing)).alike

theorem isComplete_packed : IsComplete (packed selector ps) := by
  have hopening : IsComplete "bytes(" := isComplete_ofList rfl
  have hclosing : IsComplete ")" := isComplete_ofList rfl
  rw [packed]
  split
  · exact (hopening.append (isComplete_selector selector)).append hclosing
  · exact (hopening.append (isComplete_name (isName_bufferName ps))).append hclosing

end

theorem isComplete_callType (t : CallType) : IsComplete t.name := by
  cases t <;> rfl

theorem Signature.Complete.isComplete_line {s : Signature} (h : s.Complete) :
    IsComplete (signatureLine s) := by
  have hdef : IsComplete "def " := isComplete_ofList rfl
  have hopening : IsComplete "(" := isComplete_ofList rfl
  have hcomma : IsComplete ", " := isComplete_ofList rfl
  have hself : IsComplete "self" := isComplete_ofList rfl
  have harrow : IsComplete ") -> " := isComplete_ofList rfl
  have hbracket : IsComplete "[" := isComplete_ofList rfl
  have hend : IsComplete "]:" := isComplete_ofList rfl
  have hparameters : IsComplete (", ".intercalate ("self" :: s.parameters.map parameterText)) := by
    refine isComplete_intercalate hcomma (List.forall_mem_cons.mpr ⟨hself, fun l hl => ?_⟩)
    obtain ⟨p, hp, rfl⟩ := List.mem_map.mp hl
    exact (h.parameters p hp).isComplete
  rw [signatureLine_eq]
  exact ((hdef.append (isComplete_name h.name)).append hopening).append
    (((((hparameters.append harrow).append (isComplete_callType s.callType)).append
      hbracket).append h.returns).append hend)

theorem Signature.Complete.returns_text {s : Signature} (h : s.Complete) :
    Returns (signatureText s) := by
  have hdecorator : IsComplete "@abc.abstractmethod" := isComplete_ofList rfl
  have hdots : IsComplete "..." := isComplete_ofList rfl
  exact returns_functionText (List.forall_mem_singleton.mpr hdecorator.alike) h.isComplete_line
    (List.forall_mem_singleton.mpr (returns_docs_getD hdots))

theorem Message.Complete.returns_text {x : Message} (h : x.Complete) : Returns (messageText x) := by
  have hreturn : IsComplete "return " := isComplete_ofList rfl
  have hself : IsComplete "(self.account_id, " := isComplete_ofList rfl
  have hcomma : IsComplete ", " := isComplete_ofList rfl
  have hclosing : IsComplete ")" := isComplete_ofList rfl
  have hresult : IsComplete (messageResult x) :=
    (((hreturn.append (isComplete_callType x.signature.callType)).append hself).append
      (isComplete_packed _)).append ((hcomma.append h.returnCodec).append hclosing)
  rw [messageText_eq]
  refine returns_functionText (List.forall_mem_nil _) h.signature.isComplete_line fun s hs => ?_
  simp only [List.mem_append, List.mem_singleton] at hs
  obtain (hs | hs) | rfl := hs
  · exact returns_docs s hs
  · exact returns_packingLines h.signature.parameters x.selector s hs
  · exact hresult.alike

/-- What is appended to the last of several texts stands behind all of them. -/
theorem intercalate_append (separator : String) (ls : List String) (last more : String) :
    separator.intercalate (ls ++ [last ++ more]) =
      separator.intercalate (ls ++ [last]) ++ more := by
  induction ls with
  | nil => simp
  | cons l rest ih =>
      obtain ⟨k, others, hcons⟩ : ∃ k others, rest ++ [last] = k :: others :=
        List.exists_cons_of_ne_nil (by simp)
      obtain ⟨k', others', hcons'⟩ : ∃ k others, rest ++ [last ++ more] = k :: others :=
        List.exists_cons_of_ne_nil (by simp)
      rw [List.cons_append, List.cons_append, hcons, hcons', String.intercalate_cons_cons,
        String.intercalate_cons_cons, ← hcons, ← hcons', ih]
      simp only [String.append_assoc]

theorem isComplete_constructorCall (k : Constructor) : IsComplete (constructorCall k) := by
  rw [constructorCall]
  split <;> rfl

/-- The empty literal that the salt is by default is told by the bracket behind it. -/
theorem Constructor.Complete.isComplete_parameters {k : Constructor} (h : k.Complete) :
    IsComplete (constructorParameters k) := by
  have hcomma : IsComplete ", " := isComplete_ofList rfl
  have hstar : IsComplete "*" := isComplete_ofList rfl
  have hbytes : IsComplete ": bytes = b" := isComplete_ofList rfl
  have harrow : IsComplete "\"\") -> " := isComplete_ofList rfl
  have hresult : IsComplete "[Instance]:" := isComplete_ofList rfl
  have hsalt := (isComplete_name (isName_saltName k.parameters)).append hbytes
  have hbefore : IsComplete (", ".intercalate (k.parameters.map parameterText ++
      ["*"] ++ [saltName k.parameters ++ ": bytes = b"])) := by
    refine isComplete_intercalate hcomma fun l hl => ?_
    simp only [List.mem_append, List.mem_singleton] at hl
    obtain (hl | rfl) | rfl := hl
    · obtain ⟨p, hp, rfl⟩ := List.mem_map.mp hl
      exact (h.parameters p hp).isComplete
    · exact hstar
    · exact hsalt
  have htext : constructorParameters k = ", ".intercalate (k.parameters.map parameterText ++
      ["*"] ++ [saltName k.parameters ++ ": bytes = b"]) ++ "\"\") -> " ++ constructorCall k ++
      "[Instance]:" := by
    have hsplit : saltName k.parameters ++ ": bytes = b\"\"" =
        saltName k.parameters ++ ": bytes = b" ++ "\"\"" := by
      rw [String.append_assoc]
      rfl
    have hends : k.parameters.map parameterText ++
        ["*", saltName k.parameters ++ ": bytes = b" ++ "\"\""] =
        k.parameters.map parameterText ++ ["*"] ++
          [saltName k.parameters ++ ": bytes = b" ++ "\"\""] := by
      rw [List.append_assoc]
      rfl
    rw [constructorParameters, hsplit, hends, intercalate_append]
    have hquotes : "\"\"" ++ ") -> " = "\"\") -> " := rfl
    rw [← hquotes]
    simp only [String.append_assoc]
  rw [htext]
  exact ((hbefore.append harrow).append (isComplete_constructorCall k)).append hresult

theorem Constructor.Complete.returns_text {k : Constructor} (h : k.Complete) :
    Returns (constructorText k) := by
  have hdecorator : IsComplete "@staticmethod" := isComplete_ofList rfl
  have hdef : IsComplete "def " := isComplete_ofList rfl
  have hopening : IsComplete "(" := isComplete_ofList rfl
  have hreturn : IsComplete "return " := isComplete_ofList rfl
  have hhash : IsComplete "(CODE_HASH, " := isComplete_ofList rfl
  have hinstance : IsComplete ", Instance, salt=" := isComplete_ofList rfl
  have hclosing : IsComplete ")" := isComplete_ofList rfl
  have hresult : IsComplete ("return " ++ constructorCall k ++ "(CODE_HASH, " ++
      packed k.selector k.parameters ++ (", Instance, salt=" ++ saltName k.parameters ++ ")")) :=
    (((hreturn.append (isComplete_constructorCall k)).append hhash).append
      (isComplete_packed _)).append
        ((hinstance.append (isComplete_name (isName_saltName _))).append hclosing)
  rw [constructorText_eq]
  refine returns_functionText (List.forall_mem_singleton.mpr hdecorator.alike)
    (((hdef.append (isComplete_name h.name)).append hopening).append h.isComplete_parameters)
    fun s hs => ?_
  simp only [constructorBody, List.mem_append, List.mem_singleton] at hs
  obtain (hs | hs) | rfl := hs
  · exact returns_docs s hs
  · exact returns_packingLines h.parameters k.selector s hs
  · exact hresult.alike

theorem Namespace.Complete.returns_property {n : Namespace} (h : n.Complete) :
    Returns (propertyText n) := by
  have hdecorator : IsComplete "@property" := isComplete_ofList rfl
  have hdef : IsComplete "def " := isComplete_ofList rfl
  have hself : IsComplete "(self) -> " := isComplete_ofList rfl
  have hcolon : IsComplete ":" := isComplete_ofList rfl
  have hreturn : IsComplete "    return " := isComplete_ofList rfl
  have haccount : IsComplete "(self.account_id)" := isComplete_ofList rfl
  exact alike_unlines (.cons hdecorator.alike
    (.cons ((((hdef.append (isComplete_name h.property)).append hself).append
      (isComplete_name h.interface)).append hcolon).alike
    (.cons ((hreturn.append (isComplete_name h.implementation)).append haccount).alike .nil)))

/-! ### The module -/

theorem returns_bannerLine : Returns bannerLine :=
  ⟨rfl, .inl rfl⟩

end InkBindings.Bindings
