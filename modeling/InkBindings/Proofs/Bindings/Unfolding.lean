import InkBindings.Proofs.Bindings.MadeTypes
import InkBindings.Proofs.Bindings.WireShape

/-!
Steps of unfolding. What a codec expression unfolds to is what its type is in the registry, if this
holds of the types that it refers to, one step less deep.
-/

namespace InkBindings.Bindings

open Metadata (TypeId TypeEntry Registry)
open Naming (IsName)

/-- Two lists that give the same results, place by place. -/
theorem exists_mapM {α β γ : Type} {f : α → Option γ} {g : β → Option γ} {as : List α} {bs : List β}
    (h : List.Forall₂ (fun a b => ∃ c, f a = some c ∧ g b = some c) as bs) :
    ∃ cs, as.mapM f = some cs ∧ bs.mapM g = some cs := by
  induction h with
  | nil => exact ⟨[], rfl, rfl⟩
  | cons hab _ ih =>
      obtain ⟨c, ha, hb⟩ := hab
      obtain ⟨cs, has, hbs⟩ := ih
      exact ⟨c :: cs, by simp [ha, has], by simp [hb, hbs]⟩

/-- The type of an id and the codec of an expression have the same shape. -/
def SameShape (shape? : TypeId → Option WireShape) (codecShape? : Phrase → Option WireShape)
    (id : TypeId) (c : Scale.Codec) : Prop :=
  ∃ shape, shape? id = some shape ∧ codecShape? (codecPhrase "" c) = some shape

/-! ### Steps of expressions -/

section Expressions
variable {t : Emitted} {depth : Nat}

theorem importedShape_int (kind : Scale.IntKind) :
    importedShape? (intConstant kind) = some (.int kind) := by
  obtain ⟨signed, width⟩ := kind
  cases signed <;> cases width <;> rfl

theorem importedShape_of_name {name : String} (hname : IsName name) (hne : name ≠ "InkLangError") :
    importedShape? name = none := by
  have hdotted : ∀ p ∈ importedCodecs, p.1 = "InkLangError" ∨ '.' ∈ p.1.toList := by decide
  have hnone : importedCodecs.find? (·.1 = name) = none := by
    rw [List.find?_eq_none]
    intro p hp heq
    obtain rfl : p.1 = name := by simpa using heq
    obtain hlang | hdot := hdotted p hp
    · exact hne hlang
    · exact absurd (hname.chars _ hdot) (by decide)
  rw [importedShape?, hnone, Option.map_none]

theorem unfold_imported {name : String} {shape : WireShape} (h : importedShape? name = some shape) :
    t.codecShape? (depth + 1) (.word name) = some shape := by
  rw [Emitted.codecShape?, h]

theorem unfold_declared {name : String} (hname : IsName name) (hne : name ≠ "InkLangError") :
    t.codecShape? (depth + 1) (.word name) = t.boundShape? (t.codecShape? depth) name := by
  rw [Emitted.codecShape?, importedShape_of_name hname hne]

theorem unfold_library (name : String) (arguments : List Phrase) :
    t.codecShape? (depth + 1) (libraryPhrase name arguments) =
      Emitted.libraryShape? (t.codecShape? depth) ("scale." ++ name) arguments := by
  rw [libraryPhrase, Emitted.codecShape?]

theorem unfold_primitive (p : Metadata.Primitive) :
    t.codecShape? (depth + 1) (codecPhrase "" (primitiveCodec p)) = some p.wireShape := by
  cases p with
  | int kind => exact unfold_imported (importedShape_int kind)
  | bool | char | str => exact unfold_imported rfl

theorem unfold_tuple {items : List Scale.Codec} {shapes : List WireShape}
    (h : (items.map (codecPhrase "")).mapM (t.codecShape? depth) = some shapes) :
    t.codecShape? (depth + 1) (codecPhrase "" (.tuple items)) = some (.tuple shapes) := by
  rw [codecPhrase, codecPhrases_eq_map, unfold_library]
  simp [Emitted.libraryShape?, h]

theorem unfold_fixedBytes (length : Int) :
    t.codecShape? (depth + 1) (codecPhrase "" (.fixedBytes length)) =
      some (.fixedBytes length) := by
  rw [codecPhrase, unfold_library]
  simp [Emitted.libraryShape?, numberPhrase, intOfChars_number, -Int.toString_eq_repr]

section
variable {c c' : Scale.Codec} {shape shape' : WireShape}
  (h : t.codecShape? depth (codecPhrase "" c) = some shape)
include h

theorem unfold_array (length : Int) :
    t.codecShape? (depth + 1) (codecPhrase "" (.array c length)) =
      some (.array shape length) := by
  rw [codecPhrase, unfold_library]
  simp [Emitted.libraryShape?, numberPhrase, intOfChars_number, h, -Int.toString_eq_repr]

theorem unfold_sequence :
    t.codecShape? (depth + 1) (codecPhrase "" (.sequence c)) = some (.sequence shape) := by
  rw [codecPhrase, unfold_library]
  simp [Emitted.libraryShape?, h]

theorem unfold_compact :
    t.codecShape? (depth + 1) (codecPhrase "" (.compact c)) = some (.compact shape) := by
  rw [codecPhrase, unfold_library]
  simp [Emitted.libraryShape?, h]

theorem unfold_option :
    t.codecShape? (depth + 1) (codecPhrase "" (.option c)) = some (.option shape) := by
  rw [codecPhrase, unfold_library]
  simp [Emitted.libraryShape?, h]

theorem unfold_result (h' : t.codecShape? depth (codecPhrase "" c') = some shape') :
    t.codecShape? (depth + 1) (codecPhrase "" (.result c c')) = some (.result shape shape') := by
  rw [codecPhrase, unfold_library]
  simp [Emitted.libraryShape?, h, h']

theorem unfold_map (h' : t.codecShape? depth (codecPhrase "" c') = some shape') :
    t.codecShape? (depth + 1) (codecPhrase "" (.map c c')) = some (.map shape shape') := by
  rw [codecPhrase, unfold_library]
  simp [Emitted.libraryShape?, h, h']

end

end Expressions

/-! ### Steps of types -/

section Types
variable {r : Registry} {depth : Nat} {id : TypeId} {e : TypeEntry}

theorem wireShape_of_structured (he : r.find? id = some e)
    (h : e.definition.isStructured = true) : r.wireShape? (depth + 1) id =
      match e.kind with
      | .reserved => Metadata.frameworkShape? e.name
      | .builtin => Metadata.builtinShape? (r.wireShape? depth) e.name e.arguments
      | .custom => Metadata.ownShape? (r.wireShape? depth) e.definition := by
  rw [Registry.wireShape?, he, Option.bind_eq_bind, Option.bind_some]
  cases hdefinition : e.definition with
  | composite | variant => rfl
  | _ =>
      rw [hdefinition] at h
      cases h

theorem wireShape_of_builtin (he : r.find? id = some e) (h : e.definition.isStructured = true)
    (hkind : e.kind = .builtin) : r.wireShape? (depth + 1) id =
      Metadata.builtinShape? (r.wireShape? depth) e.name e.arguments := by
  rw [wireShape_of_structured he h, hkind]

end Types

theorem exists_frameworkShape {name : String} {reserved : Reserved}
    (h : Reserved.ofName? name = some reserved) (t : Emitted) (depth : Nat) :
    ∃ shape, Metadata.frameworkShape? name = some shape ∧
      t.codecShape? (depth + 1) (codecPhrase "" reserved.codec) = some shape := by
  simp only [Reserved.ofName?] at h
  split at h <;> cases h <;> exact ⟨_, rfl, unfold_imported rfl⟩

/-! ### Steps of layouts -/

theorem component_fieldPhrase (f : String × Scale.Codec) :
    component? (fieldPhrase "" f) = some (codecPhrase "" f.2) := by
  simp [fieldPhrase, quotedPhrase, component?]

theorem components_of_fields (components : Scale.Fields) :
    (components.map (fieldPhrase "")).mapM component? =
      some (components.map fun f => codecPhrase "" f.2) := by
  induction components with
  | nil => rfl
  | cons f rest ih => simp [component_fieldPhrase, ih]

theorem exists_fieldShapes {s : Scope} {shape? : TypeId → Option WireShape}
    {codecShape? : Phrase → Option WireShape}
    (hcodec : ∀ id c, s.codec id = .ok c → SameShape shape? codecShape? id c)
    {fields : Metadata.Fields} {components : Scale.Fields} (h : Laid s fields components) :
    ∃ shapes, fields.wireShapes? shape? = some shapes ∧
      (components.map fun f => codecPhrase "" f.2).mapM codecShape? = some shapes := by
  refine exists_mapM ?_
  rw [List.forall₂_map_right_iff]
  exact h.imp fun f p hp => hcodec _ _ hp.2

theorem boundShape_record {t : Emitted} {codecShape? : Phrase → Option WireShape} {name : String}
    {items codecs : List Phrase} {shapes : List WireShape} (hbound : t.bound? name = some items)
    (hkind : t.kind? name = some .record) (hitems : items.mapM component? = some codecs)
    (hcodecs : codecs.mapM codecShape? = some shapes) :
    t.boundShape? codecShape? name = some (.record shapes) := by
  simp only [Emitted.boundShape?, hbound, hkind, hitems, hcodecs, Option.bind_eq_bind,
    Option.bind_some, Option.pure_def]

theorem boundShape_sum {t : Emitted} {codecShape? : Phrase → Option WireShape} {name : String}
    {items : List Phrase} {alternatives : List (Int × List Phrase)}
    {shapes : List (Int × List WireShape)} (hbound : t.bound? name = some items)
    (hkind : t.kind? name = some .sum) (hitems : items.mapM t.alternative? = some alternatives)
    (halternatives : alternatives.mapM (Emitted.listedShape? codecShape?) = some shapes) :
    t.boundShape? codecShape? name = some (.sum shapes) := by
  simp only [Emitted.boundShape?, hbound, hkind, hitems, halternatives, Option.bind_eq_bind,
    Option.bind_some, Option.pure_def]

theorem alternative_of_index {t : Emitted} {row : String × Scale.Fields} {index : Int}
    (h : t.index? row.1 = some index) :
    t.alternative? (alternativePhrase "" row) =
      some (index, row.2.map fun f => codecPhrase "" f.2) := by
  simp only [alternativePhrase, fieldsPhrase, Emitted.alternative?, h, components_of_fields,
    Option.bind_eq_bind, Option.bind_some, Option.pure_def]

/-- The alternatives that a layout lists are those of the registry. -/
theorem exists_alternatives {t : Emitted} {shape? : TypeId → Option WireShape}
    {codecShape? : Phrase → Option WireShape} {alternatives : List Metadata.Alternative}
    {rows : List (String × Scale.Fields)}
    (h : List.Forall₂ (fun (a : Metadata.Alternative) (row : String × Scale.Fields) =>
      t.index? row.1 = some a.index ∧ ∃ shapes, a.fields.wireShapes? shape? = some shapes ∧
        (row.2.map fun f => codecPhrase "" f.2).mapM codecShape? = some shapes) alternatives rows) :
    ∃ listed shapes, (rows.map (alternativePhrase "")).mapM t.alternative? = some listed ∧
      listed.mapM (Emitted.listedShape? codecShape?) = some shapes ∧
      alternatives.mapM (Metadata.Alternative.wireShape? shape?) = some shapes := by
  induction h with
  | nil => exact ⟨[], [], rfl, rfl, rfl⟩
  | @cons a row _ _ hrow _ ih =>
      obtain ⟨hindex, fields, hfields, hcodecs⟩ := hrow
      obtain ⟨listed, shapes, hlisted, hunfold, hregistry⟩ := ih
      refine ⟨(a.index, row.2.map fun f => codecPhrase "" f.2) :: listed,
        (a.index, fields) :: shapes, ?_, ?_, ?_⟩
      · rw [List.map_cons, List.mapM_cons, alternative_of_index hindex, hlisted]
        rfl
      · rw [List.mapM_cons, hunfold, Emitted.listedShape?, hcodecs]
        rfl
      · rw [List.mapM_cons, hregistry, Metadata.Alternative.wireShape?, hfields]
        rfl

/-- What is read of the classes and layouts of a made type. -/
structure Finds (t : Emitted) (made : DeclaredType) : Prop where
  kind : ∀ l ∈ made.layouts, t.kind? (referenceName l.1) = some made.kind
  bound : ∀ l ∈ made.layouts, t.bound? (referenceName l.1) = some (layoutItems "" l.2)
  index : ∀ a ∈ made.alternatives, t.index? a.className = some a.index

theorem exists_ownShape {s : Scope} {t : Emitted} {shape? : TypeId → Option WireShape}
    {codecShape? : Phrase → Option WireShape}
    (hcodec : ∀ id c, s.codec id = .ok c → SameShape shape? codecShape? id c)
    {made : DeclaredType} (ht : Finds t made) {l : Scale.Reference × Layout} (hl : l ∈ made.layouts)
    (hkind : ClassKind.ofLayout l.2 = made.kind) {definition : Metadata.Definition}
    (hlayout : LayoutFor s made.alternatives definition l.2)
    (hindex : ∀ bs, definition = .variant bs → ∀ b ∈ bs, ∀ a ∈ made.alternatives,
      a.label = b.name → a.index = b.index) :
    ∃ shape, Metadata.ownShape? shape? definition = some shape ∧
      t.boundShape? codecShape? (referenceName l.1) = some shape := by
  have hbound := ht.bound l hl
  have hkind' := ht.kind l hl
  rw [← hkind] at hkind'
  generalize l.2 = layout at hlayout hbound hkind'
  cases hlayout with
  | @record fields components hlaid =>
      obtain ⟨shapes, hshapes, hunfold⟩ := exists_fieldShapes hcodec hlaid
      refine ⟨.record shapes, ?_, ?_⟩
      · simp only [Metadata.ownShape?, hshapes, Option.bind_eq_bind, Option.bind_some,
          Option.pure_def]
      · exact boundShape_record hbound hkind' (components_of_fields components) hunfold
  | @sum alternatives rows hrows =>
      have hall : List.Forall₂ (fun (a : Metadata.Alternative) (row : String × Scale.Fields) =>
          t.index? row.1 = some a.index ∧ ∃ shapes, a.fields.wireShapes? shape? = some shapes ∧
            (row.2.map fun f => codecPhrase "" f.2).mapM codecShape? = some shapes)
          alternatives rows := by
        refine ((List.forall₂_and_left _ _).mpr ⟨fun a ha => ha, hrows⟩).imp fun a row hrow => ?_
        obtain ⟨ha, ⟨b, hb, hlabel, hclass⟩, hlaid⟩ := hrow
        refine ⟨?_, exists_fieldShapes hcodec hlaid⟩
        rw [← hclass, ht.index b hb, hindex alternatives rfl a ha b hb hlabel]
      obtain ⟨listed, shapes, hlisted, hunfold, hregistry⟩ := exists_alternatives hall
      refine ⟨.sum shapes, ?_, boundShape_sum hbound hkind' hlisted hunfold⟩
      simp only [Metadata.ownShape?, hregistry, Option.bind_eq_bind, Option.bind_some,
        Option.pure_def]

/-! ### Steps of codecs -/

/-- One step from an entry is one step from its codec, if so it is where it is declared. -/
theorem sameShape_of_codecOf {s : Scope} {t : Emitted} {depth : Nat}
    {sub : TypeId → Scale.Codec → Prop}
    (hsub : ∀ id c, sub id c → SameShape (s.registry.wireShape? depth) (t.codecShape? depth) id c)
    {id : TypeId} {e : TypeEntry} (he : s.registry.find? id = some e)
    (hdeclared : ∀ d, e.kind = .custom → s.declaration? e = some d →
      ∃ shape, Metadata.ownShape? (s.registry.wireShape? depth) e.definition = some shape ∧
        t.codecShape? (depth + 1) (codecPhrase "" (declaredCodec d e.id)) = some shape)
    {c : Scale.Codec} (hc : CodecOf s sub e c) :
    SameShape (s.registry.wireShape? (depth + 1)) (t.codecShape? (depth + 1)) id c := by
  cases hc with
  | @primitive p hdefinition =>
      refine ⟨p.wireShape, ?_, unfold_primitive p⟩
      simp [Registry.wireShape?, he, hdefinition]
  | unit hdefinition =>
      refine ⟨.unit, ?_, unfold_imported rfl⟩
      simp [Registry.wireShape?, he, hdefinition]
  | tuple hdefinition hitems =>
      obtain ⟨shapes, hshapes, hunfold⟩ := exists_mapM <|
        List.forall₂_map_right_iff.mpr (hitems.imp hsub)
      refine ⟨.tuple shapes, ?_, unfold_tuple hunfold⟩
      simp [Registry.wireShape?, he, hdefinition, hshapes]
  | @fixedBytes item length i hdefinition hitem hbyte =>
      refine ⟨.fixedBytes length, ?_, unfold_fixedBytes length⟩
      simp [Registry.wireShape?, he, hdefinition, hitem, hbyte]
  | @array item length i c hdefinition hitem hbyte hc =>
      obtain ⟨shape, hshape, hunfold⟩ := hsub _ _ hc
      refine ⟨.array shape length, ?_, unfold_array hunfold length⟩
      simp [Registry.wireShape?, he, hdefinition, hitem, hbyte, hshape]
  | bytes hdefinition hitem hbyte =>
      refine ⟨.bytes, ?_, unfold_imported rfl⟩
      simp [Registry.wireShape?, he, hdefinition, hitem, hbyte]
  | sequence hdefinition hitem hbyte hc =>
      obtain ⟨shape, hshape, hunfold⟩ := hsub _ _ hc
      refine ⟨.sequence shape, ?_, unfold_sequence hunfold⟩
      simp [Registry.wireShape?, he, hdefinition, hitem, hbyte, hshape]
  | compact hdefinition hc =>
      obtain ⟨shape, hshape, hunfold⟩ := hsub _ _ hc
      refine ⟨.compact shape, ?_, unfold_compact hunfold⟩
      simp [Registry.wireShape?, he, hdefinition, hshape]
  | reserved hstructured hnamed =>
      cases hnamed with
      | reserved hkind hname =>
          obtain ⟨shape, hshape, hunfold⟩ := exists_frameworkShape hname t depth
          refine ⟨shape, ?_, hunfold⟩
          rw [wireShape_of_structured he hstructured, hkind]
          exact hshape
  | option hstructured hnamed hc =>
      obtain ⟨shape, hshape, hunfold⟩ := hsub _ _ hc
      cases hnamed with
      | option hkind hname harguments =>
          refine ⟨.option shape, ?_, unfold_option hunfold⟩
          rw [wireShape_of_builtin he hstructured hkind, hname, harguments]
          simp [Metadata.builtinShape?, hshape]
  | result hstructured hnamed hok herr =>
      obtain ⟨okShape, hokShape, hokUnfold⟩ := hsub _ _ hok
      obtain ⟨errShape, herrShape, herrUnfold⟩ := hsub _ _ herr
      cases hnamed with
      | result hkind hname harguments =>
          refine ⟨.result okShape errShape, ?_, unfold_result hokUnfold herrUnfold⟩
          rw [wireShape_of_builtin he hstructured hkind, hname, harguments]
          simp [Metadata.builtinShape?, hokShape, herrShape]
  | map hstructured hnamed hkey hvalue =>
      obtain ⟨keyShape, hkeyShape, hkeyUnfold⟩ := hsub _ _ hkey
      obtain ⟨valueShape, hvalueShape, hvalueUnfold⟩ := hsub _ _ hvalue
      cases hnamed with
      | map hkind hname harguments =>
          refine ⟨.map keyShape valueShape, ?_, unfold_map hkeyUnfold hvalueUnfold⟩
          rw [wireShape_of_builtin he hstructured hkind, hname, harguments]
          simp [Metadata.builtinShape?, hkeyShape, hvalueShape]
  | declared hstructured hnamed =>
      cases hnamed with
      | declared hkind hd =>
          obtain ⟨shape, hshape, hunfold⟩ := hdeclared _ hkind hd
          refine ⟨shape, ?_, hunfold⟩
          rw [wireShape_of_structured he hstructured, hkind]
          exact hshape

end InkBindings.Bindings
