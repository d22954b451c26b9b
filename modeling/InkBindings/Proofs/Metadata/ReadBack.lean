import InkBindings.Proofs.Fallible
import InkBindings.Proofs.Metadata.Records
import InkBindings.Proofs.Text.Hex
import Mathlib.Data.List.Nodup

/-!
Metadata and the documents it is read from. What a document is read as is well-formed, and
well-formed metadata is what a document is read as that writes it out.
-/

namespace InkBindings.Metadata

/-- The lists of fields in a definition. -/
def Definition.fieldLists : Definition → List Fields
  | .composite fields => [fields]
  | .variant alternatives => alternatives.map (·.fields)
  | _ => []

end InkBindings.Metadata

namespace InkBindings
open Metadata

/-- No two types have one id, and a list of fields that is empty does not count as named. -/
structure Metadata.WellFormed (m : Metadata) : Prop where
  ids : (m.types.map (·.id)).Nodup
  fields : ∀ e ∈ m.types, .named [] ∉ e.definition.fieldLists
  selectors : ∀ e ∈ m.constructors ++ m.messages, e.selector.length = selectorSize
  mutates : ∀ e ∈ m.constructors, e.mutates = true
  codeHash : m.codeHash.length = hashSize

end InkBindings

namespace InkBindings.Metadata

/-! ### Bodies of definitions that are read back -/

theorem fieldsOf_parts {fields : Fields} (h : fields ≠ .named []) (id : TypeId) (context : String) :
    fieldsOf id context (fields.parts.map Check.componentOf) = .ok fields := by
  cases fields with
  | positional fields =>
      simp [fieldsOf, Fields.parts, Check.componentOf, Function.comp_def]
  | named fields =>
      obtain ⟨first, rest, rfl⟩ := List.exists_cons_of_ne_nil fun hnil => h (congrArg _ hnil)
      have hnamed : ∀ named : List (String × Field),
          (named.map fun part => Check.componentOf (some part.1, part.2)).mapM
            (fun c => c.name.map fun name => (name, Field.mk c.typeId c.typeName c.docs)) =
              some named := by
        intro named
        induction named with
        | nil => rfl
        | cons part rest ih =>
            rw [List.map_cons, List.mapM_cons, ih]
            rfl
      have hsome : (Fields.parts (.named (first :: rest))).map Check.componentOf =
          (first :: rest).map fun part => Check.componentOf (some part.1, part.2) := by
        simp [Fields.parts]
      rw [hsome, fieldsOf, if_neg (by simp [Check.componentOf]), hnamed]

theorem alternativeOf_variantOf {a : Alternative} (h : a.fields ≠ .named []) (id : TypeId) :
    alternativeOf id (Check.variantOf a) = .ok a := by
  rw [alternativeOf, Check.variantOf, fieldsOf_parts h]
  rfl

theorem mapM_checkPart {α β : Type} {model : String} {check : Check β} {write : α → Json}
    {read : α → β} {as : List α} (h : ∀ a, check (write a) = .ok (read a)) :
    (as.map write).mapM (checkPart model check) = .ok (as.map read) := by
  refine mapM_of_forall₂ (forall₂_map_same.mpr fun a _ => ?_)
  rw [checkPart, h]

/-- An object that leaves out its only member is empty, and counts as not present. -/
theorem bodyParts_ok {α : Type} (manner : Manner) (name : String) (write : α → Json)
    (as : List α) :
    bodyParts (Manner.object [(name, manner.list write as)]) name = .ok (as.map write) := by
  unfold Manner.list Manner.member
  split
  · rename_i hbrief
    rw [Bool.and_eq_true, List.isEmpty_iff] at hbrief
    rw [hbrief.2]
    rfl
  · simp [bodyParts, Manner.object, Json.isPresent, Manner.written, Json.member?, parts]

theorem ofName?_name (p : Primitive) : Primitive.ofName? p.name = some p := by
  cases p with
  | int kind =>
      obtain ⟨signed, width⟩ := kind
      cases signed <;> cases width <;> decide
  | bool => decide
  | char => decide
  | str => decide

theorem mapM_integer (ns : List Int) : (ns.map Json.int).mapM integer = .ok ns := by
  refine mapM_of_forall₂ ?_
  rw [List.forall₂_map_left_iff, List.forall₂_same]
  exact fun _ _ => rfl

theorem readDefinition_of_body {kind : String} {body : Json} {d : Definition} {id : TypeId}
    (h : readBody id kind body = .ok d) : readDefinition id [(kind, body)] = .ok d := by
  rw [readDefinition, h]

theorem readDefinition_ok (manner : Manner) {d : Definition} (h : .named [] ∉ d.fieldLists)
    (id : TypeId) : readDefinition id [manner.definition d] = .ok d := by
  refine readDefinition_of_body ?_
  cases d with
  | primitive p => simp only [readBody, readPrimitive, ofName?_name]
  | tuple items =>
      have hparts : parts (.array (items.map .int)) = .ok (items.map .int) := rfl
      simp only [readBody]
      rw [bind_of_ok hparts, bind_of_ok (mapM_integer items)]
      rfl
  | array item length => rfl
  | sequence item => rfl
  | compact item => rfl
  | composite fields =>
      have hread : (fields.parts.map manner.component).mapM
          (checkPart Check.componentModel Check.component) =
            .ok (fields.parts.map Check.componentOf) :=
        mapM_checkPart (Check.component_ok manner)
      have hfields : fields ≠ .named [] := fun heq => h (by simp [Definition.fieldLists, heq])
      simp only [readBody]
      rw [bind_of_ok (bodyParts_ok manner "fields" manner.component fields.parts),
        bind_of_ok hread, bind_of_ok (fieldsOf_parts hfields id "composite")]
      rfl
  | variant alternatives =>
      have hread : (alternatives.map manner.alternative).mapM
          (checkPart Check.variantModel Check.variant) =
            .ok (alternatives.map Check.variantOf) :=
        mapM_checkPart (Check.variant_ok manner)
      have halternatives : (alternatives.map Check.variantOf).mapM (alternativeOf id) =
          .ok alternatives := by
        refine mapM_of_forall₂ ?_
        rw [List.forall₂_map_left_iff, List.forall₂_same]
        refine fun a ha => alternativeOf_variantOf (fun heq => h ?_) id
        exact heq ▸ List.mem_map_of_mem ha
      simp only [readBody]
      rw [bind_of_ok (bodyParts_ok manner "variants" manner.alternative alternatives),
        bind_of_ok hread, bind_of_ok halternatives]
      rfl
  | bitSequence store order => rfl

/-! ### Types and entry points that are read back -/

theorem readTypes_ok (manner : Manner) (seen : List TypeEntry) {es : List TypeEntry}
    (hids : ((seen ++ es).map (·.id)).Nodup)
    (hfields : ∀ e ∈ es, .named [] ∉ e.definition.fieldLists) :
    readTypes seen (es.map (Check.typeItemOf manner)) = .ok (seen ++ es) := by
  induction es generalizing seen with
  | nil => rw [List.map_nil, readTypes, List.append_nil]
  | cons e rest ih =>
      have hnew : ¬ (seen.any (·.id = e.id)) = true := by
        rw [List.map_append, List.nodup_append] at hids
        rw [List.any_eq_true]
        rintro ⟨x, hx, heq⟩
        refine hids.2.2 x.id (List.mem_map_of_mem hx) e.id ?_ (of_decide_eq_true heq)
        exact List.mem_map_of_mem List.mem_cons_self
      have hdefinition := readDefinition_ok manner (hfields e List.mem_cons_self) e.id
      rw [List.append_cons] at hids ⊢
      have hrest := ih (seen ++ [e]) hids fun e he => hfields e (List.mem_cons_of_mem _ he)
      rw [List.map_cons, readTypes]
      exact (if_neg hnew).trans ((bind_of_ok hdefinition _).trans hrest)

theorem readEntries_ok (mutates : EntryPoint → Bool) {es : List EntryPoint}
    (hselectors : ∀ e ∈ es, e.selector.length = selectorSize)
    (hmutates : ∀ e ∈ es, mutates e = e.mutates) (list : String) (index : Nat) :
    readEntries list index (es.map fun e => Check.entryItemOf e (mutates e)) = .ok es := by
  induction es generalizing index with
  | nil => rfl
  | cons e rest ih =>
      have hentry (place : String) :
          readEntry place (Check.entryItemOf e (mutates e)) = .ok e := by
        have hselector := readHex_written (place ++ ".selector") (hselectors e List.mem_cons_self)
        rw [readEntry, Check.entryItemOf, hselector, hmutates e List.mem_cons_self]
        rfl
      have hrest := ih (fun e he => hselectors e (List.mem_cons_of_mem _ he))
        (fun e he => hmutates e (List.mem_cons_of_mem _ he)) (index + 1)
      rw [List.map_cons, readEntries, bind_of_ok (hentry _), bind_of_ok hrest]
      rfl

theorem ofDocument_documentOf (manner : Manner) {m : Metadata} (h : m.WellFormed) :
    ofDocument (Check.documentOf manner m) = .ok m := by
  have hversion : checkVersion (some (.text "4")) = .ok () := by
    rw [checkVersion, if_pos (by decide)]
  have htypes := readTypes_ok manner [] h.ids h.fields
  have hconstructors := readEntries_ok (fun _ => true)
    (fun e he => h.selectors e (List.mem_append_left _ he))
    (fun e he => (h.mutates e he).symm) "constructors" 0
  have hmessages := readEntries_ok (·.mutates)
    (fun e he => h.selectors e (List.mem_append_right _ he)) (fun _ _ => rfl) "messages" 0
  have hhash := readHex_written "source.hash" h.codeHash
  simp only [ofDocument, Check.documentOf, Check.specOf]
  rw [bind_of_ok hversion, bind_of_ok htypes, bind_of_ok hconstructors, bind_of_ok hmessages,
    hhash]
  rfl

theorem ofJson_document (manner : Manner) {m : Metadata} (h : m.WellFormed) :
    ofJson (manner.document m) = .ok m := by
  obtain ⟨members, hmembers, hlegacy, hdocument⟩ := Check.document_ok manner m
  have hcurrent : ¬ (members.any fun x => x.1 = "V3" || x.1 = "V1") = true := by
    simpa using hlegacy
  rw [hmembers, ofJson]
  simp only [if_neg hcurrent, hdocument, ofDocument_documentOf manner h]

/-! ### What is read is well-formed -/

theorem ne_named_nil_of_fieldsOf {id : TypeId} {context : String}
    {components : List Document.Component} {fields : Fields}
    (h : fieldsOf id context components = .ok fields) : fields ≠ .named [] := by
  rw [fieldsOf] at h
  split at h
  · cases h
    nofun
  · rename_i hsome
    split at h
    · rename_i named hnamed
      cases h
      rintro ⟨⟩
      cases components with
      | nil => exact hsome rfl
      | cons c rest => simp [List.mapM_cons, Option.bind_eq_some_iff] at hnamed
    · cases h

/-- What a body of this kind is read to be, and from what. -/
inductive BodyRead (id : TypeId) (body : Json) : String → Definition → Prop
  | primitive {p} : readPrimitive id body = .ok (.primitive p) →
      BodyRead id body "primitive" (.primitive p)
  | tuple {items ids} : parts body = .ok items → items.mapM integer = .ok ids →
      BodyRead id body "tuple" (.tuple ids)
  | array {j k item length} : bodyMember body "type" = .ok j → integer j = .ok item →
      bodyMember body "len" = .ok k → integer k = .ok length →
      BodyRead id body "array" (.array item length)
  | sequence {j item} : bodyMember body "type" = .ok j → integer j = .ok item →
      BodyRead id body "sequence" (.sequence item)
  | compact {j item} : bodyMember body "type" = .ok j → integer j = .ok item →
      BodyRead id body "compact" (.compact item)
  | composite {js components fields} : bodyParts body "fields" = .ok js →
      js.mapM (checkPart Check.componentModel Check.component) = .ok components →
      fieldsOf id "composite" components = .ok fields →
      BodyRead id body "composite" (.composite fields)
  | variant {js variants alternatives} : bodyParts body "variants" = .ok js →
      js.mapM (checkPart Check.variantModel Check.variant) = .ok variants →
      variants.mapM (alternativeOf id) = .ok alternatives →
      BodyRead id body "variant" (.variant alternatives)
  | bitSequence {j k store order} : bodyMember body "bit_store_type" = .ok j →
      integer j = .ok store → bodyMember body "bit_order_type" = .ok k → integer k = .ok order →
      BodyRead id body "bitsequence" (.bitSequence store order)

theorem readBody_ok {id : TypeId} {kind : String} {body : Json} {d : Definition}
    (h : readBody id kind body = .ok d) : BodyRead id body kind d := by
  unfold readBody at h
  split at h
  · -- primitive
    have hread := h
    simp only [readPrimitive] at h
    split at h
    · cases h
      exact .primitive hread
    · cases h
  · -- tuple
    obtain ⟨items, hitems, h⟩ := bind_ok h
    obtain ⟨ids, hids, h⟩ := bind_ok h
    cases h
    exact .tuple hitems hids
  · -- array
    obtain ⟨j, hj, h⟩ := bind_ok h
    obtain ⟨item, hitem, h⟩ := bind_ok h
    obtain ⟨k, hk, h⟩ := bind_ok h
    obtain ⟨length, hlength, h⟩ := bind_ok h
    cases h
    exact .array hj hitem hk hlength
  · -- sequence
    obtain ⟨j, hj, h⟩ := bind_ok h
    obtain ⟨item, hitem, h⟩ := bind_ok h
    cases h
    exact .sequence hj hitem
  · -- compact
    obtain ⟨j, hj, h⟩ := bind_ok h
    obtain ⟨item, hitem, h⟩ := bind_ok h
    cases h
    exact .compact hj hitem
  · -- composite
    obtain ⟨js, hjs, h⟩ := bind_ok h
    obtain ⟨components, hcomponents, h⟩ := bind_ok h
    obtain ⟨fields, hfields, h⟩ := bind_ok h
    cases h
    exact .composite hjs hcomponents hfields
  · -- variant
    obtain ⟨js, hjs, h⟩ := bind_ok h
    obtain ⟨variants, hvariants, h⟩ := bind_ok h
    obtain ⟨alternatives, halternatives, h⟩ := bind_ok h
    cases h
    exact .variant hjs hvariants halternatives
  · -- bit sequence
    obtain ⟨j, hj, h⟩ := bind_ok h
    obtain ⟨store, hstore, h⟩ := bind_ok h
    obtain ⟨k, hk, h⟩ := bind_ok h
    obtain ⟨order, horder, h⟩ := bind_ok h
    cases h
    exact .bitSequence hj hstore hk horder
  · cases h

theorem BodyRead.fieldLists {id : TypeId} {kind : String} {body : Json} {d : Definition}
    (h : BodyRead id body kind d) : .named [] ∉ d.fieldLists := by
  cases h with
  | composite _ _ hfields =>
      rw [Definition.fieldLists, List.mem_singleton]
      exact (ne_named_nil_of_fieldsOf hfields).symm
  | variant _ _ halternatives =>
      rw [Definition.fieldLists, List.mem_map]
      rintro ⟨a, ha, hnil⟩
      obtain ⟨v, -, hv⟩ := forall₂_right (forall₂_of_mapM halternatives) ha
      obtain ⟨fields, hfields, hv⟩ := bind_ok hv
      cases hv
      exact ne_named_nil_of_fieldsOf hfields hnil
  | _ => nofun

theorem fieldLists_of_readDefinition {id : TypeId} {members : Json.Members} {d : Definition}
    (h : readDefinition id members = .ok d) : .named [] ∉ d.fieldLists := by
  unfold readDefinition at h
  split at h
  · split at h
    · rename_i hbody
      cases h
      exact (readBody_ok hbody).fieldLists
    · cases h
    · cases h
  · cases h

/-- What holds of the types that have been read holds still with one more, as long as its id is
new. -/
theorem wellFormed_of_readTypes {seen types : List TypeEntry} {items : List Document.TypeItem}
    (h : readTypes seen items = .ok types) (hids : (seen.map (·.id)).Nodup)
    (hfields : ∀ e ∈ seen, .named [] ∉ e.definition.fieldLists) :
    (types.map (·.id)).Nodup ∧ ∀ e ∈ types, .named [] ∉ e.definition.fieldLists := by
  induction items generalizing seen with
  | nil =>
      cases h
      exact ⟨hids, hfields⟩
  | cons item rest ih =>
      rw [readTypes] at h
      split at h
      · cases h
      · rename_i hnew
        obtain ⟨d, hd, h⟩ := bind_ok h
        refine ih h ?_ ?_
        · rw [List.map_append, List.nodup_append]
          refine ⟨hids, List.nodup_singleton _, ?_⟩
          rintro id hid other hother rfl
          obtain ⟨e, he, rfl⟩ := List.mem_map.mp hid
          refine hnew (List.any_eq_true.mpr ⟨e, he, ?_⟩)
          simpa using hother
        · rw [List.forall_mem_append, List.forall_mem_singleton]
          exact ⟨hfields, fieldLists_of_readDefinition hd⟩

theorem wellFormed_of_readEntries {list : String} {index : Nat} {items : List Document.EntryItem}
    {es : List EntryPoint} (h : readEntries list index items = .ok es) :
    List.Forall₂ (fun item e => e.selector.length = selectorSize ∧ e.mutates = item.mutates)
      items es := by
  induction items generalizing index es with
  | nil =>
      cases h
      exact .nil
  | cons item rest ih =>
      obtain ⟨e, he, h⟩ := bind_ok h
      obtain ⟨es, hes, h⟩ := bind_ok h
      cases h
      refine .cons ?_ (ih hes)
      obtain ⟨selector, hselector, he⟩ := bind_ok he
      cases he
      unfold liftError at hselector
      split at hselector
      · rename_i hhex
        cases hselector
        exact ⟨length_of_readHex hhex, rfl⟩
      · cases hselector

namespace Check
variable {α β : Type}

theorem of_map_ok {f : α → β} {x : Checked α} {b : β} (h : f <$> x = .ok b) :
    ∃ a, x = .ok a ∧ b = f a := by
  cases x with
  | ok a =>
      cases h
      exact ⟨a, rfl, rfl⟩
  | bad first more => cases h

theorem of_seq_ok {f : Checked (α → β)} {x : Checked α} {b : β} (h : f <*> x = .ok b) :
    ∃ g a, f = .ok g ∧ x = .ok a ∧ b = g a := by
  cases f with
  | ok g =>
      cases x with
      | ok a =>
          cases h
          exact ⟨g, a, rfl, rfl, rfl⟩
      | bad first more => cases h
  | bad first more => cases x <;> cases h

theorem of_under_ok {x : Checked α} {step : Step} {a : α} (h : x.under step = .ok a) :
    x = .ok a := by
  cases x with
  | ok a => exact h
  | bad first more => cases h

variable {members : Json.Members} {names : List String} {check : Check α}

theorem of_required_ok {a : α} (h : required members names check = .ok a) :
    ∃ name j, findMember? members names = some (name, j) ∧ check j = .ok a := by
  unfold required at h
  split at h
  · next name j hfind => exact ⟨name, j, hfind, of_under_ok h⟩
  · cases h

theorem of_optional_ok {a absent : α} (h : optional members names absent check = .ok a) :
    a = absent ∨ ∃ j, check j = .ok a := by
  unfold optional at h
  split at h
  · exact .inr ⟨_, of_under_ok h⟩
  · cases h
    exact .inl rfl

theorem of_itemsFrom_ok {index : Nat} {js : List Json} {as : List α}
    (h : itemsFrom check index js = .ok as) :
    List.Forall₂ (fun j a => check j = .ok a) js as := by
  induction js generalizing index as with
  | nil =>
      cases h
      exact .nil
  | cons j rest ih =>
      obtain ⟨g, others, hfirst, hrest, rfl⟩ := of_seq_ok h
      obtain ⟨first, hj, rfl⟩ := of_map_ok hfirst
      exact .cons (of_under_ok hj) (ih hrest)

theorem of_list_ok {j : Json} {as : List α} (h : list check j = .ok as) :
    ∃ js, j = .array js ∧ List.Forall₂ (fun j a => check j = .ok a) js as := by
  cases j with
  | array js => exact ⟨js, rfl, of_itemsFrom_ok h⟩
  | _ => cases h

theorem of_record_ok {model : String} {check : Json.Members → Checked α} {j : Json} {a : α}
    (h : record model check j = .ok a) :
    ∃ members, j = .object members ∧ check members = .ok a := by
  cases j with
  | object members => exact ⟨members, rfl, h⟩
  | _ => cases h

theorem mutates_of_constructor {j : Json} {e : Document.EntryItem} (h : constructor j = .ok e) :
    e.mutates = true := by
  obtain ⟨members, -, hmembers⟩ := of_record_ok h
  obtain ⟨item, hitem, rfl⟩ := of_map_ok hmembers
  obtain ⟨_, docs, h₁, -, rfl⟩ := of_seq_ok hitem
  obtain ⟨_, returnType, h₂, -, rfl⟩ := of_seq_ok h₁
  obtain ⟨_, payable, h₃, -, rfl⟩ := of_seq_ok h₂
  obtain ⟨_, arguments, h₄, -, rfl⟩ := of_seq_ok h₃
  obtain ⟨_, selector, h₅, -, rfl⟩ := of_seq_ok h₄
  obtain ⟨label, -, rfl⟩ := of_map_ok h₅
  rfl

theorem mutates_of_spec {j : Json} {s : Document.Spec} (h : spec j = .ok s) :
    ∀ e ∈ s.constructors, e.mutates = true := by
  obtain ⟨members, -, hmembers⟩ := of_record_ok h
  obtain ⟨_, events, h₁, -, rfl⟩ := of_seq_ok hmembers
  obtain ⟨_, messages, h₂, -, rfl⟩ := of_seq_ok h₁
  obtain ⟨constructors, h₃, rfl⟩ := of_map_ok h₂
  obtain rfl | ⟨j, hj⟩ := of_optional_ok h₃
  · nofun
  · intro e he
    obtain ⟨js, -, hjs⟩ := of_list_ok hj
    obtain ⟨j, -, hj⟩ := forall₂_right hjs he
    exact mutates_of_constructor hj

theorem mutates_of_document {d : Document} (h : document members = .ok d) :
    ∀ e ∈ d.spec.constructors, e.mutates = true := by
  obtain ⟨_, spec, h₁, hspec, rfl⟩ := of_seq_ok h
  obtain ⟨_, types, h₂, -, rfl⟩ := of_seq_ok h₁
  obtain ⟨_, name, h₃, -, rfl⟩ := of_seq_ok h₂
  obtain ⟨_, hash, h₄, -, rfl⟩ := of_seq_ok h₃
  obtain ⟨version, -, rfl⟩ := of_map_ok h₄
  obtain ⟨_, j, -, hj⟩ := of_required_ok hspec
  exact mutates_of_spec hj

end Check

theorem wellFormed_of_ofDocument {d : Document} {m : Metadata}
    (hmutates : ∀ e ∈ d.spec.constructors, e.mutates = true) (h : ofDocument d = .ok m) :
    m.WellFormed := by
  obtain ⟨_, -, h⟩ := bind_ok h
  obtain ⟨types, htypes, h⟩ := bind_ok h
  obtain ⟨constructors, hconstructors, h⟩ := bind_ok h
  obtain ⟨messages, hmessages, h⟩ := bind_ok h
  obtain ⟨codeHash, hhash, h⟩ := bind_ok h
  cases h
  obtain ⟨hids, hfields⟩ := wellFormed_of_readTypes htypes List.nodup_nil nofun
  refine ⟨hids, hfields, fun e he => ?_, fun e he => ?_, ?_⟩
  · obtain he | he := List.mem_append.mp he
    · obtain ⟨item, -, hitem⟩ := forall₂_right (wellFormed_of_readEntries hconstructors) he
      exact hitem.1
    · obtain ⟨item, -, hitem⟩ := forall₂_right (wellFormed_of_readEntries hmessages) he
      exact hitem.1
  · obtain ⟨item, hitem, h⟩ := forall₂_right (wellFormed_of_readEntries hconstructors) he
    exact h.2.trans (hmutates item hitem)
  · unfold liftError at hhash
    split at hhash
    · rename_i hhex
      cases hhash
      exact length_of_readHex hhex
    · cases hhash

theorem wellFormed_of_ofJson {j : Json} {m : Metadata} (h : ofJson j = .ok m) : m.WellFormed := by
  unfold ofJson at h
  split at h
  · split at h
    · cases h
    · split at h
      · rename_i hd
        exact wellFormed_of_ofDocument (Check.mutates_of_document hd) h
      · cases h
  · cases h

theorem wellFormed_of_ofRead {text : String} {r : Except Json.ReadError Json} {m : Metadata}
    (h : ofRead text r = .ok m) : m.WellFormed := by
  unfold ofRead at h
  split at h
  · exact wellFormed_of_ofJson h
  · cases h
  · cases h
  · cases h

theorem wellFormed_of_ofBytes {b : Bytes} {m : Metadata} (h : ofBytes b = .ok m) :
    m.WellFormed := by
  unfold ofBytes at h
  split at h
  · exact wellFormed_of_ofRead h
  · cases h

/-- The metadata that a document is read as is well-formed, whether the document is a value, a text
or bytes. Well-formed metadata is read back from every document that writes it out. -/
theorem reads_exactly_what_is_written :
    ((∀ j m, ofJson j = .ok m → m.WellFormed) ∧ (∀ text m, ofText text = .ok m → m.WellFormed) ∧
      ∀ b m, ofBytes b = .ok m → m.WellFormed) ∧
    ∀ m : Metadata, m.WellFormed → ∀ manner : Manner,
      ofJson (manner.document m) = .ok m ∧
      (∀ text, Json.read text = .ok (manner.document m) → ofText text = .ok m) ∧
      ∀ b text, Json.textOfBytes? b = some text →
        Json.readChars text.toList = .ok (manner.document m) → ofBytes b = .ok m := by
  refine ⟨⟨fun _ _ => wellFormed_of_ofJson, fun _ _ => wellFormed_of_ofRead,
    fun _ _ => wellFormed_of_ofBytes⟩, fun m hm manner => ?_⟩
  have hjson := ofJson_document manner hm
  refine ⟨hjson, fun text htext => ?_, fun b text hb htext => ?_⟩
  · rw [ofText, htext]
    exact hjson
  · simp only [ofBytes, hb, htext]
    exact hjson

def paperMetadata : Metadata where
  codeHash := List.replicate 32 1
  types := [⟨0, .primitive (.int ⟨false, .w8⟩), [], [], []⟩,
    ⟨7, .composite (.named [("x", ⟨0, some "u8", ["One"]⟩)]), ["trade", "Paper"], [], []⟩]
  constructors := []
  messages := [⟨"Trade::put", [1, 2, 3, 4], [⟨"paper", 7⟩], none, true, false, []⟩]
  events := []
  name := some "trade"

theorem paperMetadata_is_read_back :
    paperMetadata.WellFormed ∧ ofJson (Manner.brief.document paperMetadata) = .ok paperMetadata ∧
      ofJson (Manner.full.document paperMetadata) = .ok paperMetadata := by
  obtain ⟨⟨hwellFormed, -, -⟩, hread⟩ := reads_exactly_what_is_written
  have hpaper : paperMetadata.WellFormed :=
    ⟨by decide, by decide, by decide, by decide, by decide⟩
  have hbrief := (hread paperMetadata hpaper .brief).1
  exact ⟨hwellFormed _ _ hbrief, hbrief, (hread paperMetadata hpaper .full).1⟩

end InkBindings.Metadata
