import InkBindings.Proofs.Metadata.Writing
import InkBindings.Metadata.Document
import Mathlib.Data.List.Basic

/-!
The records of a document are read back as they were written, whether members that say nothing are
written or left out.
-/

namespace InkBindings.Metadata

/-! ### Members that are found -/

@[simp] theorem Manner.member?_written_nil (name : String) :
    Json.member? (Manner.written []) name = none :=
  rfl

@[simp] theorem Manner.member?_written_cons (first name : String) (j : Option Json)
    (rest : List (String × Option Json)) :
    Json.member? (Manner.written ((first, j) :: rest)) name =
      if first = name then j.or (Json.member? (Manner.written rest) name)
      else Json.member? (Manner.written rest) name := by
  cases j with
  | none => simp [Manner.written]
  | some j => by_cases h : first = name <;> simp [Manner.written, Json.member?, h]

theorem Manner.name_of_mem_written {members : List (String × Option Json)} {x : String × Json}
    (h : x ∈ Manner.written members) : x.1 ∈ members.map (·.1) := by
  obtain ⟨member, hmember, hx⟩ := List.mem_filterMap.mp h
  obtain ⟨j, -, rfl⟩ := Option.map_eq_some_iff.mp hx
  exact List.mem_map_of_mem hmember

namespace Check

variable {α β : Type}

@[simp] theorem findMember?_nil (members : Json.Members) : findMember? members [] = none :=
  rfl

@[simp] theorem findMember?_cons (members : Json.Members) (name : String) (names : List String) :
    findMember? members (name :: names) =
      ((Json.member? members name).map (name, ·)).or (findMember? members names) := by
  rw [findMember?, List.findSome?_cons]
  cases Json.member? members name <;> rfl

theorem map_ok {x : Checked α} {a : α} (f : α → β) (hx : x = .ok a) : f <$> x = .ok (f a) := by
  rw [hx]
  rfl

theorem seq_ok {f : Checked (α → β)} {x : Checked α} {g : α → β} {a : α} (hf : f = .ok g)
    (hx : x = .ok a) : f <*> x = .ok (g a) := by
  rw [hf, hx]
  rfl

section
variable {members : Json.Members} {name : String} {others : List String} {check : Check α}

theorem required_ok (j : Json) {a : α}
    (hfind : findMember? members (name :: others) = some (name, j)) (hread : check j = .ok a) :
    required members (name :: others) check = .ok a := by
  simp only [required, hfind, hread]
  rfl

/-- A member that says nothing is read as what stands in for one that is left out. -/
theorem optional_ok {manner : Manner} {silent : Bool} {j : Json} {a absent : α}
    (hfind : findMember? members (name :: others) = (manner.member silent j).map (name, ·))
    (hread : check j = .ok a) (hsilent : silent = true → absent = a) :
    optional members (name :: others) absent check = .ok a := by
  unfold Manner.member at hfind
  split at hfind
  · rename_i hbrief
    rw [Bool.and_eq_true] at hbrief
    simp only [optional, hfind, Option.map_none, hsilent hbrief.2]
  · simp only [optional, hfind, Option.map_some, hread]
    rfl

end

/-! ### Values that may be null, lists and truth values -/

theorem itemsFrom_ok {check : Check β} {write : α → Json} {read : α → β} {as : List α}
    (hread : ∀ a ∈ as, check (write a) = .ok (read a)) (index : Nat) :
    itemsFrom check index (as.map write) = .ok (as.map read) := by
  induction as generalizing index with
  | nil => rfl
  | cons a rest ih =>
      have hfirst := hread a List.mem_cons_self
      have hrest := ih (fun a ha => hread a (List.mem_cons_of_mem _ ha)) (index + 1)
      rw [List.map_cons, itemsFrom, hfirst, hrest]
      rfl

theorem list_ok {check : Check β} {write : α → Json} {read : α → β} {as : List α}
    (hread : ∀ a ∈ as, check (write a) = .ok (read a)) :
    list check (.array (as.map write)) = .ok (as.map read) :=
  itemsFrom_ok hread 0

section
variable (manner : Manner) {members : Json.Members} {name : String} {others : List String}

theorem optional_list_ok {check : Check β} (write : α → Json) {read : α → β} {as : List α}
    (hfind : findMember? members (name :: others) = (manner.list write as).map (name, ·))
    (hread : ∀ a ∈ as, check (write a) = .ok (read a)) :
    optional members (name :: others) [] (list check) = .ok (as.map read) := by
  refine optional_ok hfind (list_ok hread) fun hsilent => ?_
  rw [List.isEmpty_iff] at hsilent
  rw [hsilent, List.map_nil]

theorem optional_same_list_ok {check : Check α} (write : α → Json) {as : List α}
    (hfind : findMember? members (name :: others) = (manner.list write as).map (name, ·))
    (hread : ∀ a ∈ as, check (write a) = .ok a) :
    optional members (name :: others) [] (list check) = .ok as := by
  rw [optional_list_ok manner write hfind hread, List.map_id']

theorem optional_nullable_ok {check : Check α} (write : α → Json) {a : Option α}
    (hfind : findMember? members (name :: others) = (manner.optional write a).map (name, ·))
    (hread : ∀ x, nullable check (write x) = .ok (some x)) :
    optional members (name :: others) none (nullable check) = .ok a := by
  refine optional_ok hfind ?_ fun hsilent => ?_
  · cases a with
    | none => rfl
    | some x => exact hread x
  · exact (Option.isNone_iff_eq_none.mp hsilent).symm

theorem optional_flag_ok {b : Bool}
    (hfind : findMember? members (name :: others) = (manner.flag b).map (name, ·)) :
    optional members (name :: others) false truth = .ok b :=
  optional_ok hfind rfl fun hsilent => by simpa using hsilent.symm

end

/-! ### Types -/

section
variable (manner : Manner)

theorem docs_ok {members : Json.Members} {ss : List String}
    (hfind : findMember? members ["docs"] = (manner.list .str ss).map ("docs", ·)) :
    docs members = .ok ss :=
  optional_same_list_ok manner .str hfind fun _ _ => rfl

/-- A component as a document has it. -/
def componentOf (part : Option String × Field) : Document.Component :=
  ⟨part.1, part.2.typeId, part.2.typeName, part.2.docs⟩

theorem component_ok (part : Option String × Field) :
    component (manner.component part) = .ok (componentOf part) := by
  refine seq_ok (seq_ok (seq_ok (map_ok _ ?name) ?type) ?typeName) ?docs
  case name => exact optional_nullable_ok manner .str (by simp) fun _ => rfl
  case type => exact required_ok (.int part.2.typeId) (by simp) rfl
  case typeName => exact optional_nullable_ok manner .str (by simp) fun _ => rfl
  case docs => exact docs_ok manner (by simp)

def variantOf (a : Alternative) : Document.Variant :=
  ⟨a.name, a.index, a.fields.parts.map componentOf, a.docs⟩

theorem variant_ok (a : Alternative) : variant (manner.alternative a) = .ok (variantOf a) := by
  refine seq_ok (seq_ok (seq_ok (map_ok _ ?name) ?index) ?fields) ?docs
  case name => exact required_ok (.str a.name) (by simp) rfl
  case index => exact required_ok (.int a.index) (by simp) rfl
  case fields =>
    exact optional_list_ok manner manner.component (by simp) fun part _ => component_ok manner part
  case docs => exact docs_ok manner (by simp)

theorem parameter_ok (p : Parameter) : parameter (manner.parameter p) = .ok p := by
  refine seq_ok (map_ok _ ?name) ?type
  case name => exact required_ok (.str p.name) (by simp) rfl
  case type => exact optional_nullable_ok manner .int (by simp) fun _ => rfl

def typeNodeOf (e : TypeEntry) : Document.TypeNode :=
  ⟨e.path, e.parameters, [manner.definition e.definition], e.docs⟩

theorem typeNode_ok (e : TypeEntry) :
    typeNode (manner.typeNode e) = .ok (typeNodeOf manner e) := by
  refine seq_ok (seq_ok (seq_ok (map_ok _ ?path) ?parameters) ?definition) ?docs
  case path => exact optional_same_list_ok manner .str (by simp) fun _ _ => rfl
  case parameters =>
    exact optional_same_list_ok manner manner.parameter (by simp) fun p _ => parameter_ok manner p
  case definition =>
    exact required_ok (.object [manner.definition e.definition]) (by simp) rfl
  case docs => exact docs_ok manner (by simp)

def typeItemOf (e : TypeEntry) : Document.TypeItem :=
  ⟨e.id, typeNodeOf manner e⟩

theorem typeItem_ok (e : TypeEntry) :
    typeItem (manner.typeItem e) = .ok (typeItemOf manner e) := by
  refine seq_ok (map_ok _ ?id) ?type
  case id => exact required_ok (.int e.id) (by simp) rfl
  case type => exact required_ok (manner.typeNode e) (by simp) (typeNode_ok manner e)

/-! ### Entry points and events -/

theorem typeUse_ok (id : TypeId) : typeUse (manner.typeUse id) = .ok id := by
  refine seq_ok (a := []) (map_ok _ ?type) ?displayName
  case type => exact required_ok (.int id) (by simp) rfl
  case displayName => exact optional_same_list_ok manner .str (by simp) fun _ _ => rfl

theorem argument_ok (a : Argument) : argument (manner.argument a) = .ok a := by
  refine seq_ok (map_ok _ ?label) ?type
  case label => exact required_ok (.str a.label) (by simp) rfl
  case type => exact required_ok (manner.typeUse a.typeId) (by simp) (typeUse_ok manner a.typeId)

/-- An entry point as a document has it, with its selector as text. -/
def entryItemOf (e : EntryPoint) (mutates : Bool) : Document.EntryItem :=
  ⟨e.label, "0x" ++ Hex.encode e.selector, e.arguments, e.payable, e.returnType, e.docs, mutates⟩

theorem entryItem_ok {e : EntryPoint} {members : Json.Members}
    (hmembers : ∀ name ∈ ["args", "docs", "label", "payable", "returnType", "return_type",
      "selector"], Json.member? members name = Json.member? (Manner.written
        (manner.entryMembers e)) name) :
    entryItem members = .ok (entryItemOf e) := by
  simp only [List.forall_mem_cons, Manner.entryMembers] at hmembers
  obtain ⟨hargs, hdocs, hlabel, hpayable, hreturn, hreturn', hselector, -⟩ := hmembers
  refine seq_ok (seq_ok (seq_ok (seq_ok (seq_ok (map_ok _ ?label) ?selector) ?arguments)
    ?payable) ?returnType) ?docs
  case label => exact required_ok (.str e.label) (by simp [hlabel]) rfl
  case selector => exact required_ok (Manner.hex e.selector) (by simp [hselector]) rfl
  case arguments =>
    exact optional_same_list_ok manner manner.argument (by simp [hargs]) fun a _ =>
      argument_ok manner a
  case payable => exact optional_flag_ok manner (by simp [hpayable])
  case returnType =>
    refine optional_nullable_ok manner manner.typeUse (by simp [hreturn, hreturn']) fun id => ?_
    exact map_ok _ (typeUse_ok manner id)
  case docs => exact docs_ok manner (by simp [hdocs])

theorem constructor_ok (e : EntryPoint) :
    constructor (manner.constructor e) = .ok (entryItemOf e true) :=
  map_ok _ (entryItem_ok manner fun _ _ => rfl)

theorem message_ok (e : EntryPoint) :
    message (manner.message e) = .ok (entryItemOf e e.mutates) := by
  refine seq_ok (entryItem_ok manner fun name hname => ?_)
    (optional_flag_ok manner (by simp [Manner.entryMembers]))
  have hother : "mutates" ≠ name := by
    rintro rfl
    simp at hname
  rw [Manner.member?_written_cons, if_neg hother]

theorem eventField_ok (f : EventField) : eventField (manner.eventField f) = .ok f := by
  refine seq_ok (seq_ok (seq_ok (map_ok _ ?label) ?type) ?docs) ?indexed
  case label => exact required_ok (.str f.label) (by simp) rfl
  case type => exact required_ok (manner.typeUse f.typeId) (by simp) (typeUse_ok manner f.typeId)
  case docs => exact docs_ok manner (by simp)
  case indexed => exact optional_flag_ok manner (by simp)

theorem event_ok (e : Event) : event (manner.event e) = .ok e := by
  refine seq_ok (seq_ok (map_ok _ ?label) ?fields) ?docs
  case label => exact required_ok (.str e.label) (by simp) rfl
  case fields =>
    exact optional_same_list_ok manner manner.eventField (by simp) fun f _ => eventField_ok manner f
  case docs => exact docs_ok manner (by simp)

/-! ### The document -/

theorem source_ok (b : Bytes) :
    source (Manner.object [("hash", some (Manner.hex b))]) = .ok ("0x" ++ Hex.encode b) := by
  simp only [source, record, Manner.object]
  exact required_ok (Manner.hex b) (by simp) rfl

theorem contract_ok (name : Option String) :
    nullable contract (Manner.object [("name", manner.optional .str name)]) = .ok (some name) := by
  refine map_ok _ ?_
  exact optional_nullable_ok manner .str (by simp) fun _ => rfl

/-- A contract that is left out has no name either. -/
theorem contractName_ok {members : Json.Members} {name : Option String}
    (hfind : findMember? members ["contract"] = (manner.contract name).map ("contract", ·)) :
    contractName members = .ok name := by
  unfold Manner.contract Manner.member at hfind
  split at hfind
  · rename_i hbrief
    rw [Bool.and_eq_true, Option.isNone_iff_eq_none] at hbrief
    rw [contractName, hbrief.2]
    refine map_ok (a := none) Option.join ?_
    simp only [optional, hfind, Option.map_none]
  · rw [contractName]
    refine map_ok (a := some name) Option.join ?_
    simp only [optional, hfind, Option.map_some, contract_ok]
    rfl

def specOf (m : Metadata) : Document.Spec :=
  ⟨m.constructors.map (entryItemOf · true), m.messages.map fun e => entryItemOf e e.mutates,
    m.events⟩

theorem spec_ok (m : Metadata) : spec (manner.spec m) = .ok (specOf m) := by
  refine seq_ok (seq_ok (map_ok _ ?constructors) ?messages) ?events
  case constructors =>
    exact optional_list_ok manner manner.constructor (by simp) fun e _ => constructor_ok manner e
  case messages =>
    exact optional_list_ok manner manner.message (by simp) fun e _ => message_ok manner e
  case events =>
    exact optional_same_list_ok manner manner.event (by simp) fun e _ => event_ok manner e

def documentOf (m : Metadata) : Document :=
  ⟨some (.text "4"), "0x" ++ Hex.encode m.codeHash, m.name, m.types.map (typeItemOf manner),
    specOf m⟩

theorem document_ok (m : Metadata) :
    ∃ members, manner.document m = .object members ∧
      (∀ x ∈ members, x.1 ≠ "V3" ∧ x.1 ≠ "V1") ∧
      document members = .ok (documentOf manner m) := by
  refine ⟨_, rfl, fun x hx => ?_, ?_⟩
  · have hname := Manner.name_of_mem_written hx
    constructor <;> (intro heq; simp [heq] at hname)
  refine seq_ok (seq_ok (seq_ok (seq_ok (map_ok (a := some (Version.text "4")) _ ?version) ?source)
    ?contract) ?types) ?spec
  case version =>
    simp only [optional, findMember?_cons, Manner.member?_written_cons]
    rfl
  case source =>
    exact required_ok (Manner.object [("hash", some (Manner.hex m.codeHash))]) (by simp)
      (source_ok m.codeHash)
  case contract => exact contractName_ok manner (by simp)
  case types =>
    refine required_ok (.array (m.types.map manner.typeItem)) (by simp) ?_
    exact list_ok fun e _ => typeItem_ok manner e
  case spec => exact required_ok (manner.spec m) (by simp) (spec_ok manner m)

end
end Check
end InkBindings.Metadata
