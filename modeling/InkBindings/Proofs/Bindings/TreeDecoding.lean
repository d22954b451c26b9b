import InkBindings.Metadata.Definition
import InkBindings.Proofs.Bindings.PlainTypes
import InkBindings.Proofs.Bindings.TypeTree
import Mathlib.Data.List.Basic

/-!
Codec expressions lead back to the trees they are rendered from, if no two leaves go by one name.
-/

namespace InkBindings.Bindings

open Metadata (TypeId TypeEntry Declaration Primitive)

namespace TypeTree

mutual

/-- The tree of a codec expression, by what dotted names stand for. -/
def ofExpr? (leaf? : List String → Option TypeTree) : ExprTree → Option TypeTree
  | .name segments => leaf? segments
  | .applied ["scale", "TupleCodec"] items => (ofExprs? leaf? items).map tuple
  | .applied ["scale", "FixedBytesCodec"] [.number n] => some (fixedBytes n)
  | .applied ["scale", "ArrayCodec"] [item, .number n] => do return array (← ofExpr? leaf? item) n
  | .applied ["scale", "SequenceCodec"] [item] => (ofExpr? leaf? item).map sequence
  | .applied ["scale", "CompactCodec"] [item] => (ofExpr? leaf? item).map compact
  | .applied ["scale", "OptionCodec"] [inner] => (ofExpr? leaf? inner).map option
  | .applied ["scale", "ResultCodec"] [ok, err] => do
    return result (← ofExpr? leaf? ok) (← ofExpr? leaf? err)
  | .applied ["scale", "MapCodec"] [key, value] => do
    return map (← ofExpr? leaf? key) (← ofExpr? leaf? value)
  | _ => none

def ofExprs? (leaf? : List String → Option TypeTree) : List ExprTree → Option (List TypeTree)
  | [] => some []
  | e :: rest => do return (← ofExpr? leaf? e) :: (← ofExprs? leaf? rest)

end

theorem codecExprs_eq_map (q : List String) (ts : List TypeTree) :
    codecExprs q ts = ts.map (codecExpr q) := by
  induction ts with
  | nil => rfl
  | cons t rest ih => rw [codecExprs, ih, List.map_cons]

theorem annotationExprs_eq_map (q : List String) (ts : List TypeTree) :
    annotationExprs q ts = ts.map (annotationExpr q) := by
  induction ts with
  | nil => rfl
  | cons t rest ih => rw [annotationExprs, ih, List.map_cons]

theorem ofExprs_map {leaf? : List String → Option TypeTree} {f : TypeTree → ExprTree}
    {ts : List TypeTree} (h : ∀ t ∈ ts, ofExpr? leaf? (f t) = some t) :
    ofExprs? leaf? (ts.map f) = some ts := by
  induction ts with
  | nil => rfl
  | cons t rest ih =>
      rw [List.map_cons, ofExprs?, h t List.mem_cons_self,
        ih fun u hu => h u (List.mem_cons_of_mem t hu)]
      rfl

/-! ### Leaves -/

def libraryLeaves : List (List String × TypeTree) :=
  Metadata.primitives.map (fun p => (["scale", primitiveCodecName p.2], primitive p.2)) ++
    [(["scale", "UNIT"], unit), (["scale", "BYTES"], bytes)] ++
    [Reserved.accountId, .hash, .langError].map fun r => (r.codecName, reserved r)

/-- The codec of the library that goes by a dotted name. -/
def libraryLeaf? (segments : List String) : Option TypeTree :=
  (libraryLeaves.find? (·.1 = segments)).map (·.2)

theorem libraryLeaf_primitive (p : Primitive) :
    libraryLeaf? ["scale", primitiveCodecName p] = some (primitive p) := by
  cases p with
  | int kind =>
      obtain ⟨signed, width⟩ := kind
      cases signed <;> cases width <;> rfl
  | bool | char | str => rfl

theorem libraryLeaf_reserved (r : Reserved) : libraryLeaf? r.codecName = some (reserved r) := by
  cases r <;> rfl

end TypeTree

/-! ### Declared types -/

namespace Scope

/-- The entries that are declared, each with its declaration. -/
def declaredEntries (s : Scope) : List (Declaration × TypeId) :=
  s.declarations.flatMap fun d => d.entries.map fun e => (d, e.id)

/-- The name of an entry of a declaration behind a qualifier. -/
def leafName (q : List String) (d : Declaration) (id : TypeId) : List String :=
  q ++ [referenceName (entryReference d id)]

/-- The name of the library's codec for an entry that refers to no other type. -/
def libraryName? (s : Scope) (e : TypeEntry) : Option (List String) :=
  match e.definition with
  | .primitive p => some ["scale", primitiveCodecName p]
  | .tuple [] => some ["scale", "UNIT"]
  | .sequence item =>
    if (s.registry.find? item).any (·.isU8) then some ["scale", "BYTES"] else none
  | .composite _ | .variant _ =>
    if e.kind = .reserved then (Reserved.ofName? e.name).map Reserved.codecName else none
  | _ => none

/-- The leaf that a dotted name stands for behind this qualifier. -/
def leaf? (s : Scope) (q segments : List String) : Option TypeTree :=
  if s.registry.entries.any (s.libraryName? · = some segments) then
    TypeTree.libraryLeaf? segments
  else
    (s.declaredEntries.find? fun p => leafName q p.1 p.2 = segments).map fun p =>
      .declared p.1 p.2 []

/-- No two leaves of codecs go by one name behind this qualifier. -/
structure Distinct (s : Scope) (q : List String) : Prop where
  /-- No declared type goes by the name of the library's codec for a type of the registry. -/
  library : ∀ p ∈ s.declaredEntries, ∀ e ∈ s.registry.entries,
    s.libraryName? e ≠ some (leafName q p.1 p.2)
  /-- No type is declared under the name of the codec of an instantiation. -/
  instances : ∀ p ∈ s.declaredEntries, p.1.isGeneric = true → ∀ d ∈ s.declarations,
    d.isGeneric = false → d.name ≠ p.1.instanceName p.2

end Scope

/-! ### Names of declared types -/

/-- What stands behind the last separator of a list is told by the list. -/
theorem append_cons_inj_right {α : Type} {xs ys ds es : List α} {a : α} (hds : a ∉ ds)
    (hes : a ∉ es) (h : xs ++ a :: ds = ys ++ a :: es) : xs = ys ∧ ds = es := by
  obtain ⟨c, rfl, hc⟩ | ⟨c, rfl, hc⟩ := List.append_eq_append_iff.mp h
  · cases c with
    | nil => simpa using hc
    | cons b c =>
        obtain ⟨rfl, rfl⟩ := List.cons_eq_cons.mp hc
        exact absurd (by simp) hds
  · cases c with
    | nil => simpa using hc.symm
    | cons b c =>
        obtain ⟨rfl, rfl⟩ := List.cons_eq_cons.mp hc
        exact absurd (by simp) hes

theorem number_inj {m n : Int} (h : toString m = toString n) : m = n := by
  have hm := intOfChars_number m
  rw [h, intOfChars_number n] at hm
  exact (Option.some_inj.mp hm).symm

theorem underscore_not_mem_number (n : Int) : '_' ∉ (toString n).toList := by
  intro hmem
  obtain h | h := number_chars hmem
  · exact absurd h (by decide)
  · exact absurd h (by decide)

/-- The codec of an instantiation tells the declared type and the id. -/
theorem instanceName_inj {d d' : Declaration} {id id' : TypeId}
    (h : d.instanceName id = d'.instanceName id') : d.name = d'.name ∧ id = id' := by
  have hlist (e : Declaration) (i : TypeId) :
      (e.instanceName i).toList = '_' :: (e.name.toList ++ '_' :: (toString i).toList) := by
    change ("_" ++ e.name ++ "_" ++ toString i).toList = _
    simp only [String.toList_append, List.append_assoc]
    rfl
  have hlists := congrArg String.toList h
  rw [hlist, hlist] at hlists
  obtain ⟨hname, hnumber⟩ := append_cons_inj_right (underscore_not_mem_number id)
    (underscore_not_mem_number id') (List.cons_injective hlists)
  exact ⟨String.toList_inj.mp hname, number_inj (String.toList_inj.mp hnumber)⟩

namespace Scope
variable {s : Scope} {q reserved : List String}

theorem mem_declaredEntries {d : Declaration} {id : TypeId} :
    (d, id) ∈ s.declaredEntries ↔ d ∈ s.declarations ∧ ∃ e ∈ d.entries, e.id = id := by
  simp [declaredEntries]

/-- If leaves are distinct, the name of an entry tells the declaration and the id. -/
theorem eq_of_leafName_eq (hdeclared : s.declarations = s.registry.declarations reserved)
    (h : s.Distinct q) {d d' : Declaration} {id id' : TypeId} (hd : (d, id) ∈ s.declaredEntries)
    (hd' : (d', id') ∈ s.declaredEntries) (hname : leafName q d id = leafName q d' id') :
    (d, id) = (d', id') := by
  have hreference :
      referenceName (entryReference d id) = referenceName (entryReference d' id') := by
    simpa [leafName] using hname
  obtain ⟨hmem, e, he, rfl⟩ := mem_declaredEntries.mp hd
  obtain ⟨hmem', e', he', rfl⟩ := mem_declaredEntries.mp hd'
  have heq (hn : d.name = d'.name) : d = d' :=
    Metadata.Registry.eq_of_name_eq (hdeclared ▸ hmem) (hdeclared ▸ hmem') hn
  cases hgeneric : d.isGeneric <;> cases hgeneric' : d'.isGeneric <;>
    simp only [entryReference, hgeneric, hgeneric', if_true, Bool.false_eq_true, if_false]
      at hreference
  · -- A type that is not generic has one entry.
    obtain rfl := heq hreference
    rw [entries_of_not_generic hgeneric, List.mem_singleton] at he he'
    rw [he, he']
  · exact absurd hreference (h.instances _ hd' hgeneric' d hmem hgeneric)
  · exact absurd hreference.symm (h.instances _ hd hgeneric d' hmem' hgeneric')
  · obtain ⟨hn, hid⟩ := instanceName_inj hreference
    rw [heq hn, hid]

theorem leaf_library {e : TypeEntry} (he : e ∈ s.registry.entries) {segments : List String}
    (hname : s.libraryName? e = some segments) {t : TypeTree}
    (h : TypeTree.libraryLeaf? segments = some t) : s.leaf? q segments = some t := by
  have hany : s.registry.entries.any (s.libraryName? · = some segments) = true :=
    List.any_eq_true.mpr ⟨e, he, by simpa using hname⟩
  rw [leaf?, if_pos hany, h]

theorem leaf_declared (hdeclared : s.declarations = s.registry.declarations reserved)
    (h : s.Distinct q) {d : Declaration} {id : TypeId} (hd : (d, id) ∈ s.declaredEntries) :
    s.leaf? q (leafName q d id) = some (.declared d id []) := by
  have hnone : ¬s.registry.entries.any (s.libraryName? · = some (leafName q d id)) = true := by
    simpa using h.library _ hd
  rw [leaf?, if_neg hnone]
  cases hfind : s.declaredEntries.find? fun p => leafName q p.1 p.2 = leafName q d id with
  | none => simpa using List.find?_eq_none.mp hfind (d, id) hd
  | some p =>
      obtain ⟨d', id'⟩ := p
      have hname : leafName q d' id' = leafName q d id := by simpa using List.find?_some hfind
      cases eq_of_leafName_eq hdeclared h (List.mem_of_find?_eq_some hfind) hd hname
      rfl

end Scope
end InkBindings.Bindings
