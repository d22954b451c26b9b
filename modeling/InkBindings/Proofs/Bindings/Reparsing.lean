import InkBindings.Bindings.Names
import InkBindings.Proofs.Bindings.References

/-!
Rendered references reparse. What is rendered for a type is read as the expression of its tree, with
the qualifier before every declared type and nowhere else, and a codec tells the tree where no two
leaves go by one name.
-/

namespace InkBindings.Bindings

open ExprTree (IsIdentifier qualifier)
open Metadata (TypeId TypeEntry)

/-! ### The qualifiers of the emitted module -/

theorem library_of_libraryName {s : Scope} {e : TypeEntry} {segments : List String}
    (h : s.libraryName? e = some segments) :
    (∃ name, segments = ["scale", name]) ∨ ∃ r : Reserved, segments = r.codecName := by
  have hreserved : (if e.kind = .reserved then (Reserved.ofName? e.name).map Reserved.codecName
      else none) = some segments → ∃ r : Reserved, segments = r.codecName := by
    intro h
    split at h
    · obtain ⟨r, -, hr⟩ := Option.map_eq_some_iff.mp h
      exact ⟨r, hr.symm⟩
    · cases h
  simp only [Scope.libraryName?] at h
  split at h
  · next p _ => exact .inl ⟨primitiveCodecName p, (Option.some_inj.mp h).symm⟩
  · exact .inl ⟨"UNIT", (Option.some_inj.mp h).symm⟩
  · split at h
    · exact .inl ⟨"BYTES", (Option.some_inj.mp h).symm⟩
    · cases h
  · exact .inr (hreserved h)
  · exact .inr (hreserved h)
  · cases h

/-- Where the names of the module are reserved, what the module refers to is distinct unless a type
is declared under the name of the codec of an instantiation. -/
theorem distinct_of_moduleNames {s : Scope}
    (hdeclared : s.declarations = s.registry.declarations moduleNames) {q : List String}
    (hq : q = [] ∨ q = ["_contract"])
    (hinstances : ∀ p ∈ s.declaredEntries, p.1.isGeneric = true → ∀ d ∈ s.declarations,
      d.isGeneric = false → d.name ≠ p.1.instanceName p.2) : s.Distinct q := by
  refine ⟨fun p hp e _ hname => ?_, hinstances⟩
  obtain ⟨hd, -⟩ := Scope.mem_declaredEntries.mp hp
  -- Of the names in the library, this one alone stands behind no other name.
  have hlang : referenceName (entryReference p.1 p.2) ≠ "InkLangError" := by
    simp only [entryReference]
    split
    · intro h
      have hhead := head_instanceName p.1 p.2
      rw [show p.1.instanceName p.2 = "InkLangError" from h] at hhead
      exact absurd hhead (by decide)
    · intro h
      refine Metadata.Registry.not_reserved_of_mem_declarations (hdeclared ▸ hd) ?_
      rw [show p.1.name = "InkLangError" from h]
      decide
  obtain ⟨name, hsegments⟩ | ⟨r, hsegments⟩ := library_of_libraryName hname
  · obtain rfl | rfl := hq <;> simp [Scope.leafName] at hsegments
  · obtain rfl | rfl := hq <;> cases r <;> simp [Scope.leafName, Reserved.codecName] at hsegments
    exact hlang hsegments

/-! ### References -/

/-- No two types of different trees have one codec. -/
def Scope.CodecsTellTrees (s : Scope) (q : List String) : Prop :=
  ∀ id id' c c', s.codec id = .ok c → s.codec id' = .ok c' →
    expression (qualifier q) c = expression (qualifier q) c' → s.codecTree id = s.codecTree id'

/-- What is rendered for a type is read as the expression of its tree, with the qualifier before
every declared type and nowhere else. If leaves are distinct, then a codec tells the tree. -/
theorem references_reparse (s : Scope) (hs : s.Proper) (q : List String)
    (hq : ∀ w ∈ q, IsIdentifier w) :
    (∀ id a, s.annotation id = .ok a → ∃ t, s.annotationTree id = some t ∧
      ExprTree.read? .square (a.text (qualifier q)) = some (t.annotationExpr q)) ∧
    (∀ id c, s.codec id = .ok c → ∃ t, s.codecTree id = some t ∧
      ExprTree.read? .round (expression (qualifier q) c) = some (t.codecExpr q)) ∧
    (s.Distinct q → s.CodecsTellTrees q) := by
  refine ⟨fun id a ha => ?_, fun id c hc => ?_, fun hdistinct id id' c c' hc hc' heq => ?_⟩
  · obtain ⟨t, ht, hrenders⟩ := exists_treeWithin_annotation hs hq ha
    exact ⟨t, ht, text_annotationPhrase _ a ▸ hrenders.read⟩
  · obtain ⟨t, ht, hrenders⟩ := exists_treeWithin_codec hs hq hc
    exact ⟨t, ht, text_codecPhrase _ c ▸ hrenders.reads.read⟩
  · -- One text is read as one expression, and that leads back to one tree.
    obtain ⟨t, ht, hrenders⟩ := exists_treeWithin_codec hs hq hc
    obtain ⟨t', ht', hrenders'⟩ := exists_treeWithin_codec hs hq hc'
    have hexpr : t.codecExpr q = t'.codecExpr q := by
      have hread := text_codecPhrase (qualifier q) c ▸ hrenders.reads.read
      have hread' := text_codecPhrase (qualifier q) c' ▸ hrenders'.reads.read
      rw [heq, hread'] at hread
      exact (Option.some_inj.mp hread).symm
    have hdecoded := hrenders.decoded hdistinct
    rw [hexpr, hrenders'.decoded hdistinct] at hdecoded
    exact (ht.trans hdecoded.symm).trans ht'.symm

/-- Boxes of numbers by keys. -/
def boxes : Metadata.Registry where
  entries := [
    ⟨0, .primitive (.int ⟨false, .w8⟩), [], [], []⟩,
    ⟨1, .primitive (.int ⟨false, .w32⟩), [], [], []⟩,
    ⟨2, .composite (.positional [⟨1, none, []⟩]), ["boxes", "Box"], [⟨"T", some 1⟩], []⟩,
    ⟨3, .composite (.positional []), ["boxes", "Key"], [], []⟩,
    ⟨4, .sequence 2, [], [], []⟩,
    ⟨5, .composite (.positional []), ["BTreeMap"], [⟨"K", some 3⟩, ⟨"V", some 4⟩], []⟩,
    ⟨6, .array 0 4, [], [], []⟩,
    ⟨7, .tuple [5, 6], [], [], []⟩]

def boxScope : Scope where
  registry := boxes
  declarations := boxes.declarations moduleNames

def boxTyping : Annotation :=
  .tuple [.dict (.declared "Key" []) (.list (.declared "Box" [.int])), .bytes]

def boxCodec : Scale.Codec :=
  .tuple [.map (.reference (.declared "Key"))
    (.sequence (.reference (.instantiation "_Box_2" "Box"))), .fixedBytes 4]

theorem boxScope_reparses : boxScope.Proper ∧ boxScope.Distinct ["_contract"] ∧
    boxTyping.text moduleQualifier =
      "Tuple[Dict[_contract.Key, List[_contract.Box[int]]], bytes]" ∧
    (∃ t, boxScope.annotationTree 7 = some t ∧
      ExprTree.read? .square (boxTyping.text (qualifier ["_contract"])) =
        some (t.annotationExpr ["_contract"])) ∧
    expression moduleQualifier boxCodec = "scale.TupleCodec(scale.MapCodec(_contract.Key, " ++
      "scale.SequenceCodec(_contract._Box_2)), scale.FixedBytesCodec(4))" ∧
    (∃ t, boxScope.codecTree 7 = some t ∧
      ExprTree.read? .round (expression (qualifier ["_contract"]) boxCodec) =
        some (t.codecExpr ["_contract"])) ∧
    boxScope.CodecsTellTrees ["_contract"] := by
  have hproper : boxScope.Proper := by
    refine ⟨⟨moduleNames, rfl⟩, by decide, ?_⟩
    simp [boxScope, boxes]
  have hdistinct : boxScope.Distinct ["_contract"] :=
    distinct_of_moduleNames rfl (.inr rfl) (by decide)
  have hq : ∀ w ∈ ["_contract"], IsIdentifier w :=
    List.forall_mem_singleton.mpr ((ExprTree.isIdentifier_iff _).mp (by decide))
  have hannotation : boxScope.annotation 7 = .ok boxTyping := rfl
  have hcodec : boxScope.codec 7 = .ok boxCodec := rfl
  obtain ⟨hannotations, hcodecs, htrees⟩ := references_reparse boxScope hproper ["_contract"] hq
  exact ⟨hproper, hdistinct, by decide, hannotations 7 _ hannotation, by decide,
    hcodecs 7 _ hcodec, htrees hdistinct⟩

/-- A number and a declared type of its name, and a box and a declared type of its codec's name. -/
def namesakes : Metadata.Registry where
  entries := [
    ⟨0, .primitive (.int ⟨false, .w8⟩), [], [], []⟩,
    ⟨1, .composite (.positional []), ["names", "U8"], [], []⟩,
    ⟨2, .composite (.positional [⟨0, none, []⟩]), ["names", "Box"], [⟨"T", some 0⟩], []⟩,
    ⟨3, .composite (.positional []), ["names", "_Box_2"], [], []⟩]

def namesakeScope : Scope where
  registry := namesakes
  declarations := namesakes.declarations moduleNames

/-- The qualifier may be the name of the codec library, and names of codecs of instantiations are
not reserved. -/
theorem not_codecsTellTrees : namesakeScope.Proper ∧
    ¬namesakeScope.CodecsTellTrees ["scale"] ∧ ¬namesakeScope.CodecsTellTrees [] := by
  refine ⟨⟨⟨moduleNames, rfl⟩, by decide, by simp [namesakeScope, namesakes]⟩, fun h => ?_,
    fun h => ?_⟩
  · have htrees := h 0 1 (.int ⟨false, .w8⟩) (.reference (.declared "U8")) rfl rfl (by decide)
    obtain ⟨d, hd⟩ : ∃ d, namesakeScope.codecTree 1 = some (.declared d 1 []) := ⟨_, rfl⟩
    have hnumber : namesakeScope.codecTree 0 = some (.primitive (.int ⟨false, .w8⟩)) := rfl
    rw [hnumber, hd] at htrees
    cases htrees
  · have htrees := h 2 3 (.reference (.instantiation "_Box_2" "Box"))
      (.reference (.declared "_Box_2")) rfl rfl (by decide)
    obtain ⟨d, hd⟩ : ∃ d, namesakeScope.codecTree 2 = some (.declared d 2 []) := ⟨_, rfl⟩
    obtain ⟨d', hd'⟩ : ∃ d, namesakeScope.codecTree 3 = some (.declared d 3 []) := ⟨_, rfl⟩
    rw [hd, hd'] at htrees
    cases htrees

end InkBindings.Bindings
