import InkBindings.Proofs.Bindings.AnnotationPhrase
import InkBindings.Proofs.Bindings.TreeDecoding

/-!
Codecs and annotations are rendered from trees. A step from an entry to what is rendered for it is a
step to its tree, and what is rendered is read as the expression of the tree.
-/

namespace InkBindings.Bindings

open ExprTree (IsIdentifier Reads dotted qualifier)
open Metadata (TypeId TypeEntry Declaration)

/-- The declarations are those of the registry, and no id or length of an array is negative. -/
structure Scope.Proper (s : Scope) : Prop where
  declared : ∃ reserved, s.declarations = s.registry.declarations reserved
  ids : ∀ e ∈ s.registry.entries, 0 ≤ e.id
  lengths : ∀ e ∈ s.registry.entries, ∀ item length, e.definition = .array item length → 0 ≤ length

/-! ### Names -/

theorem isIdentifier_of_mem_declarations {r : Metadata.Registry} {reserved : List String}
    {d : Declaration} (h : d ∈ r.declarations reserved) : IsIdentifier d.name := by
  obtain ⟨names, -, hname⟩ := Metadata.exists_of_mem_declare h
  rw [hname]
  exact ⟨Naming.isName_identifier _ _, Naming.isDigit_head_identifier _ _,
    Naming.identifier_not_mem_keywords _ _⟩

theorem head_instanceName (d : Declaration) (id : TypeId) :
    (d.instanceName id).toList.head? = some '_' := by
  change ("_" ++ d.name ++ "_" ++ toString id).toList.head? = _
  simp only [String.toList_append, List.append_assoc]
  rfl

theorem isIdentifier_instanceName {d : Declaration} (hd : IsIdentifier d.name) {id : TypeId}
    (hid : 0 ≤ id) : IsIdentifier (d.instanceName id) := by
  have hhead := head_instanceName d id
  have hkeywords : ∀ w ∈ Naming.keywords, w.toList.head? ≠ some '_' := by decide
  refine ⟨isName_instanceName hd.name hid, fun c hc => ?_, fun hmem => hkeywords _ hmem hhead⟩
  rw [hhead] at hc
  cases hc
  rfl

theorem isIdentifier_entryReference {d : Declaration} (hd : IsIdentifier d.name) {id : TypeId}
    (hid : 0 ≤ id) : IsIdentifier (referenceName (entryReference d id)) := by
  simp only [entryReference]
  split
  · exact isIdentifier_instanceName hd hid
  · exact hd

namespace Scope
variable {s : Scope} {e : TypeEntry} {d : Declaration}

theorem Proper.isIdentifier (hs : s.Proper) (hd : s.declaration? e = some d) :
    IsIdentifier d.name := by
  obtain ⟨reserved, hdeclared⟩ := hs.declared
  exact isIdentifier_of_mem_declarations (hdeclared ▸ List.mem_of_find?_eq_some hd)

theorem Proper.mem_declaredEntries (hs : s.Proper) (he : e ∈ s.registry.entries)
    (hkind : e.kind = .custom) (hd : s.declaration? e = some d) :
    (d, e.id) ∈ s.declaredEntries := by
  obtain ⟨reserved, hdeclared⟩ := hs.declared
  refine Scope.mem_declaredEntries.mpr ⟨List.mem_of_find?_eq_some hd, e, ?_, rfl⟩
  rw [declaration?, hdeclared] at hd
  rw [Metadata.Registry.entries_of_find hd]
  simp [he, hkind]

/-! ### Trees -/

variable {deep : Bool} {sub : TypeId → Option TypeTree}

theorem treeWithin_succ {id : TypeId} (he : s.registry.find? id = some e) (depth : Nat) :
    s.treeWithin deep (depth + 1) id = s.entryTree deep (s.treeWithin deep depth) e := by
  rw [treeWithin, he]
  rfl

theorem entryTree_of_structured (h : e.definition.isStructured = true) :
    s.entryTree deep sub e = s.structuredTree deep sub e := by
  rw [entryTree]
  cases hdefinition : e.definition with
  | composite | variant => rfl
  | _ =>
      rw [hdefinition] at h
      cases h

variable (hstructured : e.definition.isStructured = true)
include hstructured

theorem entryTree_reserved {r : Reserved} (h : NamedAs s e (.reserved r)) :
    s.entryTree deep sub e = some (.reserved r) := by
  cases h with
  | reserved hkind hname => simp [entryTree_of_structured hstructured, structuredTree, hkind, hname]

theorem libraryName_reserved {r : Reserved} (h : NamedAs s e (.reserved r)) :
    s.libraryName? e = some r.codecName := by
  cases h with
  | reserved hkind hname =>
      rw [libraryName?]
      cases hdefinition : e.definition with
      | composite | variant => simp [hkind, hname]
      | _ =>
          rw [hdefinition] at hstructured
          cases hstructured

theorem entryTree_option {inner : TypeId} (h : NamedAs s e (.option inner)) {t : TypeTree}
    (ht : sub inner = some t) : s.entryTree deep sub e = some (.option t) := by
  cases h with
  | option hkind hname harguments =>
      simp [entryTree_of_structured hstructured, structuredTree, hkind, hname, harguments, ht]

theorem entryTree_result {ok err : TypeId} (h : NamedAs s e (.result ok err)) {t t' : TypeTree}
    (ht : sub ok = some t) (ht' : sub err = some t') :
    s.entryTree deep sub e = some (.result t t') := by
  cases h with
  | result hkind hname harguments =>
      simp [entryTree_of_structured hstructured, structuredTree, hkind, hname, harguments, ht, ht']

theorem entryTree_map {key value : TypeId} (h : NamedAs s e (.map key value)) {t t' : TypeTree}
    (ht : sub key = some t) (ht' : sub value = some t') :
    s.entryTree deep sub e = some (.map t t') := by
  cases h with
  | map hkind hname harguments =>
      simp [entryTree_of_structured hstructured, structuredTree, hkind, hname, harguments, ht, ht']

theorem entryTree_declared (h : NamedAs s e (.declared d)) {ts : List TypeTree}
    (hts : (if deep then e.arguments.mapM sub else some []) = some ts) :
    s.entryTree deep sub e = some (.declared d e.id ts) := by
  cases h with
  | declared hkind hd =>
      rw [entryTree_of_structured hstructured]
      cases deep with
      | false =>
          cases hts
          simp [structuredTree, hkind, hd]
      | true =>
          rw [if_pos rfl] at hts
          simp [structuredTree, hkind, hd, hts]

end Scope

/-- The trees of several types, where each of them has one. -/
theorem exists_trees {β : Type} {sub : TypeId → Option TypeTree} {Q : β → TypeTree → Prop}
    {ids : List TypeId} {xs : List β}
    (h : List.Forall₂ (fun id x => ∃ t, sub id = some t ∧ Q x t) ids xs) :
    ∃ ts, ids.mapM sub = some ts ∧ List.Forall₂ Q xs ts := by
  induction h with
  | nil => exact ⟨[], rfl, .nil⟩
  | cons hx _ ih =>
      obtain ⟨t, ht, hxt⟩ := hx
      obtain ⟨ts, hts, hall⟩ := ih
      exact ⟨t :: ts, by simp [ht, hts], .cons hxt hall⟩

/-! ### Words and applications -/

theorem reads_word (b : Bracket) {w : String} (segments : List String) (hw : w = dotted segments)
    (hne : segments ≠ []) (h : segments.all ExprTree.isIdentifier = true) :
    Reads b (.word w) (.name segments) := by
  rw [hw]
  exact ExprTree.reads_dotted b hne fun s hs =>
    (ExprTree.isIdentifier_iff s).mp (List.all_eq_true.mp h s hs)

theorem reads_library {name : String} (hname : ExprTree.isIdentifier name = true)
    {ps : List Phrase} {ts : List ExprTree} (h : List.Forall₂ (Reads .round) ps ts) :
    Reads .round (libraryPhrase name ps) (TypeTree.library name ts) := by
  have hhead : "scale." ++ name = dotted ["scale", name] := by
    rw [← String.toList_inj]
    simp [dotted, String.intercalate_cons_cons]
  rw [libraryPhrase, hhead]
  refine ExprTree.reads_group (List.cons_ne_nil _ _) ?_ h (.inl rfl)
  simp only [List.forall_mem_cons]
  exact ⟨(ExprTree.isIdentifier_iff _).mp (by decide), (ExprTree.isIdentifier_iff _).mp hname,
    List.forall_mem_nil _⟩

theorem reads_subscript {name : String} {segments : List String} (hname : name = dotted segments)
    (hne : segments ≠ []) (hsegments : ∀ s ∈ segments, IsIdentifier s) {ps : List Phrase}
    {ts : List ExprTree} (h : List.Forall₂ (Reads .square) ps ts) (hps : ps ≠ []) :
    Reads .square (subscriptPhrase name ps) (.applied segments ts) := by
  rw [subscriptPhrase, hname]
  exact ExprTree.reads_group hne hsegments h (.inr hps)

/-- A declared type behind a qualifier. -/
theorem reads_qualified (b : Bracket) {q : List String} (hq : ∀ s ∈ q, IsIdentifier s)
    {name : String} (hname : IsIdentifier name) :
    Reads b (.word (qualifier q ++ name)) (.name (q ++ [name])) := by
  rw [ExprTree.qualifier_append]
  exact ExprTree.reads_dotted b (by simp) fun s hs =>
    (List.mem_append.mp hs).elim (hq s) fun h => List.mem_singleton.mp h ▸ hname

theorem reads_primitive (p : Metadata.Primitive) (q : List String) :
    Reads .round (codecPhrase (qualifier q) (primitiveCodec p))
      ((TypeTree.primitive p).codecExpr q) := by
  cases p with
  | int kind =>
      obtain ⟨signed, width⟩ := kind
      cases signed <;> cases width <;> exact reads_word _ _ (by decide) (by decide) (by decide)
  | bool | char | str => exact reads_word _ _ (by decide) (by decide) (by decide)

/-! ### Codecs -/

/-- A codec is rendered from this tree: it is read as the expression of the tree, which leads back
to the tree if leaves are distinct. -/
structure RendersCodec (s : Scope) (q : List String) (c : Scale.Codec) (t : TypeTree) : Prop where
  reads : Reads .round (codecPhrase (qualifier q) c) (t.codecExpr q)
  decoded : s.Distinct q → TypeTree.ofExpr? (s.leaf? q) (t.codecExpr q) = some t

section Codecs
variable {s : Scope} {q : List String}

/-- A codec of the library for an entry that refers to no other type. -/
theorem rendersCodec_library {e : TypeEntry} (he : e ∈ s.registry.entries) {c : Scale.Codec}
    {t : TypeTree} {segments : List String} (hname : s.libraryName? e = some segments)
    (hexpr : t.codecExpr q = .name segments)
    (hreads : Reads .round (codecPhrase (qualifier q) c) (.name segments))
    (hleaf : TypeTree.libraryLeaf? segments = some t) : RendersCodec s q c t where
  reads := by rwa [hexpr]
  decoded _ := by
    rw [hexpr]
    exact Scope.leaf_library he hname hleaf

theorem reads_reserved (r : Reserved) :
    Reads .round (codecPhrase (qualifier q) r.codec) (.name r.codecName) := by
  cases r <;> exact reads_word _ _ (by decide) (by decide) (by decide)

namespace RendersCodec
variable {c c' : Scale.Codec} {t t' : TypeTree}

attribute [local simp] TypeTree.codecExpr TypeTree.library TypeTree.ofExpr?

theorem fixedBytes {length : Int} (hlength : 0 ≤ length) :
    RendersCodec s q (.fixedBytes length) (.fixedBytes length) where
  reads := reads_library (by decide) (.cons (ExprTree.reads_number hlength) .nil)
  decoded _ := by simp [Int.max_eq_left hlength]

theorem tuple {cs : List Scale.Codec} {ts : List TypeTree}
    (h : List.Forall₂ (RendersCodec s q) cs ts) : RendersCodec s q (.tuple cs) (.tuple ts) where
  reads := by
    rw [codecPhrase, codecPhrases_eq_map, TypeTree.codecExpr, TypeTree.codecExprs_eq_map]
    refine reads_library (by decide) ?_
    rw [List.forall₂_map_left_iff, List.forall₂_map_right_iff]
    exact h.imp fun _ _ h => h.reads
  decoded hd := by
    have hitems : TypeTree.ofExprs? (s.leaf? q) (ts.map (TypeTree.codecExpr q)) = some ts := by
      refine TypeTree.ofExprs_map fun t ht => ?_
      obtain ⟨c, -, hc⟩ := forall₂_right h ht
      exact hc.decoded hd
    simp [TypeTree.codecExprs_eq_map, hitems]

theorem array (h : RendersCodec s q c t) {length : Int} (hlength : 0 ≤ length) :
    RendersCodec s q (.array c length) (.array t length) where
  reads := reads_library (by decide) (.cons h.reads (.cons (ExprTree.reads_number hlength) .nil))
  decoded hd := by simp [Int.max_eq_left hlength, h.decoded hd]

theorem sequence (h : RendersCodec s q c t) : RendersCodec s q (.sequence c) (.sequence t) where
  reads := reads_library (by decide) (.cons h.reads .nil)
  decoded hd := by simp [h.decoded hd]

theorem compact (h : RendersCodec s q c t) : RendersCodec s q (.compact c) (.compact t) where
  reads := reads_library (by decide) (.cons h.reads .nil)
  decoded hd := by simp [h.decoded hd]

theorem option (h : RendersCodec s q c t) : RendersCodec s q (.option c) (.option t) where
  reads := reads_library (by decide) (.cons h.reads .nil)
  decoded hd := by simp [h.decoded hd]

theorem result (h : RendersCodec s q c t) (h' : RendersCodec s q c' t') :
    RendersCodec s q (.result c c') (.result t t') where
  reads := reads_library (by decide) (.cons h.reads (.cons h'.reads .nil))
  decoded hd := by simp [h.decoded hd, h'.decoded hd]

theorem map (h : RendersCodec s q c t) (h' : RendersCodec s q c' t') :
    RendersCodec s q (.map c c') (.map t t') where
  reads := reads_library (by decide) (.cons h.reads (.cons h'.reads .nil))
  decoded hd := by simp [h.decoded hd, h'.decoded hd]

/-- A declared type behind the qualifier. -/
theorem declared (hs : s.Proper) (hq : ∀ w ∈ q, IsIdentifier w) {e : TypeEntry}
    (he : e ∈ s.registry.entries) (hkind : e.kind = .custom) {d : Declaration}
    (hd : s.declaration? e = some d) :
    RendersCodec s q (declaredCodec d e.id) (.declared d e.id []) where
  reads := by
    rw [declaredCodec_eq]
    exact reads_qualified _ hq (isIdentifier_entryReference (hs.isIdentifier hd) (hs.ids e he))
  decoded h := by
    obtain ⟨reserved, hdeclared⟩ := hs.declared
    exact Scope.leaf_declared hdeclared h (hs.mem_declaredEntries he hkind hd)

end RendersCodec

/-- One step from an entry to its codec and to its tree. -/
theorem exists_codecTree_of_codecOf (hs : s.Proper) (hq : ∀ w ∈ q, IsIdentifier w)
    {sub : TypeId → Scale.Codec → Prop} {sub? : TypeId → Option TypeTree}
    (hsub : ∀ id c, sub id c → ∃ t, sub? id = some t ∧ RendersCodec s q c t) {e : TypeEntry}
    (he : e ∈ s.registry.entries) {c : Scale.Codec} (hc : CodecOf s sub e c) :
    ∃ t, s.entryTree false sub? e = some t ∧ RendersCodec s q c t := by
  cases hc with
  | @primitive p hdefinition =>
      exact ⟨.primitive p, by simp [Scope.entryTree, hdefinition],
        rendersCodec_library he (by simp [Scope.libraryName?, hdefinition]) rfl
          (reads_primitive p q) (TypeTree.libraryLeaf_primitive p)⟩
  | unit hdefinition =>
      exact ⟨.unit, by simp [Scope.entryTree, hdefinition],
        rendersCodec_library he (by simp [Scope.libraryName?, hdefinition]) rfl
          (reads_word _ _ (by decide) (by decide) (by decide)) rfl⟩
  | tuple hdefinition hitems =>
      obtain ⟨ts, hts, hall⟩ := exists_trees (hitems.imp hsub)
      exact ⟨.tuple ts, by simp [Scope.entryTree, hdefinition, hts], .tuple hall⟩
  | @fixedBytes item length i hdefinition hitem hbyte =>
      exact ⟨.fixedBytes length, by simp [Scope.entryTree, hdefinition, hitem, hbyte],
        .fixedBytes (hs.lengths e he item length hdefinition)⟩
  | @array item length i c hdefinition hitem hbyte hc =>
      obtain ⟨t, ht, hrenders⟩ := hsub _ _ hc
      exact ⟨.array t length, by simp [Scope.entryTree, hdefinition, hitem, hbyte, ht],
        hrenders.array (hs.lengths e he item length hdefinition)⟩
  | bytes hdefinition hitem hbyte =>
      exact ⟨.bytes, by simp [Scope.entryTree, hdefinition, hitem, hbyte],
        rendersCodec_library he (by simp [Scope.libraryName?, hdefinition, hitem, hbyte]) rfl
          (reads_word _ _ (by decide) (by decide) (by decide)) rfl⟩
  | sequence hdefinition hitem hbyte hc =>
      obtain ⟨t, ht, hrenders⟩ := hsub _ _ hc
      exact ⟨.sequence t, by simp [Scope.entryTree, hdefinition, hitem, hbyte, ht],
        hrenders.sequence⟩
  | compact hdefinition hc =>
      obtain ⟨t, ht, hrenders⟩ := hsub _ _ hc
      exact ⟨.compact t, by simp [Scope.entryTree, hdefinition, ht], hrenders.compact⟩
  | reserved hstructured hnamed =>
      exact ⟨_, Scope.entryTree_reserved hstructured hnamed,
        rendersCodec_library he (Scope.libraryName_reserved hstructured hnamed) rfl
          (reads_reserved _) (TypeTree.libraryLeaf_reserved _)⟩
  | option hstructured hnamed hc =>
      obtain ⟨t, ht, hrenders⟩ := hsub _ _ hc
      exact ⟨_, Scope.entryTree_option hstructured hnamed ht, hrenders.option⟩
  | result hstructured hnamed hok herr =>
      obtain ⟨t, ht, hrenders⟩ := hsub _ _ hok
      obtain ⟨t', ht', hrenders'⟩ := hsub _ _ herr
      exact ⟨_, Scope.entryTree_result hstructured hnamed ht ht', hrenders.result hrenders'⟩
  | map hstructured hnamed hkey hvalue =>
      obtain ⟨t, ht, hrenders⟩ := hsub _ _ hkey
      obtain ⟨t', ht', hrenders'⟩ := hsub _ _ hvalue
      exact ⟨_, Scope.entryTree_map hstructured hnamed ht ht', hrenders.map hrenders'⟩
  | declared hstructured hnamed =>
      refine ⟨_, Scope.entryTree_declared hstructured hnamed rfl, ?_⟩
      cases hnamed with
      | declared hkind hd => exact .declared hs hq he hkind hd

/-- A descent that gives a codec gives a tree that it is rendered from. -/
theorem exists_treeWithin_codec (hs : s.Proper) (hq : ∀ w ∈ q, IsIdentifier w) {depth : Nat}
    {room : Room} {id : TypeId} {c : Scale.Codec} (h : s.codecWithin depth room id = .ok c) :
    ∃ t, s.treeWithin false depth id = some t ∧ RendersCodec s q c t := by
  -- On the steps that are left: a tree needs no room for calls, so the room only shrinks along.
  induction depth generalizing room id c with
  | zero => cases h
  | succ depth ih =>
      obtain ⟨depth', room', e, he, hdepth, hc⟩ := Scope.codecWithin_ok h
      cases hdepth
      rw [Scope.treeWithin_succ he]
      exact exists_codecTree_of_codecOf hs hq (fun _ _ h => ih h) (List.mem_of_find?_eq_some he) hc

end Codecs

/-! ### Annotations -/

section Annotations
variable {s : Scope} {q : List String}

/-- An annotation is rendered from this tree. -/
def Annotates (q : List String) (a : Annotation) (t : TypeTree) : Prop :=
  Reads .square (annotationPhrase (qualifier q) a) (t.annotationExpr q)

theorem annotates_primitive (p : Metadata.Primitive) :
    Annotates q ( primitiveAnnotation p) (.primitive p) := by
  cases p with
  | int => exact reads_word _ ["int"] (by decide) (by decide) (by decide)
  | bool | char | str => exact reads_word _ _ (by decide) (by decide) (by decide)

theorem annotates_reserved (r : Reserved) :
    Annotates q r.annotation (.reserved r) := by
  cases r <;> exact reads_word _ _ (by decide) (by decide) (by decide)

theorem reads_none : Reads .square (.word "None") (.name ["None"]) where
  wellformed := .word (by decide) (List.all_eq_true.mp (by decide))
  tree := by rfl

/-- A type of the standard library or of the runtime with its parameters. -/
theorem reads_parameterized {name : String} (hname : ExprTree.isIdentifier name = true)
    {ps : List Phrase} {ts : List ExprTree} (h : List.Forall₂ (Reads .square) ps ts)
    (hps : ps ≠ []) : Reads .square (subscriptPhrase name ps) (.applied [name] ts) := by
  refine reads_subscript (by simp [dotted]) (List.cons_ne_nil _ _) ?_ h hps
  exact List.forall_mem_singleton.mpr ((ExprTree.isIdentifier_iff _).mp hname)

theorem forall₂_annotations {as : List Annotation} {ts : List TypeTree}
    (h : List.Forall₂ (Annotates q) as ts) :
    List.Forall₂ (Reads .square) (annotationPhrases (qualifier q) as)
      (TypeTree.annotationExprs q ts) := by
  rw [annotationPhrases_eq_map, TypeTree.annotationExprs_eq_map, List.forall₂_map_left_iff,
    List.forall₂_map_right_iff]
  exact h

theorem annotates_declared (hq : ∀ w ∈ q, IsIdentifier w) {d : Declaration}
    (hd : IsIdentifier d.name) (id : TypeId) {as : List Annotation} {ts : List TypeTree}
    (h : List.Forall₂ (Annotates q) as ts) :
    Annotates q (.declared d.name as) (.declared d id ts) := by
  have hlists := forall₂_annotations h
  cases h with
  | nil => exact reads_qualified _ hq hd
  | cons ha has =>
      refine reads_subscript (ExprTree.qualifier_append q d.name) (by simp) ?_ hlists
        (by simp [annotationPhrases])
      exact fun w hw => (List.mem_append.mp hw).elim (hq w) fun h => List.mem_singleton.mp h ▸ hd

/-- One step from an entry to its annotation and to its tree. -/
theorem exists_annotationTree_of_annotationOf (hs : s.Proper) (hq : ∀ w ∈ q, IsIdentifier w)
    {sub : TypeId → Annotation → Prop} {sub? : TypeId → Option TypeTree}
    (hsub : ∀ id a, sub id a → ∃ t, sub? id = some t ∧ Annotates q a t) {e : TypeEntry}
    {a : Annotation} (ha : AnnotationOf s sub e a) :
    ∃ t, s.entryTree true sub? e = some t ∧ Annotates q a t := by
  cases ha with
  | @primitive p hdefinition =>
      exact ⟨.primitive p, by simp [Scope.entryTree, hdefinition], annotates_primitive p⟩
  | unit hdefinition =>
      exact ⟨.unit, by simp [Scope.entryTree, hdefinition], reads_none⟩
  | tuple hdefinition hitems =>
      obtain ⟨ts, hts, hall⟩ := exists_trees (hitems.imp hsub)
      refine ⟨.tuple ts, by simp [Scope.entryTree, hdefinition, hts], ?_⟩
      refine reads_parameterized (by decide) (forall₂_annotations hall) fun hnil => ?_
      cases hitems
      cases hnil
  | @fixedBytes item length i hdefinition hitem hbyte =>
      exact ⟨.fixedBytes length, by simp [Scope.entryTree, hdefinition, hitem, hbyte],
        reads_word _ _ (by decide) (by decide) (by decide)⟩
  | @array item length i a hdefinition hitem hbyte ha =>
      obtain ⟨t, ht, hrenders⟩ := hsub _ _ ha
      exact ⟨.array t length, by simp [Scope.entryTree, hdefinition, hitem, hbyte, ht],
        reads_parameterized (by decide) (.cons hrenders .nil) (List.cons_ne_nil _ _)⟩
  | bytes hdefinition hitem hbyte =>
      exact ⟨.bytes, by simp [Scope.entryTree, hdefinition, hitem, hbyte],
        reads_word _ _ (by decide) (by decide) (by decide)⟩
  | sequence hdefinition hitem hbyte ha =>
      obtain ⟨t, ht, hrenders⟩ := hsub _ _ ha
      exact ⟨.sequence t, by simp [Scope.entryTree, hdefinition, hitem, hbyte, ht],
        reads_parameterized (by decide) (.cons hrenders .nil) (List.cons_ne_nil _ _)⟩
  | compact hdefinition ha =>
      obtain ⟨t, ht, hrenders⟩ := hsub _ _ ha
      exact ⟨.compact t, by simp [Scope.entryTree, hdefinition, ht],
        reads_parameterized (by decide) (.cons hrenders .nil) (List.cons_ne_nil _ _)⟩
  | reserved hstructured hnamed =>
      exact ⟨_, Scope.entryTree_reserved hstructured hnamed, annotates_reserved _⟩
  | option hstructured hnamed ha =>
      obtain ⟨t, ht, hrenders⟩ := hsub _ _ ha
      exact ⟨_, Scope.entryTree_option hstructured hnamed ht,
        reads_parameterized (by decide) (.cons hrenders .nil) (List.cons_ne_nil _ _)⟩
  | result hstructured hnamed hok herr =>
      obtain ⟨t, ht, hrenders⟩ := hsub _ _ hok
      obtain ⟨t', ht', hrenders'⟩ := hsub _ _ herr
      exact ⟨_, Scope.entryTree_result hstructured hnamed ht ht', reads_parameterized (by decide)
        (.cons hrenders (.cons hrenders' .nil)) (List.cons_ne_nil _ _)⟩
  | map hstructured hnamed hkey hvalue =>
      obtain ⟨t, ht, hrenders⟩ := hsub _ _ hkey
      obtain ⟨t', ht', hrenders'⟩ := hsub _ _ hvalue
      exact ⟨_, Scope.entryTree_map hstructured hnamed ht ht', reads_parameterized (by decide)
        (.cons hrenders (.cons hrenders' .nil)) (List.cons_ne_nil _ _)⟩
  | @declared d as hstructured hnamed harguments =>
      obtain ⟨ts, hts, hall⟩ := exists_trees (harguments.imp hsub)
      refine ⟨_, Scope.entryTree_declared hstructured hnamed hts, ?_⟩
      cases hnamed with
      | declared _ hd => exact annotates_declared hq (hs.isIdentifier hd) e.id hall

/-- A descent that gives an annotation gives a tree that it is rendered from. -/
theorem exists_treeWithin_annotation (hs : s.Proper) (hq : ∀ w ∈ q, IsIdentifier w) {depth : Nat}
    {room : Room} {id : TypeId} {a : Annotation} (h : s.annotationWithin depth room id = .ok a) :
    ∃ t, s.treeWithin true depth id = some t ∧ Annotates q a t := by
  induction depth generalizing room id a with
  | zero => cases h
  | succ depth ih =>
      obtain ⟨depth', room', e, he, hdepth, ha⟩ := Scope.annotationWithin_ok h
      cases hdepth
      rw [Scope.treeWithin_succ he]
      exact exists_annotationTree_of_annotationOf hs hq (fun _ _ h => ih h) ha

end Annotations

end InkBindings.Bindings
