import InkBindings.Proofs.Bindings.Emitted
import Mathlib.Data.List.Flatten
import Mathlib.Data.List.Perm.Basic

/-!
Reading the blocks that are emitted for declared types. Where no two names of the module are the
same, each class is found with its base and index, and each bound name with its kind and layout.
-/

namespace InkBindings.Bindings

open Naming (IsName)
open Text (lines unlines)

namespace DeclaredType

def alternatives (d : DeclaredType) : List Alternative :=
  match d.shape with
  | .record _ => []
  | .sum alternatives => alternatives

def kind (d : DeclaredType) : ClassKind :=
  match d.shape with
  | .record _ => .record
  | .sum _ => .sum

def heads (d : DeclaredType) : List ClassHead :=
  ⟨d.name, d.kind.baseName, none⟩ :: d.alternatives.map fun a => ⟨a.className, d.name, some a.index⟩

/-- The classes of the type and its alternatives. -/
def classNames (d : DeclaredType) : List String :=
  d.name :: d.alternatives.map (·.className)

/-- The codecs of the instantiations of the type. -/
def instanceNames (d : DeclaredType) : List String :=
  (d.layouts.filterMap makerOf?).map (·.1)

/-- The type goes by names, and its layouts are of its kind: one of its own, or one for each
instantiation. -/
structure Plain (d : DeclaredType) : Prop where
  name : IsName d.name
  classes : ∀ a ∈ d.alternatives, IsName a.className
  layouts : ∀ l ∈ d.layouts, PlainLayout l
  kinds : ∀ l ∈ d.layouts, ClassKind.ofLayout l.2 = d.kind
  keys : (∀ l ∈ d.layouts, ∃ key, l.1 = .instantiation key d.name) ∨
    ∃ layout, d.layouts = [(.declared d.name, layout)]

end DeclaredType

/-- The names that declared types have in the module. -/
def typeNames (declared : List DeclaredType) : List String :=
  declared.flatMap (·.classNames) ++ declared.flatMap (·.instanceNames)

/-! ### Blocks -/

theorem classHeads_declaredBlocks {d : DeclaredType} (h : d.Plain) :
    (declaredBlocks d).filterMap classHead? = d.heads := by
  obtain ⟨name, docs, shape, layouts⟩ := d
  cases shape with
  | record rows =>
      have hblocks : declaredBlocks ⟨name, docs, .record rows, layouts⟩ =
          [recordText name docs rows] := rfl
      rw [hblocks, List.filterMap_cons_some (classHead_recordText h.name docs rows)]
      rfl
  | sum alternatives =>
      have hblocks : declaredBlocks ⟨name, docs, .sum alternatives, layouts⟩ =
          sumText name docs :: alternatives.map (alternativeText "" name) := rfl
      have halternatives : (alternatives.map (alternativeText "" name)).filterMap classHead? =
          alternatives.map fun a => ⟨a.className, name, some a.index⟩ := by
        rw [List.filterMap_map, ← List.filterMap_eq_map]
        refine List.filterMap_congr fun a ha => ?_
        rw [Function.comp_apply, classHead_alternativeText (h.classes a ha) h.name]
        rfl
      rw [hblocks, List.filterMap_cons_some (classHead_sumText h.name docs), halternatives]
      rfl

/-- A statement stands on a line of its own. -/
structure IsStatement (s : String) : Prop where
  line : '\n' ∉ s.toList
  ends : ∃ cs, s.toList = cs ++ [')']

theorem lines_statements {statements : List String} (hne : statements ≠ [])
    (h : ∀ s ∈ statements, IsStatement s) : lines (unlines statements) = statements := by
  have hline : ∀ s ∈ statements, lines s = [s] := fun s hs => Text.lines_of_not_mem (h s hs).line
  rw [Text.lines_unlines hne, List.flatMap_congr hline, List.flatMap_singleton']

theorem lines_statementBlock {statements : List String} (h : ∀ s ∈ statements, IsStatement s) :
    (statementBlock statements).flatMap lines = statements := by
  cases statements with
  | nil => rfl
  | cons s rest =>
      rw [statementBlock, List.flatMap_singleton, lines_statements (List.cons_ne_nil s rest) h]
      exact List.cons_ne_nil s rest

/-- No line of a block of statements heads a class. -/
theorem classLine_of_isStatement {s : String} (h : IsStatement s) : classLine? s = none := by
  obtain ⟨cs, hcs⟩ := h.ends
  exact classLine_of_end hcs

theorem classHead_of_statements {block : String} (h : ∀ line ∈ lines block, IsStatement line) :
    classHead? block = none := by
  simp only [classHead?]
  split
  · next line above hdrop =>
      have hmem : line ∈ (lines block).reverse :=
        (List.dropWhile_sublist _).subset (hdrop ▸ List.mem_cons_self)
      rw [classLine_of_isStatement (h line (List.mem_reverse.mp hmem))]
      rfl
  · rfl

theorem classHeads_statementBlock {statements : List String}
    (h : ∀ s ∈ statements, IsStatement s) :
    (statementBlock statements).filterMap classHead? = [] := by
  cases statements with
  | nil => rfl
  | cons s rest =>
      have hlines := lines_statements (List.cons_ne_nil s rest) h
      have hnone := classHead_of_statements (hlines.symm ▸ h)
      rw [statementBlock, List.filterMap_cons_none hnone]
      · rfl
      · exact List.cons_ne_nil s rest

theorem PlainLayout.isStatement_binding {l : Scale.Reference × Layout} (h : PlainLayout l) :
    IsStatement (bindingStatement l) := by
  refine ⟨h.newline_not_mem, ?_⟩
  rw [← text_bindingPhrase]
  exact Phrase.exists_text_group _ .round _

theorem isStatement_maker {key owner : String} (hkey : IsName key) (howner : IsName owner)
    (kind : ClassKind) : IsStatement (makerText key owner kind) := by
  refine ⟨newline_not_mem_makerText hkey howner kind, ?_⟩
  obtain ⟨cs, hcs⟩ := Phrase.exists_text_group ("scale." ++ kind.codecName) .round [.word owner]
  refine ⟨(key ++ " = ").toList ++ cs, ?_⟩
  rw [makerText, String.toList_append, libraryPhrase, hcs, List.append_assoc]
  rfl

theorem PlainLayout.isStatement_codec {l : Scale.Reference × Layout} (h : PlainLayout l)
    {s : String} (hs : codecStatement? l = some s) : IsStatement s ∧ maker? s = makerOf? l := by
  obtain ⟨r, layout⟩ := l
  cases r with
  | declared name | alternative owner label => cases hs
  | instantiation key owner =>
      rw [codecStatement_instantiation] at hs
      cases hs
      exact ⟨isStatement_maker h.name h.owner _, maker_makerText h.name h.owner _⟩

theorem codecStatement_eq_none {l : Scale.Reference × Layout} (h : codecStatement? l = none) :
    makerOf? l = none := by
  obtain ⟨r, layout⟩ := l
  cases r with
  | declared name | alternative owner label => rfl
  | instantiation key owner =>
      rw [codecStatement_instantiation] at h
      cases h

/-! ### What is read -/

section
variable {declared : List DeclaredType}

theorem plainLayouts (h : ∀ d ∈ declared, d.Plain) :
    ∀ l ∈ declared.flatMap (·.layouts), PlainLayout l := by
  intro l hl
  obtain ⟨d, hd, hmem⟩ := List.mem_flatMap.mp hl
  exact (h d hd).layouts l hmem

theorem isStatement_makers (h : ∀ d ∈ declared, d.Plain) :
    ∀ s ∈ (declared.flatMap (·.layouts)).filterMap codecStatement?, IsStatement s := by
  intro s hs
  obtain ⟨l, hl, hstatement⟩ := List.mem_filterMap.mp hs
  exact (((plainLayouts h) l hl).isStatement_codec hstatement).1

theorem isStatement_bindings (h : ∀ d ∈ declared, d.Plain) :
    ∀ s ∈ (declared.flatMap (·.layouts)).map bindingStatement, IsStatement s := by
  intro s hs
  obtain ⟨l, hl, rfl⟩ := List.mem_map.mp hs
  exact ((plainLayouts h) l hl).isStatement_binding

theorem classes_typeBlocks (h : ∀ d ∈ declared, d.Plain) :
    (Emitted.ofBlocks (typeBlocks declared)).classes = declared.flatMap (·.heads) := by
  have hclasses : (declared.flatMap declaredBlocks).filterMap classHead? =
      declared.flatMap (·.heads) := by
    rw [List.filterMap_flatMap]
    exact List.flatMap_congr fun d hd => classHeads_declaredBlocks (h d hd)
  change (typeBlocks declared).filterMap classHead? = _
  rw [typeBlocks, List.filterMap_append, List.filterMap_append, hclasses,
    classHeads_statementBlock (isStatement_makers h),
    classHeads_statementBlock (isStatement_bindings h), List.append_nil, List.append_nil]

theorem lines_typeBlocks (h : ∀ d ∈ declared, d.Plain) :
    ∃ before, (typeBlocks declared).flatMap lines =
      before ++ (declared.flatMap (·.layouts)).filterMap codecStatement? ++
        (declared.flatMap (·.layouts)).map bindingStatement := by
  refine ⟨(declared.flatMap declaredBlocks).flatMap lines, ?_⟩
  rw [typeBlocks, List.flatMap_append, List.flatMap_append,
    lines_statementBlock (isStatement_makers h), lines_statementBlock (isStatement_bindings h)]

theorem makers_codecStatements (h : ∀ d ∈ declared, d.Plain) :
    ((declared.flatMap (·.layouts)).filterMap codecStatement?).filterMap maker? =
      (declared.flatMap (·.layouts)).filterMap makerOf? := by
  rw [List.filterMap_filterMap]
  refine List.filterMap_congr fun l hl => ?_
  cases hs : codecStatement? l with
  | none => rw [codecStatement_eq_none hs, Option.bind_none]
  | some s => rw [Option.bind_some, (((plainLayouts h) l hl).isStatement_codec hs).2]

theorem makers_bindingStatements (h : ∀ d ∈ declared, d.Plain) :
    ((declared.flatMap (·.layouts)).map bindingStatement).filterMap maker? = [] := by
  rw [List.filterMap_map, List.filterMap_eq_nil_iff]
  exact fun l hl => ((plainLayouts h) l hl).maker_binding

theorem makers_typeBlocks (h : ∀ d ∈ declared, d.Plain) :
    ∃ before, (Emitted.ofBlocks (typeBlocks declared)).makers =
      before ++ (declared.flatMap (·.layouts)).filterMap makerOf? := by
  obtain ⟨before, hlines⟩ := lines_typeBlocks h
  refine ⟨before.filterMap maker?, ?_⟩
  change ((typeBlocks declared).flatMap lines).filterMap maker? = _
  rw [hlines, List.filterMap_append, List.filterMap_append, makers_codecStatements h,
    makers_bindingStatements h, List.append_nil]

theorem bindings_typeBlocks (h : ∀ d ∈ declared, d.Plain) :
    ∃ before, (Emitted.ofBlocks (typeBlocks declared)).bindings =
      before ++ (declared.flatMap (·.layouts)).map
        fun l => (referenceName l.1, layoutItems "" l.2) := by
  obtain ⟨before, hlines⟩ := lines_typeBlocks h
  refine ⟨(before ++ (declared.flatMap (·.layouts)).filterMap codecStatement?).filterMap binding?,
    ?_⟩
  have hbindings : ((declared.flatMap (·.layouts)).map bindingStatement).filterMap binding? =
      (declared.flatMap (·.layouts)).map fun l => (referenceName l.1, layoutItems "" l.2) := by
    rw [List.filterMap_map, ← List.filterMap_eq_map]
    refine List.filterMap_congr fun l hl => ?_
    rw [Function.comp_apply, ((plainLayouts h) l hl).binding]
    rfl
  change ((typeBlocks declared).flatMap lines).filterMap binding? = _
  rw [hlines, List.filterMap_append, hbindings]

/-- What is added last under a name of its own is found. -/
theorem find_reverse_of_nodup {α : Type} (before : List (String × α)) {added : List (String × α)}
    (hnodup : (added.map (·.1)).Nodup) {p : String × α} (hp : p ∈ added) :
    (before ++ added).reverse.find? (·.1 = p.1) = some p := by
  have hnodup' : (added.reverse.map (·.1)).Nodup := by
    rw [List.map_reverse]
    exact List.nodup_reverse.mpr hnodup
  rw [List.reverse_append, List.find?_append,
    Scale.find_of_nodup (·.1) hnodup' (List.mem_reverse.mpr hp), Option.some_or]

theorem class_of_mem (h : ∀ d ∈ declared, d.Plain) (hnames : (typeNames declared).Nodup)
    {d : DeclaredType} (hd : d ∈ declared) {c : ClassHead} (hc : c ∈ d.heads) :
    (Emitted.ofBlocks (typeBlocks declared)).class? c.name = some c := by
  have hnodup : ((declared.flatMap (·.heads)).map (·.name)).Nodup := by
    have hheads : (declared.flatMap (·.heads)).map (·.name) =
        declared.flatMap (·.classNames) := by
      rw [List.map_flatMap]
      refine List.flatMap_congr fun d _ => ?_
      rw [DeclaredType.heads, DeclaredType.classNames, List.map_cons, List.map_map]
      rfl
    rw [hheads]
    exact (List.nodup_append.mp hnames).1
  rw [Emitted.class?, classes_typeBlocks h]
  exact Scale.find_of_nodup (·.name) hnodup (List.mem_flatMap.mpr ⟨d, hd, hc⟩)

/-- The codec of an instantiation has no class of its name. -/
theorem class_of_instance (h : ∀ d ∈ declared, d.Plain) (hnames : (typeNames declared).Nodup)
    {d : DeclaredType} (hd : d ∈ declared) {key : String} (hkey : key ∈ d.instanceNames) :
    (Emitted.ofBlocks (typeBlocks declared)).class? key = none := by
  rw [Emitted.class?, classes_typeBlocks h, List.find?_eq_none]
  intro c hc
  obtain ⟨e, he, hmem⟩ := List.mem_flatMap.mp hc
  have hclass : c.name ∈ e.classNames := by
    rw [DeclaredType.heads] at hmem
    obtain rfl | hmem := List.mem_cons.mp hmem
    · exact List.mem_cons_self
    · obtain ⟨a, ha, rfl⟩ := List.mem_map.mp hmem
      exact List.mem_cons_of_mem _ (List.mem_map_of_mem ha)
  have hne := (List.nodup_append.mp hnames).2.2 c.name (List.mem_flatMap.mpr ⟨e, he, hclass⟩)
    key (List.mem_flatMap.mpr ⟨d, hd, hkey⟩)
  simpa using hne

/-- The index of an alternative is found by its class. -/
theorem index_of_alternative (h : ∀ d ∈ declared, d.Plain) (hnames : (typeNames declared).Nodup)
    {d : DeclaredType} (hd : d ∈ declared) {a : Alternative} (ha : a ∈ d.alternatives) :
    (Emitted.ofBlocks (typeBlocks declared)).index? a.className = some a.index := by
  have hc : (⟨a.className, d.name, some a.index⟩ : ClassHead) ∈ d.heads :=
    List.mem_cons_of_mem _ (List.mem_map_of_mem ha)
  rw [Emitted.index?, class_of_mem h hnames hd hc, Option.bind_some]

theorem DeclaredType.mem_instanceNames {d : DeclaredType} {key owner : String} {layout : Layout}
    (hl : (.instantiation key owner, layout) ∈ d.layouts) : key ∈ d.instanceNames := by
  have hmaker : (key, ClassKind.ofLayout layout) ∈ d.layouts.filterMap makerOf? :=
    List.mem_filterMap.mpr ⟨_, hl, rfl⟩
  exact List.mem_map_of_mem (f := (·.1)) hmaker

theorem names_makers (declared : List DeclaredType) :
    ((declared.flatMap (·.layouts)).filterMap makerOf?).map (·.1) =
      declared.flatMap (·.instanceNames) := by
  rw [List.filterMap_flatMap, List.map_flatMap]
  rfl

theorem nodup_makers (hnames : (typeNames declared).Nodup) :
    (((declared.flatMap (·.layouts)).filterMap makerOf?).map (·.1)).Nodup := by
  rw [names_makers]
  exact (List.nodup_append.mp hnames).2.1

/-- A layout is bound to the class, or each to the codec of an instantiation. -/
theorem DeclaredType.Plain.boundNames_sublist {d : DeclaredType} (h : d.Plain) :
    (d.layouts.map (referenceName ·.1)).Sublist (d.classNames ++ d.instanceNames) := by
  obtain hkeys | ⟨layout, hlayout⟩ := h.keys
  · have hnames : d.layouts.map (referenceName ·.1) = d.instanceNames := by
      rw [DeclaredType.instanceNames, List.map_filterMap, ← List.filterMap_eq_map]
      refine List.filterMap_congr fun l hl => ?_
      obtain ⟨key, hkey⟩ := hkeys l hl
      rw [Function.comp_apply, makerOf?, hkey]
      rfl
    rw [hnames]
    exact List.sublist_append_right _ _
  · rw [hlayout]
    exact .trans (.cons_cons _ (List.nil_sublist _)) (List.sublist_append_left _ _)

theorem nodup_bindings (h : ∀ d ∈ declared, d.Plain) (hnames : (typeNames declared).Nodup) :
    ((declared.flatMap (·.layouts)).map (referenceName ·.1)).Nodup := by
  have hall := (List.flatMap_append_perm declared (·.classNames) (·.instanceNames)).nodup_iff.mp
    hnames
  rw [List.map_flatMap]
  exact hall.sublist (List.Sublist.flatMap_right _ fun d hd => (h d hd).boundNames_sublist)

/-- The layout of a type or an instantiation is found by its name. -/
theorem bound_of_layout (h : ∀ d ∈ declared, d.Plain) (hnames : (typeNames declared).Nodup)
    {d : DeclaredType} (hd : d ∈ declared) {l : Scale.Reference × Layout} (hl : l ∈ d.layouts) :
    (Emitted.ofBlocks (typeBlocks declared)).bound? (referenceName l.1) =
      some (layoutItems "" l.2) := by
  obtain ⟨before, hbindings⟩ := bindings_typeBlocks h
  have hnodup := nodup_bindings h hnames
  have hmem : (referenceName l.1, layoutItems "" l.2) ∈ (declared.flatMap (·.layouts)).map
      fun l => (referenceName l.1, layoutItems "" l.2) :=
    List.mem_map_of_mem (f := fun l : Scale.Reference × Layout =>
      (referenceName l.1, layoutItems "" l.2)) (List.mem_flatMap.mpr ⟨d, hd, hl⟩)
  rw [Emitted.bound?, hbindings, find_reverse_of_nodup before (by rwa [List.map_map]) hmem,
    Option.map_some]

theorem kind_of_layout (h : ∀ d ∈ declared, d.Plain) (hnames : (typeNames declared).Nodup)
    {d : DeclaredType} (hd : d ∈ declared) {l : Scale.Reference × Layout} (hl : l ∈ d.layouts) :
    (Emitted.ofBlocks (typeBlocks declared)).kind? (referenceName l.1) = some d.kind := by
  have hkind := (h d hd).kinds l hl
  obtain hkeys | ⟨layout, hlayout⟩ := (h d hd).keys
  · obtain ⟨r, layout⟩ := l
    obtain ⟨key, hkey⟩ := hkeys _ hl
    obtain rfl : r = .instantiation key d.name := hkey
    have hinstance : key ∈ d.instanceNames := DeclaredType.mem_instanceNames hl
    obtain ⟨before, hmakers⟩ := makers_typeBlocks h
    have hmem : (key, ClassKind.ofLayout layout) ∈
        (declared.flatMap (·.layouts)).filterMap makerOf? :=
      List.mem_filterMap.mpr ⟨_, List.mem_flatMap.mpr ⟨d, hd, hl⟩, rfl⟩
    rw [referenceName, Emitted.kind?, class_of_instance h hnames hd hinstance]
    simp only [hmakers, find_reverse_of_nodup before (nodup_makers hnames) hmem, Option.map_some]
    exact congrArg some hkind
  · rw [hlayout, List.mem_singleton] at hl
    subst hl
    have hclass := class_of_mem h hnames hd (c := ⟨d.name, d.kind.baseName, none⟩)
      List.mem_cons_self
    simp only [referenceName, Scale.Reference.name, Emitted.kind?, hclass]
    cases d.kind <;> rfl

end

end InkBindings.Bindings
