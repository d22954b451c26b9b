import InkBindings.Proofs.Bindings.CallTypes
import InkBindings.Proofs.Bindings.Faithful
import InkBindings.Proofs.Bindings.MethodNames
import InkBindings.Proofs.Bindings.Partition

/-!
The names that a module binds for a contract. Classes are named against all names that have been
chosen before, and so they have names of their own. The codecs of instantiations are named after
their types and ids, and no class is named against them.
-/

namespace InkBindings.Bindings

open Metadata (Declaration Registry)
open Naming (IsName sanitize)
open Text (lines unlines)

/-! ### Reading the names of blocks -/

/-- The class that the first line of a block heads. -/
def headLine? (block : String) : Option String :=
  ((lines block).head?.bind classLine?).map (·.1)

/-- The names that a block binds: that of its class, or those of the codecs that it makes. -/
def blockNames (block : String) : List String :=
  match headLine? block, classHead? block with
  | some name, _ => [name]
  | none, some c => [c.name]
  | none, none => ((lines block).filterMap maker?).map (·.1)

/-- The blocks for what a contract declares, and for its namespaces. -/
def contractBlocks (b : Bindings) : List String :=
  typeBlocks b.declared ++ b.namespaces.flatMap fun n => [interfaceText n, implementationText n]

/-- The names that the module binds for its contract. -/
def contractNames (b : Bindings) : List String :=
  (contractBlocks b).flatMap blockNames

theorem contractBlocks_sublist (b : Bindings) (options : PrintOptions) :
    (contractBlocks b).Sublist (blocks b options) := by
  have hparts : (contractBlocks b).Sublist (typeBlocks b.declared ++ [eventText b.events] ++
      b.namespaces.flatMap fun n => [interfaceText n, implementationText n]) :=
    (List.sublist_append_left _ _).append (.refl _)
  exact .cons _ ((hparts.trans (List.sublist_append_left _ _)).trans (List.sublist_append_left _ _))

theorem classLine_eq_none {line : String} {c : Char} (h : line.toList.head? = some c)
    (hc : c ≠ 'c') : classLine? line = none := by
  rw [classLine?]
  split
  · next hline =>
      rw [hline] at h
      exact absurd (Option.some.inj h).symm hc
  · rfl

theorem headLine_decorated {decorator : String} (h : decorator.toList.head? = some '@')
    (more : List String) : headLine? (unlines (decorator :: more)) = none := by
  obtain ⟨rest, hrest⟩ : ∃ rest, decorator.toList = ['@'] ++ rest :=
    ⟨_, (List.cons_head?_tail h).symm⟩
  have hmark : '\n' ∉ ['@'] := by decide
  obtain ⟨first, others, hsplit⟩ := Text.splitLines_behind hmark rest
  have hnone : classLine? (String.ofList (['@'] ++ first)) = none :=
    classLine_eq_none (c := '@') (by rw [String.toList_ofList]; rfl) (by decide)
  rw [headLine?, Text.lines_unlines (List.cons_ne_nil _ more), List.flatMap_cons, lines, hrest,
    hsplit, List.map_cons, List.cons_append, List.head?_cons, Option.bind_some, hnone]
  rfl

theorem headLine_class {name base : String} (hname : IsName name) (hbase : base ≠ "")
    (hbase' : ∀ c ∈ base.toList, isWordChar c) (more : List String) :
    headLine? (unlines (classText name base :: more)) = some name := by
  rw [headLine?, Text.lines_unlines (List.cons_ne_nil _ more), List.flatMap_cons,
    lines_classText hname hbase', List.singleton_append, List.head?_cons, Option.bind_some,
    classLine_of_head (isWordChar_of_isName hname) hbase hbase']
  rfl

theorem blockNames_of_headLine {block name : String} (h : headLine? block = some name) :
    blockNames block = [name] := by
  rw [blockNames, h]

theorem blockNames_of_classHead {block : String} {c : ClassHead} (hline : headLine? block = none)
    (h : classHead? block = some c) : blockNames block = [c.name] := by
  rw [blockNames, hline, h]

theorem blockNames_declaredBlocks {t : DeclaredType} (h : t.Plain) :
    (declaredBlocks t).flatMap blockNames = t.classNames := by
  obtain ⟨name, docs, shape, layouts⟩ := t
  cases shape with
  | record rows =>
      have hrecord : blockNames (recordText name docs rows) = [name] :=
        blockNames_of_classHead (headLine_decorated (by decide) _)
          (classHead_recordText h.name docs rows)
      exact (List.flatMap_singleton ..).trans hrecord
  | sum alternatives =>
      have hsum : blockNames (sumText name docs) = [name] := by
        have hline : s!"class {name}(scale.Enum):" = classText name "scale.Enum" := by
          change "class " ++ name ++ "(scale.Enum):" = _
          rw [← String.toList_inj]
          simp [classText]
        rw [sumText, hline]
        exact blockNames_of_headLine
          (headLine_class h.name (by decide) (List.all_eq_true.mp (by decide)) _)
      have halternative : ∀ a ∈ alternatives,
          blockNames (alternativeText "" name a) = [a.className] := by
        intro a ha
        refine blockNames_of_classHead (headLine_decorated ?_ _)
          (classHead_alternativeText (h.classes a ha) h.name)
        change ("@" ++ name ++ ".alternative(\"" ++ a.label ++ "\", " ++ toString a.index ++
          ")").toList.head? = _
        simp only [String.toList_append, List.append_assoc]
        rfl
      change blockNames (sumText name docs) ++
        (alternatives.map (alternativeText "" name)).flatMap blockNames = _
      rw [hsum, List.flatMap_map, List.flatMap_congr halternative, ← List.map_eq_flatMap]
      rfl

theorem blockNames_statementBlock {statements : List String}
    (h : ∀ s ∈ statements, IsStatement s) :
    (statementBlock statements).flatMap blockNames = (statements.filterMap maker?).map (·.1) := by
  cases statements with
  | nil => rfl
  | cons s rest =>
      have hlines := lines_statements (List.cons_ne_nil s rest) h
      have hnone : headLine? (unlines (s :: rest)) = none := by
        rw [headLine?, hlines, List.head?_cons, Option.bind_some,
          classLine_of_isStatement (h s List.mem_cons_self)]
        rfl
      rw [statementBlock, List.flatMap_singleton, blockNames, hnone,
        classHead_of_statements (hlines.symm ▸ h), hlines]
      exact List.cons_ne_nil s rest

theorem blockNames_namespace {n : Namespace} (h : ∀ name ∈ n.classNames, IsName name) :
    [interfaceText n, implementationText n].flatMap blockNames = n.classNames := by
  have hinterface : IsName n.interface := h _ (by simp [Namespace.classNames])
  have himplementation : IsName n.implementation := h _ (by simp [Namespace.classNames])
  have hhead : s!"class {n.interface}(abc.ABC):" = classText n.interface "abc.ABC" := by
    change "class " ++ n.interface ++ "(abc.ABC):" = _
    rw [← String.toList_inj]
    simp [classText]
  have hfirst : blockNames (interfaceText n) = [n.interface] := by
    rw [interfaceText, hhead]
    exact blockNames_of_headLine
      (headLine_class hinterface (by decide) (List.all_eq_true.mp (by decide)) _)
  have hsecond : blockNames (implementationText n) = [n.implementation] :=
    blockNames_of_headLine
      (headLine_class himplementation hinterface.nonempty (isWordChar_of_isName hinterface) _)
  rw [List.flatMap_cons, List.flatMap_singleton, hfirst, hsecond]
  rfl

/-- The names are those of the declared types, with the codecs of their instantiations, and those
of the namespaces. -/
theorem contractNames_eq {b : Bindings} (htypes : ∀ t ∈ b.declared, t.Plain)
    (hnamespaces : ∀ n ∈ b.namespaces, ∀ name ∈ n.classNames, IsName name) :
    contractNames b = typeNames b.declared ++ b.namespaces.flatMap (·.classNames) := by
  have hclasses : (b.declared.flatMap declaredBlocks).flatMap blockNames =
      b.declared.flatMap (·.classNames) := by
    rw [List.flatMap_assoc]
    exact List.flatMap_congr fun t ht => blockNames_declaredBlocks (htypes t ht)
  have hnames : (b.namespaces.flatMap fun n => [interfaceText n, implementationText n]).flatMap
      blockNames = b.namespaces.flatMap (·.classNames) := by
    rw [List.flatMap_assoc]
    exact List.flatMap_congr fun n hn => blockNames_namespace (hnamespaces n hn)
  rw [contractNames, contractBlocks, List.flatMap_append, hnames, typeBlocks, List.flatMap_append,
    List.flatMap_append, hclasses, blockNames_statementBlock (isStatement_makers htypes),
    blockNames_statementBlock (isStatement_bindings htypes), makers_codecStatements htypes,
    makers_bindingStatements htypes, names_makers, typeNames, List.map_nil, List.append_nil]

/-! ### Names that are chosen -/

/-- Names are chosen for what is wanted, one after the other, and are in use afterwards. -/
structure Context.Chooses (c : Context) (wanted chosen : List String) (c' : Context) : Prop where
  eq : chosen = Naming.uniqueNames wanted c.names
  names : c'.names = chosen.reverse ++ c.names

theorem Context.Chooses.nil (c : Context) : c.Chooses [] [] c :=
  ⟨rfl, rfl⟩

theorem Context.Chooses.choose (c : Context) (wanted : String) :
    c.Chooses [wanted] [(c.choose wanted).1] (c.choose wanted).2 := by
  constructor
  · rw [Naming.uniqueNames, Naming.uniqueNames, Context.choose]
  · rw [Context.choose, List.reverse_singleton, List.singleton_append]

theorem Context.Chooses.append {c c₁ c₂ : Context} {wanted chosen wanted' chosen' : List String}
    (h : c.Chooses wanted chosen c₁) (h' : c₁.Chooses wanted' chosen' c₂) :
    c.Chooses (wanted ++ wanted') (chosen ++ chosen') c₂ := by
  constructor
  · rw [Naming.uniqueNames_append, ← h.eq, ← h.names, ← h'.eq]
  · rw [h'.names, h.names, List.reverse_append, List.append_assoc]

end InkBindings.Bindings

namespace InkBindings.Metadata.Declaration

/-- What the classes of its alternatives are to be named. -/
def alternativeLabels (d : Declaration) : List String :=
  d.first.definition.alternatives.map fun a => s!"_{d.name}_{a.name}"

/-- The codecs of its instantiations. -/
def codecNames (d : Declaration) : List String :=
  if d.isGeneric then d.entries.map fun e => d.instanceName e.id else []

end InkBindings.Metadata.Declaration

namespace InkBindings.Bindings

open Metadata (Declaration Registry)
open Naming (IsName sanitize)

/-- What the classes of a namespace are to be named. -/
def Namespace.classLabels (n : Namespace) : List String :=
  [n.label, "_Instance" ++ n.interface]

theorem chooses_of_makeAlternatives {d : Declaration}
    {first alternatives : List Metadata.Alternative} {c c' : Context} {emitted : List Alternative}
    (h : makeAlternatives d first c alternatives = .ok (emitted, c')) :
    c.Chooses (alternatives.map fun a => s!"_{d.name}_{a.name}") (emitted.map (·.className))
      c' := by
  induction alternatives generalizing c emitted with
  | nil =>
      cases h
      exact .nil _
  | cons a rest ih =>
      rw [makeAlternatives] at h
      obtain ⟨⟨b, c₁⟩, hb, h⟩ := bind_ok h
      obtain ⟨⟨more, c₂⟩, hmore, h⟩ := bind_ok h
      cases h
      have hfirst : c.Chooses [s!"_{d.name}_{a.name}"] [b.className] c₁ := by
        obtain ⟨others, -, hb⟩ := bind_ok hb
        obtain ⟨rows, -, hb⟩ := bind_ok hb
        cases hb
        exact .choose c s!"_{d.name}_{a.name}"
      exact hfirst.append (ih hmore)

theorem MadeBy.chooses {c c' : Context} {d : Declaration} {t : DeclaredType}
    (h : MadeBy c d t c') :
    c.Chooses d.alternativeLabels (t.alternatives.map (·.className)) c' := by
  cases h with
  | record hfirst _ _ =>
      rw [Declaration.alternativeLabels, hfirst]
      exact .nil _
  | sum hfirst hemitted _ =>
      rw [Declaration.alternativeLabels, hfirst]
      exact chooses_of_makeAlternatives hemitted

theorem chooses_of_makeAllDeclared {c c' : Context} {ds : List Declaration}
    {ts : List DeclaredType} (h : makeAllDeclared c ds = .ok (ts, c')) :
    c.Chooses (ds.flatMap (·.alternativeLabels))
      (ts.flatMap fun t => t.alternatives.map (·.className)) c' := by
  induction ds generalizing c ts with
  | nil =>
      cases h
      exact .nil _
  | cons d rest ih =>
      obtain ⟨t, c₁, more, rfl, ht, hmore⟩ := makeAllDeclared_cons h
      exact (madeBy_of_makeDeclared ht).chooses.append (ih hmore)

theorem chooses_of_makeNamespaces {c c' : Context} {mutators : List Bytes}
    {properties : List String} {groups : List (String × List Metadata.EntryPoint)}
    {ns : List Namespace} (h : makeNamespaces mutators c properties groups = .ok (ns, c')) :
    c.Chooses (ns.flatMap (·.classLabels)) (ns.flatMap (·.classNames)) c' := by
  induction groups generalizing c properties ns with
  | nil =>
      cases h
      exact .nil _
  | cons g rest ih =>
      obtain ⟨n, c₁, more, rfl, hn, hmore⟩ := makeNamespaces_cons h
      obtain ⟨hinterface, himplementation, -, -, hnames⟩ := namedNamespace hn
      have hlabel : n.label = g.1 := (makeNamespace_ok hn).2.1
      have hfirst : c.Chooses n.classLabels n.classNames c₁ := by
        refine ⟨?_, hnames⟩
        rw [Namespace.classLabels, Naming.uniqueNames, Naming.uniqueNames, Naming.uniqueNames,
          hlabel, ← hinterface, ← himplementation]
        rfl
      exact hfirst.append (ih hmore)

/-! ### Codecs of instantiations -/

theorem Made.instanceNames {s : Scope} {d : Declaration} {t : DeclaredType} (h : Made s d t) :
    t.instanceNames = d.codecNames := by
  have hmakers : t.layouts.map (fun l => (makerOf? l).map (·.1)) =
      d.entries.map fun e => if d.isGeneric then some (d.instanceName e.id) else none := by
    refine map_eq_map_iff_forall₂.mpr (h.layouts.flip.imp fun l e hl => ?_)
    by_cases hgeneric : d.isGeneric = true <;>
      simp [makerOf?, hl.1, entryReference, hgeneric]
  have hnames : t.instanceNames =
      (t.layouts.map fun l => (makerOf? l).map (·.1)).filterMap id := by
    rw [DeclaredType.instanceNames, List.map_filterMap, List.filterMap_map]
    rfl
  rw [hnames, hmakers, List.filterMap_map, Declaration.codecNames]
  by_cases hgeneric : d.isGeneric = true
  · simp only [hgeneric, if_true, ← List.filterMap_eq_map]
    rfl
  · simp [hgeneric]

theorem mem_codecNames {d : Declaration} {name : String} :
    name ∈ d.codecNames ↔ d.isGeneric = true ∧ ∃ e ∈ d.entries, d.instanceName e.id = name := by
  rw [Declaration.codecNames]
  split
  · next hgeneric => simp [hgeneric]
  · next hgeneric => simp [hgeneric]

/-- The name of a codec ends in a digit. -/
theorem exists_last_instanceName (d : Declaration) {id : Metadata.TypeId} (hid : 0 ≤ id) :
    ∃ c, (d.instanceName id).toList.getLast? = some c ∧ c.isDigit = true := by
  have hnumber : ∀ c ∈ (toString id).toList, c.isDigit = true := by
    intro c hc
    rw [toList_number, if_neg (Int.not_lt.mpr hid), Nat.toList_repr] at hc
    exact Nat.isDigit_of_mem_toDigits (by decide) (by decide) hc
  have hne : (toString id).toList ≠ [] := by
    intro hnil
    have hread := intOfChars_number id
    rw [hnil] at hread
    cases hread
  have hlast : (d.instanceName id).toList.getLast? = (toString id).toList.getLast? := by
    change ("_" ++ d.name ++ "_" ++ toString id).toList.getLast? = _
    rw [String.toList_append, List.getLast?_append_of_ne_nil _ hne]
  exact ⟨_, hlast.trans (List.getLast?_eq_some_getLast hne), hnumber _ (List.getLast_mem hne)⟩

theorem instanceName_not_mem_moduleNames (d : Declaration) {id : Metadata.TypeId} (hid : 0 ≤ id) :
    d.instanceName id ∉ moduleNames := by
  have hends : ∀ name ∈ moduleNames, name.toList.getLast?.all (!·.isDigit) = true := by decide
  intro hmem
  obtain ⟨c, hlast, hdigit⟩ := exists_last_instanceName d hid
  have hfalse := hends _ hmem
  rw [hlast, Option.all_some, hdigit] at hfalse
  cases hfalse

theorem nodup_codecNames {r : Registry} (hr : r.Keyed) (reserved : List String) :
    ((r.declarations reserved).flatMap (·.codecNames)).Nodup := by
  have hentries : ∀ d ∈ r.declarations reserved, (d.entries.map (·.id)).Nodup := by
    intro d hd
    rw [Registry.entries_eq hd]
    exact List.Nodup.sublist ((List.filter_sublist.trans List.filter_sublist).map _) hr
  refine List.nodup_flatMap.mpr ⟨fun d hd => ?_, ?_⟩
  · rw [Declaration.codecNames]
    split
    · refine List.pairwise_map.mpr ((List.pairwise_map.mp (hentries d hd)).imp fun hne heq => ?_)
      exact hne (instanceName_inj heq).2
    · exact List.nodup_nil
  · have hnames := List.pairwise_map.mp (Metadata.nodup_declare _ _ :
      ((r.declarations reserved).map (·.name)).Nodup)
    refine hnames.imp fun hne => ?_
    intro name hname hname'
    obtain ⟨-, e, -, rfl⟩ := mem_codecNames.mp hname
    obtain ⟨-, e', -, heq⟩ := mem_codecNames.mp hname'
    exact hne (instanceName_inj heq).1.symm

/-! ### All names -/

/-- What the classes of the module are to be named: types by the last segments of their paths. -/
def classLabels (ds : List Declaration) (b : Bindings) : List String :=
  ds.map (·.first.name) ++
    (ds.flatMap (·.alternativeLabels) ++ b.namespaces.flatMap (·.classLabels))

/-- The classes of the module, those of all declared types first. -/
def classNames (ds : List Declaration) (b : Bindings) : List String :=
  ds.map (·.name) ++ (b.declared.flatMap (fun t => t.alternatives.map (·.className)) ++
    b.namespaces.flatMap (·.classNames))

/-- No class is to be named as the codec of an instantiation is. -/
def SparesCodecs (ds : List Declaration) (b : Bindings) : Prop :=
  ∀ d ∈ ds, d.isGeneric = true → ∀ e ∈ d.entries, ∀ label ∈ classLabels ds b,
    sanitize label ≠ d.instanceName e.id

section
variable {room : Room} {m : Metadata} {b : Bindings} (h : within? room m = .ok b)
include h

/-- The declarations are named against the module, and all other classes against these too. -/
theorem classNames_chosen :
    (Scope.ofMetadata room m).declarations.map (·.name) =
        Naming.uniqueNames ((Scope.ofMetadata room m).declarations.map (·.first.name))
          moduleNames ∧
      b.declared.flatMap (fun t => t.alternatives.map (·.className)) ++
          b.namespaces.flatMap (·.classNames) =
        Naming.uniqueNames ((Scope.ofMetadata room m).declarations.flatMap (·.alternativeLabels) ++
          b.namespaces.flatMap (·.classLabels))
          (moduleNames ++ (Scope.ofMetadata room m).declarations.map (·.name)) := by
  obtain ⟨c, c', hb⟩ := assembled_of_within h
  have hchosen := (chooses_of_makeAllDeclared hb.declared).append
    (chooses_of_makeNamespaces hb.namespaces)
  exact ⟨Metadata.names_declare _ _, hchosen.eq⟩

theorem nodup_classNames : (classNames (Scope.ofMetadata room m).declarations b).Nodup := by
  obtain ⟨hdeclared, hothers⟩ := classNames_chosen h
  refine List.nodup_append'.mpr ⟨?_, ?_, fun name hname hname' => ?_⟩
  · rw [hdeclared]
    exact Naming.nodup_uniqueNames _ _
  · rw [hothers]
    exact Naming.nodup_uniqueNames _ _
  · rw [hothers] at hname'
    exact (Naming.not_mem_of_uniqueNames hname').2 (List.mem_append_right _ hname)

theorem classNames_not_mem_moduleNames :
    ∀ name ∈ classNames (Scope.ofMetadata room m).declarations b, name ∉ moduleNames := by
  obtain ⟨hdeclared, hothers⟩ := classNames_chosen h
  intro name hname hmodule
  obtain hname | hname := List.mem_append.mp hname
  · rw [hdeclared] at hname
    exact (Naming.not_mem_of_uniqueNames hname).2 hmodule
  · rw [hothers] at hname
    exact (Naming.not_mem_of_uniqueNames hname).2 (List.mem_append_left _ hmodule)

/-- A name without an underscore at its end is that of a class if some class is to be named so. -/
theorem mem_classNames_iff {name : String} (hkeyword : name ∉ Naming.keywords)
    (hend : name.toList.getLast? ≠ some '_') (hmodule : name ∉ moduleNames) :
    name ∈ classNames (Scope.ofMetadata room m).declarations b ↔
      ∃ label ∈ classLabels (Scope.ofMetadata room m).declarations b, sanitize label = name := by
  obtain ⟨hdeclared, hothers⟩ := classNames_chosen h
  have hfirst : name ∈ (Scope.ofMetadata room m).declarations.map (·.name) ↔
      ∃ label ∈ (Scope.ofMetadata room m).declarations.map (·.first.name),
        sanitize label = name := by
    rw [hdeclared, Naming.mem_uniqueNames_iff hkeyword hend]
    exact and_iff_right hmodule
  rw [classNames, hothers, List.mem_append, Naming.mem_uniqueNames_iff hkeyword hend,
    List.mem_append, not_or, and_iff_right hmodule, classLabels]
  -- whether the name is that of a declaration is decided before the others are chosen
  by_cases hname : name ∈ (Scope.ofMetadata room m).declarations.map (·.name)
  · obtain ⟨label, hlabel, hsanitize⟩ := hfirst.mp hname
    exact iff_of_true (.inl hname) ⟨label, List.mem_append_left _ hlabel, hsanitize⟩
  · constructor
    · rintro (hmem | ⟨-, label, hlabel, hsanitize⟩)
      · exact absurd hmem hname
      · exact ⟨label, List.mem_append_right _ hlabel, hsanitize⟩
    · rintro ⟨label, hlabel, hsanitize⟩
      obtain hlabel | hlabel := List.mem_append.mp hlabel
      · exact absurd (hfirst.mpr ⟨label, hlabel, hsanitize⟩) hname
      · exact .inr ⟨hname, label, hlabel, hsanitize⟩

theorem contractNames_perm (hids : ∀ e ∈ m.types, 0 ≤ e.id) :
    (contractNames b).Perm (classNames (Scope.ofMetadata room m).declarations b ++
      (Scope.ofMetadata room m).declarations.flatMap (·.codecNames)) := by
  have hmade := made_of_within h
  have hnames : b.declared.map (·.name) = (Scope.ofMetadata room m).declarations.map (·.name) :=
    (map_eq_map_iff_forall₂.mpr (hmade.imp fun _ _ ht => ht.name.symm)).symm
  have hcodecs : b.declared.flatMap (·.instanceNames) =
      (Scope.ofMetadata room m).declarations.flatMap (·.codecNames) := by
    have hlists := map_eq_map_iff_forall₂.mpr (hmade.imp fun _ _ ht => ht.instanceNames.symm)
    rw [List.flatMap_def, List.flatMap_def, hlists]
  have hclasses := List.map_append_flatMap_perm b.declared (·.name)
    fun t => t.alternatives.map (·.className)
  have hnamespaces : ∀ n ∈ b.namespaces, ∀ name ∈ n.classNames, IsName name :=
    fun n hn name hname => (((classNames_of_within h).2 n hn).2 name hname).1
  rw [contractNames_eq (plain_of_within h hids) hnamespaces, typeNames, hcodecs, classNames,
    ← hnames, List.append_assoc, ← List.append_assoc (b.declared.map _)]
  -- the classes of the namespaces come behind the codecs
  exact (List.perm_append_comm.append_left _).trans <| by
    rw [← List.append_assoc]
    exact (hclasses.symm.append_right _).append_right _

/-- No name that is bound for a contract is one of the module itself. The names differ exactly if
those of codecs are spared. -/
theorem contractNames_nodup_iff (hids : ∀ e ∈ m.types, 0 ≤ e.id)
    (hkeyed : (Registry.mk m.types).Keyed) :
    (∀ options, (contractBlocks b).Sublist (blocks b options)) ∧
      (∀ name ∈ contractNames b, name ∉ moduleNames) ∧
      ((contractNames b).Nodup ↔ SparesCodecs (Scope.ofMetadata room m).declarations b) := by
  have hperm := contractNames_perm h hids
  have hid : ∀ d ∈ (Scope.ofMetadata room m).declarations, ∀ e ∈ d.entries, 0 ≤ e.id :=
    fun d hd e he => hids e (Registry.mem_entries_of_mem_declarations hd he)
  refine ⟨contractBlocks_sublist b, ?_, ?_⟩
  · intro name hname
    obtain hclass | hcodec := List.mem_append.mp (hperm.mem_iff.mp hname)
    · exact classNames_not_mem_moduleNames h name hclass
    · obtain ⟨d, hd, hcodec⟩ := List.mem_flatMap.mp hcodec
      obtain ⟨-, e, he, rfl⟩ := mem_codecNames.mp hcodec
      exact instanceName_not_mem_moduleNames d (hid d hd e he)
  have hcodecs := nodup_codecNames hkeyed moduleNames
  have htaken : ∀ d ∈ (Scope.ofMetadata room m).declarations, ∀ e ∈ d.entries,
      (d.instanceName e.id ∈ classNames (Scope.ofMetadata room m).declarations b ↔
        ∃ label ∈ classLabels (Scope.ofMetadata room m).declarations b,
          sanitize label = d.instanceName e.id) := by
    intro d hd e he
    have hidentifier := isIdentifier_instanceName (isIdentifier_of_mem_declarations hd)
      (hid d hd e he)
    obtain ⟨c, hlast, hdigit⟩ := exists_last_instanceName d (hid d hd e he)
    refine mem_classNames_iff h hidentifier.plain ?_
      (instanceName_not_mem_moduleNames d (hid d hd e he))
    rw [hlast]
    rintro heq
    cases heq
    cases hdigit
  rw [hperm.nodup_iff, List.nodup_append']
  constructor
  · rintro ⟨-, -, hdisjoint⟩ d hd hgeneric e he label hlabel heq
    refine hdisjoint ((htaken d hd e he).mpr ⟨label, hlabel, heq⟩) ?_
    exact List.mem_flatMap.mpr ⟨d, hd, mem_codecNames.mpr ⟨hgeneric, e, he, rfl⟩⟩
  · intro hspared
    refine ⟨nodup_classNames h, hcodecs, fun name hclass hcodec => ?_⟩
    obtain ⟨d, hd, hcodec⟩ := List.mem_flatMap.mp hcodec
    obtain ⟨hgeneric, e, he, rfl⟩ := mem_codecNames.mp hcodec
    obtain ⟨label, hlabel, heq⟩ := (htaken d hd e he).mp hclass
    exact hspared d hd hgeneric e he label hlabel heq

end

/-- Two instantiations of a generic type, a type with alternatives, and a namespace. -/
def orderBook : Metadata :=
  { callableOnly [callable "Trade::buy" [0, 0, 0, 1] true true] with
    types := [⟨0, .primitive (.int ⟨false, .w32⟩), [], [], []⟩,
      ⟨1, .composite (.positional [⟨0, none, []⟩]), ["book", "Level"], [⟨"T", some 0⟩], []⟩,
      ⟨2, .variant [⟨"Buy", 0, .positional [⟨1, none, []⟩], []⟩, ⟨"Sell", 1, .positional [], []⟩],
        ["book", "Order"], [], []⟩,
      ⟨3, .composite (.positional [⟨2, none, []⟩]), ["book", "Level"], [⟨"T", some 2⟩], []⟩] }

theorem orderBook_contractNames : ∃ b, within? .unbounded orderBook = .ok b ∧
    (∀ e ∈ orderBook.types, 0 ≤ e.id) ∧ (Registry.mk orderBook.types).Keyed ∧
    (∀ name ∈ contractNames b, name ∉ moduleNames) ∧ (contractNames b).Nodup := by
  have hids : ∀ e ∈ orderBook.types, 0 ≤ e.id := by decide
  have hkeyed : (Registry.mk orderBook.types).Keyed := by decide
  obtain ⟨b, hb, hspared⟩ : ∃ b, within? .unbounded orderBook = .ok b ∧
      SparesCodecs (Scope.ofMetadata .unbounded orderBook).declarations b :=
    ⟨_, rfl, by unfold SparesCodecs; decide⟩
  obtain ⟨-, hmodule, hnodup⟩ := contractNames_nodup_iff hb hids hkeyed
  exact ⟨b, hb, hids, hkeyed, hmodule, hnodup.mpr hspared⟩

/-- A type that is declared as the codec of an instantiation is named. -/
def namedAsCodec : Metadata :=
  { callableOnly [] with
    types := [⟨0, .primitive (.int ⟨false, .w32⟩), [], [], []⟩,
      ⟨1, .composite (.positional [⟨0, none, []⟩]), ["m", "Foo"], [⟨"T", some 0⟩], []⟩,
      ⟨2, .composite (.positional []), ["n", "_Foo_1"], [], []⟩] }

theorem namedAsCodec_not_nodup : ¬ ∀ room m b, within? room m = .ok b →
    (∀ e ∈ m.types, 0 ≤ e.id) → (Registry.mk m.types).Keyed → (contractNames b).Nodup := by
  intro h
  have hids : ∀ e ∈ namedAsCodec.types, 0 ≤ e.id := by decide
  obtain ⟨b, hb⟩ : ∃ b, within? .unbounded namedAsCodec = .ok b := ⟨_, rfl⟩
  have hnodup := h .unbounded namedAsCodec b hb hids (by decide)
  have hdisjoint := (List.nodup_append'.mp ((contractNames_perm hb hids).nodup_iff.mp hnodup)).2.2
  have hclass : "_Foo_1" ∈ classNames (Scope.ofMetadata .unbounded namedAsCodec).declarations b :=
    List.mem_append_left _ (by decide)
  have hcodec : "_Foo_1" ∈
      (Scope.ofMetadata .unbounded namedAsCodec).declarations.flatMap (·.codecNames) := by decide
  exact hdisjoint hclass hcodec

end InkBindings.Bindings
