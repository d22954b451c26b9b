import InkBindings.Proofs.Bindings.EntryPoints
import InkBindings.Proofs.Bindings.RelabelledText
import InkBindings.Proofs.Bindings.Outlines

/-!
The bindings of contracts that differ in names which stand for each other. Each part is made in one
way for the two, step by step in the order in which names of the module are chosen.
-/

namespace InkBindings.Bindings

open Metadata (Declaration EntryPoint Renaming RenamedMember RenamedMembers RenamedUnder TypeEntry)

variable {r : Renaming}

/-! ### Scopes and names -/

/-- The contexts give ids and names the same meaning. -/
structure Context.Same (c c' : Context) : Prop where
  scope : c.scope.Same c'.scope
  names : c'.names = c.names

theorem Scope.Same.makeRows_eq {s s' : Scope} (h : s.Same s') (first : Metadata.Fields)
    (others : List Metadata.Fields) : makeRows s' first others = makeRows s first others := by
  simp only [makeRows, makeRow, h.annotation, h.codec]

/-! ### Entries -/

theorem recordFields_eq {e e' : TypeEntry} (h : e.Renamed r e') :
    recordFields e' = recordFields e := by
  have hdefinition := h.definition
  rw [recordFields, recordFields]
  generalize e.definition = d, e'.definition = d' at hdefinition
  cases hdefinition with
  | variant => rfl
  | other => rfl

theorem renamed_sumAlternatives {path : List String} {e e' : TypeEntry}
    (h : RenamedUnder r path e e') {as as' : List Metadata.Alternative}
    (has : e.definition = .variant as) (has' : e'.definition = .variant as') :
    List.Forall₂ (Metadata.Alternative.Renamed r path) as as' := by
  have hdefinition := h.renamed.definition
  rw [has, has', h.path] at hdefinition
  cases hdefinition with
  | variant hsame => exact hsame
  | other hother => exact absurd rfl (hother as)

theorem fieldsOfAlternative_eq {path : List String} {as as' : List Metadata.Alternative}
    (h : List.Forall₂ (Metadata.Alternative.Renamed r path) as as') {name name' : String}
    (hname : r.Alternative path name name') :
    fieldsOfAlternative name' as' = fieldsOfAlternative name as := by
  have hfind := rel_find (p := fun a => decide (a.name = name))
    (q := fun a => decide (a.name = name'))
    (fun a a' ha => decide_eq_decide.mpr (Relator.rel_eq (r.oneAlternative path) ha.name hname)) h
  simp only [fieldsOfAlternative]
  generalize List.find? (fun a => decide (a.name = name)) as = found,
    List.find? (fun a => decide (a.name = name')) as' = found' at hfind
  cases hfind with
  | some ha =>
      rw [ha.same]
  | none => rfl

/-! ### Alternatives -/

/-- Alternatives that are emitted for one path. -/
structure EmittedAs (r : Renaming) (path : List String) (a a' : Alternative) : Prop where
  label : r.Alternative path a.label a'.label
  same : a.Relabelled a'

theorem classOf_same {path : List String} {as as' : List Alternative}
    (h : List.Forall₂ (EmittedAs r path) as as') {label label' : String}
    (hlabel : r.Alternative path label label') {name name' : String}
    (hname : classOf as label = .ok name) (hname' : classOf as' label' = .ok name') :
    name' = name := by
  have hfind := rel_find (p := fun a => decide (a.label = label))
    (q := fun a => decide (a.label = label'))
    (fun a a' ha => decide_eq_decide.mpr (Relator.rel_eq (r.oneAlternative path) ha.label hlabel))
    (List.forall₂_reverse_iff.mpr h)
  obtain ⟨a, ha, rfl⟩ := classOf_eq.mp hname
  obtain ⟨a', ha', rfl⟩ := classOf_eq.mp hname'
  rw [ha, ha'] at hfind
  cases hfind with
  | some hsame => rw [hsame.same]

theorem makeSumLayout_same {s s' : Scope} (hs : s.Same s') {path : List String}
    {emitted emitted' : List Alternative}
    (hemitted : List.Forall₂ (EmittedAs r path) emitted emitted')
    {as as' : List Metadata.Alternative}
    (h : List.Forall₂ (Metadata.Alternative.Renamed r path) as as') {layout layout' : Layout}
    (hlayout : makeSumLayout s emitted as = .ok layout)
    (hlayout' : makeSumLayout s' emitted' as' = .ok layout') : layout' = layout := by
  obtain ⟨rows, hrows, hlayout⟩ := bind_ok hlayout
  obtain ⟨rows', hrows', hlayout'⟩ := bind_ok hlayout'
  cases hlayout
  cases hlayout'
  have hsame := forall₂_made (t := fun x x' => x = x') (fun a a' x x' ha hx hx' => ?_) h
    (forall₂_of_mapM hrows) (forall₂_of_mapM hrows')
  · rw [List.forall₂_eq_eq_eq] at hsame
    rw [hsame]
  · obtain ⟨name, hname, hx⟩ := bind_ok hx
    obtain ⟨name', hname', hx'⟩ := bind_ok hx'
    obtain ⟨made, hmade, hx⟩ := bind_ok hx
    obtain ⟨made', hmade', hx'⟩ := bind_ok hx'
    cases hx
    cases hx'
    have hfields : a'.fields = a.fields := by rw [ha.same]
    rw [hs.makeRows_eq, hfields, hmade] at hmade'
    cases hmade'
    rw [classOf_same hemitted ha.name hname hname']

section
variable {d d' : Declaration} (hd : d.Renamed r d') {first first' : List Metadata.Alternative}
  (hfirst : List.Forall₂ (Metadata.Alternative.Renamed r d.path) first first')
include hd hfirst

/-- An alternative has the components of its name in all instantiations of its type. -/
theorem makeAlternative_same {c c' : Context} (hc : c.Same c') {a a' : Metadata.Alternative}
    (ha : a.Renamed r d.path a') {b b' : Alternative} {k k' : Context}
    (h : makeAlternative c d first a = .ok (b, k))
    (h' : makeAlternative c' d' first' a' = .ok (b', k')) :
    k.Same k' ∧ EmittedAs r d.path b b' := by
  simp only [makeAlternative, Context.choose] at h h'
  obtain ⟨others, hothers, h⟩ := bind_ok h
  obtain ⟨others', hothers', h'⟩ := bind_ok h'
  obtain ⟨rows, hrows, h⟩ := bind_ok h
  obtain ⟨rows', hrows', h'⟩ := bind_ok h'
  have hsums : List.Forall₂ (List.Forall₂ (Metadata.Alternative.Renamed r d.path)) others
      others' := by
    refine forall₂_made (fun e e' as as' he has has' => ?_) hd.others (forall₂_of_mapM hothers)
      (forall₂_of_mapM hothers')
    exact renamed_sumAlternatives he (sumAlternatives_ok has) (sumAlternatives_ok has')
  have hmore : others'.map (fieldsOfAlternative a'.name) =
      others.map (fieldsOfAlternative a.name) :=
    map_eq_map_iff_forall₂.mpr
      (hsums.flip.imp fun as' as has => fieldsOfAlternative_eq has ha.name)
  rw [hc.scope.makeRows_eq, fieldsOfAlternative_eq hfirst ha.name, hmore, hrows] at hrows'
  cases hrows'
  have hclass := Naming.identifier_behind (r.sameAlternative ha.name) d.name c.names
  rw [hd.name, hc.names, hclass] at h'
  cases h
  cases h'
  refine ⟨⟨hc.scope, rfl⟩, ha.name, ?_⟩
  simp only [Alternative.Relabelled]
  rw [ha.same]

theorem makeAlternatives_same {c c' : Context} (hc : c.Same c')
    {as as' : List Metadata.Alternative}
    (h : List.Forall₂ (Metadata.Alternative.Renamed r d.path) as as')
    {emitted emitted' : List Alternative} {k k' : Context}
    (hmade : makeAlternatives d first c as = .ok (emitted, k))
    (hmade' : makeAlternatives d' first' c' as' = .ok (emitted', k')) :
    k.Same k' ∧ List.Forall₂ (EmittedAs r d.path) emitted emitted' := by
  induction h generalizing c c' emitted emitted' with
  | nil =>
      cases hmade
      cases hmade'
      exact ⟨hc, .nil⟩
  | cons ha _ ih =>
      rw [makeAlternatives] at hmade hmade'
      obtain ⟨⟨b, c₁⟩, hb, hmade⟩ := bind_ok hmade
      obtain ⟨⟨b', c₁'⟩, hb', hmade'⟩ := bind_ok hmade'
      obtain ⟨⟨more, c₂⟩, hmore, hmade⟩ := bind_ok hmade
      obtain ⟨⟨more', c₂'⟩, hmore', hmade'⟩ := bind_ok hmade'
      cases hmade
      cases hmade'
      obtain ⟨hcontext, hsame⟩ := makeAlternative_same hd hfirst hc ha hb hb'
      obtain ⟨hlast, hrest⟩ := ih hcontext hmore hmore'
      exact ⟨hlast, .cons hsame hrest⟩

end

/-! ### Declared types -/

theorem makeRecord_eq {s s' : Scope} (hs : s.Same s') {d d' : Declaration} (hd : d.Renamed r d')
    (first : Metadata.Fields) : makeRecord s' d' first = makeRecord s d first := by
  have hothers : d'.others.mapM recordFields = d.others.mapM recordFields :=
    mapM_congr hd.others fun e e' he => recordFields_eq he.renamed
  have hlayouts : makeLayouts d' (fun e => do
        return .record (layoutOf (← makeRows s (← recordFields e) []))) =
      makeLayouts d fun e => do return .record (layoutOf (← makeRows s (← recordFields e) [])) := by
    refine mapM_congr hd.entries fun e e' he => ?_
    simp only [hd.instanceName, hd.name, he.renamed.id, recordFields_eq he.renamed]
  simp only [makeRecord, hothers, hlayouts, hs.makeRows_eq, hd.isGeneric, hd.name,
    hd.first.renamed.docs]

theorem makeDeclared_same {c c' : Context} (hc : c.Same c') {d d' : Declaration}
    (hd : d.Renamed r d') {t t' : DeclaredType} {k k' : Context}
    (h : makeDeclared c d = .ok (t, k)) (h' : makeDeclared c' d' = .ok (t', k')) :
    k.Same k' ∧ t.Relabelled t' := by
  have hdefinition := hd.first.renamed.definition
  have hmade := madeBy_of_makeDeclared h
  have hmade' := madeBy_of_makeDeclared h'
  cases hmade with
  | @record first others rows layouts hfirst =>
      rw [hfirst] at hdefinition
      generalize hfirst' : d'.first.definition = definition at hdefinition
      cases hdefinition with
      | other =>
          simp only [makeDeclared, hfirst, hfirst', makeRecord_eq hc.scope hd] at h h'
          obtain ⟨made, hmade, h⟩ := bind_ok h
          rw [bind_of_ok hmade] at h'
          cases h
          cases h'
          exact ⟨hc, rfl, rfl, .record rows, rfl⟩
  | @sum first emitted layouts _ hfirst hemitted hlayouts =>
      cases hmade' with
      | record hfirst' =>
          rw [hfirst, hfirst'] at hdefinition
          cases hdefinition
      | @sum first' emitted' layouts' _ hfirst' hemitted' hlayouts' =>
          have halternatives := renamed_sumAlternatives hd.first hfirst hfirst'
          obtain ⟨hcontext, hsame⟩ :=
            makeAlternatives_same hd halternatives hc halternatives hemitted hemitted'
          have hshape := Shape.Relabelled.sum (hsame.imp fun _ _ ha => ha.same)
          refine ⟨hcontext, hd.name, hd.first.renamed.docs, hshape, ?_⟩
          have heq := forall₂_made (t := fun l l' => l = l') (fun e e' l l' he hl hl' => ?_)
            hd.entries hlayouts hlayouts'
          · rw [List.forall₂_eq_eq_eq] at heq
            exact heq.symm
          · obtain ⟨as, has, hlayout⟩ := hl.2
            obtain ⟨as', has', hlayout'⟩ := hl'.2
            refine Prod.ext ?_ (makeSumLayout_same hc.scope hsame
              (renamed_sumAlternatives he has has') hlayout hlayout').symm
            rw [hl.1, hl'.1, entryReference, entryReference, hd.isGeneric, hd.instanceName, hd.name,
              he.renamed.id]

theorem makeAllDeclared_same {c c' : Context} (hc : c.Same c') {ds ds' : List Declaration}
    (hds : List.Forall₂ (Declaration.Renamed r) ds ds') {ts ts' : List DeclaredType}
    {k k' : Context} (h : makeAllDeclared c ds = .ok (ts, k))
    (h' : makeAllDeclared c' ds' = .ok (ts', k')) :
    k.Same k' ∧ List.Forall₂ DeclaredType.Relabelled ts ts' := by
  induction hds generalizing c c' ts ts' with
  | nil =>
      cases h
      cases h'
      exact ⟨hc, .nil⟩
  | cons hd _ ih =>
      obtain ⟨t, c₁, more, rfl, ht, hmore⟩ := makeAllDeclared_cons h
      obtain ⟨t', c₁', more', rfl, ht', hmore'⟩ := makeAllDeclared_cons h'
      obtain ⟨hcontext, hsame⟩ := makeDeclared_same hc hd ht ht'
      obtain ⟨hlast, hrest⟩ := ih hcontext hmore hmore'
      exact ⟨hlast, .cons hsame hrest⟩

/-! ### Events -/

theorem makeEvents_same {s s' : Scope} (hs : s.Same s') {events events' : List Metadata.Event}
    (h : List.Forall₂ Metadata.Event.Renamed events events') {made made' : List Alternative}
    (hmade : makeEvents s events = .ok made) (hmade' : makeEvents s' events' = .ok made') :
    List.Forall₂ Alternative.Relabelled made made' := by
  have hnames : Naming.uniqueNames (events'.map (·.label)) [eventClass] =
      Naming.uniqueNames (events.map (·.label)) [eventClass] := by
    refine Naming.uniqueNames_congr ?_ _
    rw [List.forall₂_map_left_iff, List.forall₂_map_right_iff]
    exact h.imp fun e e' he => he.label
  rw [makeEvents] at hmade hmade'
  rw [hnames] at hmade'
  refine forall₂_made (fun x x' a a' hx ha ha' => ?_)
    (forall₂_zipIdx (forall₂_zip (r := Eq) (List.forall₂_refl _) h) 0)
    (forall₂_of_mapM hmade) (forall₂_of_mapM hmade')
  obtain ⟨⟨hname, hevent⟩, hplace⟩ := hx
  obtain ⟨rows, hrows, ha⟩ := bind_ok ha
  obtain ⟨rows', hrows', ha'⟩ := bind_ok ha'
  have hfields : x'.1.2.fields = x.1.2.fields := by rw [hevent.same]
  have hdocs : x'.1.2.docs = x.1.2.docs := by rw [hevent.same]
  simp only [hfields, makeEventRow, hs.annotation, hs.codec] at hrows hrows'
  rw [hrows] at hrows'
  cases hrows'
  cases ha
  cases ha'
  simp only [Alternative.Relabelled, hplace, hname, hdocs]

/-! ### Methods -/

section
variable {c c' : Context} (hc : c.Same c')
include hc

theorem makeParameters_eq (e : EntryPoint) : makeParameters c' e = makeParameters c e := by
  simp only [makeParameters, makeParameter, hc.names, hc.scope.annotation, hc.scope.codec]

theorem makeConstructor_eq (e : EntryPoint) (name : String) :
    makeConstructor c' e name = makeConstructor c e name := by
  simp only [makeConstructor, makeParameters_eq hc]

theorem makeSignature_eq (mutators : List Bytes) (e : EntryPoint) (label name : String) :
    makeSignature c' mutators { e with label } name = makeSignature c mutators e name := by
  have hparameters : makeParameters c' { e with label } = makeParameters c e :=
    makeParameters_eq hc e
  simp only [makeSignature, hparameters, returnAnnotation, callType, hc.scope.annotation]

theorem makeMessage_eq (mutators : List Bytes) (e : EntryPoint) (label name : String) :
    makeMessage c' mutators { e with label } name = makeMessage c mutators e name := by
  have hparameters : makeParameters c' { e with label } = makeParameters c e :=
    makeParameters_eq hc e
  simp only [makeMessage, hparameters, returnAnnotation, returnCodec, callType,
    hc.scope.annotation, hc.scope.codec]

theorem makeMethods_eq {es es' : List EntryPoint} (h : List.Forall₂ RenamedMember es es')
    (mutators : List Bytes) (names : List String) :
    ((es'.zip names).mapM fun x => makeSignature c' mutators x.1 x.2) =
        ((es.zip names).mapM fun x => makeSignature c mutators x.1 x.2) ∧
      ((es'.zip names).mapM fun x => makeMessage c' mutators x.1 x.2) =
        (es.zip names).mapM fun x => makeMessage c mutators x.1 x.2 := by
  have hmethods := forall₂_zip (s := Eq) h (List.forall₂_refl names)
  constructor
  · exact mapM_congr hmethods fun x y hxy => by rw [hxy.1.same, ← hxy.2, makeSignature_eq hc]
  · exact mapM_congr hmethods fun x y hxy => by rw [hxy.1.same, ← hxy.2, makeMessage_eq hc]

theorem makeNamespace_same {mutators : List Bytes} {properties : List String}
    {g g' : String × List EntryPoint} (hg : RenamedMembers r g g') {n n' : Namespace}
    {k k' : Context} (h : makeNamespace c mutators properties g.1 g.2 = .ok (n, k))
    (h' : makeNamespace c' mutators properties g'.1 g'.2 = .ok (n', k')) :
    k.Same k' ∧ n.Relabelled n' := by
  have hnames : g'.2.map (·.methodName) = g.2.map (·.methodName) :=
    map_eq_map_iff_forall₂.mpr (hg.members.flip.imp fun e' e he => he.method)
  have hlabel := Naming.identifier_congr (r.sameNamespace hg.label)
  have hchosen (names : List String) : Context.Same { c with names } { c' with names } :=
    ⟨hc.scope, rfl⟩
  simp only [makeNamespace, Context.choose, hnames, hlabel, hc.names] at h h'
  obtain ⟨signatures, hsignatures, h⟩ := bind_ok h
  obtain ⟨signatures', hsignatures', h'⟩ := bind_ok h'
  obtain ⟨messages, hmessages, h⟩ := bind_ok h
  obtain ⟨messages', hmessages', h'⟩ := bind_ok h'
  have hmethods (names : List String) := makeMethods_eq (hchosen names) hg.members mutators
    (Naming.uniqueNames (g.2.map (·.methodName)) instanceNames)
  rw [(hmethods _).1, hsignatures] at hsignatures'
  rw [(hmethods _).2, hmessages] at hmessages'
  cases hsignatures'
  cases hmessages'
  cases h
  cases h'
  refine ⟨hchosen _, ?_⟩
  simp only [Namespace.Relabelled]

theorem makeNamespaces_same {mutators : List Bytes}
    {groups groups' : List (String × List EntryPoint)}
    (h : List.Forall₂ (RenamedMembers r) groups groups') {properties : List String}
    {ns ns' : List Namespace} {k k' : Context}
    (hmade : makeNamespaces mutators c properties groups = .ok (ns, k))
    (hmade' : makeNamespaces mutators c' properties groups' = .ok (ns', k')) :
    k.Same k' ∧ List.Forall₂ Namespace.Relabelled ns ns' := by
  induction h generalizing c c' properties ns ns' with
  | nil =>
      cases hmade
      cases hmade'
      exact ⟨hc, .nil⟩
  | cons hg _ ih =>
      obtain ⟨n, c₁, more, rfl, hn, hmore⟩ := makeNamespaces_cons hmade
      obtain ⟨n', c₁', more', rfl, hn', hmore'⟩ := makeNamespaces_cons hmade'
      obtain ⟨hcontext, hsame⟩ := makeNamespace_same hc hg hn hn'
      have hproperty : n'.property = n.property := by rw [hsame]
      rw [hproperty] at hmore'
      obtain ⟨hlast, hrest⟩ := ih hcontext hmore hmore'
      exact ⟨hlast, .cons hsame hrest⟩

end

/-! ### The module -/

/-- What the bindings take over from the metadata. -/
theorem taken_of_within {room : Room} {m : Metadata} {b : Bindings} (h : within? room m = .ok b) :
    b.contractName = m.name ∧ b.codeHash = m.codeHash := by
  obtain ⟨groups, -, h⟩ := bind_ok h
  obtain ⟨⟨declared, c⟩, -, h⟩ := bind_ok h
  obtain ⟨events, -, h⟩ := bind_ok h
  obtain ⟨⟨namespaces, c'⟩, -, h⟩ := bind_ok h
  obtain ⟨constructors, -, h⟩ := bind_ok h
  obtain ⟨messages, -, h⟩ := bind_ok h
  cases h
  exact ⟨rfl, rfl⟩

/-- Bindings that are made after a renaming are the same but for the name of the contract and
labels. -/
theorem relabelled_of_within {room : Room} {m m' : Metadata} (h : m.Renamed r m') {b b' : Bindings}
    (hb : within? room m = .ok b) (hb' : within? room m' = .ok b') : b.Relabelled b' := by
  have hscope := (alike_ofMetadata h room).same
  have hdeclarations := Metadata.renamed_declarations h.types moduleNames
  obtain ⟨c₁, c₂, hmade⟩ := assembled_of_within hb
  obtain ⟨c₁', c₂', hmade'⟩ := assembled_of_within hb'
  have hcontext : (Context.ofMetadata room m).Same (Context.ofMetadata room m') := by
    refine ⟨hscope, congrArg (moduleNames ++ ·) ?_⟩
    exact map_eq_map_iff_forall₂.mpr (hdeclarations.flip.imp fun d' d hd => hd.name)
  obtain ⟨hdeclared, htypes⟩ := makeAllDeclared_same hcontext hdeclarations hmade.declared
    hmade'.declared
  have hgroups := Metadata.renamed_groupMessages h.messages hmade.grouped hmade'.grouped
  have hinherent : Metadata.inherentOf m'.messages = Metadata.inherentOf m.messages :=
    hgroups.inherent
  have hmutators : mutatorSelectors m' = mutatorSelectors m := Metadata.renamed_mutators h.messages
  have hnamespace' := hmade'.namespaces
  rw [hmutators] at hnamespace'
  obtain ⟨hmodule, hnamespaces⟩ := makeNamespaces_same hdeclared hgroups.grouped hmade.namespaces
    hnamespace'
  have hproperties : b'.namespaces.map (·.property) = b.namespaces.map (·.property) :=
    map_eq_map_iff_forall₂.mpr (hnamespaces.flip.imp fun n' n hn => by rw [hn])
  have hconstructors := hmade'.constructors
  have hmessages := hmade'.messages
  have hsame (e : EntryPoint) (name : String) : makeMessage c₂' (mutatorSelectors m) e name =
      makeMessage c₂ (mutatorSelectors m) e name := makeMessage_eq hmodule _ e e.label name
  simp only [hinherent, hproperties, h.constructors, makeConstructor_eq hmodule,
    hmade.constructors] at hconstructors
  simp only [hinherent, hproperties, h.constructors, hmutators, hsame, hmade.messages] at hmessages
  refine ⟨?_, htypes, ?_, hnamespaces, (Except.ok.inj hconstructors).symm,
    (Except.ok.inj hmessages).symm⟩
  · rw [(taken_of_within hb).2, (taken_of_within hb').2, h.codeHash]
  · exact makeEvents_same hscope h.events hmade.events hmade'.events

end InkBindings.Bindings
