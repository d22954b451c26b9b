import InkBindings.Proofs.Bindings.Spelling

/-!
What is made of the entry points of a contract. Each of them has a function, which is made with
names that depend on what was made before; the methods of a namespace are in its interface too.
-/

namespace InkBindings.Bindings

open Metadata (EntryPoint inherentOf membersOf namespacesOf)

/-- Each message has a method with the property: of the instance, or of its namespace, whose
interface and implementation then have the method with one signature. -/
structure EachMethod (m : Metadata) (b : Bindings) (p : EntryPoint → Message → Prop) : Prop where
  inherent : List.Forall₂ p (inherentOf m.messages) b.messages
  namespaces : List.Forall₂ (fun label n => n.label = label ∧
      List.Forall₂ p (membersOf m.messages label) n.messages ∧
      n.signatures = n.messages.map (·.signature)) (namespacesOf m.messages) b.namespaces

/-- What the method of a message is made of. -/
structure MadeMessage (c : Context) (mutators : List Bytes) (e : EntryPoint) (chosen : String)
    (x : Message) : Prop where
  name : x.signature.name = chosen
  docs : x.signature.docs = e.docs
  parameters : makeParameters c e = .ok x.signature.parameters
  returns : returnAnnotation c.scope e = .ok x.signature.returns
  callType : x.signature.callType = callType mutators e
  selector : x.selector = e.selector
  codec : returnCodec c.scope e = .ok x.returnCodec

theorem madeMessage {c : Context} {mutators : List Bytes} {e : EntryPoint} {name : String}
    {x : Message} (h : makeMessage c mutators e name = .ok x) :
    MadeMessage c mutators e name x := by
  obtain ⟨parameters, hparameters, h⟩ := bind_ok h
  obtain ⟨codec, hcodec, h⟩ := bind_ok h
  obtain ⟨returns, hreturns, h⟩ := bind_ok h
  cases h
  exact ⟨rfl, rfl, hparameters, hreturns, rfl, rfl, hcodec⟩

structure MadeConstructor (c : Context) (e : EntryPoint) (chosen : String) (k : Constructor) :
    Prop where
  name : k.name = chosen
  docs : k.docs = e.docs
  parameters : makeParameters c e = .ok k.parameters
  selector : k.selector = e.selector
  payable : k.payable = e.payable

theorem madeConstructor {c : Context} {e : EntryPoint} {name : String} {k : Constructor}
    (h : makeConstructor c e name = .ok k) : MadeConstructor c e name k := by
  obtain ⟨parameters, hparameters, h⟩ := bind_ok h
  cases h
  exact ⟨rfl, rfl, hparameters, rfl, rfl⟩

/-- The method is made for the message, whatever names have been chosen before. -/
def MethodOf (s : Scope) (mutators : List Bytes) (e : EntryPoint) (x : Message) : Prop :=
  ∃ c name, c.scope = s ∧ makeMessage c mutators e name = .ok x

/-- The constructor is made for the entry point, whatever names have been chosen before. -/
def ConstructorOf (s : Scope) (e : EntryPoint) (k : Constructor) : Prop :=
  ∃ c name, c.scope = s ∧ makeConstructor c e name = .ok k

/-- What is in use at first is in use later. -/
structure Context.Extends (c c' : Context) : Prop where
  scope : c'.scope = c.scope
  names : c.names ⊆ c'.names

theorem Context.Extends.refl (c : Context) : c.Extends c :=
  ⟨rfl, List.Subset.refl _⟩

theorem Context.Extends.trans {c c' c'' : Context} (h : c.Extends c') (h' : c'.Extends c'') :
    c.Extends c'' :=
  ⟨h'.scope.trans h.scope, List.Subset.trans h.names h'.names⟩

theorem Context.extends_choose (c : Context) (wanted : String) :
    c.Extends (c.choose wanted).2 := by
  rw [Context.choose]
  exact ⟨rfl, List.subset_cons_self _ _⟩

/-- The method is made for the message behind the context. -/
def MethodBehind (c : Context) (mutators : List Bytes) (e : EntryPoint) (x : Message) : Prop :=
  ∃ c' name, c.Extends c' ∧ makeMessage c' mutators e name = .ok x

def ConstructorBehind (c : Context) (e : EntryPoint) (k : Constructor) : Prop :=
  ∃ c' name, c.Extends c' ∧ makeConstructor c' e name = .ok k

theorem MethodBehind.methodOf {c : Context} {mutators : List Bytes} {e : EntryPoint} {x : Message}
    (h : MethodBehind c mutators e x) : MethodOf c.scope mutators e x := by
  obtain ⟨c', name, hc, h⟩ := h
  exact ⟨c', name, hc.scope, h⟩

theorem ConstructorBehind.constructorOf {c : Context} {e : EntryPoint} {k : Constructor}
    (h : ConstructorBehind c e k) : ConstructorOf c.scope e k := by
  obtain ⟨c', name, hc, h⟩ := h
  exact ⟨c', name, hc.scope, h⟩

theorem MethodBehind.before {c c₁ : Context} (hc : c.Extends c₁) {mutators : List Bytes}
    {e : EntryPoint} {x : Message} (h : MethodBehind c₁ mutators e x) :
    MethodBehind c mutators e x := by
  obtain ⟨c', name, hc', h⟩ := h
  exact ⟨c', name, hc.trans hc', h⟩

theorem makeSignature_of_makeMessage {c : Context} {mutators : List Bytes} {e : EntryPoint}
    {name : String} {x : Message} (h : makeMessage c mutators e name = .ok x) :
    makeSignature c mutators e name = .ok x.signature := by
  have hx := madeMessage h
  rw [makeSignature, hx.parameters, hx.returns, ← hx.name, ← hx.docs, ← hx.callType]
  rfl

theorem callType_of_makeMessage {c : Context} {mutators : List Bytes} {e : EntryPoint}
    {name : String} {x : Message} (h : makeMessage c mutators e name = .ok x) :
    x.signature.callType = callType mutators e :=
  (madeMessage h).callType

theorem methods_of_zip {c : Context} {mutators : List Bytes} {es : List EntryPoint}
    {names : List String} (hlength : es.length ≤ names.length) {xs : List Message}
    (h : ((es.zip names).mapM fun (e, name) => makeMessage c mutators e name) = .ok xs) :
    List.Forall₂ (MethodBehind c mutators) es xs := by
  rw [← List.map_fst_zip hlength, List.forall₂_map_left_iff]
  exact (forall₂_of_mapM h).imp fun method x hx => ⟨c, method.2, .refl c, hx⟩

theorem makeNamespace_ok {c c' : Context} {mutators : List Bytes} {properties : List String}
    {label : String} {es : List EntryPoint} {n : Namespace}
    (h : makeNamespace c mutators properties label es = .ok (n, c')) :
    c.Extends c' ∧ n.label = label ∧
      List.Forall₂ (MethodBehind c mutators) es n.messages ∧
      n.signatures = n.messages.map (·.signature) := by
  obtain ⟨signatures, hsignatures, h⟩ := bind_ok h
  obtain ⟨messages, hmessages, h⟩ := bind_ok h
  cases h
  have hextends : c.Extends ((c.choose label).2.choose s!"_Instance{(c.choose label).1}").2 :=
    (c.extends_choose label).trans (Context.extends_choose _ _)
  have hlength : es.length ≤
      (Naming.uniqueNames (es.map (·.methodName)) instanceNames).length :=
    Nat.le_of_eq (Naming.length_uniqueNames_map _ _ _).symm
  have hmethods := (methods_of_zip hlength hmessages).imp fun _ _ hx => hx.before hextends
  refine ⟨hextends, rfl, hmethods, ?_⟩
  have hsame := mapM_of_forall₂ <|
    (List.forall₂_map_right_iff (f := Message.signature)).mpr <|
      (forall₂_of_mapM hmessages).imp fun _ _ hx => makeSignature_of_makeMessage hx
  exact Except.ok.inj (hsignatures.symm.trans hsame)

/-- The first namespace is made, and then the others with what it leaves. -/
theorem makeNamespaces_cons {c c' : Context} {mutators : List Bytes} {properties : List String}
    {g : String × List EntryPoint} {rest : List (String × List EntryPoint)} {ns : List Namespace}
    (h : makeNamespaces mutators c properties (g :: rest) = .ok (ns, c')) :
    ∃ n c₁ more, ns = n :: more ∧ makeNamespace c mutators properties g.1 g.2 = .ok (n, c₁) ∧
      makeNamespaces mutators c₁ (n.property :: properties) rest = .ok (more, c') := by
  rw [makeNamespaces] at h
  obtain ⟨⟨n, c₁⟩, hn, h⟩ := bind_ok h
  obtain ⟨⟨more, c₂⟩, hmore, h⟩ := bind_ok h
  cases h
  exact ⟨n, c₁, more, rfl, hn, hmore⟩

theorem makeNamespaces_ok {c c' : Context} {mutators : List Bytes} {properties : List String}
    {groups : List (String × List EntryPoint)} {ns : List Namespace}
    (h : makeNamespaces mutators c properties groups = .ok (ns, c')) :
    c.Extends c' ∧ List.Forall₂ (fun (g : String × List EntryPoint) n => n.label = g.1 ∧
      List.Forall₂ (MethodBehind c mutators) g.2 n.messages ∧
      n.signatures = n.messages.map (·.signature)) groups ns := by
  induction groups generalizing c properties ns with
  | nil =>
      cases h
      exact ⟨.refl _, .nil⟩
  | cons g rest ih =>
      obtain ⟨n, c₁, more, rfl, hn, hmore⟩ := makeNamespaces_cons h
      obtain ⟨hfirst, hmethods⟩ := makeNamespace_ok hn
      obtain ⟨hextends, hrest⟩ := ih hmore
      refine ⟨hfirst.trans hextends, .cons hmethods (hrest.imp fun _ _ hn => ⟨hn.1, ?_, hn.2.2⟩)⟩
      exact hn.2.1.imp fun _ _ hx => hx.before hfirst

/-- The names of the module and of all declarations are in use before any method is made. -/
theorem Assembled.extends {room : Room} {m : Metadata} {b : Bindings} {c c' : Context}
    (hb : Assembled room m b c c') : (Context.ofMetadata room m).Extends c ∧ c.Extends c' := by
  have hnew := newClasses_of_makeAllDeclared hb.declared
  refine ⟨⟨(makeAllDeclared_ok hb.declared).1, fun name hname => ?_⟩,
    (makeNamespaces_ok hb.namespaces).1⟩
  exact (hnew.names name).mpr (.inl hname)

namespace EachMethod

variable {m : Metadata} {b : Bindings} {p q : EntryPoint → Message → Prop}

theorem imp (h : EachMethod m b p) (himp : ∀ e ∈ m.messages, ∀ x, p e x → q e x) :
    EachMethod m b q := by
  have hall : ∀ {es xs}, (∀ e ∈ es, e ∈ m.messages) → List.Forall₂ p es xs →
      List.Forall₂ q es xs := fun hes hxs =>
    ((List.forall₂_and_left _ _).mpr ⟨hes, hxs⟩).imp fun e x hx => himp e hx.1 x hx.2
  refine ⟨hall (fun e he => List.mem_of_mem_filter he) h.inherent, h.namespaces.imp ?_⟩
  intro label n hn
  exact ⟨hn.1, hall (fun e he => List.mem_of_mem_filter he) hn.2.1, hn.2.2⟩

/-- Each message has one method at least. -/
theorem exists_of_mem (h : EachMethod m b p) {e : EntryPoint} (he : e ∈ m.messages) :
    ∃ x, p e x := by
  have hleft : ∀ {es xs}, List.Forall₂ p es xs → e ∈ es → ∃ x, p e x := fun hxs hmem => by
    obtain ⟨x, -, hx⟩ := forall₂_right hxs.flip hmem
    exact ⟨x, hx⟩
  obtain hinherent | ⟨label, hlabel, hmember⟩ := Metadata.mem_groups he
  · exact hleft h.inherent hinherent
  · obtain ⟨n, -, hn⟩ := forall₂_right h.namespaces.flip hlabel
    exact hleft hn.2.1 hmember

theorem and (h : EachMethod m b p) (h' : EachMethod m b q) :
    EachMethod m b fun e x => p e x ∧ q e x :=
  ⟨forall₂_and h.inherent h'.inherent, (forall₂_and h.namespaces h'.namespaces).imp
    fun _ _ hn => ⟨hn.1.1, forall₂_and hn.1.2.1 hn.2.2.1, hn.1.2.2⟩⟩

end EachMethod

/-- Whatever the messages of the contract are, each has its methods. -/
theorem methodsBehind_of_within {room : Room} {m : Metadata} {b : Bindings}
    (h : within? room m = .ok b) :
    EachMethod m b (MethodBehind (.ofMetadata room m) (mutatorSelectors m)) := by
  obtain ⟨c, c', hb⟩ := assembled_of_within h
  obtain ⟨hdeclared, hnamespaces⟩ := hb.extends
  have hgrouped := (makeNamespaces_ok hb.namespaces).2
  have hlength : (inherentOf m.messages).length ≤
      ((methodNames m.constructors (inherentOf m.messages) (b.namespaces.map (·.property))).drop
        m.constructors.length).length := by
    refine Nat.le_of_eq ?_
    rw [List.length_drop, methodNames, Naming.length_uniqueNames, List.length_append,
      List.length_map, List.length_map, Nat.add_sub_cancel_left]
  have hinherent := methods_of_zip hlength hb.messages
  refine ⟨hinherent.imp fun _ _ hx => hx.before (hdeclared.trans hnamespaces), ?_⟩
  refine (List.forall₂_map_left_iff.mp hgrouped).imp fun _ _ hn => ⟨hn.1, ?_, hn.2.2⟩
  exact hn.2.1.imp fun _ _ hx => hx.before hdeclared

theorem constructorsBehind_of_within {room : Room} {m : Metadata} {b : Bindings}
    (h : within? room m = .ok b) :
    List.Forall₂ (ConstructorBehind (.ofMetadata room m)) m.constructors b.constructors := by
  obtain ⟨c, c', hb⟩ := assembled_of_within h
  obtain ⟨hdeclared, hnamespaces⟩ := hb.extends
  have hlength : m.constructors.length ≤ (methodNames m.constructors (inherentOf m.messages)
      (b.namespaces.map (·.property))).length := by
    rw [methodNames, Naming.length_uniqueNames, List.length_append, List.length_map]
    exact Nat.le_add_right _ _
  rw [← List.map_fst_zip hlength, List.forall₂_map_left_iff]
  exact (forall₂_of_mapM hb.constructors).imp fun x k hk =>
    ⟨c', x.2, hdeclared.trans hnamespaces, hk⟩

theorem eachMethod_of_within {room : Room} {m : Metadata} {b : Bindings}
    (h : within? room m = .ok b) :
    EachMethod m b (MethodOf (Scope.ofMetadata room m) (mutatorSelectors m)) :=
  (methodsBehind_of_within h).imp fun _ _ _ hx => hx.methodOf

theorem constructorsOf_within {room : Room} {m : Metadata} {b : Bindings}
    (h : within? room m = .ok b) :
    List.Forall₂ (ConstructorOf (Scope.ofMetadata room m)) m.constructors b.constructors :=
  (constructorsBehind_of_within h).imp fun _ _ hk => hk.constructorOf

end InkBindings.Bindings
