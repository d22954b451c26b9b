import InkBindings.Proofs.Bindings.MadeMethods
import InkBindings.Proofs.Bindings.Spelling

/-!
The names of what is made for the entry points of a contract. The classes of the namespaces are
named against all names of the module, and the functions of each class against each other, in the
order of their entry points.
-/

namespace InkBindings

open Bindings (instanceNames)
open Metadata (inherentOf membersOf namespacesOf)

namespace Metadata

/-! ### Names of functions -/

def propertyNames (m : Metadata) : List String :=
  Naming.uniqueNames (namespacesOf m.messages) instanceNames

/-- The functions of an instance are named after its properties. -/
def constructorNames (m : Metadata) : List String :=
  Naming.uniqueNames (m.constructors.map (·.label)) (instanceNames ++ m.propertyNames)

def inherentNames (m : Metadata) : List String :=
  Naming.uniqueNames ((inherentOf m.messages).map (·.label))
    (m.constructorNames.reverse ++ (instanceNames ++ m.propertyNames))

def memberNames (m : Metadata) (label : String) : List String :=
  Naming.uniqueNames ((membersOf m.messages label).map (·.methodName)) instanceNames

/-- The names that the classes are written with are left to them: an implementation makes instances
by `__init__`, and the functions of the classes have decorators. -/
structure SparesNames (m : Metadata) : Prop where
  initializer : ∀ label ∈ namespacesOf m.messages, "__init__" ∉ m.memberNames label
  abstracts : ∀ label ∈ namespacesOf m.messages, "abc" ∉ (m.memberNames label).dropLast
  properties : "property" ∉ m.propertyNames.dropLast
  statics : m.constructors ≠ [] →
    "staticmethod" ∉ m.propertyNames ++ m.constructorNames.dropLast

theorem length_constructorNames (m : Metadata) :
    m.constructorNames.length = m.constructors.length :=
  Naming.length_uniqueNames_map _ _ _

theorem length_inherentNames (m : Metadata) :
    m.inherentNames.length = (inherentOf m.messages).length :=
  Naming.length_uniqueNames_map _ _ _

theorem methodNames_eq (m : Metadata) :
    Bindings.methodNames m.constructors (inherentOf m.messages) m.propertyNames =
      m.constructorNames ++ m.inherentNames :=
  Naming.uniqueNames_append _ _ _

/-- Properties, constructors and messages of an instance have different names. -/
theorem nodup_instance (m : Metadata) :
    (m.propertyNames ++ (m.constructorNames ++ m.inherentNames)).Nodup := by
  rw [← methodNames_eq]
  refine List.nodup_append'.mpr ⟨Naming.nodup_uniqueNames _ _, Naming.nodup_uniqueNames _ _, ?_⟩
  intro name hproperty hmethod
  exact (Naming.not_mem_of_uniqueNames hmethod).2 (List.mem_append_right _ hproperty)

theorem not_mem_instanceNames (m : Metadata) :
    ∀ name ∈ m.propertyNames ++ (m.constructorNames ++ m.inherentNames), name ∉ instanceNames := by
  rw [← methodNames_eq]
  intro name hname hreserved
  obtain hproperty | hmethod := List.mem_append.mp hname
  · exact (Naming.not_mem_of_uniqueNames hproperty).2 hreserved
  · exact (Naming.not_mem_of_uniqueNames hmethod).2 (List.mem_append_left _ hreserved)

end Metadata

namespace Bindings

open Metadata (EntryPoint Declaration)
open Naming (IsName)

section
variable {ε α β : Type} {make : α × String → Except ε β} {name : β → String}
  (hmake : ∀ x b, make x = .ok b → name b = x.2)
include hmake

/-- What is made with the names has them. -/
theorem names_of_mapM {as : List α} {names : List String} (hlength : names.length = as.length)
    {bs : List β} (h : (as.zip names).mapM make = .ok bs) : bs.map name = names := by
  have hnamed := (forall₂_of_mapM h).imp fun x b hx => (hmake x b hx).symm
  calc bs.map name
      = (as.zip names).map Prod.snd := (map_eq_map_iff_forall₂.mpr hnamed).symm
    _ = names := List.map_snd_zip (Nat.le_of_eq hlength)

end

/-! ### Names of classes -/

def Namespace.classNames (n : Namespace) : List String :=
  [n.interface, n.implementation]

/-- What a namespace is named, and what the names of its methods are. -/
structure NamedNamespace (c c' : Context) (properties : List String) (label : String)
    (es : List EntryPoint) (n : Namespace) : Prop where
  interface : n.interface = Naming.identifier label c.names
  implementation : n.implementation =
    Naming.identifier ("_Instance" ++ n.interface) (n.interface :: c.names)
  property : n.property = Naming.identifier label (properties ++ instanceNames)
  members : n.messages.map (·.signature.name) =
    Naming.uniqueNames (es.map (·.methodName)) instanceNames
  names : c'.names = n.implementation :: n.interface :: c.names

theorem namedNamespace {c c' : Context} {mutators : List Bytes} {properties : List String}
    {label : String} {es : List EntryPoint} {n : Namespace}
    (h : makeNamespace c mutators properties label es = .ok (n, c')) :
    NamedNamespace c c' properties label es n := by
  simp only [makeNamespace, Context.choose] at h
  obtain ⟨signatures, -, h⟩ := bind_ok h
  obtain ⟨messages, hmessages, h⟩ := bind_ok h
  cases h
  have hlength := Naming.length_uniqueNames_map (·.methodName) es instanceNames
  have hmembers := names_of_mapM (fun x method hmethod => (madeMessage hmethod).name)
    hlength hmessages
  constructor <;> dsimp only
  · rfl
  · exact hmembers

theorem memberNames_of_makeNamespaces {c c' : Context} {mutators : List Bytes}
    {properties : List String} {groups : List (String × List EntryPoint)} {ns : List Namespace}
    (h : makeNamespaces mutators c properties groups = .ok (ns, c')) :
    List.Forall₂ (fun g n => n.messages.map (·.signature.name) =
      Naming.uniqueNames (g.2.map (·.methodName)) instanceNames) groups ns ∧
    ns.map (·.property) = Naming.uniqueNames (groups.map (·.1)) (properties ++ instanceNames) := by
  induction groups generalizing c properties ns with
  | nil =>
      cases h
      exact ⟨.nil, rfl⟩
  | cons g rest ih =>
      obtain ⟨n, c₁, more, rfl, hn, hmore⟩ := makeNamespaces_cons h
      have hnamed := namedNamespace hn
      obtain ⟨hmembers, hproperties⟩ := ih hmore
      refine ⟨.cons hnamed.members hmembers, ?_⟩
      rw [List.map_cons, List.map_cons, Naming.uniqueNames, hproperties, ← hnamed.property]
      rfl

/-- Classes of namespaces have names of their own, which nothing else in the module has. -/
theorem classNames_of_makeNamespaces {c c' : Context} {mutators : List Bytes}
    {properties : List String} {groups : List (String × List EntryPoint)} {ns : List Namespace}
    (h : makeNamespaces mutators c properties groups = .ok (ns, c')) :
    (ns.flatMap (·.classNames)).Nodup ∧ ∀ n ∈ ns, IsName n.property ∧
      ∀ name ∈ n.classNames, IsName name ∧ name ∉ c.names := by
  induction groups generalizing c properties ns with
  | nil =>
      cases h
      exact ⟨List.nodup_nil, nofun⟩
  | cons g rest ih =>
      obtain ⟨n, c₁, more, rfl, hn, hmore⟩ := makeNamespaces_cons h
      obtain ⟨hinterface, himplementation, hproperty, -, hnames⟩ := namedNamespace hn
      obtain ⟨hnodup, hmores⟩ := ih hmore
      have hfirst : n.interface ∉ c.names := hinterface ▸ Naming.identifier_not_mem _ _
      have hsecond : n.implementation ∉ n.interface :: c.names :=
        himplementation ▸ Naming.identifier_not_mem _ _
      constructor
      · refine List.nodup_append'.mpr ⟨?_, hnodup, ?_⟩
        · simpa [Namespace.classNames, eq_comm] using (not_or.mp (mt List.mem_cons.mpr hsecond)).1
        · intro name hname hmore
          obtain ⟨other, hother, hname'⟩ := List.mem_flatMap.mp hmore
          refine ((hmores other hother).2 name hname').2 ?_
          rw [hnames]
          obtain rfl | rfl : name = n.interface ∨ name = n.implementation := by
            simpa [Namespace.classNames] using hname
          · exact List.mem_cons_of_mem _ List.mem_cons_self
          · exact List.mem_cons_self
      · intro other hother
        obtain rfl | hother := List.mem_cons.mp hother
        · refine ⟨hproperty ▸ Naming.isName_identifier _ _, fun name hname => ?_⟩
          obtain rfl | rfl : name = other.interface ∨ name = other.implementation := by
            simpa [Namespace.classNames] using hname
          · exact ⟨hinterface ▸ Naming.isName_identifier _ _, hfirst⟩
          · exact ⟨himplementation ▸ Naming.isName_identifier _ _,
              fun hmem => hsecond (List.mem_cons_of_mem _ hmem)⟩
        · obtain ⟨hproperty', hclasses⟩ := hmores other hother
          refine ⟨hproperty', fun name hname => ⟨(hclasses name hname).1, fun hmem => ?_⟩⟩
          refine (hclasses name hname).2 ?_
          rw [hnames]
          exact List.mem_cons_of_mem _ (List.mem_cons_of_mem _ hmem)

/-! ### All names -/

/-- The names that the bindings of a contract have for its entry points. -/
structure EntryNames (m : Metadata) (b : Bindings) : Prop where
  properties : b.namespaces.map (·.property) = m.propertyNames
  constructors : b.constructors.map (·.name) = m.constructorNames
  messages : b.messages.map (·.signature.name) = m.inherentNames
  members : List.Forall₂ (fun label n => n.messages.map (·.signature.name) = m.memberNames label)
    (Metadata.namespacesOf m.messages) b.namespaces

theorem entryNames_of_within {room : Room} {m : Metadata} {b : Bindings}
    (h : within? room m = .ok b) : EntryNames m b := by
  obtain ⟨c, c', hb⟩ := assembled_of_within h
  obtain ⟨hmembers, hproperties⟩ := memberNames_of_makeNamespaces hb.namespaces
  have hproperties : b.namespaces.map (·.property) = m.propertyNames := by
    rw [hproperties, Metadata.groupsOf, List.map_map]
    exact congrArg (Naming.uniqueNames · instanceNames) (List.map_id _)
  have hconstructors := hb.constructors
  have hmessages := hb.messages
  have hzip : m.constructors.zip (m.constructorNames ++ m.inherentNames) =
      m.constructors.zip m.constructorNames := by
    calc m.constructors.zip (m.constructorNames ++ m.inherentNames)
        = (m.constructors ++ []).zip (m.constructorNames ++ m.inherentNames) := by
          rw [List.append_nil]
      _ = m.constructors.zip m.constructorNames := by
          rw [List.zip_append m.length_constructorNames.symm, List.zip_nil_left, List.append_nil]
  rw [hproperties, m.methodNames_eq, hzip] at hconstructors
  rw [hproperties, m.methodNames_eq, List.drop_left' m.length_constructorNames] at hmessages
  refine ⟨hproperties, ?_, ?_, List.forall₂_map_left_iff.mp hmembers⟩
  · exact names_of_mapM (fun x k hk => (madeConstructor hk).name) m.length_constructorNames
      hconstructors
  · exact names_of_mapM (fun x method hmethod => (madeMessage hmethod).name) m.length_inherentNames
      hmessages

/-- The classes of the namespaces have names of their own, which neither the declared types have
nor the module itself. -/
theorem classNames_of_within {room : Room} {m : Metadata} {b : Bindings}
    (h : within? room m = .ok b) :
    (b.namespaces.flatMap (·.classNames)).Nodup ∧ ∀ n ∈ b.namespaces, IsName n.property ∧
      ∀ name ∈ n.classNames, IsName name ∧ name ∉ moduleNames ∧
        ∀ t ∈ b.declared, name ∉ t.classNames := by
  obtain ⟨c, c', hb⟩ := assembled_of_within h
  obtain ⟨hnodup, hclasses⟩ := classNames_of_makeNamespaces hb.namespaces
  have hnew := newClasses_of_makeAllDeclared hb.declared
  refine ⟨hnodup, fun n hn => ⟨(hclasses n hn).1, fun name hname => ?_⟩⟩
  obtain ⟨hisName, hfresh⟩ := (hclasses n hn).2 name hname
  have hbefore : name ∉ (Context.ofMetadata room m).names := fun hmem =>
    hfresh ((hnew.names name).mpr (.inl hmem))
  refine ⟨hisName, fun hmodule => hbefore (List.mem_append_left _ hmodule), fun t ht hclass => ?_⟩
  obtain rfl | hclass := List.mem_cons.mp hclass
  · obtain ⟨d, hd, hmade⟩ := forall₂_right (makeAllDeclared_ok hb.declared).2 ht
    refine hbefore (List.mem_append_right _ ?_)
    rw [hmade.name]
    exact List.mem_map_of_mem hd
  · refine hfresh ((hnew.names name).mpr (.inr ?_))
    rw [List.map_flatMap]
    exact List.mem_flatMap.mpr ⟨t, ht, hclass⟩

end Bindings
end InkBindings
