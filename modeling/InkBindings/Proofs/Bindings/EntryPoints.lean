import InkBindings.Proofs.Bindings.ClassFunctions
import InkBindings.Proofs.Bindings.MethodNames
import InkBindings.Proofs.Bindings.MethodText

/-!
The entry points of a contract in the classes of its module, as the text of the classes has them.
Each has its functions, in the order of the document and with names of their own in their class. An
implementation makes its instances by a function that it is written with, so there the names differ
unless a message takes this one; and a decorator is found unless a function above took its name.
-/

namespace InkBindings.Bindings

open Metadata (EntryPoint inherentOf membersOf namespacesOf)
open Naming (IsName padded sanitize)

/-! ### Functions of entry points -/

/-- The function is for an entry point: it is named by the label, with underscores appended where
others have the name, and its body has the selector. -/
structure Function.Serves (f : Function) (decorators : List String) (label : String)
    (selector : Bytes) : Prop where
  decorators : f.decorators = decorators
  name : ∃ count, f.name = padded (sanitize label) count
  packs : f.Packs selector

/-- The function is the property that gives the implementation of a namespace. -/
structure Function.Gives (f : Function) (n : Namespace) : Prop where
  decorators : f.decorators = ["@property"]
  name : ∃ count, f.name = padded (sanitize n.label) count
  line : f.line = "def " ++ f.name ++ "(self) -> " ++ n.interface ++ ":"
  body : f.body = ["    return " ++ n.implementation ++ "(self.account_id)"]

/-- The functions of a class go by different names, none of which an instance has already. -/
structure Function.Distinct (fs : List Function) : Prop where
  nodup : (names fs).Nodup
  free : ∀ name ∈ names fs, name ∉ instanceNames

/-- The classes of a namespace: for each message an abstract function of the interface, and one of
the implementation with the same line. -/
structure Namespace.Serves (n : Namespace) (messages : List EntryPoint) (label : String) :
    Prop where
  labelled : n.label = label
  heads : (interfaceHead n).toList <+: (interfaceText n).toList ∧
    (implementationHead n).toList <+: (implementationText n).toList
  functions : ∃ methods, implementationFunctions n = initializer :: methods ∧
    List.Forall₂ (fun e (f : Function) => f.Serves [] e.methodName e.selector)
      (membersOf messages label) methods ∧
    List.Forall₂ (fun f (g : Function) => g.line = f.line ∧ g.decorators = ["@abc.abstractmethod"])
      methods (interfaceFunctions n) ∧
    Function.Distinct methods ∧ Function.Distinct (interfaceFunctions n)

/-- The class of the contract: a property for each namespace, then a static function for each
constructor, then one for each message without a namespace. -/
structure ServesInstance (m : Metadata) (b : Bindings) : Prop where
  head : (instanceHead b).toList <+: (instanceText b).toList
  functions : ∃ properties statics methods,
    instanceFunctions b = properties ++ statics ++ methods ∧
    List.Forall₂ (fun n (f : Function) => f.Gives n) b.namespaces properties ∧
    List.Forall₂ (fun e (f : Function) => f.Serves ["@staticmethod"] e.label e.selector)
      m.constructors statics ∧
    List.Forall₂ (fun e (f : Function) => f.Serves [] e.label e.selector)
      (inherentOf m.messages) methods
  distinct : Function.Distinct (instanceFunctions b)

/-- Each entry point has its functions in the classes of the module: a message whose label has no
separator in the class of the contract, and one with a separator in those of its namespace. -/
structure ServesEach (m : Metadata) (b : Bindings) : Prop where
  labels : (∀ e ∈ inherentOf m.messages, Label.parts e.label = [e.label]) ∧
    ∀ label, ∀ e ∈ membersOf m.messages label,
      Label.parts e.label = [label, e.methodName]
  handle : ServesInstance m b
  namespaces : List.Forall₂ (fun label (n : Namespace) => n.Serves m.messages label)
    (namespacesOf m.messages) b.namespaces
  classes : (b.namespaces.flatMap (·.classNames)).Nodup ∧
    ∀ n ∈ b.namespaces, ∀ name ∈ n.classNames, name ∉ moduleNames ∧
      ∀ t ∈ b.declared, name ∉ t.classNames
  blocks : ∀ options, (b.namespaces.flatMap fun n => [interfaceText n, implementationText n]) ++
    [instanceText b] <:+: blocks b options

section
variable {room : Room} {m : Metadata}

theorem isName_of_mem_scope : ∀ d ∈ (Scope.ofMetadata room m).declarations, IsName d.name :=
  fun _ hd => Metadata.Registry.isName_of_mem_declarations hd

section
variable {mutators : List Bytes} {e : EntryPoint} {x : Message} {label : String}
  (h : MethodOf (Scope.ofMetadata room m) mutators e x)
  (hname : ∃ count, x.signature.name = padded (sanitize label) count)
include h hname

theorem oneLine_of_methodOf : x.signature.OneLine := by
  obtain ⟨c, name, hscope, h⟩ := h
  obtain ⟨count, hname⟩ := hname
  have hs : ∀ d ∈ c.scope.declarations, IsName d.name := hscope ▸ isName_of_mem_scope
  have hx := madeMessage h
  exact ⟨hname ▸ (Naming.isName_sanitize label).padded count,
    newline_not_mem_parameters hs hx.parameters, newline_not_mem_returnAnnotation hs hx.returns⟩

theorem messageFunction_serves : (messageFunction x).Serves [] label e.selector := by
  have hisName := (oneLine_of_methodOf h hname).name
  obtain ⟨c, name, hscope, h⟩ := h
  have hs : ∀ d ∈ c.scope.declarations, IsName d.name := hscope ▸ isName_of_mem_scope
  have hx := madeMessage h
  refine ⟨rfl, ?_, ?_⟩
  · rw [messageFunction, name_functionOf hisName]
    exact hname
  · rw [← hx.selector]
    exact packs_messageFunction (newline_not_mem_returnCodec hs hx.codec)

end

section
variable {e : EntryPoint} {k : Constructor} {label : String}
  (h : ConstructorOf (Scope.ofMetadata room m) e k)
  (hname : ∃ count, k.name = padded (sanitize label) count)
include h hname

theorem isMember_of_constructorOf : IsMember (constructorText k) (constructorFunction k) := by
  obtain ⟨c, name, hscope, h⟩ := h
  obtain ⟨count, hname⟩ := hname
  have hs : ∀ d ∈ c.scope.declarations, IsName d.name := hscope ▸ isName_of_mem_scope
  exact isMember_constructorText (hname ▸ (Naming.isName_sanitize label).padded count)
    (newline_not_mem_parameters hs (madeConstructor h).parameters)

theorem constructorFunction_serves :
    (constructorFunction k).Serves ["@staticmethod"] label e.selector := by
  obtain ⟨c, name, -, h⟩ := h
  obtain ⟨count, hname⟩ := hname
  refine ⟨rfl, ⟨count, ?_⟩, ?_⟩
  · rw [constructorFunction, name_functionOf (hname ▸ (Naming.isName_sanitize label).padded count)]
    exact hname
  · rw [← (madeConstructor h).selector]
    exact packs_constructorFunction k

end

/-- Messages that are named by their labels have methods that serve them. -/
theorem messageFunctions_serve {mutators : List Bytes} {es : List EntryPoint} {xs : List Message}
    {label : EntryPoint → String} {reserved : List String}
    (h : List.Forall₂ (MethodOf (Scope.ofMetadata room m) mutators) es xs)
    (hnames : xs.map (·.signature.name) = Naming.uniqueNames (es.map label) reserved) :
    (∀ x ∈ xs, x.signature.OneLine) ∧
      List.Forall₂ (fun e (f : Function) => f.Serves [] (label e) e.selector) es
        (xs.map messageFunction) ∧
      Function.names (xs.map messageFunction) = Naming.uniqueNames (es.map label) reserved := by
  have hpadded := Naming.padded_of_uniqueNames (es.map label) reserved
  rw [← hnames, List.forall₂_map_left_iff, List.forall₂_map_right_iff] at hpadded
  have hmade := forall₂_and h hpadded
  have honeLine : ∀ x ∈ xs, x.signature.OneLine := by
    intro x hx
    obtain ⟨e, -, hmethod, hname⟩ := forall₂_right hmade hx
    exact oneLine_of_methodOf hmethod hname
  refine ⟨honeLine, ?_, ?_⟩
  · rw [List.forall₂_map_right_iff]
    exact hmade.imp fun e x hx => messageFunction_serves hx.1 hx.2
  · rw [← hnames, Function.names, List.map_map]
    exact List.map_congr_left fun x hx => name_functionOf (honeLine x hx).name _ _ _

theorem constructorFunctions_serve {b : Bindings} (h : within? room m = .ok b) :
    List.Forall₂ IsMember (b.constructors.map constructorText)
        (b.constructors.map constructorFunction) ∧
      List.Forall₂ (fun e (f : Function) => f.Serves ["@staticmethod"] e.label e.selector)
        m.constructors (b.constructors.map constructorFunction) ∧
      Function.names (b.constructors.map constructorFunction) = m.constructorNames := by
  have hnames := (entryNames_of_within h).constructors
  have hpadded := Naming.padded_of_uniqueNames (m.constructors.map (·.label))
    (instanceNames ++ m.propertyNames)
  rw [← Metadata.constructorNames, ← hnames, List.forall₂_map_left_iff,
    List.forall₂_map_right_iff] at hpadded
  have hmade := forall₂_and (constructorsOf_within h) hpadded
  refine ⟨?_, ?_, ?_⟩
  · refine forall₂_map_same.mpr fun k hk => ?_
    obtain ⟨e, -, hconstructor, hname⟩ := forall₂_right hmade hk
    exact isMember_of_constructorOf hconstructor hname
  · rw [List.forall₂_map_right_iff]
    exact hmade.imp fun e k hk => constructorFunction_serves hk.1 hk.2
  · rw [← hnames, Function.names, List.map_map]
    refine List.map_congr_left fun k hk => ?_
    obtain ⟨e, -, -, count, hname⟩ := forall₂_right hmade hk
    exact name_functionOf (hname ▸ (Naming.isName_sanitize e.label).padded count) _ _ _

theorem propertyFunctions_give {b : Bindings} (h : within? room m = .ok b) :
    List.Forall₂ IsMember (b.namespaces.map propertyText) (b.namespaces.map propertyFunction) ∧
      List.Forall₂ (fun n (f : Function) => f.Gives n) b.namespaces
        (b.namespaces.map propertyFunction) ∧
      Function.names (b.namespaces.map propertyFunction) = m.propertyNames := by
  have hnames := (entryNames_of_within h).properties
  have hclasses := (classNames_of_within h).2
  have hpadded := Naming.padded_of_uniqueNames (namespacesOf m.messages) instanceNames
  rw [← Metadata.propertyNames, ← hnames, List.forall₂_map_right_iff] at hpadded
  have hlabelled := forall₂_and (eachMethod_of_within h).namespaces hpadded
  have hname : ∀ n ∈ b.namespaces, (propertyFunction n).name = n.property := fun n hn =>
    name_functionOf (hclasses n hn).1 _ _ _
  refine ⟨?_, ?_, ?_⟩
  · refine forall₂_map_same.mpr fun n hn => ?_
    obtain ⟨hproperty, hnames⟩ := hclasses n hn
    rw [Namespace.classNames, List.forall_mem_cons, List.forall_mem_singleton] at hnames
    exact isMember_propertyText hproperty hnames.1.1 hnames.2.1
  · rw [List.forall₂_map_right_iff, List.forall₂_same]
    intro n hn
    obtain ⟨label, -, ⟨rfl, -⟩, hpadded⟩ := forall₂_right hlabelled hn
    have himplementation := ((hclasses n hn).2 n.implementation (by simp [Namespace.classNames])).1
    refine ⟨rfl, hname n hn ▸ hpadded, ?_, body_propertyFunction himplementation⟩
    rw [hname n hn, propertyFunction, functionOf, ← String.toList_inj]
    simp
  · rw [← hnames, Function.names, List.map_map]
    exact List.map_congr_left hname

/-! ### Classes of entry points -/

theorem distinct_uniqueNames {fs : List Function} {labels : List String}
    (h : Function.names fs = Naming.uniqueNames labels instanceNames) : Function.Distinct fs :=
  ⟨h ▸ Naming.nodup_uniqueNames _ _, fun _ hname =>
    (Naming.not_mem_of_uniqueNames (h ▸ hname)).2⟩

theorem names_signatureFunctions {xs : List Message} (h : ∀ x ∈ xs, x.signature.OneLine) :
    Function.names (xs.map fun x => signatureFunction x.signature) =
      Function.names (xs.map messageFunction) := by
  rw [Function.names, Function.names, List.map_map, List.map_map]
  exact List.map_congr_left fun x hx =>
    (name_functionOf (h x hx).name _ _ _).trans (name_functionOf (h x hx).name _ _ _).symm

/-- The functions of the two classes of a namespace. -/
structure NamespaceFunctions (m : Metadata) (label : String) (n : Namespace) : Prop where
  interface : interfaceFunctions n = n.messages.map fun x => signatureFunction x.signature
  implementation : implementationFunctions n = initializer :: n.messages.map messageFunction
  interfaceMembers : List.Forall₂ IsMember (n.signatures.map signatureText)
    (n.messages.map fun x => signatureFunction x.signature)
  implementationMembers : List.Forall₂ IsMember (n.messages.map messageText)
    (n.messages.map messageFunction)
  names : Function.names (n.messages.map messageFunction) = m.memberNames label
  abstracts : Function.names (interfaceFunctions n) = m.memberNames label
  serves : n.Serves m.messages label

theorem namespaceFunctions {b : Bindings} (h : within? room m = .ok b) :
    List.Forall₂ (NamespaceFunctions m) (namespacesOf m.messages) b.namespaces := by
  refine (forall₂_and (eachMethod_of_within h).namespaces (entryNames_of_within h).members).imp ?_
  rintro label n ⟨⟨hlabel, hmethods, hsignatures⟩, hnames⟩
  obtain ⟨honeLine, hserves, hnames⟩ := messageFunctions_serve hmethods hnames
  have hinterfaces : List.Forall₂ IsMember (n.signatures.map signatureText)
      (n.messages.map fun x => signatureFunction x.signature) := by
    rw [hsignatures, List.map_map]
    exact forall₂_map_same.mpr fun x hx => isMember_signatureText (honeLine x hx)
  have himplementations : List.Forall₂ IsMember (n.messages.map messageText)
      (n.messages.map messageFunction) :=
    forall₂_map_same.mpr fun x hx => isMember_messageText (honeLine x hx)
  have hinterface := interfaceFunctions_of_members hinterfaces
  have himplementation := implementationFunctions_of_members himplementations
  have habstracts : Function.names (interfaceFunctions n) = m.memberNames label := by
    rw [hinterface, names_signatureFunctions honeLine, hnames]
    rfl
  have hheads : (interfaceHead n).toList <+: (interfaceText n).toList ∧
      (implementationHead n).toList <+: (implementationText n).toList := by
    rw [interfaceText_eq, implementationText_eq, String.toList_append, String.toList_append]
    exact ⟨List.prefix_append _ _, List.prefix_append _ _⟩
  refine ⟨hinterface, himplementation, hinterfaces, himplementations, hnames, habstracts, hlabel,
    hheads, _, himplementation, hserves, ?_, distinct_uniqueNames hnames,
    distinct_uniqueNames habstracts⟩
  rw [hinterface]
  exact forall₂_map_same.mpr fun x _ => ⟨rfl, rfl⟩

/-- What is in the class of the contract. -/
theorem instanceMembers {b : Bindings} (h : within? room m = .ok b) :
    List.Forall₂ IsMember (b.namespaces.map propertyText ++ b.constructors.map constructorText ++
        b.messages.map messageText)
      (b.namespaces.map propertyFunction ++ b.constructors.map constructorFunction ++
        b.messages.map messageFunction) := by
  obtain ⟨honeLine, -⟩ := messageFunctions_serve (eachMethod_of_within h).inherent
    (entryNames_of_within h).messages
  refine List.rel_append ?_ ?_
  · exact List.rel_append (propertyFunctions_give h).1 (constructorFunctions_serve h).1
  · exact forall₂_map_same.mpr fun x hx => isMember_messageText (honeLine x hx)

theorem instanceFunctions_eq {b : Bindings} (h : within? room m = .ok b) :
    instanceFunctions b = b.namespaces.map propertyFunction ++
      b.constructors.map constructorFunction ++ b.messages.map messageFunction :=
  instanceFunctions_of_members (instanceMembers h)

theorem servesInstance_of_within {b : Bindings} (h : within? room m = .ok b) :
    ServesInstance m b := by
  obtain ⟨-, hgives, hproperties⟩ := propertyFunctions_give h
  obtain ⟨-, hstatics, hconstructors⟩ := constructorFunctions_serve h
  obtain ⟨-, hmethods, hmessages⟩ := messageFunctions_serve (eachMethod_of_within h).inherent
    (entryNames_of_within h).messages
  have hnames : Function.names (instanceFunctions b) =
      m.propertyNames ++ (m.constructorNames ++ m.inherentNames) := by
    rw [instanceFunctions_eq h, ← hproperties, ← hconstructors, Metadata.inherentNames, ← hmessages]
    simp [Function.names]
  refine ⟨?_, ⟨_, _, _, instanceFunctions_eq h, hgives, hstatics, hmethods⟩, ?_, ?_⟩
  · rw [instanceText_eq, String.toList_append]
    exact List.prefix_append _ _
  · exact hnames ▸ m.nodup_instance
  · exact hnames ▸ m.not_mem_instanceNames

theorem servesEach_of_within {b : Bindings} (h : within? room m = .ok b) : ServesEach m b := by
  obtain ⟨c, c', hb⟩ := assembled_of_within h
  obtain ⟨hnodup, hclasses⟩ := classNames_of_within h
  refine ⟨⟨fun e he => Metadata.parts_of_inherent hb.grouped he,
      fun label e he => Metadata.parts_of_member he⟩, servesInstance_of_within h,
    (namespaceFunctions h).imp fun _ _ hn => hn.serves,
    ⟨hnodup, fun n hn name hname => ((hclasses n hn).2 name hname).2⟩, fun options => ?_⟩
  exact ⟨_, _, congrArg (· ++ _) (List.append_assoc _ _ _).symm⟩

end

/-! ### Names that classes rely on -/

/-- The functions of all classes differ in their names, and each is decorated as it says. -/
structure ClassesSound (b : Bindings) : Prop where
  distinct : ∀ n ∈ b.namespaces, (Function.names (implementationFunctions n)).Nodup
  interfaces : ∀ n ∈ b.namespaces, Function.Undisturbed (interfaceFunctions n)
  handle : Function.Undisturbed (instanceFunctions b)

section
variable {room : Room} {m : Metadata} {b : Bindings}

theorem distinct_iff (h : within? room m = .ok b) :
    (∀ n ∈ b.namespaces, (Function.names (implementationFunctions n)).Nodup) ↔
      ∀ label ∈ namespacesOf m.messages, "__init__" ∉ m.memberNames label := by
  refine (forall_mem_iff_of_forall₂ ((namespaceFunctions h).imp fun label n hn => ?_)).symm
  have hnames : Function.names (implementationFunctions n) = "__init__" :: m.memberNames label := by
    rw [hn.implementation, ← hn.names]
    rfl
  rw [hnames, List.nodup_cons]
  exact (and_iff_left (Naming.nodup_uniqueNames _ _)).symm

theorem interfaces_iff (h : within? room m = .ok b) :
    (∀ n ∈ b.namespaces, Function.Undisturbed (interfaceFunctions n)) ↔
      ∀ label ∈ namespacesOf m.messages, "abc" ∉ (m.memberNames label).dropLast := by
  refine (forall_mem_iff_of_forall₂ ((namespaceFunctions h).imp fun label n hn => ?_)).symm
  have hdecorators : ∀ f ∈ interfaceFunctions n, f.decorators = ["@abc.abstractmethod"] := by
    intro f hf
    rw [hn.interface] at hf
    obtain ⟨x, -, rfl⟩ := List.mem_map.mp hf
    rfl
  rw [Function.undisturbed_iff hdecorators, hn.abstracts]
  rfl

theorem handle_iff (h : within? room m = .ok b) :
    Function.Undisturbed (instanceFunctions b) ↔ "property" ∉ m.propertyNames.dropLast ∧
      (m.constructors ≠ [] → "staticmethod" ∉ m.propertyNames ++ m.constructorNames.dropLast) := by
  obtain ⟨-, -, hproperties⟩ := propertyFunctions_give h
  obtain ⟨-, hstatics, hconstructors⟩ := constructorFunctions_serve h
  have hmethods : ∀ f ∈ b.messages.map messageFunction, f.decorators = [] := by
    intro f hf
    obtain ⟨x, -, rfl⟩ := List.mem_map.mp hf
    rfl
  have hgives : ∀ f ∈ b.namespaces.map propertyFunction, f.decorators = ["@property"] := by
    intro f hf
    obtain ⟨n, -, rfl⟩ := List.mem_map.mp hf
    rfl
  have hserves : ∀ f ∈ b.constructors.map constructorFunction,
      f.decorators = ["@staticmethod"] := by
    intro f hf
    obtain ⟨k, -, rfl⟩ := List.mem_map.mp hf
    rfl
  have hempty : b.constructors.map constructorFunction ≠ [] ↔ m.constructors ≠ [] := by
    rw [ne_eq, ne_eq, ← List.length_eq_zero_iff, ← List.length_eq_zero_iff, hstatics.length_eq]
  rw [instanceFunctions_eq h, Function.undisturbed_append_plain hmethods,
    Function.undisturbed_append_iff hgives hserves, hproperties, hconstructors, hempty]
  rfl

/-- Two constructors, and messages whose labels clash with each other and with what an instance
has already. -/
def market : Metadata where
  codeHash := []
  types := []
  constructors := [callable "new" [0, 0, 0, 1] true false, callable "Trade" [0, 0, 0, 2] true true]
  messages := [callable "new" [0, 0, 0, 3] false false,
    callable "Trade::buy" [0, 0, 0, 4] true true, callable "Event" [0, 0, 0, 5] false false,
    callable "Auction::buy" [0, 0, 0, 6] true false, callable "Trade::buy" [0, 0, 0, 7] true false]
  events := []
  name := some "market"

/-- A message of a namespace has the name of the function that makes instances. -/
def restarted : Metadata :=
  callableOnly [callable "Trade::__init__" [0, 0, 0, 1] true false]

end

end InkBindings.Bindings
