import InkBindings.Proofs.Bindings.EntryPoints
import InkBindings.Proofs.Bindings.EventScope

/-!
Decorators in the bodies of classes. A body is evaluated from above to below, and its functions are
bound in it one after the other: a decorator means what it means in the module unless something
above it has a name that it looks up.
-/

namespace InkBindings.Bindings

open Metadata (membersOf namespacesOf)
open Naming (isNameChar sanitize)

/-! ### Reading bodies -/

/-- The name in a statement that assigns to one. -/
def assignedName? (line : String) : Option String :=
  if Function.isDefinition line then none
  else
    match line.toList.takeWhile isNameChar, line.toList.dropWhile isNameChar with
    | c :: cs, ' ' :: '=' :: ' ' :: _ => some (String.ofList (c :: cs))
    | _, _ => none

/-- What is bound in the body of a class: by assignments, and by functions. -/
structure ClassBody where
  assigned : List String
  functions : List Function

/-- The body of a class, from its text after the head. -/
def ClassBody.ofText (head block : String) : ClassBody where
  assigned := ((Text.lines (String.ofList (block.toList.drop head.length))).map outdent).filterMap
    assignedName?
  functions := functionsAfter head block

def interfaceBody (n : Namespace) : ClassBody :=
  .ofText (interfaceHead n) (interfaceText n)

def implementationBody (n : Namespace) : ClassBody :=
  .ofText (implementationHead n) (implementationText n)

def instanceBody (b : Bindings) : ClassBody :=
  .ofText (instanceHead b) (instanceText b)

/-! ### Evaluating bodies -/

/-- The expression of a decorator. -/
def decoratorPhrase? (d : String) : Option Phrase :=
  match d.toList with
  | '@' :: rest => Phrase.ofChars? rest
  | _ => none

/-- Where these names are bound, none of them is looked up by the decorator, which stands for what
it stands for outside. -/
def KeepsDecorator (bound : List String) (d : String) : Prop :=
  ∃ p, decoratorPhrase? d = some p ∧ (∀ name ∈ p.names, name ∉ bound) ∧ p.SameInside bound

/-- The functions are evaluated in order, each with those bound that are above it. -/
inductive KeepsDecorators : List String → List Function → Prop
  | nil {bound} : KeepsDecorators bound []
  | cons {bound f rest} : (∀ d ∈ f.decorators, KeepsDecorator bound d) →
      KeepsDecorators (bound ++ [f.name]) rest → KeepsDecorators bound (f :: rest)

def ClassBody.KeepsDecorators (t : ClassBody) : Prop :=
  Bindings.KeepsDecorators t.assigned t.functions

/-- The decorators of emitted functions. -/
def emittedDecorators : List String :=
  ["@abc.abstractmethod", "@property", "@staticmethod"]

theorem decoratorPhrase_of_mem {d : String} (h : d ∈ emittedDecorators) :
    ∃ p, decoratorPhrase? d = some p ∧ p.names = [decoratorName d] := by
  have hword (w : String) (hd : d.toList = '@' :: w.toList) (hne : w ≠ "")
      (hw : w.toList.all isWordChar = true) : decoratorPhrase? d = some (.word w) := by
    have htext := Phrase.ofChars_text (.word hne (List.all_eq_true.mp hw))
    rw [decoratorPhrase?, hd]
    exact htext
  simp only [emittedDecorators, List.mem_cons, List.not_mem_nil, or_false] at h
  rcases h with rfl | rfl | rfl
  · exact ⟨_, hword "abc.abstractmethod" (by decide) (by decide) (by decide), by decide⟩
  · exact ⟨_, hword "property" (by decide) (by decide) (by decide), by decide⟩
  · exact ⟨_, hword "staticmethod" (by decide) (by decide) (by decide), by decide⟩

theorem keepsDecorator_iff {d : String} (h : d ∈ emittedDecorators) (bound : List String) :
    KeepsDecorator bound d ↔ decoratorName d ∉ bound := by
  obtain ⟨p, hp, hnames⟩ := decoratorPhrase_of_mem h
  have hfree : (∀ name ∈ p.names, name ∉ bound) ↔ decoratorName d ∉ bound := by
    rw [hnames, List.forall_mem_singleton]
  constructor
  · rintro ⟨q, hq, hapart, -⟩
    rw [hp] at hq
    cases hq
    exact hfree.mp hapart
  · intro hnot
    exact ⟨p, hp, hfree.mpr hnot, Phrase.sameInside_iff.mpr (hfree.mpr hnot)⟩

/-- Decorators are kept if neither what was bound before nor a function above disturbs them. -/
theorem keepsDecorators_iff {fs : List Function}
    (h : ∀ f ∈ fs, ∀ d ∈ f.decorators, d ∈ emittedDecorators) (bound : List String) :
    KeepsDecorators bound fs ↔
      (∀ f ∈ fs, ∀ d ∈ f.decorators, decoratorName d ∉ bound) ∧ Function.Undisturbed fs := by
  induction fs generalizing bound with
  | nil => exact iff_of_true .nil ⟨nofun, .nil⟩
  | cons f rest ih =>
      obtain ⟨hf, hrest⟩ := List.forall_mem_cons.mp h
      have hfirst : (∀ d ∈ f.decorators, KeepsDecorator bound d) ↔
          ∀ d ∈ f.decorators, decoratorName d ∉ bound :=
        forall₂_congr fun d hd => keepsDecorator_iff (hf d hd) bound
      have hbehind : (∀ g ∈ rest, ∀ d ∈ g.decorators, decoratorName d ∉ bound ++ [f.name]) ↔
          (∀ g ∈ rest, ∀ d ∈ g.decorators, decoratorName d ∉ bound) ∧
            ∀ g ∈ rest, ∀ d ∈ g.decorators, f.name ≠ decoratorName d := by
        simp only [List.mem_append, List.mem_singleton, not_or, ← forall_and, ne_comm]
      have hkeeps : KeepsDecorators bound (f :: rest) ↔
          (∀ d ∈ f.decorators, KeepsDecorator bound d) ∧
            KeepsDecorators (bound ++ [f.name]) rest :=
        ⟨fun | .cons hf hrest => ⟨hf, hrest⟩, fun ⟨hf, hrest⟩ => .cons hf hrest⟩
      have hpairwise : Function.Undisturbed (f :: rest) ↔
          (∀ g ∈ rest, ∀ d ∈ g.decorators, f.name ≠ decoratorName d) ∧
            Function.Undisturbed rest := List.pairwise_cons
      rw [hkeeps, hfirst, ih hrest, hbehind, List.forall_mem_cons, hpairwise, and_assoc, and_assoc]

/-! ### What is assigned in bodies -/

def assignedIn (body : String) : List String :=
  ((Text.lines body).map outdent).filterMap assignedName?

theorem ofText_append (head body : String) :
    ClassBody.ofText head (head ++ body) = ⟨assignedIn body, functionsOf body⟩ := by
  have hdrop : (head ++ body).toList.drop head.length = body.toList := by
    rw [String.toList_append]
    exact List.drop_left
  rw [ClassBody.ofText, functionsAfter_append, hdrop, String.ofList_toList]
  rfl

theorem assignedName_of_head {line : String} {c : Char} (h : line.toList.head? = some c)
    (hc : isNameChar c = false) : assignedName? line = none := by
  obtain ⟨rest, hrest⟩ : ∃ rest, line.toList = c :: rest := ⟨_, (List.cons_head?_tail h).symm⟩
  rw [assignedName?, hrest, List.takeWhile_cons_of_neg (by simp [hc])]
  split <;> rfl

theorem IsBodyLine.assignedName {line : String} (h : IsBodyLine line) :
    assignedName? line = none := by
  have hinner := h.inner
  rw [Text.isInner] at hinner
  cases hhead : line.toList.head? with
  | none =>
      rw [String.toList_eq_nil_iff.mp (List.head?_eq_none_iff.mp hhead)]
      rfl
  | some c =>
      rw [hhead, Option.all_some, beq_iff_eq] at hinner
      exact assignedName_of_head hhead (hinner ▸ rfl)

theorem assigned_of_isMember {text : String} {f : Function} (h : IsMember text f) :
    (memberLines text).filterMap assignedName? = [] := by
  obtain ⟨inner, hlines, hinner, -⟩ := h.memberLines_eq
  rw [hlines, List.filterMap_eq_nil_iff]
  intro line hline
  simp only [List.cons_append, List.mem_cons, List.mem_append] at hline
  rcases hline with rfl | hdecorator | rfl | hbody
  · rfl
  · exact assignedName_of_head (head_of_isDecorator (h.decorators line hdecorator)) (by decide)
  · rw [assignedName?, if_pos h.line]
  · exact (hinner line hbody).assignedName

/-- Members assign to no name of the body. -/
theorem assignedIn_memberBlock {texts : List String} {fs : List Function}
    (h : List.Forall₂ IsMember texts fs) : assignedIn (memberBlock texts) = [] := by
  cases texts with
  | nil => rfl
  | cons first rest =>
      rw [assignedIn, lines_memberBlock, List.filterMap_flatMap, List.flatMap_eq_nil_iff]
      intro text htext
      obtain ⟨f, -, hf⟩ := forall₂_right h.flip htext
      exact assigned_of_isMember hf

theorem assignedIn_unlines {ls : List String} (hne : ls ≠ []) :
    assignedIn (Text.unlines ls) = ls.flatMap assignedIn := by
  rw [assignedIn, Text.lines_unlines hne, List.map_flatMap, List.filterMap_flatMap]
  rfl

/-! ### The bodies of a module -/

section
variable {room : Room} {m : Metadata} {b : Bindings}

theorem interfaceBody_eq {label : String} {n : Namespace} (h : NamespaceFunctions m label n) :
    interfaceBody n = ⟨[], interfaceFunctions n⟩ := by
  have hassigned := assignedIn_memberBlock h.interfaceMembers
  rw [interfaceBody, interfaceFunctions, interfaceText_eq, ofText_append, functionsAfter_append,
    hassigned]

theorem implementationBody_eq {label : String} {n : Namespace} (h : NamespaceFunctions m label n) :
    implementationBody n = ⟨["__slots__"], implementationFunctions n⟩ := by
  have hassigned := assignedIn_memberBlock h.implementationMembers
  have hslots : assignedIn "    __slots__ = (\"account_id\",)" = ["__slots__"] := by decide
  have hline : assignedIn "    def __init__(self, account_id: AccountId) -> None:" = [] := by decide
  have hinit : assignedIn "        self.account_id = account_id" = [] := by decide
  rw [implementationBody, implementationFunctions, implementationText_eq, ofText_append,
    functionsAfter_append, assignedIn_unlines (by simp)]
  simp only [List.flatMap_cons, List.flatMap_nil, hassigned, hslots, hline, hinit]
  rfl

theorem instanceBody_eq (h : within? room m = .ok b) :
    instanceBody b = ⟨["Event"], instanceFunctions b⟩ := by
  have hassigned := assignedIn_memberBlock (instanceMembers h)
  have hevent : assignedIn "    Event = event.Event" = ["Event"] := by decide
  rw [instanceBody, instanceFunctions, instanceText_eq, ofText_append, functionsAfter_append,
    assignedIn_unlines (by simp)]
  simp only [List.flatMap_cons, List.flatMap_nil, hassigned, hevent]
  rfl

/-- What the bodies assign to is no name of a decorator. -/
theorem ClassBody.keepsDecorators_iff {assigned : List String} {fs : List Function}
    (hassigned : ∀ name ∈ assigned, name ∈ ["__slots__", "Event"])
    (h : ∀ f ∈ fs, ∀ d ∈ f.decorators, d ∈ emittedDecorators) :
    (ClassBody.mk assigned fs).KeepsDecorators ↔ Function.Undisturbed fs := by
  have hfree : ∀ d ∈ emittedDecorators, decoratorName d ∉ ["__slots__", "Event"] := by decide
  rw [ClassBody.KeepsDecorators, Bindings.keepsDecorators_iff h]
  exact and_iff_right fun f hf d hd hmem => hfree d (h f hf d hd) (hassigned _ hmem)

theorem implementationBody_keeps {label : String} {n : Namespace}
    (h : NamespaceFunctions m label n) : (implementationBody n).KeepsDecorators := by
  have hplain : ∀ f ∈ implementationFunctions n, f.decorators = [] := by
    intro f hf
    rw [h.implementation] at hf
    obtain rfl | hf := List.mem_cons.mp hf
    · rfl
    · obtain ⟨x, -, rfl⟩ := List.mem_map.mp hf
      rfl
  have hemitted : ∀ f ∈ implementationFunctions n, ∀ d ∈ f.decorators, d ∈ emittedDecorators := by
    intro f hf d hd
    rw [hplain f hf] at hd
    cases hd
  have hassigned : ∀ name ∈ ["__slots__"], name ∈ ["__slots__", "Event"] := by decide
  rw [implementationBody_eq h, ClassBody.keepsDecorators_iff hassigned hemitted]
  have hnone := (@Function.undisturbed_append_plain [] _ hplain).mpr .nil
  rwa [List.nil_append] at hnone

theorem interfaceBody_keeps_iff {label : String} {n : Namespace}
    (h : NamespaceFunctions m label n) :
    (interfaceBody n).KeepsDecorators ↔
      ∀ e ∈ (membersOf m.messages label).dropLast, sanitize e.methodName ≠ "abc" := by
  have hdecorators : ∀ f ∈ interfaceFunctions n, f.decorators = ["@abc.abstractmethod"] := by
    intro f hf
    rw [h.interface] at hf
    obtain ⟨x, -, rfl⟩ := List.mem_map.mp hf
    rfl
  have hemitted : ∀ f ∈ interfaceFunctions n, ∀ d ∈ f.decorators, d ∈ emittedDecorators := by
    intro f hf d hd
    rw [hdecorators f hf, List.mem_singleton] at hd
    rw [hd]
    decide
  have hname : decoratorName "@abc.abstractmethod" = "abc" := by decide
  have hassigned : ∀ name ∈ ([] : List String), name ∈ ["__slots__", "Event"] := by decide
  rw [interfaceBody_eq h, ClassBody.keepsDecorators_iff hassigned hemitted,
    Function.undisturbed_iff hdecorators, h.abstracts, hname, Metadata.memberNames,
    Naming.dropLast_uniqueNames, ← List.map_dropLast,
    Naming.not_mem_uniqueNames_iff _ (by decide) (by decide) (by decide)]

theorem instanceBody_keeps_iff (h : within? room m = .ok b) :
    (instanceBody b).KeepsDecorators ↔
      (∀ label ∈ (namespacesOf m.messages).dropLast, sanitize label ≠ "property") ∧
      (m.constructors ≠ [] →
        (∀ label ∈ namespacesOf m.messages, sanitize label ≠ "staticmethod") ∧
          ∀ e ∈ m.constructors.dropLast, sanitize e.label ≠ "staticmethod") := by
  have hemitted : ∀ f ∈ instanceFunctions b, ∀ d ∈ f.decorators, d ∈ emittedDecorators := by
    intro f hf
    rw [instanceFunctions_eq h] at hf
    simp only [List.mem_append, List.mem_map] at hf
    obtain (⟨n, -, rfl⟩ | ⟨k, -, rfl⟩) | ⟨x, -, rfl⟩ := hf
    · exact List.forall_mem_singleton.mpr (by decide)
    · exact List.forall_mem_singleton.mpr (by decide)
    · exact nofun
  have hassigned : ∀ name ∈ ["Event"], name ∈ ["__slots__", "Event"] := by decide
  have hlabels {labels : List String} {name : String} (hkeyword : name ∉ Naming.keywords)
      (hend : name.toList.getLast? ≠ some '_') (hreserved : name ∉ instanceNames) :
      name ∉ Naming.uniqueNames labels instanceNames ↔ ∀ label ∈ labels, sanitize label ≠ name := by
    have hmap : name ∉ Naming.uniqueNames (labels.map id) instanceNames ↔
        ∀ label ∈ labels, sanitize (id label) ≠ name :=
      Naming.not_mem_uniqueNames_iff id hkeyword hend hreserved
    rwa [List.map_id] at hmap
  have hproperties : "property" ∉ m.propertyNames.dropLast ↔
      ∀ label ∈ (namespacesOf m.messages).dropLast, sanitize label ≠ "property" := by
    rw [Metadata.propertyNames, Naming.dropLast_uniqueNames,
      hlabels (by decide) (by decide) (by decide)]
  have hnamespaces : "staticmethod" ∉ m.propertyNames ↔
      ∀ label ∈ namespacesOf m.messages, sanitize label ≠ "staticmethod" :=
    hlabels (by decide) (by decide) (by decide)
  -- the constructors are named against the properties, so they come second
  have hstatics (hfree : "staticmethod" ∉ m.propertyNames) :
      "staticmethod" ∉ m.constructorNames.dropLast ↔
        ∀ e ∈ m.constructors.dropLast, sanitize e.label ≠ "staticmethod" := by
    have hreserved : "staticmethod" ∉ instanceNames ++ m.propertyNames :=
      fun hmem => (List.mem_append.mp hmem).elim (by decide) hfree
    rw [Metadata.constructorNames, Naming.dropLast_uniqueNames, ← List.map_dropLast,
      Naming.not_mem_uniqueNames_iff _ (by decide) (by decide) hreserved]
  rw [instanceBody_eq h, ClassBody.keepsDecorators_iff hassigned hemitted, handle_iff h,
    hproperties, List.mem_append, not_or, ← hnamespaces]
  exact and_congr_right' (imp_congr_right fun _ => and_congr_right hstatics)

/-- The decorators of implementations mean what they mean in the module. So do those of an interface
exactly if none of its messages but the last one takes the name of the module of abstract classes,
and those of the class of the contract exactly if no namespace but the last one and, where there are
constructors, no namespace at all and no constructor but the last one takes the name of a decorator
that comes behind it. -/
theorem decorators_kept_iff (h : within? room m = .ok b) :
    List.Forall₂ (fun label n => n.label = label ∧ (implementationBody n).KeepsDecorators ∧
        ((interfaceBody n).KeepsDecorators ↔
          ∀ e ∈ (membersOf m.messages label).dropLast, sanitize e.methodName ≠ "abc"))
      (namespacesOf m.messages) b.namespaces ∧
    ((instanceBody b).KeepsDecorators ↔
      (∀ label ∈ (namespacesOf m.messages).dropLast, sanitize label ≠ "property") ∧
      (m.constructors ≠ [] →
        (∀ label ∈ namespacesOf m.messages, sanitize label ≠ "staticmethod") ∧
          ∀ e ∈ m.constructors.dropLast, sanitize e.label ≠ "staticmethod")) :=
  ⟨(namespaceFunctions h).imp fun _ _ hn =>
      ⟨hn.serves.labelled, implementationBody_keeps hn, interfaceBody_keeps_iff hn⟩,
    instanceBody_keeps_iff h⟩

/-- A message, a namespace or a constructor may have the name of a decorator if none of these
decorators comes behind it. -/
def guarded : Metadata :=
  { callableOnly [callable "Trade::buy" [0, 0, 0, 1] true true,
      callable "Trade::abc" [0, 0, 0, 2] false false,
      callable "property::read" [0, 0, 0, 3] false false] with
    constructors := [callable "new" [0, 0, 0, 4] true false,
      callable "staticmethod" [0, 0, 0, 5] true false] }

theorem guarded_keepsDecorators : ∃ b, within? .unbounded guarded = .ok b ∧
    (∀ n ∈ b.namespaces, (interfaceBody n).KeepsDecorators) ∧
    (instanceBody b).KeepsDecorators := by
  obtain ⟨b, hb⟩ : ∃ b, within? .unbounded guarded = .ok b := ⟨_, rfl⟩
  obtain ⟨hnamespaces, hinstance⟩ := decorators_kept_iff hb
  refine ⟨b, hb, fun n hn => ?_, hinstance.mpr ⟨by decide, fun _ => by decide⟩⟩
  obtain ⟨label, hlabel, -, -, hinterface⟩ := forall₂_right hnamespaces hn
  have hlabels : ∀ label ∈ namespacesOf guarded.messages,
      ∀ e ∈ (membersOf guarded.messages label).dropLast, sanitize e.methodName ≠ "abc" := by decide
  exact hinterface.mpr (hlabels label hlabel)

/-- A message has the name of the module of abstract classes, and another one comes behind it. -/
def capturing : Metadata :=
  callableOnly [callable "Trade::abc" [0, 0, 0, 1] true false,
    callable "Trade::buy" [0, 0, 0, 2] true false]

theorem capturing_not_keepsDecorators : ¬ ∀ room m b, within? room m = .ok b →
    ∀ n ∈ b.namespaces, (interfaceBody n).KeepsDecorators := by
  intro h
  obtain ⟨b, hb⟩ : ∃ b, within? .unbounded capturing = .ok b := ⟨_, rfl⟩
  obtain ⟨n, hn, hfunctions⟩ := forall₂_right (namespaceFunctions hb).flip
    (show "Trade" ∈ namespacesOf capturing.messages by decide)
  have hkept := (interfaceBody_keeps_iff hfunctions).mp (h .unbounded capturing b hb n hn)
  exact hkept (callable "Trade::abc" [0, 0, 0, 1] true false) (by decide) (by decide)

end

end InkBindings.Bindings
