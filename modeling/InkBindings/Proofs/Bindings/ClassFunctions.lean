import InkBindings.Proofs.Bindings.ClassText

/-!
The functions of the classes for the entry points of a contract, as the texts of the classes have
them, and what their decorators go by: a function hides a name from the decorators below it.
-/

namespace InkBindings.Bindings

open Naming (isNameChar)

/-! ### Reading classes -/

/-- What a class begins with. -/
def classHead (name base docstring : String) : String :=
  "class " ++ name ++ "(" ++ base ++ "):\n    \"\"\"" ++ docstring ++ "\"\"\"\n"

/-- The functions of a class, from its text after the head. -/
def functionsAfter (head block : String) : List Function :=
  functionsOf (String.ofList (block.toList.drop head.length))

def instanceHead (b : Bindings) : String :=
  classHead "Instance" "ContractInstance"
    ("Handle to one deployed " ++ ((shownName? b.contractName).map quotedName).getD "ink!" ++
      " contract.")

def interfaceHead (n : Namespace) : String :=
  classHead n.interface "abc.ABC" ("Messages of the ``" ++ n.label ++ "`` namespace.")

def implementationHead (n : Namespace) : String :=
  classHead n.implementation n.interface
    ("``" ++ n.label ++ "`` messages bound to one contract instance.")

def instanceFunctions (b : Bindings) : List Function :=
  functionsAfter (instanceHead b) (instanceText b)

def interfaceFunctions (n : Namespace) : List Function :=
  functionsAfter (interfaceHead n) (interfaceText n)

def implementationFunctions (n : Namespace) : List Function :=
  functionsAfter (implementationHead n) (implementationText n)

/-- The function by which an implementation makes its instances. -/
def initializer : Function :=
  ⟨[], "def __init__(self, account_id: AccountId) -> None:", ["    self.account_id = account_id"]⟩

theorem functionsAfter_append (head body : String) :
    functionsAfter head (head ++ body) = functionsOf body := by
  have hdrop : (head ++ body).toList.drop head.length = body.toList := by
    rw [String.toList_append]
    exact List.drop_left
  rw [functionsAfter, hdrop, String.ofList_toList]

theorem instanceText_eq (b : Bindings) :
    instanceText b = instanceHead b ++ Text.unlines ["", "    Event = event.Event",
      memberBlock (b.namespaces.map propertyText ++ b.constructors.map constructorText ++
        b.messages.map messageText)] := by
  rw [instanceText, ← String.toList_inj]
  simp [instanceHead, classHead, Text.unlines, toString]

theorem interfaceText_eq (n : Namespace) :
    interfaceText n = interfaceHead n ++ memberBlock (n.signatures.map signatureText) := by
  rw [interfaceText, ← String.toList_inj]
  simp [interfaceHead, classHead, Text.unlines, toString]

theorem implementationText_eq (n : Namespace) :
    implementationText n = implementationHead n ++ Text.unlines ["",
      "    __slots__ = (\"account_id\",)", "",
      "    def __init__(self, account_id: AccountId) -> None:",
      "        self.account_id = account_id", memberBlock (n.messages.map messageText)] := by
  rw [implementationText, ← String.toList_inj]
  simp [implementationHead, classHead, Text.unlines, toString]

theorem instanceFunctions_of_members {b : Bindings} {fs : List Function}
    (h : List.Forall₂ IsMember (b.namespaces.map propertyText ++
      b.constructors.map constructorText ++ b.messages.map messageText) fs) :
    instanceFunctions b = fs := by
  have hmembers := (functionsOf_memberBlock h).1
  rw [functionsOf] at hmembers
  rw [instanceFunctions, instanceText_eq, functionsAfter_append, functionsOf,
    Text.lines_unlines (by simp), List.flatMap_cons, List.flatMap_cons, List.flatMap_singleton,
    Text.lines_of_not_mem (by decide), Text.lines_of_not_mem (by decide)]
  simp only [List.map_cons, List.cons_append, List.nil_append]
  rw [Function.readFrom, if_neg (by decide), if_neg (by decide), Function.readFrom,
    if_neg (by decide), if_neg (by decide), hmembers]

theorem interfaceFunctions_of_members {n : Namespace} {fs : List Function}
    (h : List.Forall₂ IsMember (n.signatures.map signatureText) fs) :
    interfaceFunctions n = fs := by
  rw [interfaceFunctions, interfaceText_eq, functionsAfter_append]
  exact (functionsOf_memberBlock h).1

/-- The function that an implementation is written with comes before its members. -/
theorem readFrom_initializer {rest : List String} (hclosed : IsClosed rest) :
    Function.readFrom [] (initializer.line :: initializer.body ++ rest) =
      initializer :: Function.readFrom [] rest := by
  have hbody : ∀ l ∈ initializer.body, IsBodyLine l := by
    intro l hl
    obtain rfl := List.mem_singleton.mp hl
    exact ⟨by decide, by decide⟩
  have htake : ((initializer.body ++ rest).takeWhile Text.isInner).filter (· ≠ "") =
      initializer.body := by
    rw [List.takeWhile_append_of_pos fun l hl => (hbody l hl).inner, List.filter_append, hclosed]
    decide
  rw [List.cons_append, Function.readFrom, if_neg (by decide), if_pos (by decide), htake,
    Function.readFrom_inner hbody]
  rfl

theorem implementationFunctions_of_members {n : Namespace} {fs : List Function}
    (h : List.Forall₂ IsMember (n.messages.map messageText) fs) :
    implementationFunctions n = initializer :: fs := by
  obtain ⟨hmembers, hclosed⟩ := functionsOf_memberBlock h
  rw [functionsOf] at hmembers
  rw [implementationFunctions, implementationText_eq, functionsAfter_append, functionsOf,
    Text.lines_unlines (by simp)]
  simp only [List.flatMap_cons, List.flatMap_nil, List.append_nil]
  rw [Text.lines_of_not_mem (by decide), Text.lines_of_not_mem (by decide),
    Text.lines_of_not_mem (by decide), Text.lines_of_not_mem (by decide)]
  simp only [List.map_cons, List.cons_append, List.nil_append]
  rw [Function.readFrom, if_neg (by decide), if_neg (by decide), Function.readFrom,
    if_neg (by decide), if_neg (by decide), Function.readFrom, if_neg (by decide),
    if_neg (by decide)]
  exact (readFrom_initializer hclosed).trans (congrArg _ hmembers)

/-! ### Decorators -/

def Function.names (fs : List Function) : List String :=
  fs.map (·.name)

/-- The name that a decorator begins with. -/
def decoratorName (d : String) : String :=
  String.ofList ((d.toList.drop 1).takeWhile isNameChar)

/-- A decorator is what the module has under its name if no function above it has the name. -/
def Function.Undisturbed (fs : List Function) : Prop :=
  fs.Pairwise fun above f => ∀ d ∈ f.decorators, above.name ≠ decoratorName d

namespace Function

/-- Functions with one decorator each are disturbed by the names of all but the last. -/
theorem undisturbed_iff {fs : List Function} {d : String} (h : ∀ f ∈ fs, f.decorators = [d]) :
    Undisturbed fs ↔ decoratorName d ∉ (names fs).dropLast := by
  induction fs with
  | nil => exact ⟨fun _ => List.not_mem_nil, fun _ => .nil⟩
  | cons f rest ih =>
      have hrest := ih fun g hg => h g (List.mem_cons_of_mem _ hg)
      have hcons : Undisturbed (f :: rest) ↔
          (∀ g ∈ rest, f.name ≠ decoratorName d) ∧ Undisturbed rest := by
        rw [Undisturbed, List.pairwise_cons]
        refine and_congr_left' (forall₂_congr fun g hg => ?_)
        rw [h g (List.mem_cons_of_mem _ hg), List.forall_mem_singleton]
      rw [hcons, hrest]
      cases rest with
      | nil => exact ⟨fun _ => List.not_mem_nil, fun _ => ⟨nofun, List.not_mem_nil⟩⟩
      | cons g more =>
          have hnames : (names (f :: g :: more)).dropLast =
              f.name :: (names (g :: more)).dropLast := rfl
          -- only the first name is new: the others are those above something in the rest
          rw [hnames, List.mem_cons, not_or, eq_comm]
          exact and_congr_left' ⟨fun hall => hall g List.mem_cons_self, fun hne _ _ => hne⟩

/-- Functions without decorators are not disturbed. -/
theorem undisturbed_append_plain {fs gs : List Function} (h : ∀ g ∈ gs, g.decorators = []) :
    Undisturbed (fs ++ gs) ↔ Undisturbed fs := by
  have hnone : ∀ (f : Function), ∀ g ∈ gs, ∀ d ∈ g.decorators, f.name ≠ decoratorName d := by
    intro f g hg d hd
    rw [h g hg] at hd
    cases hd
  rw [Undisturbed, List.pairwise_append]
  exact ⟨And.left, fun hfs =>
    ⟨hfs, List.pairwise_of_forall_mem_list fun f _ => hnone f, fun f _ => hnone f⟩⟩

/-- Functions with a decorator are not disturbed by others with another one, and these above them,
if none of the names that are above a decorator is its own. -/
theorem undisturbed_append_iff {fs gs : List Function} {d d' : String}
    (hfs : ∀ f ∈ fs, f.decorators = [d]) (hgs : ∀ g ∈ gs, g.decorators = [d']) :
    Undisturbed (fs ++ gs) ↔ decoratorName d ∉ (names fs).dropLast ∧
      (gs ≠ [] → decoratorName d' ∉ names fs ++ (names gs).dropLast) := by
  have hacross : (∀ f ∈ fs, ∀ g ∈ gs, ∀ d ∈ g.decorators, f.name ≠ decoratorName d) ↔
      (gs ≠ [] → decoratorName d' ∉ names fs) := by
    constructor
    · intro hall hne hmem
      obtain ⟨g, hg⟩ := List.exists_mem_of_ne_nil gs hne
      obtain ⟨f, hf, hname⟩ := List.mem_map.mp hmem
      exact hall f hf g hg d' (hgs g hg ▸ List.mem_singleton_self d') hname
    · intro hnot f hf g hg d hd hname
      rw [hgs g hg] at hd
      obtain rfl := List.mem_singleton.mp hd
      exact hnot (List.ne_nil_of_mem hg) (List.mem_map.mpr ⟨f, hf, hname⟩)
  have hbelow : Undisturbed gs ↔ (gs ≠ [] → decoratorName d' ∉ (names gs).dropLast) := by
    rw [undisturbed_iff hgs]
    cases gs with
    | nil => exact ⟨fun _ => nofun, fun _ => List.not_mem_nil⟩
    | cons g rest => exact ⟨fun h _ => h, fun h => h (List.cons_ne_nil g rest)⟩
  calc Undisturbed (fs ++ gs)
      ↔ Undisturbed fs ∧ Undisturbed gs ∧
          ∀ f ∈ fs, ∀ g ∈ gs, ∀ d ∈ g.decorators, f.name ≠ decoratorName d := List.pairwise_append
    _ ↔ _ := by
        rw [undisturbed_iff hfs, hbelow, hacross, ← imp_and, List.mem_append, not_or]
        exact and_congr_right' (imp_congr_right fun _ => and_comm)

end Function

end InkBindings.Bindings
