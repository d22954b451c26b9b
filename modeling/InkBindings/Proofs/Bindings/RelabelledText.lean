import InkBindings.Proofs.Bindings.CompleteText
import InkBindings.Proofs.Bindings.QuotedText

/-!
Bindings that differ in nothing but the name of the contract and labels. Where these can stand in
their literals, the text of the bindings has the same tokens.
-/

namespace InkBindings.Bindings

open Naming (IsName)
open Text (indent unlines)

/-! ### Labels -/

/-- The two are the same but for their labels. -/
def Alternative.Relabelled (a a' : Alternative) : Prop :=
  a' = { a with label := a'.label }

inductive Shape.Relabelled : Shape → Shape → Prop
  | record (rows : List Row) : Relabelled (.record rows) (.record rows)
  | sum {as as' : List Alternative} : List.Forall₂ Alternative.Relabelled as as' →
      Relabelled (.sum as) (.sum as')

structure DeclaredType.Relabelled (t t' : DeclaredType) : Prop where
  name : t'.name = t.name
  docs : t'.docs = t.docs
  shape : t.shape.Relabelled t'.shape
  layouts : t'.layouts = t.layouts

def Namespace.Relabelled (n n' : Namespace) : Prop :=
  n' = { n with label := n'.label }

/-- The two are the same but for the name of the contract and the labels in them. -/
structure Relabelled (b b' : Bindings) : Prop where
  codeHash : b'.codeHash = b.codeHash
  declared : List.Forall₂ DeclaredType.Relabelled b.declared b'.declared
  events : List.Forall₂ Alternative.Relabelled b.events b'.events
  namespaces : List.Forall₂ Namespace.Relabelled b.namespaces b'.namespaces
  constructors : b'.constructors = b.constructors
  messages : b'.messages = b.messages

/-- The name of the contract and all labels can stand in their literals. -/
structure Enclosed (b : Bindings) : Prop where
  name : ∀ name ∈ b.contractName, IsEnclosed name
  declared : ∀ t ∈ b.declared, ∀ a ∈ t.alternatives, IsLabel a.label
  events : ∀ a ∈ b.events, IsLabel a.label
  namespaces : ∀ n ∈ b.namespaces, IsEnclosed n.label

/-! ### Alternatives -/

/-- The decorator of an alternative, behind the margin and the name of its base. -/
def labelLine (before label : String) (index : Int) : String :=
  before ++ ("\"" ++ label ++ "\"" ++ (", " ++ toString index ++ ")"))

theorem alike_labelLine {before label label' : String} (hbefore : IsComplete before)
    (hlabel : IsLabel label) (hlabel' : IsLabel label') (index : Int) :
    Alike (labelLine before label index) (labelLine before label' index) := by
  have hcomma : IsPlain ", " := isPlain_ofList rfl
  have hclosing : IsPlain ")" := isPlain_ofList rfl
  have hindex := isPlain_append.mpr
    ⟨isPlain_append.mpr ⟨hcomma, isPlain_number index⟩, hclosing⟩
  refine alike_quoted hbefore hlabel hlabel' hindex fun hempty => ?_
  have hends := (String.append_eq_empty_iff.mp hempty).2
  simp at hends

/-- What stands in front of the label of an alternative. -/
def decoratorOf (base : String) : String :=
  "@" ++ base ++ ".alternative("

theorem isComplete_decoratorOf {base : String} (h : IsName base) :
    IsComplete (decoratorOf base) := by
  have hat : IsComplete "@" := isComplete_ofList rfl
  have hcall : IsComplete ".alternative(" := isComplete_ofList rfl
  exact (hat.append (isComplete_name h)).append hcall

theorem alternativeText_eq (qualifier base : String) (a : Alternative) :
    alternativeText qualifier base a = unlines [labelLine (decoratorOf base) a.label a.index,
      "@dataclass(frozen=True)", s!"class {a.className}({base}):",
      recordBody qualifier a.docs a.rows] := by
  have hline : s!"@{base}.alternative(\"{a.label}\", {a.index})" =
      labelLine (decoratorOf base) a.label a.index := by
    rw [← String.toList_inj]
    simp [labelLine, decoratorOf, toString]
  rw [alternativeText, hline]

/-- The decorator stands on one line, which is shifted as it is. -/
theorem indent_labelLine {base label : String} (hbase : IsName base) (hlabel : IsLabel label)
    (index : Int) : indent (labelLine (decoratorOf base) label index) =
      labelLine (Text.margin ++ decoratorOf base) label index := by
  have hindex : '\n' ∉ index.repr.toList := fun hmem => by
    have hplain := (plainChar_iff.mp (isPlain_number index _ hmem)).lineEnd
    cases hplain
  have hline : '\n' ∉ (labelLine (decoratorOf base) label index).toList := by
    simp [labelLine, decoratorOf, newline_not_mem_name hbase, hlabel.line, hindex]
  have hblank : (labelLine (decoratorOf base) label index).toList.all Text.isBlank = false :=
    List.all_eq_false.mpr ⟨'@', by simp [labelLine, decoratorOf], by decide⟩
  rw [Text.indent_of_line hline hblank]
  simp only [labelLine, String.append_assoc]

section
variable {qualifier base : String} (hbase : IsName base) {a a' : Alternative}
  (ha : a.Complete qualifier) (hlabel : IsLabel a.label) (hlabel' : IsLabel a'.label)
  (h : a.Relabelled a')
include hbase ha hlabel hlabel' h

theorem alike_alternativeText :
    Alike (alternativeText qualifier base a) (alternativeText qualifier base a') := by
  have hdataclass : IsComplete "@dataclass(frozen=True)" := isComplete_ofList rfl
  have hclass : IsComplete "class " := isComplete_ofList rfl
  have hopening : IsComplete "(" := isComplete_ofList rfl
  have hclosing : IsComplete "):" := isComplete_ofList rfl
  rw [alternativeText_eq, alternativeText_eq, h]
  exact alike_unlines (.cons (alike_labelLine (isComplete_decoratorOf hbase) hlabel hlabel' _)
    (.cons hdataclass.alike
      (.cons ((((hclass.append (isComplete_name ha.className)).append hopening).append
        (isComplete_name hbase)).append hclosing).alike
          (.cons (returns_recordBody ha.rows _) .nil))))

/-- Alternatives of events are written one level further to the right. -/
theorem alike_indent_alternativeText :
    Alike (indent (alternativeText qualifier base a))
      (indent (alternativeText qualifier base a')) := by
  have hmargin : IsComplete Text.margin := rfl
  have hdataclass : IsComplete "@dataclass(frozen=True)" := isComplete_ofList rfl
  have hclass : IsComplete "class " := isComplete_ofList rfl
  have hopening : IsComplete "(" := isComplete_ofList rfl
  have hclosing : IsComplete "):" := isComplete_ofList rfl
  have hline :=
    alike_labelLine (hmargin.append (isComplete_decoratorOf hbase)) hlabel hlabel' a.index
  rw [alternativeText_eq, alternativeText_eq, h, indent_unlines (List.cons_ne_nil _ _),
    indent_unlines (List.cons_ne_nil _ _)]
  simp only [List.map_cons, List.map_nil, indent_labelLine hbase hlabel,
    indent_labelLine hbase hlabel']
  exact alike_unlines (.cons hline (.cons hdataclass.alike.indent
    (.cons (((((hclass.append (isComplete_name ha.className)).append hopening).append
      (isComplete_name hbase)).append hclosing).alike.indent)
        (.cons (returns_recordBody ha.rows _).indent .nil))))

end

/-! ### Blocks -/

theorem alike_memberBlock {members members' : List String}
    (h : List.Forall₂ (fun m m' => Alike (indent m) (indent m')) members members') :
    Alike (memberBlock members) (memberBlock members') := by
  refine alike_unlines ?_
  rw [List.forall₂_map_left_iff, List.forall₂_map_right_iff]
  exact h.imp fun _ _ hm => isComplete_empty.alike.append hm

theorem alike_declaredBlocks {t t' : DeclaredType} (ht : t.Complete)
    (hlabels : ∀ a ∈ t.alternatives, IsLabel a.label)
    (hlabels' : ∀ a ∈ t'.alternatives, IsLabel a.label) (h : t.Relabelled t') :
    List.Forall₂ Alike (declaredBlocks t) (declaredBlocks t') := by
  obtain ⟨name, docs, shape, layouts⟩ := t
  obtain ⟨name', docs', shape', layouts'⟩ := t'
  obtain ⟨rfl, rfl, hshape, rfl⟩ := h
  have hrows := ht.shape
  cases hshape with
  | record rows => exact .cons (returns_recordText ht.name docs' hrows) .nil
  | @sum as as' hsame =>
      refine .cons (returns_sumText ht.name docs') ?_
      rw [List.forall₂_map_left_iff, List.forall₂_map_right_iff]
      exact forall₂_imp_of_mem hsame fun a ha a' ha' h =>
        alike_alternativeText ht.name (hrows a ha) (hlabels a ha) (hlabels' a' ha') h

theorem alike_eventText {as as' : List Alternative}
    (hcomplete : ∀ a ∈ as, a.Complete moduleQualifier) (hlabels : ∀ a ∈ as, IsLabel a.label)
    (hlabels' : ∀ a ∈ as', IsLabel a.label)
    (h : List.Forall₂ Alternative.Relabelled as as') : Alike (eventText as) (eventText as') := by
  have hclass : IsComplete "class event:" := isComplete_ofList rfl
  have hdoc : IsComplete "    \"\"\"Events emitted by the contract.\"\"\"" := isComplete_ofList rfl
  have hinner : IsComplete "    class Event(scale.Enum):" := isComplete_ofList rfl
  have hinnerDoc : IsComplete
    "        \"\"\"One alternative per contract event, in declaration order.\"\"\"" :=
    isComplete_ofList rfl
  have hcall : IsComplete "    Event.layout(" := isComplete_ofList rfl
  have hclosing : IsComplete ")" := isComplete_ofList rfl
  have hmembers : List.Forall₂ (fun m m' => Alike (indent m) (indent m'))
      (as.map (alternativeText moduleQualifier eventClass))
      (as'.map (alternativeText moduleQualifier eventClass)) := by
    rw [List.forall₂_map_left_iff, List.forall₂_map_right_iff]
    exact forall₂_imp_of_mem h fun a ha a' ha' hsame =>
      alike_indent_alternativeText isName_eventClass (hcomplete a ha) (hlabels a ha)
        (hlabels' a' ha') hsame
  have hlayout : eventLayout as' = eventLayout as := by
    refine congrArg Layout.sum (map_eq_map_iff_forall₂.mpr (h.flip.imp fun a' a ha => ?_))
    rw [ha]
  have hfields : IsComplete (layoutText moduleQualifier (eventLayout as)) := by
    refine isComplete_sumText fun row hrow => ?_
    obtain ⟨a, ha, rfl⟩ := List.mem_map.mp hrow
    exact ⟨(hcomplete a ha).className, completeFields_layoutOf (hcomplete a ha).rows⟩
  simp only [eventText, hlayout]
  exact alike_unlines (.cons hclass.alike (.cons hdoc.alike (.cons isComplete_empty.alike
    (.cons hinner.alike (.cons hinnerDoc.alike (.cons (alike_memberBlock hmembers)
      (.cons ((hcall.append hfields).append hclosing).alike .nil)))))))

section
variable {n n' : Namespace} (hn : n.Complete) (hlabel : IsEnclosed n.label)
  (hlabel' : IsEnclosed n'.label) (h : n.Relabelled n')
include hn hlabel hlabel' h

theorem alike_interfaceText : Alike (interfaceText n) (interfaceText n') := by
  have hclass : IsComplete "class " := isComplete_ofList rfl
  have hbase : IsComplete "(abc.ABC):" := isComplete_ofList rfl
  have hmargin : IsComplete Text.margin := rfl
  have hbefore : IsPlain "Messages of the " := isPlain_ofList rfl
  have hafter : IsPlain " namespace." := isPlain_ofList rfl
  have hcontent {label : String} (hlabel : IsEnclosed label) :
      IsContent ("Messages of the " ++ ("``" ++ label ++ "``") ++ " namespace.") :=
    (hbefore.isContent.append hlabel.isContent).append hafter.isContent
  have hdoc (label : String) : s!"    \"\"\"Messages of the ``{label}`` namespace.\"\"\"" =
      Text.margin ++ literal ("Messages of the " ++ ("``" ++ label ++ "``") ++ " namespace.") := by
    rw [← String.toList_inj]
    simp [literal, tripleQuote, Text.margin, toString]
  have hmembers : ∀ m ∈ n.signatures.map signatureText, Returns m := by
    intro m hm
    obtain ⟨s, hs, rfl⟩ := List.mem_map.mp hm
    exact (hn.signatures s hs).returns_text
  rw [interfaceText, interfaceText, hdoc, hdoc, h]
  exact alike_unlines (.cons ((hclass.append (isComplete_name hn.interface)).append hbase).alike
    (.cons (alike_literal hmargin (hcontent hlabel) (hcontent hlabel'))
      (.cons (returns_memberBlock hmembers) .nil)))

theorem alike_implementationText : Alike (implementationText n) (implementationText n') := by
  have hclass : IsComplete "class " := isComplete_ofList rfl
  have hopening : IsComplete "(" := isComplete_ofList rfl
  have hclosing : IsComplete "):" := isComplete_ofList rfl
  have hslots : IsComplete "    __slots__ = (\"account_id\",)" := isComplete_ofList rfl
  have hinit : IsComplete "    def __init__(self, account_id: AccountId) -> None:" :=
    isComplete_ofList rfl
  have hset : IsComplete "        self.account_id = account_id" := isComplete_ofList rfl
  have hmargin : IsComplete Text.margin := rfl
  have hafter : IsPlain " messages bound to one contract instance." := isPlain_ofList rfl
  have hcontent {label : String} (hlabel : IsEnclosed label) :
      IsContent ("``" ++ label ++ "``" ++ " messages bound to one contract instance.") :=
    hlabel.isContent.append hafter.isContent
  have hdoc (label : String) :
      s!"    \"\"\"``{label}`` messages bound to one contract instance.\"\"\"" = Text.margin ++
        literal ("``" ++ label ++ "``" ++ " messages bound to one contract instance.") := by
    rw [← String.toList_inj]
    simp [literal, tripleQuote, Text.margin, toString]
  have hmembers : ∀ m ∈ n.messages.map messageText, Returns m := by
    intro m hm
    obtain ⟨x, hx, rfl⟩ := List.mem_map.mp hm
    exact (hn.messages x hx).returns_text
  rw [implementationText, implementationText, hdoc, hdoc, h]
  exact alike_unlines (.cons ((((hclass.append (isComplete_name hn.implementation)).append
      hopening).append (isComplete_name hn.interface)).append hclosing).alike
    (.cons (alike_literal hmargin (hcontent hlabel) (hcontent hlabel'))
    (.cons isComplete_empty.alike (.cons hslots.alike (.cons isComplete_empty.alike
    (.cons hinit.alike (.cons hset.alike (.cons (returns_memberBlock hmembers) .nil))))))))

end

/-! ### The name of the contract -/

theorem isContent_shown {contractName : Option String} (h : ∀ name ∈ contractName, IsEnclosed name)
    {shown : String → String} (hshown : ∀ name, IsEnclosed name → IsContent (shown name))
    {other : String} (hother : IsContent other) :
    IsContent (((shownName? contractName).map shown).getD other) := by
  cases hname : shownName? contractName with
  | none => exact hother
  | some name => exact hshown name (h name (Option.filter_eq_some_iff.mp hname).1)

section
variable {b b' : Bindings} (hname : ∀ name ∈ b.contractName, IsEnclosed name)
  (hname' : ∀ name ∈ b'.contractName, IsEnclosed name)
include hname hname'

theorem alike_instanceText (hb : b.Complete) (h : b.Relabelled b') :
    Alike (instanceText b) (instanceText b') := by
  have hclass : IsComplete "class Instance(ContractInstance):" := isComplete_ofList rfl
  have hevent : IsComplete "    Event = event.Event" := isComplete_ofList rfl
  have hmargin : IsComplete Text.margin := rfl
  have hbefore : IsPlain "Handle to one deployed " := isPlain_ofList rfl
  have hafter : IsPlain " contract." := isPlain_ofList rfl
  have hother : IsPlain "ink!" := isPlain_ofList rfl
  let title (b : Bindings) := ((shownName? b.contractName).map quotedName).getD "ink!"
  have hcontent {b : Bindings} (hname : ∀ name ∈ b.contractName, IsEnclosed name) :
      IsContent ("Handle to one deployed " ++ title b ++ " contract.") :=
    (hbefore.isContent.append (isContent_shown hname (fun _ h => h.isContent)
      hother.isContent)).append hafter.isContent
  have hdoc (title : String) : s!"    \"\"\"Handle to one deployed {title} contract.\"\"\"" =
      Text.margin ++ literal ("Handle to one deployed " ++ title ++ " contract.") := by
    rw [← String.toList_inj]
    simp [literal, tripleQuote, Text.margin, toString]
  have hproperties : b'.namespaces.map propertyText = b.namespaces.map propertyText :=
    map_eq_map_iff_forall₂.mpr (h.namespaces.flip.imp fun n' n hn => by rw [hn]; rfl)
  have hmembers : ∀ m ∈ b.namespaces.map propertyText ++ b.constructors.map constructorText ++
      b.messages.map messageText, Returns m := by
    intro m hm
    simp only [List.mem_append, List.mem_map] at hm
    obtain (⟨n, hn, rfl⟩ | ⟨k, hk, rfl⟩) | ⟨x, hx, rfl⟩ := hm
    · exact (hb.namespaces n hn).returns_property
    · exact (hb.constructors k hk).returns_text
    · exact (hb.messages x hx).returns_text
  simp only [instanceText, hdoc, hproperties, h.constructors, h.messages]
  exact alike_unlines (.cons hclass.alike
    (.cons (alike_literal hmargin (hcontent hname) (hcontent hname'))
    (.cons isComplete_empty.alike (.cons hevent.alike
    (.cons (returns_memberBlock hmembers) .nil)))))

theorem alike_headerText (h : b'.codeHash = b.codeHash) :
    Alike (headerText b) (headerText b') := by
  have hbefore : IsPlain "Typed bindings for the " := isPlain_ofList rfl
  have hafter : IsPlain "ink! contract." := isPlain_ofList rfl
  have hblank : IsPlain " " := isPlain_ofList rfl
  have hother : IsPlain "" := isPlain_ofList rfl
  have hclosing : IsPlain ")" := isPlain_ofList rfl
  have hhash : IsComplete "CODE_HASH = bytes.fromhex(" := isComplete_ofList rfl
  let title (b : Bindings) :=
    ((shownName? b.contractName).map fun name => quotedName name ++ " ").getD ""
  have hcontent {b : Bindings} (hname : ∀ name ∈ b.contractName, IsEnclosed name) :
      IsContent ("Typed bindings for the " ++ title b ++ "ink! contract.") :=
    (hbefore.isContent.append (isContent_shown hname
      (fun _ h => h.isContent.append hblank.isContent) hother.isContent)).append hafter.isContent
  have hdoc (title : String) : s!"\"\"\"Typed bindings for the {title}ink! contract.\"\"\"" =
      "" ++ literal ("Typed bindings for the " ++ title ++ "ink! contract.") := by
    rw [← String.toList_inj]
    simp [literal, tripleQuote, toString]
  have hline : s!"CODE_HASH = bytes.fromhex(\"{Hex.encode b.codeHash}\")" =
      "CODE_HASH = bytes.fromhex(" ++ ("\"" ++ Hex.encode b.codeHash ++ "\"" ++ ")") := by
    rw [← String.toList_inj]
    simp [toString]
  have hquoted := isComplete_quoted (isPlain_encode b.codeHash).isLabel hclosing
    (.inr (by decide))
  simp only [headerText, hdoc, h, hline]
  refine alike_unlines (.cons (alike_literal isComplete_empty (hcontent hname) (hcontent hname'))
    (List.forall₂_same.mpr ?_))
  -- The imports are the same for all contracts.
  iterate 16 refine List.forall_mem_cons.mpr ⟨(isComplete_ofList rfl).alike, ?_⟩
  exact List.forall_mem_singleton.mpr (hhash.append hquoted).alike

end

/-! ### The module -/

theorem returns_uploadText (path : String) : Returns (uploadText path) := by
  have hjoin : IsComplete
      "_WASM_PATH = os.path.join(os.path.dirname(os.path.abspath(__file__)), " :=
    isComplete_ofList rfl
  have hclosing : IsPlain ")" := isPlain_ofList rfl
  have hpath := (hjoin.append (isComplete_quote (s := path) hclosing (by decide))).alike
  refine alike_unlines (.cons hpath (List.forall₂_same.mpr ?_))
  iterate 6 refine List.forall_mem_cons.mpr ⟨(isComplete_ofList rfl).alike, ?_⟩
  exact List.forall_mem_singleton.mpr ((isComplete_ofList rfl).alike)

theorem returns_statementBlocks {t : List DeclaredType} (h : ∀ d ∈ t, d.Complete) :
    ∀ block ∈ statementBlock ((t.flatMap (·.layouts)).filterMap codecStatement?) ++
      statementBlock ((t.flatMap (·.layouts)).map bindingStatement), Returns block := by
  have hlayouts : ∀ l ∈ t.flatMap (·.layouts), CompleteLayout l := by
    intro l hl
    obtain ⟨d, hd, hl⟩ := List.mem_flatMap.mp hl
    exact (h d hd).layouts l hl
  intro block hblock
  obtain hblock | hblock := List.mem_append.mp hblock
  · refine returns_statementBlock (fun s hs => ?_) block hblock
    obtain ⟨l, hl, hs⟩ := List.mem_filterMap.mp hs
    exact (hlayouts l hl).returns_codec hs
  · refine returns_statementBlock (fun s hs => ?_) block hblock
    obtain ⟨l, hl, rfl⟩ := List.mem_map.mp hs
    exact (hlayouts l hl).returns_binding

section
variable {b b' : Bindings} (hb : b.Complete) (he : b.Enclosed) (he' : b'.Enclosed)
  (h : b.Relabelled b')
include hb he he' h

theorem alike_typeBlocks : List.Forall₂ Alike (typeBlocks b.declared) (typeBlocks b'.declared) := by
  have hlayouts : b'.declared.flatMap (·.layouts) = b.declared.flatMap (·.layouts) := by
    rw [List.flatMap_def, List.flatMap_def]
    exact congrArg List.flatten
      (map_eq_map_iff_forall₂.mpr (h.declared.flip.imp fun t' t ht => ht.layouts))
  have hblocks : List.Forall₂ Alike (b.declared.flatMap declaredBlocks)
      (b'.declared.flatMap declaredBlocks) := by
    refine List.rel_flatMap (forall₂_imp_of_mem h.declared fun t ht t' ht' hsame =>
      And.intro hsame (And.intro (hb.declared t ht)
        (And.intro (he.declared t ht) (he'.declared t' ht')))) ?_
    rintro t t' ⟨hsame, hcomplete, hlabels, hlabels'⟩
    exact alike_declaredBlocks hcomplete hlabels hlabels' hsame
  simp only [typeBlocks, hlayouts, List.append_assoc]
  exact List.rel_append hblocks (List.forall₂_same.mpr (returns_statementBlocks hb.declared))

theorem alike_blocks (options : PrintOptions) :
    List.Forall₂ Alike (blocks b options) (blocks b' options) := by
  have hheader := alike_headerText he.name he'.name h.codeHash
  have hfirst : Alike
      (if options.banner then unlines [bannerLine, headerText b] else headerText b)
      (if options.banner then unlines [bannerLine, headerText b'] else headerText b') := by
    split
    · exact alike_unlines (.cons returns_bannerLine (.cons hheader .nil))
    · exact hheader
  have hevents := alike_eventText hb.events he.events he'.events h.events
  have hnamespaces : List.Forall₂ Alike
      (b.namespaces.flatMap fun n => [interfaceText n, implementationText n])
      (b'.namespaces.flatMap fun n => [interfaceText n, implementationText n]) := by
    refine List.rel_flatMap (forall₂_imp_of_mem h.namespaces fun n hn n' hn' hsame =>
      And.intro hsame (And.intro (hb.namespaces n hn)
        (And.intro (he.namespaces n hn) (he'.namespaces n' hn')))) ?_
    rintro n n' ⟨hsame, hcomplete, hlabel, hlabel'⟩
    exact .cons (alike_interfaceText hcomplete hlabel hlabel' hsame)
      (.cons (alike_implementationText hcomplete hlabel hlabel' hsame) .nil)
  have hupload : ∀ block ∈ (options.wasmPath.map uploadText).toList, Returns block := by
    intro block hblock
    obtain ⟨path, -, rfl⟩ := Option.map_eq_some_iff.mp (Option.mem_toList.mp hblock)
    exact returns_uploadText path
  have hinstance := alike_instanceText he.name he'.name hb h
  exact List.rel_append (List.rel_append (List.rel_append (List.rel_append
    (.cons hfirst (alike_typeBlocks hb he he' h)) (.cons hevents .nil)) hnamespaces)
    (.cons hinstance .nil)) (List.forall₂_same.mpr hupload)

/-- Where the name of the contract and all labels can stand in their literals, they make no
difference to the tokens of the module. -/
theorem tokens_of_relabelled (options : PrintOptions) :
    tokens (text b options) = tokens (text b' options) := by
  have hall : ∀ {ls ls' : List String}, List.Forall₂ Alike ls ls' →
      Alike ("\n\n\n".intercalate ls) ("\n\n\n".intercalate ls') := by
    intro ls ls' hls
    induction hls with
    | nil => exact isComplete_empty.alike
    | @cons l l' ls ls' hl hls ih =>
        cases hls with
        | nil => simpa using hl
        | @cons k k' rest rest' =>
            have hcons (l k : String) (rest : List String) :
                "\n\n\n".intercalate (l :: k :: rest) =
                  l ++ "\n" ++
                    ("" ++ "\n" ++ ("" ++ "\n" ++ "\n\n\n".intercalate (k :: rest))) := by
              rw [String.intercalate_cons_cons, ← String.toList_inj]
              simp
            rw [hcons, hcons]
            exact hl.append (isComplete_empty.alike.append (isComplete_empty.alike.append ih))
  exact (hall (alike_blocks hb he he' h options)).same

end

end InkBindings.Bindings
