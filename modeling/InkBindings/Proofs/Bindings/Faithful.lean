import InkBindings.Proofs.Bindings.PlainTypes
import InkBindings.Proofs.Bindings.Unfolding
import InkBindings.Proofs.Metadata.Declarations

/-!
The emitted codecs are those of the contract's types. One step of unfolding a codec expression in
the emitted blocks is one step of following the id of its type in the registry, and so both have
the same shape to every depth.
-/

namespace InkBindings

namespace Metadata

def Definition.alternatives : Definition → List Alternative
  | .variant alternatives => alternatives
  | _ => []

end Metadata

open Metadata in
/-- Alternatives of one name have one index, whichever entries of a path they are in. -/
def Metadata.IndicesAgree (m : Metadata) : Prop :=
  ∀ e ∈ m.types, ∀ e' ∈ m.types, e.kind = .custom → e'.kind = .custom → e.path = e'.path →
    ∀ a ∈ e.definition.alternatives, ∀ a' ∈ e'.definition.alternatives,
      a.name = a'.name → a.index = a'.index

namespace Bindings

open Metadata (TypeId TypeEntry Declaration Registry)
open Naming (IsName)

theorem mem_entries_iff {r : Registry} {reserved path : List String} {d : Declaration}
    (h : (r.declarations reserved).find? (·.path = path) = some d) {e : TypeEntry} :
    e ∈ d.entries ↔ e ∈ r.entries ∧ e.kind = .custom ∧ e.path = path := by
  rw [Metadata.Registry.entries_of_find h]
  simp only [List.mem_filter, decide_eq_true_eq, and_assoc]

/-! ### Simulation -/

theorem plain_of_within {room : Room} {m : Metadata} {b : Bindings} (h : within? room m = .ok b)
    (hids : ∀ e ∈ m.types, 0 ≤ e.id) : ∀ made ∈ b.declared, made.Plain := by
  have hs : (Scope.ofMetadata room m).Plain :=
    ⟨fun d hd => Metadata.Registry.isName_of_mem_declarations hd, hids⟩
  intro made hmem
  obtain ⟨d, hd, hmade⟩ := forall₂_right (made_of_within h) hmem
  exact hmade.plain hs hd fun e he =>
    Metadata.Registry.mem_entries_of_mem_declarations hd he

/-- What has been made can be read again in the blocks. -/
theorem finds_of_made {room : Room} {m : Metadata} {b : Bindings} (h : within? room m = .ok b)
    (hids : ∀ e ∈ m.types, 0 ≤ e.id) (hnames : (typeNames b.declared).Nodup)
    {d : Declaration} (hd : d ∈ (Scope.ofMetadata room m).declarations) :
    ∃ made ∈ b.declared, Made (Scope.ofMetadata room m) d made ∧
      Finds (Emitted.ofBlocks (typeBlocks b.declared)) made := by
  have hmade := made_of_within h
  have hplain := plain_of_within h hids
  obtain ⟨made, hmem, hmade⟩ := forall₂_right hmade.flip hd
  refine ⟨made, hmem, hmade, ?_, ?_, ?_⟩
  · exact fun l hl => kind_of_layout hplain hnames hmem hl
  · exact fun l hl => bound_of_layout hplain hnames hmem hl
  · exact fun a ha => index_of_alternative hplain hnames hmem ha

theorem sameShape_declared {room : Room} {m : Metadata} {b : Bindings} (h : within? room m = .ok b)
    (hids : ∀ e ∈ m.types, 0 ≤ e.id) (hindices : m.IndicesAgree)
    (hnames : (typeNames b.declared).Nodup) {shape? : TypeId → Option WireShape}
    {codecShape? : Phrase → Option WireShape}
    (hcodec : ∀ id c, (Scope.ofMetadata room m).codec id = .ok c → SameShape shape? codecShape? id c)
    {e : TypeEntry} (he : e ∈ m.types) (hkind : e.kind = .custom) {d : Declaration}
    (hd : (Scope.ofMetadata room m).declaration? e = some d) :
    ∃ shape, Metadata.ownShape? shape? e.definition = some shape ∧
      (Emitted.ofBlocks (typeBlocks b.declared)).boundShape? codecShape?
        (referenceName (entryReference d e.id)) = some shape := by
  obtain ⟨made, -, hmade, hfinds⟩ := finds_of_made h hids hnames (List.mem_of_find?_eq_some hd)
  have hentry : e ∈ d.entries := (mem_entries_iff hd).mpr ⟨he, hkind, rfl⟩
  obtain ⟨hfirst, hfirstKind, hfirstPath⟩ :=
    (mem_entries_iff hd).mp (show d.first ∈ d.entries from List.mem_cons_self)
  obtain ⟨l, hl, hreference, hlayout⟩ := forall₂_right hmade.layouts.flip hentry
  rw [← hreference]
  refine exists_ownShape hcodec hfinds hl (hmade.kinds l hl) hlayout ?_
  intro alternatives hdefinition b hb a ha hlabel
  obtain ⟨-, firsts, hfirsts, first, hmem, hname, hindex⟩ := hmade.alternatives a ha
  rw [← hindex]
  refine hindices d.first hfirst e he hfirstKind hkind hfirstPath first ?_ b ?_
    (hname.trans hlabel)
  · rw [hfirsts]
    exact hmem
  · rw [hdefinition]
    exact hb

theorem referenceName_ne_langError {d : Declaration} (hd : d.name ∉ moduleNames) (id : TypeId) :
    referenceName (entryReference d id) ≠ "InkLangError" := by
  intro heq
  simp only [entryReference] at heq
  split at heq
  · have hhead : ("_" ++ d.name ++ "_" ++ toString id).toList.head? = some 'I' :=
      congrArg (fun name : String => name.toList.head?) heq
    simp at hhead
  · have hname : d.name = "InkLangError" := heq
    rw [hname] at hd
    exact hd (by decide)

/-- Both sides have one shape to every depth, whatever room a codec was found with. -/
theorem sameShape_of_codecWithin {room : Room} {m : Metadata} {b : Bindings}
    (h : within? room m = .ok b) (hids : ∀ e ∈ m.types, 0 ≤ e.id) (hindices : m.IndicesAgree)
    (hnames : (typeNames b.declared).Nodup) {depth steps : Nat} {room' : Room} {id : TypeId}
    {c : Scale.Codec} (hc : (Scope.ofMetadata room m).codecWithin steps room' id = .ok c) :
    SameShape (Registry.wireShape? ⟨m.types⟩ depth)
      ((Emitted.ofBlocks (typeBlocks b.declared)).codecShape? depth) id c := by
  induction depth generalizing steps room' id c with
  | zero => exact ⟨.cut, rfl, rfl⟩
  | succ depth ih =>
      obtain ⟨_, _, e, he, -, hcodec⟩ := Scope.codecWithin_ok hc
      refine sameShape_of_codecOf (fun _ _ hsub => ih hsub) he (fun d hkind hd => ?_) hcodec
      have hmem : d ∈ (Scope.ofMetadata room m).declarations := List.mem_of_find?_eq_some hd
      have hentry : e ∈ m.types := List.mem_of_find?_eq_some he
      obtain ⟨shape, hshape, hbound⟩ :=
        sameShape_declared h hids hindices hnames (fun _ _ hsub => ih hsub) hentry hkind hd
      refine ⟨shape, hshape, ?_⟩
      rw [declaredCodec_eq, codecPhrase, String.empty_append, unfold_declared, hbound]
      · exact isName_entryReference (Registry.isName_of_mem_declarations hmem)
          (hids e hentry)
      · exact referenceName_ne_langError
          (Registry.not_reserved_of_mem_declarations hmem) e.id

/-- Chains of pairs, with pairs of numbers and of chains. -/
def chains : Metadata where
  codeHash := []
  types := [⟨0, .primitive (.int ⟨false, .w8⟩), [], [], []⟩,
    ⟨1, .composite (.named [("left", ⟨0, none, []⟩), ("right", ⟨3, none, []⟩)]), ["chain", "Pair"],
      [⟨"T", some 0⟩], []⟩,
    ⟨2, .composite (.named [("left", ⟨3, none, []⟩), ("right", ⟨3, none, []⟩)]), ["chain", "Pair"],
      [⟨"T", some 3⟩], []⟩,
    ⟨3, .variant [⟨"End", 0, .positional [], []⟩,
        ⟨"Link", 7, .positional [⟨1, none, []⟩, ⟨2, none, []⟩], []⟩],
      ["chain", "Chain"], [], []⟩]
  constructors := []
  messages := []
  events := []
  name := none

/-- The codec of the instantiation of the pair at an id. -/
def pairCodec (key : String) : Scale.Codec :=
  .reference (.instantiation key "Pair")

def chainCodec : Scale.Codec :=
  .reference (.declared "Chain")

def chainBindings : Bindings where
  contractName := none
  codeHash := []
  declared :=
    [⟨"Pair", [], .record [⟨"left", .any, .int ⟨false, .w8⟩, []⟩,
        ⟨"right", .declared "Chain" [], chainCodec, []⟩],
      [(.instantiation "_Pair_1" "Pair",
          .record [("left", .int ⟨false, .w8⟩), ("right", chainCodec)]),
        (.instantiation "_Pair_2" "Pair",
          .record [("left", chainCodec), ("right", chainCodec)])]⟩,
      ⟨"Chain", [], .sum [⟨"End", 0, "_Chain_End", [], []⟩,
        ⟨"Link", 7, "_Chain_Link", [⟨"_0", .declared "Pair" [.int], pairCodec "_Pair_1", []⟩,
          ⟨"_1", .declared "Pair" [.declared "Chain" []], pairCodec "_Pair_2", []⟩], []⟩],
      [(.declared "Chain", .sum [("_Chain_End", []),
        ("_Chain_Link", [("_0", pairCodec "_Pair_1"), ("_1", pairCodec "_Pair_2")])])]⟩]
  events := []
  namespaces := []
  constructors := []
  messages := []

def cutChain : WireShape :=
  .sum [(0, []), (7, [.record [.cut, .cut], .record [.cut, .cut]])]

end Bindings
end InkBindings
