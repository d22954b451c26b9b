import InkBindings.Proofs.Scale.Placed
import InkBindings.Proofs.Scale.RoundTrip
import InkBindings.Proofs.Scale.WritingLevels
import InkBindings.Proofs.Value.Dictionary

/-!
Dictionaries as maps. What a dictionary is written as does not show in which order its entries were
added, unless two of its keys have an order in which neither comes before the other.
-/

namespace InkBindings

namespace Value

theorem depthOfEntries_perm {es es' : List (Value × Value)} (h : es.Perm es') :
    depthOfEntries es = depthOfEntries es' := by
  induction h with
  | nil => rfl
  | cons e _ ih => rw [depthOfEntries, depthOfEntries, ih]
  | swap e e' es =>
      simp only [depthOfEntries]
      exact Nat.max_left_comm ..
  | trans _ _ ih ih' => exact ih.trans ih'

theorem depth_le_of_entry {e : Value × Value} {es : List (Value × Value)} (h : e ∈ es) :
    e.1.depth ≤ depthOfEntries es ∧ e.2.depth ≤ depthOfEntries es := by
  induction es with
  | nil => cases h
  | cons first rest ih =>
      rw [depthOfEntries]
      rcases List.mem_cons.mp h with rfl | hmem
      · omega
      · have hle := ih hmem
        omega

end Value

namespace Scale

namespace Encoder
variable {key value : Encoder} {es es' : List (Value × Value)}

/-- An entry of a dictionary as it is sorted. -/
def ofEntry (e : Value × Value) : Keyed := (e.1, [e.1, e.2])

theorem mapM_withKey (es : List (Value × Value)) :
    (es.map fun e => [e.1, e.2]).mapM withKey = .ok (es.map ofEntry) := by
  induction es with
  | nil => rfl
  | cons e rest ih =>
      rw [List.map_cons, List.mapM_cons, ih]
      rfl

/-- A dictionary is written like any other value that has these entries. -/
theorem map_of_entries (key value : Encoder) {v : Value}
    (h : entriesOf v = .ok (es.map fun e => [e.1, e.2])) :
    map key value v =
      match sortEntries key (es.map ofEntry) with
      | .error e => throw e
      | .ok sorted =>
        (do Compact.encodeValue (.int sorted.length); allEntries key value sorted) := by
  have hkeyed := mapM_withKey es
  simp only [map, h]
  generalize (es.map fun e => [e.1, e.2]).mapM withKey = keyed at hkeyed ⊢
  subst hkeyed
  rfl

theorem map_dict (key value : Encoder) (es : List (Value × Value)) :
    map key value (.dict es) =
      match sortEntries key (es.map ofEntry) with
      | .error e => throw e
      | .ok sorted =>
        (do Compact.encodeValue (.int sorted.length); allEntries key value sorted) :=
  map_of_entries key value rfl

theorem map_congr (h : Sortable key (es.map ofEntry)) (hperm : es.Perm es') :
    map key value (.dict es) = map key value (.dict es') := by
  rw [map_dict, map_dict, sortEntries_congr h (hperm.map _)]

end Encoder

open Encoder (Sortable ofEntry)

/-- The entries have different keys, which the codec writes as different bytes. -/
structure KeysApart (env : Environment) (key : Codec) (es : List (Value × Value)) : Prop where
  hashable : ∀ e ∈ es, e.1.isHashable = true
  differ : Value.KeysDiffer es
  written : ∀ e ∈ es, ∃ b, key.encode env e.1 = .ok b
  distinct : es.Pairwise fun a b => key.encode env a.1 ≠ key.encode env b.1

variable {env : Environment} {key value : Codec} {es es' : List (Value × Value)} {level : Nat}

theorem keyBytes_of_encode (hroom : env.room = .unbounded) {k : Value} {b : Bytes}
    (h : key.encode env k = .ok b) (hlevel : k.depth < level) :
    Encoder.keyBytes (env.writing level key) k = .ok b := by
  have hrun := Codec.writes_at_level hroom h hlevel []
  simp only [Encoder.keyBytes]
  rw [show Buffer.empty = .ofBytes [] from rfl, hrun]
  simp

theorem KeysApart.sortable (h : KeysApart env key es) (hroom : env.room = .unbounded)
    (hdecided : es.Pairwise fun a b => ¬ Value.Undecided a.1 b.1)
    (hlevel : Value.depthOfEntries es < level) :
    Sortable (env.writing level key) (es.map ofEntry) := by
  have hbytes {e : Value × Value} (he : e ∈ es) :
      Encoder.keyBytes (env.writing level key) e.1 = key.encode env e.1 := by
    obtain ⟨b, hb⟩ := h.written e he
    rw [hb, keyBytes_of_encode hroom hb
      (Nat.lt_of_le_of_lt (Value.depth_le_of_entry he).1 hlevel)]
  refine ⟨?_, ?_, ?_, ?_⟩
  · exact List.forall_mem_map.mpr fun e he => Value.dictless_of_hashable _ (h.hashable e he)
  · exact List.forall_mem_map.mpr fun e he => by simpa [ofEntry, hbytes he] using h.written e he
  · refine List.pairwise_map.mpr (List.Pairwise.imp_of_mem ?_ h.distinct)
    intro a b ha hb hne
    simpa [ofEntry, hbytes ha, hbytes hb] using hne
  · exact List.pairwise_map.mpr hdecided

/-- No codec that refuses what is not its own takes two keys that are told apart by their bytes but
not by their order. -/
theorem KeysApart.decided (h : KeysApart env key es) (hroom : env.room = .unbounded)
    (hkey : env.Discerning key) : es.Pairwise fun a b => ¬ Value.Undecided a.1 b.1 := by
  have hplaced {e : Value × Value} (he : e ∈ es) : Value.Placed e.1 := by
    obtain ⟨b, hb⟩ := h.written e he
    exact Environment.writing_takesPlaced hkey _ _
      (.of_writes (Codec.writes_at_level hroom hb (Nat.lt_succ_self _)))
  refine List.Pairwise.imp_of_mem ?_ h.differ
  intro a b ha hb hne
  exact Value.not_undecided_of_placed (Value.dictless_of_hashable _ (h.hashable a ha))
    (Value.dictless_of_hashable _ (h.hashable b hb)) (hplaced ha) (hplaced hb) hne

/-- The order in which entries were added does not show, if of each two keys that have an order one
comes first. -/
theorem encode_map_congr (hroom : env.room = .unbounded) (h : KeysApart env key es)
    (hdecided : es.Pairwise fun a b => ¬ Value.Undecided a.1 b.1) (hperm : es.Perm es') :
    (Codec.map key value).encode env (.dict es) = (Codec.map key value).encode env (.dict es') := by
  have hdepth : Value.depth (.dict es) = Value.depth (.dict es') := by
    rw [Value.depth, Value.depth, Value.depthOfEntries_perm hperm]
  have hlevel : Value.depthOfEntries es < Value.depth (.dict es) + 1 := by
    rw [Value.depth]
    omega
  have hsortable := h.sortable hroom hdecided hlevel
  rw [Codec.encode, Codec.encode, Environment.encodeTo_eq_writing hroom,
    Environment.encodeTo_eq_writing hroom, ← hdepth]
  exact congrArg Codec.bytesOf (Encoder.map_congr hsortable hperm)

/-! ### Where the order shows -/

/-- The bytes of an entry: those of its key, and behind them those of its value. -/
def RowOf (env : Environment) (key value : Codec) (e : Value × Value) (row : Bytes) : Prop :=
  ∃ x y, key.encode env e.1 = .ok x ∧ value.encode env e.2 = .ok y ∧ row = x ++ y

theorem writes_allEntries (hroom : env.room = .unbounded) {rows : List Bytes}
    (h : List.Forall₂ (RowOf env key value) es rows) (hlevel : Value.depthOfEntries es < level) :
    Writes (Encoder.allEntries (env.writing level key) (env.writing level value)
      (es.map fun e => [e.1, e.2])) rows.flatten := by
  induction h with
  | nil => exact .nothing
  | @cons e row es rows hrow _ ih =>
      obtain ⟨x, y, hx, hy, rfl⟩ := hrow
      rw [Value.depthOfEntries] at hlevel
      exact .append
        (.append (Codec.writes_at_level hroom hx (by omega))
          (Codec.writes_at_level hroom hy (by omega)))
        (ih (by omega))

/-- Entries are written as their number and the bytes of each of them, as they are sorted. -/
theorem encode_of_sorted (hroom : env.room = .unbounded) {v : Value}
    (hentries : Encoder.entriesOf v = .ok (es.map fun e => [e.1, e.2]))
    (hdepth : Value.depthOfEntries es ≤ v.depth) {listed : List (Value × Value)}
    (hperm : listed.Perm es) (hlen : es.length < Compact.bound) {rows : List Bytes}
    (hrows : List.Forall₂ (RowOf env key value) listed rows)
    (hsorted : Encoder.sortEntries (env.writing (v.depth + 1) key)
      (es.map ofEntry) = .ok (listed.map fun e => [e.1, e.2])) :
    (Codec.map key value).encode env v = .ok (Compact.encode es.length ++ rows.flatten) := by
  refine Codec.encode_of_writing hroom ?_
  change Writes (Encoder.map (env.writing _ key) (env.writing _ value) v) _
  rw [Encoder.map_of_entries _ _ hentries, hsorted]
  simp only [List.length_map, hperm.length_eq]
  refine .append (Compact.writes_encodeValue hlen) (writes_allEntries hroom hrows ?_)
  rw [Value.depthOfEntries_perm hperm]
  omega

/-- A dictionary is written as the number of its entries and the bytes of these, as they are
sorted. -/
theorem encode_map_of_sorted (hroom : env.room = .unbounded) {listed : List (Value × Value)}
    (hperm : listed.Perm es) (hlen : es.length < Compact.bound) {rows : List Bytes}
    (hrows : List.Forall₂ (RowOf env key value) listed rows)
    (hsorted : Encoder.sortEntries (env.writing (Value.depth (.dict es) + 1) key)
      (es.map ofEntry) = .ok (listed.map fun e => [e.1, e.2])) :
    (Codec.map key value).encode env (.dict es) =
      .ok (Compact.encode es.length ++ rows.flatten) :=
  encode_of_sorted hroom rfl (Nat.le_succ _) hperm hlen hrows hsorted

/-- Two entries stay as they are if neither key comes before the other. -/
theorem encode_pair_of_undecided (hroom : env.room = .unbounded) {e e' : Value × Value}
    {row row' : Bytes} (hrow : RowOf env key value e row) (hrow' : RowOf env key value e' row')
    (hno : Value.less? e'.1 e.1 = some false) :
    (Codec.map key value).encode env (.dict [e, e']) =
      .ok (Compact.encode 2 ++ [row, row'].flatten) := by
  have hlen : [e, e'].length < Compact.bound := Compact.lt_bound (by simp)
  refine encode_map_of_sorted hroom (.refl _) hlen (.cons hrow (.cons hrow' .nil)) ?_
  exact Encoder.sortEntries_of_pairwise (by simpa [ofEntry] using hno)

/-- The order in which entries are added to a dictionary never shows in what it is written as. -/
def OrderFree (env : Environment) (key : Codec) : Prop :=
  ∀ value es es', KeysApart env key es → es.Perm es' → ∀ b,
    (Codec.map key value).encode env (.dict es) = .ok b ↔
      (Codec.map key value).encode env (.dict es') = .ok b

theorem not_undecided_of_orderFree (hroom : env.room = .unbounded) (hfree : OrderFree env key)
    (h : KeysApart env key es) : es.Pairwise fun a b => ¬ Value.Undecided a.1 b.1 := by
  refine List.pairwise_iff_forall_sublist.mpr fun {a b} hsub hno => ?_
  have hmem : a ∈ es ∧ b ∈ es := ⟨hsub.subset (by simp), hsub.subset (by simp)⟩
  obtain ⟨x, hx⟩ := h.written a hmem.1
  obtain ⟨y, hy⟩ := h.written b hmem.2
  -- the same keys, with values that are written as different bytes
  have hapart : KeysApart env key [(a.1, .int 0), (b.1, .int 1)] := by
    have hdiffer := List.pairwise_iff_forall_sublist.mp h.differ hsub
    have hdistinct := List.pairwise_iff_forall_sublist.mp h.distinct hsub
    exact ⟨by simpa using ⟨h.hashable a hmem.1, h.hashable b hmem.2⟩, List.pairwise_pair.mpr hdiffer,
      by simpa using ⟨⟨x, hx⟩, ⟨y, hy⟩⟩, by simpa using hdistinct⟩
  have hrow : RowOf env key .u8 (a.1, .int 0) (x ++ [0]) := ⟨x, [0], hx, rfl, rfl⟩
  have hrow' : RowOf env key .u8 (b.1, .int 1) (y ++ [1]) := ⟨y, [1], hy, rfl, rfl⟩
  have hsame := (hfree .u8 _ _ hapart (.swap _ _ _) _).mp
    (encode_pair_of_undecided hroom hrow hrow' hno.2)
  rw [encode_pair_of_undecided hroom hrow' hrow hno.1] at hsame
  have hlast := congrArg List.getLast? (Except.ok.inj hsame)
  simp [List.getLast?_cons] at hlast

/-- The one alternative of the sum has the label of the operation that writes its values, and two
fields for what the operation is given. -/
def taking : Environment where
  shapes := [("E", .sum [⟨"encode_to", some 0, [⟨"value", none⟩, ⟨"buffer", none⟩]⟩])]
  instantiations := []
  layouts := [(.declared "E", .sum [⟨"encode_to", 0, [("value", .u8), ("buffer", .u8)]⟩])]

def takingKey : Codec := .tuple [.reference (.declared "E"), .u8]

def takenKey (x : Binary64) (n : Int) : Value := .tuple [.float x, .int n]

end Scale
end InkBindings
