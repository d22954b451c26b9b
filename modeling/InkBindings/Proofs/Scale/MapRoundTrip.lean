import InkBindings.Proofs.Scale.KeyForms
import InkBindings.Proofs.Scale.Reencoding

/-!
The round trip of maps. The keys of a dictionary have tuples where reading gives lists, and come
back as they were exactly if making a key fit for a dictionary reaches all lists in it: those in a
tuple are left as they are, and then there is no dictionary at all.
-/

namespace InkBindings.Scale

variable {env : Environment} {key value : Codec} {es : List (Value × Value)}

/-- The entries of a dictionary: values that the codec reads for keys, with tuples for lists, no two
of them equal. -/
structure TupledKeys (env : Environment) (key : Codec) (es : List (Value × Value)) : Prop where
  forms : ∀ e ∈ es, ∃ k, HasForm env key k ∧ e.1 = k.tupled
  differ : Value.KeysDiffer es

/-- Every dictionary of values that make the round trip is written, and is read again with all its
entries and no others. -/
def MapRoundTrip (env : Environment) (key : Codec) : Prop :=
  ∀ value es, env.Sound value → TupledKeys env key es →
    (∀ e ∈ es, ∃ y, RoundTrip env value e.2 y) → es.length < Compact.bound →
    ∃ b es', (Codec.map key value).encode env (.dict es) = .ok b ∧
      (Codec.map key value).decode env b = .ok (.dict es') ∧ es'.Perm es

theorem AllPlain.isMap (h : AllPlain env key) : ∀ d, Reaches env key d → d.isMap = false := by
  intro d hd
  have hd := h d hd
  cases d <;> first | rfl | exact hd.elim

theorem AllPlain.no_reference (h : AllPlain env key) {r : Reference} {P : Prop}
    (hr : Reaches env key (.reference r)) : P := (h _ hr).elim

theorem roundTrip_of_plain (hsound : env.Sound key) (hplain : AllPlain env key) {k : Value}
    {x : Bytes} (h : Wire env True 0 key k x) : RoundTrip env key k x := by
  refine roundTrip_of_wire hsound (fun r _ _ hr _ => hplain.no_reference hr) ?_ h
  rintro r rfl
  exact hplain.no_reference (.refl _)

theorem not_alwaysEmpty_of_plain (hsound : env.Sound key) (hplain : AllPlain env key) {k : Value}
    {x : Bytes} (h : Wire env True 0 key k x) (hne : x ≠ []) : ¬ AlwaysEmpty env key := by
  intro hempty
  have hnil := hempty.2 k (h.hasForm trivial)
  rw [(roundTrip_of_plain hsound hplain h).encode] at hnil
  exact hne (Except.ok.inj hnil)

/-- Plain codecs make the round trip, if the items of sequences have bytes. -/
theorem exists_bytes_of_plain (hsound : env.Sound key) (hplain : AllPlain env key)
    (hitems : ∀ item, Reaches env key (.sequence item) → item = .unit ∨ ¬ AlwaysEmpty env item)
    (hbytes : ¬ AlwaysEmpty env key) :
    ∀ k, HasForm env key k → ∃ x, RoundTrip env key k x ∧ x ≠ [] := by
  intro k hk
  have hcount := itemsCount_of_not_alwaysEmpty hsound
    (fun r _ _ hr _ => hplain.no_reference hr) hitems
  obtain ⟨x, hx⟩ := hk.wire hcount (fun r _ hr _ => hplain.no_reference hr) (.refl key)
  refine ⟨x, roundTrip_of_plain hsound hplain hx, ?_⟩
  rintro rfl
  exact hbytes (alwaysEmpty_of_wire hsound (fun r _ _ hr _ => hplain.no_reference hr) hx)

theorem sound_map (hkey : env.Sound key) (hvalue : env.Sound value) :
    env.Sound (.map key value) := by
  refine .of_parts hkey.room trivial fun d hd => ?_
  obtain rfl | rfl : d = key ∨ d = value := by
    simpa [Environment.partsOf, Codec.parts] using hd
  · exact hkey
  · exact hvalue

/-- A key that is read, and the bytes of an entry with it, for each entry of a dictionary. -/
theorem exists_rowTrip (hhash : ∀ k, HasForm env key k → Tupling k)
    (hkey : ∀ k, HasForm env key k → ∃ x, RoundTrip env key k x ∧ x ≠ [])
    (htupled : TupledKeys env key es) (hvalues : ∀ e ∈ es, ∃ y, RoundTrip env value e.2 y) :
    ∀ e ∈ es, ∃ r row, readEntry r = e ∧ RowTrip env key value r row ∧ row ≠ [] := by
  intro e he
  obtain ⟨k, hk, hekey⟩ := htupled.forms e he
  obtain ⟨x, hx, hne⟩ := hkey k hk
  obtain ⟨y, hy⟩ := hvalues e he
  refine ⟨(k, e.2), x ++ y, ?_, ⟨x, y, hx, hy, rfl⟩, by simp [hne]⟩
  have hkey : Decoder.hashableKey k = e.1 := (hhash k hk).trans hekey.symm
  rw [readEntry, hkey]

theorem length_le_flatten {rows : List Bytes} (h : ∀ row ∈ rows, row ≠ []) :
    rows.length ≤ rows.flatten.length := by
  induction rows with
  | nil => simp
  | cons row rest ih =>
      have hfirst := List.length_pos_iff.mpr (h row List.mem_cons_self)
      have hrest := ih fun r hr => h r (List.mem_cons_of_mem _ hr)
      simp only [List.length_cons, List.flatten_cons, List.length_append]
      omega

theorem TupledKeys.isHashable (hplain : AllPlain env key)
    (h : TupledKeys env key es) : ∀ e ∈ es, e.1.isHashable = true := by
  intro e he
  obtain ⟨k, hk, heq⟩ := h.forms e he
  exact heq ▸ hk.isHashable_tupled hplain

section
variable (hsound : env.Sound key) (hplain : AllPlain env key)
  (hkey : ∀ k, HasForm env key k → ∃ x, RoundTrip env key k x ∧ x ≠ [])

include hsound hplain hkey

theorem mapRoundTrip_of_hashableKey
    (hhash : ∀ k, HasForm env key k → Tupling k) : MapRoundTrip env key := by
  intro value es hvalue htupled hvalues hlen
  have hrowOf {r : Value × Value} {row : Bytes} (h : RowTrip env key value r row) :
      RowOf env key value (readEntry r) row := h.rowOf hsound.room (AllPlain.isMap hplain)
  have htrips := exists_rowTrip hhash hkey htupled hvalues
  have hwritten : ∀ e ∈ es, ∃ x, key.encode env e.1 = .ok x := by
    intro e he
    obtain ⟨r, row, rfl, htrip, -⟩ := htrips e he
    obtain ⟨x, -, hx, -⟩ := hrowOf htrip
    exact ⟨x, hx⟩
  obtain ⟨listed, hperm, hsorted⟩ :=
    exists_sorted hsound.room hwritten (Nat.lt_succ_of_lt (Nat.lt_succ_self _))
  -- what is read, and the row it is read from, for the entries in the order of the wire
  obtain ⟨trips, htrips⟩ : ∃ trips : List ((Value × Value) × Bytes), List.Forall₂
      (fun e p => readEntry p.1 = e ∧ RowTrip env key value p.1 p.2 ∧ p.2 ≠ []) listed trips :=
    exists_forall₂ fun e he => by
      obtain ⟨r, row, h⟩ := htrips e (hperm.mem_iff.mp he)
      exact ⟨(r, row), h⟩
  have hread : listed = (trips.map (·.1)).map readEntry := by
    rw [List.map_map, ← List.map_id listed]
    exact map_eq_map_iff_forall₂.mpr (htrips.imp fun _ _ h => h.1.symm)
  have hrows : List.Forall₂ (RowTrip env key value) (trips.map (·.1)) (trips.map (·.2)) := by
    rw [List.forall₂_map_left_iff, List.forall₂_map_right_iff, List.forall₂_same]
    intro p hp
    obtain ⟨e, -, h⟩ := forall₂_right htrips hp
    exact h.2.1
  have hcount : es.length = (trips.map (·.1)).length := by
    rw [← hperm.length_eq, hread, List.length_map]
  have hfits : (trips.map (·.1)).length ≤ (trips.map (·.2)).flatten.length := by
    rw [hrows.length_eq]
    refine length_le_flatten (List.forall_mem_map.mpr fun p hp => ?_)
    obtain ⟨e, -, h⟩ := forall₂_right htrips hp
    exact h.2.2
  have hrowsOf : List.Forall₂ (RowOf env key value) listed (trips.map (·.2)) := by
    rw [hread, List.forall₂_map_left_iff]
    exact hrows.imp fun _ _ => hrowOf
  have hdict : Value.dictOf? listed = some (.dict listed) := by
    have hhashable := htupled.isHashable hplain
    refine Value.dictOf_of_keysDiffer (fun e he => hhashable e (hperm.mem_iff.mp he)) ?_
    exact htupled.differ.perm hhashable hperm.symm
  refine ⟨_, listed, encode_map_of_sorted hsound.room hperm hlen hrowsOf hsorted, ?_, hperm⟩
  rw [hcount, decode_map_of_rows (sound_map hsound hvalue) (hcount ▸ hlen) hrows, if_pos hfits,
    ← hread, Decoder.mapOf, hdict, Option.getD_some]

theorem hashableKey_of_mapRoundTrip (h : MapRoundTrip env key) {k : Value}
    (hk : HasForm env key k) : Tupling k := by
  have hroom := hsound.room
  obtain ⟨x, hx, hne⟩ := hkey k hk
  have hunit : env.Sound .unit := .of_parts hroom trivial (List.forall_mem_nil _)
  have hnone : RoundTrip env .unit .none [] :=
    roundTrip_of_wire hunit (fun r _ _ hr _ => by cases hr with | step hpart => cases hpart) nofun
      .unit
  have htrip : RowTrip env key .unit (k, .none) (x ++ []) := ⟨x, [], hx, hnone, rfl⟩
  have hrow : RowOf env key .unit (k.tupled, .none) (x ++ []) :=
    ⟨x, [], Codec.encode_loosened hroom (AllPlain.isMap hplain) (tupled_loosened k) hx.encode,
      hnone.encode, rfl⟩
  have hlen : [(k.tupled, Value.none)].length < Compact.bound := Compact.lt_bound (by simp)
  obtain ⟨b, es', hencode, hdecode, hperm⟩ := h .unit [(k.tupled, .none)] hunit
    ⟨by simpa using ⟨k, hk, rfl⟩, List.pairwise_singleton _ _⟩ (by simpa using ⟨_, hnone⟩) hlen
  obtain rfl := List.perm_singleton.mp hperm
  rw [encode_map_of_sorted hroom (.refl _) hlen (.cons hrow .nil)
    (Encoder.sortEntries_of_pairwise (List.pairwise_singleton _ _))] at hencode
  obtain rfl := Except.ok.inj hencode
  have hsame := (eq_of_decode_rows (sound_map hsound hunit) (.cons htrip .nil) hlen hdecode rfl).1
  exact (Prod.mk.inj (List.cons.inj hsame).1).1.symm

end

/-- Maps with plain keys make the round trip exactly if no tuple in their keys has a list in it. -/
theorem mapRoundTrip_iff (hsound : env.Sound key) (hplain : AllPlain env key)
    (hitems : ∀ item, Reaches env key (.sequence item) → item = .unit ∨ ¬ AlwaysEmpty env item)
    (hbytes : ¬ AlwaysEmpty env key) :
    MapRoundTrip env key ↔ key.hasFlatTuples = true := by
  have hkey := exists_bytes_of_plain hsound hplain hitems hbytes
  rw [← tupling_iff hsound hplain]
  exact ⟨fun h k hk => hashableKey_of_mapRoundTrip hsound hplain hkey h hk,
    mapRoundTrip_of_hashableKey hsound hplain hkey⟩

/-! ### Lists as keys, and in tuples -/

def numbersKey : Codec := .sequence .u8

def numberedKey : Codec := .tuple [.u8, numbersKey]

theorem numberedKey_nodes {c : Codec} (h : Reaches .empty numberedKey c) :
    c = numberedKey ∨ c = numbersKey ∨ c = .u8 := by
  have hmem : c ∈ [numberedKey, numbersKey, .u8] := Reaches.mem_of_closed List.mem_cons_self
    (by simp [Environment.partsOf, Codec.parts, numberedKey, numbersKey, Codec.u8]) h
  simpa using hmem

theorem numberedKey_sound : Environment.Sound .empty numberedKey := by
  refine ⟨rfl, fun c hc => ?_⟩
  obtain rfl | rfl | rfl := numberedKey_nodes hc <;> trivial

theorem numberedKey_plain : AllPlain .empty numberedKey := by
  intro c hc
  obtain rfl | rfl | rfl := numberedKey_nodes hc <;> trivial

theorem wire_one (pad : Nat) :
    Wire .empty True pad .u8 (.int 1) (Encoder.integerBytes ⟨false, .w8⟩ 1) :=
  .int (by decide) (by decide)

theorem wire_noNumbers (pad : Nat) :
    Wire .empty True pad numbersKey (.list []) (Compact.encode 0 ++ []) :=
  .sequence (Compact.lt_bound (by decide)) (.inr (Nat.zero_le _)) .nil

theorem numberedKey_items {item : Codec} (h : Reaches .empty numberedKey (.sequence item)) :
    item = .unit ∨ ¬ AlwaysEmpty .empty item := by
  have hitem : item = .u8 := by simpa [numberedKey, numbersKey, Codec.u8] using numberedKey_nodes h
  subst hitem
  have hreach : Reaches .empty numberedKey .u8 := h.first
  exact .inr (not_alwaysEmpty_of_plain (numberedKey_sound.of_reaches hreach)
    (numberedKey_plain.of_part List.mem_cons_self) (wire_one 0) (integerBytes_ne_nil _ _))

theorem numbersKey_part : numbersKey ∈ Environment.partsOf .empty numberedKey :=
  List.mem_cons_of_mem _ List.mem_cons_self

theorem numbersKey_mapRoundTrip : MapRoundTrip .empty numbersKey := by
  have hreach : Reaches .empty numberedKey numbersKey := .part numbersKey_part
  have hsound := numberedKey_sound.of_reaches hreach
  have hplain := numberedKey_plain.of_part numbersKey_part
  refine (mapRoundTrip_iff hsound hplain
    (fun item hitem => numberedKey_items (hreach.trans hitem)) ?_).mpr rfl
  exact not_alwaysEmpty_of_plain hsound hplain (wire_noNumbers 0) (by simp [Compact.encode_ne_nil])

/-- A list in a tuple is left as it is. -/
theorem not_mapRoundTrip_numberedKey : ¬ ∀ env key, Environment.Sound env key → AllPlain env key →
    (∀ item, Reaches env key (.sequence item) → item = .unit ∨ ¬ AlwaysEmpty env item) →
    ¬ AlwaysEmpty env key → MapRoundTrip env key := by
  intro h
  have hwire : Wire .empty True 0 numberedKey (.tuple [.int 1, .list []])
      (Encoder.integerBytes ⟨false, .w8⟩ 1 ++ (Compact.encode 0 ++ [] ++ [])) :=
    .tuple (.cons (wire_one 0) (.cons (wire_noNumbers 0) .nil))
  have hbytes := not_alwaysEmpty_of_plain numberedKey_sound numberedKey_plain hwire
    (by simp [integerBytes_ne_nil])
  have hkey := exists_bytes_of_plain numberedKey_sound numberedKey_plain
    (fun _ => numberedKey_items) hbytes
  have htrip := h .empty numberedKey numberedKey_sound numberedKey_plain
    (fun _ => numberedKey_items) hbytes
  have htupling := hashableKey_of_mapRoundTrip numberedKey_sound numberedKey_plain hkey htrip
    (hwire.hasForm trivial)
  cases tupling_tuple_iff.mp htupling (.list []) (by simp)

end InkBindings.Scale
