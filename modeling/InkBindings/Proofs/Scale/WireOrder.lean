import InkBindings.Proofs.Scale.MapOrder

/-!
The order in which the entries of a dictionary stand on the wire. It is that of the keys if all of
them have one, and else that of their bytes, so that it depends on which other keys there are.
-/

namespace InkBindings.Scale

open Encoder (AllComparable GoesFirst Keyed ofEntry)

variable {env : Environment} {key value : Codec} {es es' listed : List (Value × Value)}
  {k k' : Value} {b x y : Bytes}

/-- The entries as they stand on the wire: behind their number, each with its bytes. -/
structure ListedAs (env : Environment) (key value : Codec) (es listed : List (Value × Value))
    (b : Bytes) : Prop where
  perm : listed.Perm es
  encode : (Codec.map key value).encode env (.dict es) = .ok b
  rows : ∃ rows, List.Forall₂ (RowOf env key value) listed rows ∧
    b = Compact.encode es.length ++ rows.flatten

/-- An entry with the one key stands before an entry with the other. -/
def KeyBefore (listed : List (Value × Value)) (k k' : Value) : Prop :=
  ∃ v v', [(k, v), (k', v')].Sublist listed

/-- Among these entries the one key comes before the other: by their order if all keys have one,
and else by the order of their bytes. -/
def KeyOrder (env : Environment) (key : Codec) (es : List (Value × Value)) (k k' : Value) : Prop :=
  AllComparable es ∧ Value.less? k k' = some true ∨
    ¬ AllComparable es ∧ ∃ x y, key.encode env k = .ok x ∧ key.encode env k' = .ok y ∧
      Value.lessBytes x y = true

theorem KeysApart.keyOrder_asymm (h : KeysApart env key es) {e e' : Value × Value} (he : e ∈ es)
    (he' : e' ∈ es) (hfirst : KeyOrder env key es e.1 e'.1) :
    ¬ KeyOrder env key es e'.1 e.1 := by
  rintro (⟨hall, hback⟩ | ⟨hall, x, y, hx, hy, hback⟩)
  · have hyes := (hfirst.resolve_right fun hno => hno.1 hall).2
    have hno := (Value.of_less (Value.dictless_of_hashable _ (h.hashable e he))
      (Value.dictless_of_hashable _ (h.hashable e' he')) hyes).2
    simp [hback] at hno
  · obtain ⟨-, y', x', hy', hx', hless⟩ := hfirst.resolve_left fun hyes => hall hyes.1
    obtain rfl := Except.ok.inj (hx.symm.trans hx')
    obtain rfl := Except.ok.inj (hy.symm.trans hy')
    simp [lessBytes_asymm hless] at hback

theorem keyOrder_of_goesFirst (h : KeysApart env key es) (hroom : env.room = .unbounded)
    {level : Nat} (hlevel : Value.depthOfEntries es < level) {e e' : Value × Value} (he : e ∈ es)
    (he' : e' ∈ es)
    (hfirst : GoesFirst (env.writing level key) (es.map ofEntry) (ofEntry e) (ofEntry e')) :
    KeyOrder env key es e.1 e'.1 := by
  have hall : AllComparable (es.map ofEntry) ↔ AllComparable es := List.pairwise_map
  have hbytes {e : Value × Value} (he : e ∈ es) :
      key.encode env e.1 = .ok (Encoder.bytesOf (env.writing level key) (ofEntry e)) := by
    obtain ⟨b, hb⟩ := h.written e he
    have hkey := keyBytes_of_encode hroom hb
      (Nat.lt_of_le_of_lt (Value.depth_le_of_entry he).1 hlevel)
    rw [← Encoder.keyBytes_eq_bytesOf (e := ofEntry e) ⟨b, hkey⟩, hb]
    exact hkey.symm
  refine hfirst.imp (fun hyes => ⟨hall.mp hyes.1, hyes.2.2.2⟩) fun hno => ?_
  exact ⟨fun hyes => hno.1 (hall.mpr hyes), _, _, hbytes he, hbytes he', hno.2⟩

theorem exists_forall₂ {α β : Type} {r : α → β → Prop} {as : List α}
    (h : ∀ a ∈ as, ∃ b, r a b) : ∃ bs, List.Forall₂ r as bs := by
  induction as with
  | nil => exact ⟨[], .nil⟩
  | cons a rest ih =>
      obtain ⟨b, hb⟩ := h a List.mem_cons_self
      obtain ⟨bs, hbs⟩ := ih fun a ha => h a (List.mem_cons_of_mem _ ha)
      exact ⟨b :: bs, .cons hb hbs⟩

theorem exists_perm_of_perm_map {α β : Type} {f : α → β} {as : List α} {bs : List β}
    (h : bs.Perm (as.map f)) : ∃ as' : List α, as'.Perm as ∧ bs = as'.map f := by
  have hsame : List.Forall₂ (fun b a => b = f a) (as.map f) as := by
    rw [List.forall₂_map_left_iff, List.forall₂_same]
    exact fun _ _ => rfl
  obtain ⟨as', hall, hperm⟩ := List.perm_comp_forall₂ h hsame
  refine ⟨as', hperm, ?_⟩
  rw [← List.map_id bs]
  exact map_eq_map_iff_forall₂.mpr hall

/-- Entries can be sorted if all keys can be written. -/
theorem exists_sorted (hroom : env.room = .unbounded)
    (h : ∀ e ∈ es, ∃ x, key.encode env e.1 = .ok x) {level : Nat}
    (hlevel : Value.depthOfEntries es < level) :
    ∃ listed : List (Value × Value), listed.Perm es ∧
      Encoder.sortEntries (env.writing level key) (es.map ofEntry) =
        .ok (listed.map fun e => [e.1, e.2]) := by
  have hbytes : ∀ e ∈ es.map ofEntry,
      ∃ b, Encoder.keyBytes (env.writing level key) e.1 = .ok b := by
    refine List.forall_mem_map.mpr fun e he => ?_
    obtain ⟨x, hx⟩ := h e he
    exact ⟨x, keyBytes_of_encode hroom hx
      (Nat.lt_of_le_of_lt (Value.depth_le_of_entry he).1 hlevel)⟩
  obtain ⟨sorted, hsorted⟩ := Encoder.exists_sortEntries_ok hbytes
  have hperm := Encoder.sortEntries_perm hsorted
  rw [List.map_map] at hperm
  obtain ⟨listed, hlisted, rfl⟩ := exists_perm_of_perm_map hperm
  exact ⟨listed, hlisted, hsorted⟩

/-- Entries are written if all their keys and values are. -/
theorem exists_encode_map (hroom : env.room = .unbounded) {v : Value}
    (hentries : Encoder.entriesOf v = .ok (es.map fun e => [e.1, e.2]))
    (hdepth : Value.depthOfEntries es ≤ v.depth) (hlen : es.length < Compact.bound)
    (h : ∀ e ∈ es, (∃ x, key.encode env e.1 = .ok x) ∧ ∃ y, value.encode env e.2 = .ok y) :
    ∃ b, (Codec.map key value).encode env v = .ok b := by
  obtain ⟨listed, hperm, hsorted⟩ :=
    exists_sorted hroom (fun e he => (h e he).1) (Nat.lt_succ_of_le hdepth)
  obtain ⟨rows, hrows⟩ : ∃ rows, List.Forall₂ (RowOf env key value) listed rows := by
    refine exists_forall₂ fun e he => ?_
    obtain ⟨⟨x, hx⟩, y, hy⟩ := h e (hperm.mem_iff.mp he)
    exact ⟨x ++ y, x, y, hx, hy, rfl⟩
  exact ⟨_, encode_of_sorted hroom hentries hdepth hperm hlen hrows hsorted⟩

/-- What lies in an order that never goes both ways lies in it wherever it is asked about. -/
theorem keyBefore_iff {R : Value → Value → Prop} (h : listed.Pairwise fun a b => R a.1 b.1)
    {e e' : Value × Value} (he : e ∈ listed) (he' : e' ∈ listed)
    (hasymm : R e.1 e'.1 → ¬ R e'.1 e.1) : KeyBefore listed e.1 e'.1 ↔ R e.1 e'.1 := by
  constructor
  · rintro ⟨v, v', hsub⟩
    have hlies := List.pairwise_iff_forall_sublist.mp h hsub
    exact hlies
  · intro hfirst
    have hne : e ≠ e' := by
      rintro rfl
      exact hasymm hfirst hfirst
    let together (a b : Value × Value) := [a, b].Sublist listed ∨ [b, a].Sublist listed
    have : Std.Symm together := ⟨fun _ _ => Or.symm⟩
    have hpair : listed.Pairwise together := List.pairwise_iff_forall_sublist.mpr .inl
    rcases hpair.forall he he' hne with hsub | hsub
    · exact ⟨e.2, e'.2, hsub⟩
    · exact absurd (List.pairwise_iff_forall_sublist.mp h hsub) (hasymm hfirst)

/-- All entries stand on the wire, in the order of their keys. -/
theorem exists_listedAs (hroom : env.room = .unbounded) (hkey : env.Discerning key)
    (h : KeysApart env key es) (hvalues : ∀ e ∈ es, ∃ y, value.encode env e.2 = .ok y)
    (hlen : es.length < Compact.bound) :
    ∃ listed b, ListedAs env key value es listed b ∧
      listed.Pairwise fun a b => KeyOrder env key es a.1 b.1 := by
  have hlevel : Value.depthOfEntries es < Value.depth (.dict es) + 1 := by
    rw [Value.depth]
    omega
  obtain ⟨sorted, hsorted, hperm, hfirst⟩ := Encoder.exists_sortEntries_pairwise
    (h.sortable hroom (h.decided hroom hkey) hlevel)
  obtain ⟨listed, hlisted, rfl⟩ := exists_perm_of_perm_map hperm
  obtain ⟨rows, hrows⟩ : ∃ rows, List.Forall₂ (RowOf env key value) listed rows := by
    refine exists_forall₂ fun e he => ?_
    obtain ⟨x, hx⟩ := h.written e (hlisted.mem_iff.mp he)
    obtain ⟨y, hy⟩ := hvalues e (hlisted.mem_iff.mp he)
    exact ⟨x ++ y, x, y, hx, hy, rfl⟩
  rw [List.map_map] at hsorted
  have hencode := encode_map_of_sorted hroom hlisted hlen hrows hsorted
  refine ⟨listed, _, ⟨hlisted, hencode, rows, hrows, rfl⟩, ?_⟩
  refine List.Pairwise.imp_of_mem ?_ (List.pairwise_map.mp hfirst)
  intro a b ha hb hab
  exact keyOrder_of_goesFirst h hroom hlevel (hlisted.mem_iff.mp ha) (hlisted.mem_iff.mp hb) hab

theorem keyOrder_iff (hx : key.encode env k = .ok x) (hy : key.encode env k' = .ok y) :
    KeyOrder env key es k k' ↔ AllComparable es ∧ Value.less? k k' = some true ∨
      ¬ AllComparable es ∧ Value.lessBytes x y = true := by
  refine or_congr_right (and_congr_right fun _ => ⟨?_, fun hless => ⟨x, y, hx, hy, hless⟩⟩)
  rintro ⟨x', y', hx', hy', hless⟩
  obtain rfl := Except.ok.inj (hx.symm.trans hx')
  obtain rfl := Except.ok.inj (hy.symm.trans hy')
  exact hless

theorem ListedAs.keyBefore_iff (h : ListedAs env key value es listed b)
    (hapart : KeysApart env key es)
    (hfirst : listed.Pairwise fun a b => KeyOrder env key es a.1 b.1) (hk : k ∈ es.map (·.1))
    (hk' : k' ∈ es.map (·.1)) : KeyBefore listed k k' ↔ KeyOrder env key es k k' := by
  obtain ⟨e, he, rfl⟩ := List.mem_map.mp hk
  obtain ⟨e', he', rfl⟩ := List.mem_map.mp hk'
  exact Scale.keyBefore_iff hfirst (h.perm.mem_iff.mpr he) (h.perm.mem_iff.mpr he')
    (hapart.keyOrder_asymm he he')

/-- In two dictionaries that both have the two keys, these stand on the wire in the same order
exactly if both or neither have all their keys in an order, or if the order of the two keys is that
of their bytes. -/
theorem keyBefore_same_iff (hroom : env.room = .unbounded) (hkey : env.Discerning key)
    (h : KeysApart env key es) (h' : KeysApart env key es')
    (hvalues : ∀ e ∈ es ++ es', ∃ y, value.encode env e.2 = .ok y)
    (hlen : es.length < Compact.bound) (hlen' : es'.length < Compact.bound) :
    ∃ listed listed' b b', ListedAs env key value es listed b ∧
      ListedAs env key value es' listed' b' ∧
      ∀ k x k' x', key.encode env k = .ok x → key.encode env k' = .ok x' →
        k ∈ es.map (·.1) → k' ∈ es.map (·.1) → k ∈ es'.map (·.1) → k' ∈ es'.map (·.1) →
        ((KeyBefore listed k k' ↔ KeyBefore listed' k k') ↔
          ((AllComparable es ↔ AllComparable es') ∨
            (Value.less? k k' = some true ↔ Value.lessBytes x x' = true))) := by
  obtain ⟨listed, b, hlisted, hfirst⟩ := exists_listedAs hroom hkey h
    (fun e he => hvalues e (List.mem_append_left _ he)) hlen
  obtain ⟨listed', b', hlisted', hfirst'⟩ := exists_listedAs hroom hkey h'
    (fun e he => hvalues e (List.mem_append_right _ he)) hlen'
  refine ⟨listed, listed', b, b', hlisted, hlisted', ?_⟩
  intro k x k' x' hx hx' hk hk' hin hin'
  rw [hlisted.keyBefore_iff h hfirst hk hk', hlisted'.keyBefore_iff h' hfirst' hin hin',
    keyOrder_iff hx hx', keyOrder_iff hx hx']
  by_cases hall : AllComparable es <;> by_cases hall' : AllComparable es' <;>
    simp [hall, hall', iff_comm]

end InkBindings.Scale
