import InkBindings.Proofs.Scale.Loosened
import InkBindings.Proofs.Scale.RoundTrip

/-!
Keys with tuples for lists. Making a key fit for a dictionary leaves no list in it exactly if none
of the tuples that are read for keys can have a list in them.
-/

namespace InkBindings

namespace Value

mutual

/-- The value with tuples for all lists in it. -/
def tupled : Value → Value
  | .list items | .tuple items => .tuple (tupledItems items)
  | v => v

def tupledItems : List Value → List Value
  | [] => []
  | v :: rest => tupled v :: tupledItems rest

end

theorem tupledItems_eq_map (vs : List Value) : tupledItems vs = vs.map tupled := by
  induction vs with
  | nil => rfl
  | cons v rest ih => rw [tupledItems, ih, List.map_cons]

end Value

namespace Scale

open Value (tupled tupledItems tupledItems_eq_map)

mutual

theorem tupled_loosened : (v : Value) → Loosened v v.tupled
  | .list items => .list (tupledItems_loosened items)
  | .tuple items => .tuple (tupledItems_loosened items)
  | .none | .bool _ | .int _ | .float _ | .str _ | .bytes _ | .byteArray _ | .accountId _
  | .hash _ | .dict _ | .compact _ | .ok _ | .err _ | .record _ _ | .variant _ _ _
  | .langError | .raisedLangError | .exception _ _ | .member _ _ => .same _

theorem tupledItems_loosened : (vs : List Value) → AllLoosened vs (tupledItems vs)
  | [] => .nil
  | v :: vs => .cons (tupled_loosened v) (tupledItems_loosened vs)

end

theorem hashableKeys_eq_map (vs : List Value) :
    Decoder.hashableKeys vs = vs.map Decoder.hashableKey := by
  induction vs with
  | nil => rfl
  | cons v rest ih => rw [Decoder.hashableKeys, ih, List.map_cons]

/-- Making the value fit for a dictionary leaves no list in it. -/
def Tupling (v : Value) : Prop := Decoder.hashableKey v = v.tupled

theorem tupled_tuple_iff {vs : List Value} :
    tupled (.tuple vs) = .tuple vs ↔ ∀ v ∈ vs, v.tupled = v := by
  rw [tupled, tupledItems_eq_map, Value.tuple.injEq]
  nth_rewrite 2 [← List.map_id vs]
  exact List.map_inj_left

theorem tupling_tuple_iff {vs : List Value} : Tupling (.tuple vs) ↔ ∀ v ∈ vs, v.tupled = v :=
  eq_comm.trans tupled_tuple_iff

theorem tupling_list_iff {vs : List Value} : Tupling (.list vs) ↔ ∀ v ∈ vs, Tupling v := by
  rw [Tupling, Decoder.hashableKey, tupled, hashableKeys_eq_map, tupledItems_eq_map,
    Value.tuple.injEq, List.map_inj_left]
  rfl

namespace Codec

/-- The codec is for numbers, texts and byte strings, or for tuples, lists and options. -/
def IsPlain : Codec → Prop
  | .result _ _ | .map _ _ | .reference _ => False
  | _ => True

mutual

/-- What is read can be a list, or a tuple that has one in it. -/
def readsLists : Codec → Bool
  | .array _ _ | .sequence _ => true
  | .option inner => readsLists inner
  | .tuple items => someReadsLists items
  | _ => false

def someReadsLists : List Codec → Bool
  | [] => false
  | c :: rest => readsLists c || someReadsLists rest

end

theorem someReadsLists_eq_any (cs : List Codec) : someReadsLists cs = cs.any readsLists := by
  induction cs with
  | nil => rfl
  | cons c rest ih => rw [someReadsLists, ih, List.any_cons]

/-- No tuple that is read has a list in it. -/
def hasFlatTuples : Codec → Bool
  | .array item length => length == 0 || hasFlatTuples item
  | .sequence item | .option item => hasFlatTuples item
  | .tuple items => !someReadsLists items
  | _ => true

end Codec

variable {env : Environment} {root : Codec}

/-- The codec, and all that it is put together from, is plain. -/
abbrev AllPlain (env : Environment) (root : Codec) : Prop := ∀ d, Reaches env root d → d.IsPlain

theorem AllPlain.of_part {c d : Codec} (h : AllPlain env c) (hd : d ∈ env.partsOf c) :
    AllPlain env d :=
  fun e he => h e (.step hd he)

mutual

/-- What a plain codec reads can be a key once there are no lists in it. -/
theorem HasForm.isHashable_tupled {c : Codec} {v : Value} :
    HasForm env c v → AllPlain env c → v.tupled.isHashable = true
  | .int _ _, _ | .bool _, _ | .char _, _ | .str _, _ | .unit, _ | .bytes _, _ | .accountId _, _
  | .hash _, _ | .fixedBytes _, _ | .absent, _ | .langError, _ | .raisedLangError, _ => rfl
  | .compact _ _, _ => rfl
  | .tuple h, hplain => h.areHashable_tupled fun _ hd => hplain.of_part hd
  | .array _ h, hplain | .sequence _ h, hplain =>
      h.areHashable_tupled fun _ hd => hplain.of_part (by simp [List.eq_of_mem_replicate hd,
        Environment.partsOf, Codec.parts])
  | .present _ h, hplain => h.isHashable_tupled (hplain.of_part List.mem_cons_self)
  | .ok _, hplain | .err _, hplain => (hplain _ (.refl _)).elim
  | .record _ _ _, hplain | .variant _ _ _ _, hplain => (hplain _ (.refl _)).elim

theorem HaveForms.areHashable_tupled {cs : List Codec} {vs : List Value} :
    HaveForms env cs vs → (∀ c ∈ cs, AllPlain env c) →
      Value.areHashable (Value.tupledItems vs) = true
  | .nil, _ => rfl
  | .cons h hs, hplain => by
      simp only [Value.tupledItems, Value.areHashable, Bool.and_eq_true]
      exact ⟨h.isHashable_tupled (hplain _ List.mem_cons_self),
        hs.areHashable_tupled fun c hc => hplain c (List.mem_cons_of_mem _ hc)⟩

end

/-! ### Values that can be read -/

theorem IntKind.zero_le_greatest (k : IntKind) : 0 ≤ k.greatest := by
  obtain ⟨h, hhalf, hbits, -⟩ := k.half
  have hpos : 0 < h := hhalf ▸ Nat.pow_pos (by omega)
  simp only [greatest]
  split
  · have hcast : (2 : Int) ^ (k.bits - 1) = h := by exact_mod_cast hhalf
    omega
  · have hcast : (2 : Int) ^ k.bits = 2 * h := by exact_mod_cast hbits
    omega

def someIdentifier : Identifier := ⟨List.replicate identifierSize 255, List.length_replicate⟩

theorem HaveForms.exists_of_mem {cs : List Codec} {vs : List Value} (h : HaveForms env cs vs)
    {v : Value} (hv : v ∈ vs) : ∃ c ∈ cs, HasForm env c v := by
  induction vs generalizing cs with
  | nil => cases hv
  | cons w rest ih =>
      cases h with
      | @cons c _ cs _ hc hcs =>
          rcases List.mem_cons.mp hv with rfl | hv
          · exact ⟨c, List.mem_cons_self, hc⟩
          · obtain ⟨d, hd, hform⟩ := ih hcs hv
            exact ⟨d, List.mem_cons_of_mem _ hd, hform⟩

theorem exists_haveForms {cs : List Codec} (h : ∀ c ∈ cs, ∃ v, HasForm env c v) :
    ∃ vs, HaveForms env cs vs := by
  induction cs with
  | nil => exact ⟨[], .nil⟩
  | cons c rest ih =>
      obtain ⟨v, hv⟩ := h c List.mem_cons_self
      obtain ⟨vs, hvs⟩ := ih fun d hd => h d (List.mem_cons_of_mem _ hd)
      exact ⟨v :: vs, .cons hv hvs⟩

/-- A value of one of the codecs stands among values of all of them. -/
theorem exists_haveForms_mem {cs : List Codec} (h : ∀ c ∈ cs, ∃ v, HasForm env c v) {d : Codec}
    (hd : d ∈ cs) {w : Value} (hw : HasForm env d w) : ∃ vs, HaveForms env cs vs ∧ w ∈ vs := by
  induction cs with
  | nil => cases hd
  | cons c rest ih =>
      have hrest := fun d hd => h d (List.mem_cons_of_mem _ hd)
      rcases List.mem_cons.mp hd with rfl | hd
      · obtain ⟨vs, hvs⟩ := exists_haveForms hrest
        exact ⟨w :: vs, .cons hw hvs, List.mem_cons_self⟩
      · obtain ⟨v, hv⟩ := h c List.mem_cons_self
        obtain ⟨vs, hvs, hmem⟩ := ih hrest hd
        exact ⟨v :: vs, .cons hv hvs, List.mem_cons_of_mem _ hmem⟩

theorem haveForms_replicate {c : Codec} {v : Value} (h : HasForm env c v) (n : Nat) :
    HaveForms env (List.replicate n c) (List.replicate n v) := by
  induction n with
  | zero => exact .nil
  | succ n ih => exact .cons h ih

theorem hasForm_array {item : Codec} {v : Value} (h : HasForm env item v) {length : Int}
    (hlength : 0 ≤ length) :
    HasForm env (.array item length) (.list (List.replicate length.toNat v)) := by
  refine .array (by simp [hlength]) ?_
  simpa using haveForms_replicate h length.toNat

theorem hasForm_sequence_nil (item : Codec) : HasForm env (.sequence item) (.list []) :=
  .sequence (Compact.lt_bound (by decide)) .nil

/-- There is a value for each plain codec. -/
theorem exists_hasForm (hsound : env.Sound root) (hplain : AllPlain env root) :
    ∃ v, HasForm env root v := by
  induction root using Codec.parts_induction with
  | step c ih =>
      have hfits := hsound.fits c (.refl c)
      have hpart {d : Codec} (hd : d ∈ env.partsOf c) (hmem : d ∈ c.parts) : ∃ v, HasForm env d v :=
        ih d hmem (hsound.of_reaches (.part hd)) (hplain.of_part hd)
      cases c with
      | int kind =>
          have hgreatest : 0 ≤ kind.greatest := kind.zero_le_greatest
          exact ⟨_, .int kind.least_le_zero hgreatest⟩
      | bool => exact ⟨_, .bool false⟩
      | char => exact ⟨_, .char default⟩
      | str => exact ⟨.str "", .str (Compact.lt_bound (by decide))⟩
      | unit => exact ⟨_, .unit⟩
      | bytes => exact ⟨.bytes [], .bytes (Compact.lt_bound (by decide))⟩
      | accountId => exact ⟨_, .accountId someIdentifier⟩
      | hash => exact ⟨_, .hash someIdentifier⟩
      | fixedBytes length =>
          have hlength : 0 ≤ length := hfits
          exact ⟨.bytes (List.replicate length.toNat 0), .fixedBytes (by simpa using hlength)⟩
      | compact inner =>
          exact ⟨.compact (.int (0 : Nat)),
            .compact (Compact.lt_bound (by decide)) fun kind _ => kind.zero_le_greatest⟩
      | tuple items =>
          obtain ⟨vs, hvs⟩ := exists_haveForms fun d hd => hpart hd hd
          exact ⟨_, .tuple hvs⟩
      | array item length =>
          obtain ⟨v, hv⟩ := hpart List.mem_cons_self List.mem_cons_self
          exact ⟨_, hasForm_array hv hfits⟩
      | sequence item => exact ⟨_, hasForm_sequence_nil item⟩
      | option inner => exact ⟨_, .absent⟩
      | langError => exact ⟨_, .langError⟩
      | raisedLangError => exact ⟨_, .raisedLangError⟩
      | result _ _ | map _ _ | reference _ => exact (hplain _ (.refl _)).elim

/-! ### Lists in tuples -/

theorem HasForm.tupled_eq {c : Codec} {v : Value} (h : HasForm env c v) (hplain : AllPlain env c)
    (hno : c.readsLists = false) : v.tupled = v := by
  induction c using Codec.parts_induction generalizing v with
  | step c ih =>
      cases h with
      | @tuple items vs hvs =>
          rw [Codec.readsLists, Codec.someReadsLists_eq_any, List.any_eq_false] at hno
          refine tupled_tuple_iff.mpr fun w hw => ?_
          obtain ⟨d, hd, hform⟩ := hvs.exists_of_mem hw
          exact ih d hd hform (hplain.of_part hd) (by simpa using hno d hd)
      | array | sequence => cases hno
      | present _ hv =>
          exact ih _ List.mem_cons_self hv (hplain.of_part List.mem_cons_self) hno
      | ok | err | record | variant => exact (hplain _ (.refl _)).elim
      | _ => rfl

theorem exists_tupled_ne (hsound : env.Sound root) (hplain : AllPlain env root)
    (hlists : root.readsLists = true) : ∃ v, HasForm env root v ∧ v.tupled ≠ v := by
  induction root using Codec.parts_induction with
  | step c ih =>
      cases c with
      | tuple items =>
          rw [Codec.readsLists, Codec.someReadsLists_eq_any, List.any_eq_true] at hlists
          obtain ⟨d, hd, hlists⟩ := hlists
          obtain ⟨w, hw, hne⟩ := ih d hd (hsound.of_reaches (.part hd)) (hplain.of_part hd) hlists
          obtain ⟨vs, hvs, hmem⟩ := exists_haveForms_mem (fun e he => exists_hasForm
            (hsound.of_reaches (.part he)) (hplain.of_part he)) hd hw
          exact ⟨_, .tuple hvs, fun heq => hne (tupled_tuple_iff.mp heq w hmem)⟩
      | array item length =>
          obtain ⟨v, hv⟩ := exists_hasForm hsound hplain
          refine ⟨v, hv, ?_⟩
          cases hv
          nofun
      | sequence item => exact ⟨_, hasForm_sequence_nil item, nofun⟩
      | option inner =>
          obtain ⟨v, hv, hne⟩ := ih inner List.mem_cons_self
            (hsound.of_reaches (.part List.mem_cons_self)) (hplain.of_part List.mem_cons_self) hlists
          exact ⟨v, .present (fun hnone => hne (hnone ▸ rfl)) hv, hne⟩
      | _ => cases hlists

theorem forall_tupling_tuple_iff {items : List Codec} (hsound : env.Sound (.tuple items))
    (hplain : AllPlain env (.tuple items)) :
    (∀ v, HasForm env (.tuple items) v → Tupling v) ↔ ∀ d ∈ items, ¬ d.readsLists = true := by
  constructor
  · intro h d hd hlists
    obtain ⟨w, hw, hne⟩ := exists_tupled_ne (hsound.of_reaches (.part hd)) (hplain.of_part hd) hlists
    obtain ⟨vs, hvs, hmem⟩ := exists_haveForms_mem (fun e he => exists_hasForm
      (hsound.of_reaches (.part he)) (hplain.of_part he)) hd hw
    exact hne (tupling_tuple_iff.mp (h _ (.tuple hvs)) w hmem)
  · intro hno v hv
    cases hv with
    | tuple hvs =>
        refine tupling_tuple_iff.mpr fun w hw => ?_
        obtain ⟨d, hd, hform⟩ := hvs.exists_of_mem hw
        exact hform.tupled_eq (hplain.of_part hd) (by simpa using hno d hd)

section
variable {item : Codec}

theorem forall_tupling_array_iff {length : Int} (hlength : 0 ≤ length) :
    (∀ v, HasForm env (.array item length) v → Tupling v) ↔
      length = 0 ∨ ∀ v, HasForm env item v → Tupling v := by
  constructor
  · refine fun h => or_iff_not_imp_left.mpr fun hne v hv => ?_
    refine tupling_list_iff.mp (h _ (hasForm_array hv hlength)) v ?_
    exact List.mem_replicate.mpr ⟨by omega, rfl⟩
  · intro h v hv
    cases hv with
    | array hlen hvs =>
        refine tupling_list_iff.mpr fun w hw => ?_
        obtain ⟨d, hd, hform⟩ := hvs.exists_of_mem hw
        obtain rfl := List.eq_of_mem_replicate hd
        refine h.resolve_left (fun hzero => ?_) w hform
        have := List.length_pos_of_mem hw
        omega

theorem forall_tupling_sequence_iff :
    (∀ v, HasForm env (.sequence item) v → Tupling v) ↔ ∀ v, HasForm env item v → Tupling v := by
  constructor
  · intro h v hv
    have hlen : [v].length < Compact.bound := Compact.lt_bound (by simp)
    exact tupling_list_iff.mp (h (.list [v]) (.sequence hlen (.cons hv .nil))) v List.mem_cons_self
  · intro h v hv
    cases hv with
    | sequence hlen hvs =>
        refine tupling_list_iff.mpr fun w hw => ?_
        obtain ⟨d, hd, hform⟩ := hvs.exists_of_mem hw
        obtain rfl := List.eq_of_mem_replicate hd
        exact h w hform

theorem forall_tupling_option_iff :
    (∀ v, HasForm env (.option item) v → Tupling v) ↔ ∀ v, HasForm env item v → Tupling v := by
  constructor
  · intro h v hv
    by_cases hnone : v = .none
    · exact hnone ▸ rfl
    · exact h v (.present hnone hv)
  · intro h v hv
    cases hv with
    | absent => rfl
    | present hne hv => exact h v hv

end

/-- Making keys fit for a dictionary leaves lists in them exactly if some tuple can have one. -/
theorem tupling_iff (hsound : env.Sound root) (hplain : AllPlain env root) :
    (∀ v, HasForm env root v → Tupling v) ↔ root.hasFlatTuples = true := by
  induction root using Codec.parts_induction with
  | step c ih =>
      have hpart {d : Codec} (hd : d ∈ env.partsOf c) (hmem : d ∈ c.parts) :=
        ih d hmem (hsound.of_reaches (.part hd)) (hplain.of_part hd)
      cases c with
      | tuple items =>
          rw [forall_tupling_tuple_iff hsound hplain, Codec.hasFlatTuples,
            Codec.someReadsLists_eq_any, Bool.not_eq_true', List.any_eq_false]
      | array item length =>
          rw [forall_tupling_array_iff (hsound.fits _ (.refl _)), Codec.hasFlatTuples,
            Bool.or_eq_true, beq_iff_eq, ← hpart List.mem_cons_self List.mem_cons_self]
      | sequence item =>
          rw [forall_tupling_sequence_iff, Codec.hasFlatTuples,
            ← hpart List.mem_cons_self List.mem_cons_self]
      | option inner =>
          rw [forall_tupling_option_iff, Codec.hasFlatTuples,
            ← hpart List.mem_cons_self List.mem_cons_self]
      | result _ _ | map _ _ | reference _ => exact (hplain _ (.refl _)).elim
      | _ =>
          refine iff_of_true (fun v hv => ?_) rfl
          cases hv
          rfl

end Scale
end InkBindings
