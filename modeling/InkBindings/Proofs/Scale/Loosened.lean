import InkBindings.Proofs.Scale.Appending
import InkBindings.Proofs.Scale.Nesting
import InkBindings.Proofs.Scale.RoundTrip

/-!
Keys that are written with tuples for lists. A list cannot be the key of a dictionary, and what is
read as a list comes back as a tuple in the place of a key. Codecs write both alike.
-/

namespace InkBindings

mutual

/-- The second value is the first with tuples for some of the lists in it. -/
inductive Loosened : Value → Value → Prop
  | same (v) : Loosened v v
  | list {vs ws} : AllLoosened vs ws → Loosened (.list vs) (.tuple ws)
  | tuple {vs ws} : AllLoosened vs ws → Loosened (.tuple vs) (.tuple ws)

inductive AllLoosened : List Value → List Value → Prop
  | nil : AllLoosened [] []
  | cons {v w vs ws} : Loosened v w → AllLoosened vs ws → AllLoosened (v :: vs) (w :: ws)

end

theorem AllLoosened.same (vs : List Value) : AllLoosened vs vs := by
  induction vs with
  | nil => exact .nil
  | cons v vs ih => exact .cons (.same v) ih

theorem AllLoosened.length_eq {vs ws : List Value} (h : AllLoosened vs ws) :
    vs.length = ws.length := by
  induction vs generalizing ws with
  | nil => cases h; rfl
  | cons v vs ih =>
      cases h with
      | cons _ hs => rw [List.length_cons, List.length_cons, ih hs]

mutual

theorem Loosened.depth_eq {v w : Value} : Loosened v w → v.depth = w.depth
  | .same _ => rfl
  | .list h | .tuple h => congrArg (· + 1) h.depth_eq

theorem AllLoosened.depth_eq {vs ws : List Value} :
    AllLoosened vs ws → Value.depthOfItems vs = Value.depthOfItems ws
  | .nil => rfl
  | .cons h hs => by rw [Value.depthOfItems, Value.depthOfItems, h.depth_eq, hs.depth_eq]

end

mutual

theorem Loosened.trans {u v w : Value} : Loosened u v → Loosened v w → Loosened u w
  | .same _, h => h
  | .list hs, .same _ => .list hs
  | .list hs, .tuple hs' => .list (hs.trans hs')
  | .tuple hs, .same _ => .tuple hs
  | .tuple hs, .tuple hs' => .tuple (hs.trans hs')

theorem AllLoosened.trans {us vs ws : List Value} :
    AllLoosened us vs → AllLoosened vs ws → AllLoosened us ws
  | .nil, .nil => .nil
  | .cons h hs, .cons h' hs' => .cons (h.trans h') (hs.trans hs')

end

theorem Loosened.of_list {vs : List Value} {w : Value} (h : Loosened (.list vs) w) :
    ∃ ws, AllLoosened vs ws ∧ (w = .list ws ∨ w = .tuple ws) := by
  cases h with
  | same => exact ⟨vs, .same vs, .inl rfl⟩
  | list hs => exact ⟨_, hs, .inr rfl⟩

theorem Loosened.of_tuple {vs : List Value} {w : Value} (h : Loosened (.tuple vs) w) :
    ∃ ws, AllLoosened vs ws ∧ w = .tuple ws := by
  cases h with
  | same => exact ⟨vs, .same vs, rfl⟩
  | tuple hs => exact ⟨_, hs, rfl⟩

namespace Scale

mutual

theorem hashableKey_loosened : (v : Value) → Loosened v (Decoder.hashableKey v)
  | .list items => .list (hashableKeys_loosened items)
  | .none | .bool _ | .int _ | .float _ | .str _ | .bytes _ | .byteArray _ | .accountId _
  | .hash _ | .tuple _ | .dict _ | .compact _ | .ok _ | .err _ | .record _ _ | .variant _ _ _
  | .langError | .raisedLangError | .exception _ _ | .member _ _ => .same _

theorem hashableKeys_loosened : (vs : List Value) → AllLoosened vs (Decoder.hashableKeys vs)
  | [] => .nil
  | v :: vs => .cons (hashableKey_loosened v) (hashableKeys_loosened vs)

end

/-! ### Writing loosened values -/

/-- Where the first computation succeeds, the second does the same. -/
def Grants (x y : EStateM EncodeFailure Buffer Unit) : Prop :=
  ∀ s s', x.run s = .ok () s' → y.run s = .ok () s'

namespace Grants
variable {x y first first' : EStateM EncodeFailure Buffer Unit}

theorem refl (x : EStateM EncodeFailure Buffer Unit) : Grants x x :=
  fun _ _ h => h

theorem of_throw (e : EncodeFailure) : Grants (throw e) y :=
  fun _ _ h => nomatch h

theorem bind (h : Grants first first') (h' : Grants x y) :
    Grants (do first; x) (do first'; y) := by
  intro s s' hrun
  rw [EStateM.run_bind] at hrun ⊢
  cases hfirst : first.run s with
  | error e t => simp [hfirst] at hrun
  | ok _ t =>
      rw [hfirst] at hrun
      rw [h s t hfirst]
      exact h' t s' hrun

theorem writes (h : Grants x y) {b : Bytes} (hx : Writes x b) : Writes y b :=
  fun before => h _ _ (hx before)

end Grants

/-- The encoder takes tuples for lists. -/
def Encoder.TakesLoosened (encoder : Encoder) : Prop :=
  ∀ v w, Loosened v w → Grants (encoder v) (encoder w)

namespace Encoder
variable {item : Encoder}

/-- An encoder that takes neither lists nor tuples has nothing to be lax about. -/
theorem takesLoosened_of_throw {encoder : Encoder}
    (hlist : ∀ vs, ∃ e, encoder (.list vs) = throw e)
    (htuple : ∀ vs, ∃ e, encoder (.tuple vs) = throw e) : encoder.TakesLoosened := by
  intro v w h
  cases h with
  | same => exact .refl _
  | @list vs _ _ =>
      obtain ⟨e, he⟩ := hlist vs
      rw [he]
      exact .of_throw e
  | @tuple vs _ _ =>
      obtain ⟨e, he⟩ := htuple vs
      rw [he]
      exact .of_throw e

theorem unit_takesLoosened : unit.TakesLoosened := by
  intro v w h
  cases h with
  | same => exact .refl _
  | list => exact .of_throw _
  | tuple hs =>
      cases hs with
      | nil => exact .refl _
      | cons => exact .of_throw _

theorem compact_takesLoosened (kind? : Option IntKind) : (compact kind?).TakesLoosened := by
  cases kind? with
  | none | some => exact takesLoosened_of_throw (fun _ => ⟨_, rfl⟩) (fun _ => ⟨_, rfl⟩)

theorem each_grants {items : List Encoder} (h : ∀ e ∈ items, e.TakesLoosened)
    {vs ws : List Value} (hs : AllLoosened vs ws) : Grants (each items vs) (each items ws) := by
  induction items generalizing vs ws with
  | nil => exact .refl _
  | cons e rest ih =>
      cases hs with
      | nil => exact .refl _
      | cons hv hvs =>
          exact .bind (h e List.mem_cons_self _ _ hv)
            (ih (fun e he => h e (List.mem_cons_of_mem _ he)) hvs)

theorem all_grants (h : item.TakesLoosened) {vs ws : List Value} (hs : AllLoosened vs ws) :
    Grants (all item vs) (all item ws) := by
  rw [all_eq_each, all_eq_each, hs.length_eq]
  exact each_grants (fun e he => List.eq_of_mem_replicate he ▸ h) hs

theorem tuple_takesLoosened (codec : Codec) {items : List Encoder}
    (h : ∀ e ∈ items, e.TakesLoosened) : (tuple codec items).TakesLoosened := by
  intro v w hw
  cases hw with
  | same => exact .refl _
  | list hs | tuple hs =>
      simp only [tuple, ← hs.length_eq]
      split
      · exact each_grants h hs
      · exact .of_throw _

theorem array_takesLoosened (codec : Codec) (h : item.TakesLoosened) (length : Int) :
    (array codec item length).TakesLoosened := by
  intro v w hw
  cases hw with
  | same => exact .refl _
  | list hs | tuple hs =>
      simp only [array, Value.members?, ← hs.length_eq]
      split
      · exact all_grants h hs
      · exact .of_throw _

theorem sequence_takesLoosened (h : item.TakesLoosened) : (sequence item).TakesLoosened := by
  intro v w hw
  cases hw with
  | same => exact .refl _
  | list hs | tuple hs =>
      simp only [sequence, Value.members?, ← hs.length_eq]
      exact .bind (.refl _) (all_grants h hs)

theorem option_takesLoosened (h : item.TakesLoosened) : (option item).TakesLoosened := by
  intro v w hw
  cases hw with
  | same => exact .refl _
  | list hs => exact .bind (.refl _) (h _ _ (.list hs))
  | tuple hs => exact .bind (.refl _) (h _ _ (.tuple hs))

end Encoder

/-- The codec is for maps, whose entries are sorted by how their keys are written. -/
def Codec.isMap : Codec → Bool
  | .map _ _ => true
  | _ => false

namespace Environment
variable {env : Environment}

theorem unboundEncoder_takesLoosened (r : Reference) : (env.unboundEncoder r).TakesLoosened := by
  have hthrow {v : Value} (hv : ∀ name given, v ≠ .record name given) :
      ∃ e, env.unboundEncoder r v = throw e := by
    unfold unboundEncoder
    split
    · exact ⟨_, rfl⟩
    · split
      · exact absurd rfl (hv _ _)
      · exact ⟨_, rfl⟩
      · exact ⟨_, rfl⟩
  exact Encoder.takesLoosened_of_throw (fun _ => hthrow nofun) (fun _ => hthrow nofun)

theorem layoutEncoder_takesLoosened (encoder : Codec → Encoder) (owner : String)
    (layout : Layout) : (env.layoutEncoder encoder owner layout).TakesLoosened := by
  cases layout with
  | record | sum =>
      exact Encoder.takesLoosened_of_throw (fun _ => ⟨_, rfl⟩) (fun _ => ⟨_, rfl⟩)

theorem ownEncoder_takesLoosened (encoder : Codec → Encoder) (r : Reference) :
    (env.ownEncoder encoder r).TakesLoosened := by
  unfold ownEncoder
  split
  · exact fun _ _ _ => .of_throw _
  · exact fun _ _ _ => .of_throw _
  · exact unboundEncoder_takesLoosened r
  · exact layoutEncoder_takesLoosened _ _ _

theorem writing_reference_takesLoosened (r : Reference) (level : Nat) :
    (env.writing level (.reference r)).TakesLoosened := by
  cases level with
  | zero => exact fun _ _ _ => .of_throw _
  | succ level =>
      rw [writing_succ]
      split
      · exact fun _ _ _ => .refl _
      · exact ownEncoder_takesLoosened _ r

theorem writing_takesLoosened (c : Codec) (h : ∀ d, Reaches env c d → d.isMap = false)
    (level : Nat) : (env.writing level c).TakesLoosened := by
  induction c using Codec.parts_induction with
  | step c ih =>
      have hpart {d : Codec} (hd : d ∈ env.partsOf c) : ∀ e, Reaches env d e → e.isMap = false :=
        fun e he => h e (.step hd he)
      cases c with
      | unit => exact Encoder.unit_takesLoosened
      | tuple items =>
          rw [writing_tuple]
          refine Encoder.tuple_takesLoosened _ fun e he => ?_
          obtain ⟨d, hd, rfl⟩ := List.mem_map.mp he
          exact ih d hd (hpart hd)
      | array item length =>
          exact Encoder.array_takesLoosened _ (ih item List.mem_cons_self (hpart List.mem_cons_self))
            length
      | sequence item =>
          exact Encoder.sequence_takesLoosened
            (ih item List.mem_cons_self (hpart List.mem_cons_self))
      | option inner =>
          exact Encoder.option_takesLoosened
            (ih inner List.mem_cons_self (hpart List.mem_cons_self))
      | map key value => cases h _ (.refl _)
      | reference r => exact writing_reference_takesLoosened r level
      | compact inner => exact Encoder.compact_takesLoosened _
      | _ =>
          exact Encoder.takesLoosened_of_throw (fun _ => ⟨_, rfl⟩) (fun _ => ⟨_, rfl⟩)

end Environment

/-- A loosened value is encoded as the value. -/
theorem Codec.encode_loosened {env : Environment} (hroom : env.room = .unbounded) {c : Codec}
    (hmap : ∀ d, Reaches env c d → d.isMap = false) {v w : Value} (h : Loosened v w) {b : Bytes}
    (hv : c.encode env v = .ok b) : c.encode env w = .ok b := by
  refine encode_of_writes ?_
  rw [Environment.encodeTo_eq_writing hroom, ← h.depth_eq]
  refine (Environment.writing_takesLoosened c hmap _ v w h).writes ?_
  rw [← Environment.encodeTo_eq_writing hroom]
  exact writes_of_encode hv

end Scale
end InkBindings
