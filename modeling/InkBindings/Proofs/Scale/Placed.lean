import InkBindings.Proofs.Scale.EntryOrder
import InkBindings.Proofs.Scale.Nesting

/-!
What encoders take. A codec takes no number that is none where the order of keys looks, unless an
alternative stands in the place of the operation that writes values of its class and takes whatever
it is given.
-/

namespace InkBindings.Scale

open Value (Placed)

/-- There is a buffer that the value is written to. -/
def Succeeds (write : EStateM EncodeFailure Buffer Unit) : Prop :=
  ∃ s s', write.run s = .ok () s'

namespace Succeeds
variable {first second : EStateM EncodeFailure Buffer Unit}

theorem of_writes {b : Bytes} (h : Writes first b) : Succeeds first :=
  ⟨_, _, h []⟩

theorem of_bind (h : Succeeds (do first; second)) : Succeeds first ∧ Succeeds second := by
  obtain ⟨s, s', hrun⟩ := h
  rw [EStateM.run_bind] at hrun
  split at hrun
  · next _ s'' hfirst => exact ⟨⟨s, s'', hfirst⟩, ⟨s'', s', hrun⟩⟩
  · cases hrun

theorem not_throw (e : EncodeFailure) : ¬ Succeeds (throw e) := by
  rintro ⟨s, s', hrun⟩
  cases hrun

theorem not_fail (e : EncodeError) : ¬ Succeeds (Encoder.fail e) :=
  not_throw (.value e)

end Succeeds

/-! ### Values that are no numbers out of place -/

theorem placed_int (n : Int) : Placed (.int n) :=
  .atom rfl (by simp [Atom.IsPlaced, Number.place?])

theorem placed_bytes {v : Value} (h : v.byteContent?.isSome = true) : Placed v := by
  cases v with
  | bytes | byteArray | accountId | hash => exact .atom rfl trivial
  | _ => cases h

/-- What can be gone through is in place if all its members are. -/
theorem placed_of_members {v : Value} {vs : List Value} (h : v.members? = some vs)
    (hvs : ∀ u ∈ vs, Placed u) : Placed v := by
  cases v with
  | list items | tuple items =>
      obtain rfl : items = vs := by simpa [Value.members?] using h
      exact .sequence rfl rfl hvs
  | dict entries => exact .other rfl nofun
  | str | bytes | byteArray | accountId | hash => exact .atom rfl trivial
  | _ => cases h

/-- The encoder takes nothing but values that are in place. -/
def Encoder.TakesPlaced (encoder : Encoder) : Prop :=
  ∀ v, Succeeds (encoder v) → Placed v

namespace Encoder
variable {item key value : Encoder}

theorem integer_takesPlaced (kind : IntKind) : (integer kind).TakesPlaced := by
  intro v h
  cases v with
  | int n => exact placed_int n
  | _ => exact absurd h (Succeeds.not_fail _)

theorem bool_takesPlaced : bool.TakesPlaced := by
  intro v h
  cases v with
  | bool b => exact .atom rfl (by simp [Atom.IsPlaced, Number.place?])
  | _ => exact absurd h (Succeeds.not_fail _)

theorem char_takesPlaced : char.TakesPlaced := by
  intro v h
  cases v with
  | str s => exact .atom rfl trivial
  | _ => exact absurd h (Succeeds.not_fail _)

theorem str_takesPlaced : str.TakesPlaced := by
  intro v h
  cases v with
  | str s => exact .atom rfl trivial
  | _ => exact absurd h (Succeeds.not_fail _)

theorem unit_takesPlaced : unit.TakesPlaced := by
  intro v h
  unfold unit at h
  split at h
  · exact .atom rfl trivial
  · exact .sequence rfl rfl fun _ hu => absurd hu List.not_mem_nil
  · exact absurd h (Succeeds.not_fail _)

theorem bytes_takesPlaced : bytes.TakesPlaced := by
  intro v h
  unfold bytes at h
  split at h
  · next b hb => exact placed_bytes (by simp [hb])
  · exact absurd h (Succeeds.not_fail _)

theorem fixedBytes_takesPlaced (codec : Codec) (length : Int) :
    (fixedBytes codec length).TakesPlaced := by
  intro v h
  unfold fixedBytes at h
  split at h
  · next b hb => exact placed_bytes (by simp [hb])
  · exact absurd h (Succeeds.not_fail _)

theorem placed_of_encodeValue {v : Value} (h : Succeeds (Compact.encodeValue v)) : Placed v := by
  cases v with
  | int n => exact placed_int n
  | _ => exact absurd h (Succeeds.not_throw _)

theorem compact_takesPlaced (kind? : Option IntKind) : (compact kind?).TakesPlaced := by
  intro v h
  have hinner : Placed (unwrapCompact v) := by
    unfold compact at h
    dsimp only at h
    split at h
    · split at h
      · exact placed_of_encodeValue h
      · exact absurd h (Succeeds.not_fail _)
    · exact placed_of_encodeValue h
  cases v with
  | compact inner => exact .other rfl fun f vs hf => by cases hf; rfl
  | _ => exact hinner

/-! ### Codecs with parts -/

theorem placed_of_each {items : List Encoder} (h : ∀ e ∈ items, e.TakesPlaced) {vs : List Value}
    (hlen : vs.length = items.length) (hvs : Succeeds (each items vs)) : ∀ u ∈ vs, Placed u := by
  induction items generalizing vs with
  | nil =>
      obtain rfl := List.length_eq_zero_iff.mp hlen
      exact fun _ hu => absurd hu List.not_mem_nil
  | cons e rest ih =>
      cases vs with
      | nil => cases hlen
      | cons v vs =>
          obtain ⟨hv, hvs⟩ := hvs.of_bind
          exact List.forall_mem_cons.mpr ⟨h e List.mem_cons_self v hv,
            ih (fun e he => h e (List.mem_cons_of_mem _ he)) (Nat.succ.inj hlen) hvs⟩

theorem placed_of_all (h : item.TakesPlaced) {vs : List Value} (hvs : Succeeds (all item vs)) :
    ∀ u ∈ vs, Placed u := by
  rw [all_eq_each] at hvs
  exact placed_of_each (fun e he => List.eq_of_mem_replicate he ▸ h) (by simp) hvs

theorem tuple_takesPlaced (codec : Codec) {items : List Encoder}
    (h : ∀ e ∈ items, e.TakesPlaced) : (tuple codec items).TakesPlaced := by
  intro v hv
  unfold tuple at hv
  split at hv
  · split at hv
    · next hlen => exact .sequence rfl rfl (placed_of_each h hlen hv)
    · exact absurd hv (Succeeds.not_fail _)
  · split at hv
    · next hlen => exact .sequence rfl rfl (placed_of_each h hlen hv)
    · exact absurd hv (Succeeds.not_fail _)
  · exact absurd hv (Succeeds.not_fail _)

theorem array_takesPlaced (codec : Codec) (h : item.TakesPlaced) (length : Int) :
    (array codec item length).TakesPlaced := by
  intro v hv
  unfold array at hv
  split at hv
  · exact absurd hv (Succeeds.not_throw _)
  · next vs hmembers =>
      split at hv
      · exact placed_of_members hmembers (placed_of_all h hv)
      · exact absurd hv (Succeeds.not_fail _)

theorem sequence_takesPlaced (h : item.TakesPlaced) : (sequence item).TakesPlaced := by
  intro v hv
  unfold sequence at hv
  split at hv
  · exact absurd hv (Succeeds.not_throw _)
  · next vs hmembers => exact placed_of_members hmembers (placed_of_all h hv.of_bind.2)

theorem option_takesPlaced (h : item.TakesPlaced) : (option item).TakesPlaced := by
  intro v hv
  unfold option at hv
  split at hv
  · exact .atom rfl trivial
  · exact h v hv.of_bind.2

theorem result_takesPlaced (codec : Codec) (ok err : Encoder) :
    (result codec ok err).TakesPlaced := by
  intro v hv
  unfold result at hv
  split at hv
  · exact .other rfl fun f vs hf => by cases hf; rfl
  · exact .other rfl fun f vs hf => by cases hf; rfl
  · exact absurd hv (Succeeds.not_fail _)

theorem placed_of_allEntries (hkey : key.TakesPlaced) (hvalue : value.TakesPlaced)
    {entries : List (List Value)} (h : Succeeds (allEntries key value entries)) :
    ∀ e ∈ entries, ∀ u ∈ e, Placed u := by
  induction entries with
  | nil => exact nofun
  | cons e rest ih =>
      obtain ⟨he, hrest⟩ := h.of_bind
      refine List.forall_mem_cons.mpr ⟨?_, ih hrest⟩
      unfold entry at he
      split at he
      · obtain ⟨hk, hv⟩ := he.of_bind
        simpa using ⟨hkey _ hk, hvalue _ hv⟩
      · exact absurd he (Succeeds.not_throw _)

theorem map_snd_of_withKey {entries : List (List Value)} {given : List Keyed}
    (h : entries.mapM withKey = .ok given) : given.map (·.2) = entries := by
  have hsame : entries.map id = given.map (·.2) :=
    map_eq_map_iff_forall₂.mpr ((forall₂_of_mapM h).imp fun e g hg => by
      cases e with
      | nil => cases hg
      | cons k rest =>
          cases hg
          rfl)
  rw [← hsame, List.map_id]

theorem map_takesPlaced (hkey : key.TakesPlaced) (hvalue : value.TakesPlaced) :
    (map key value).TakesPlaced := by
  intro v hv
  unfold map at hv
  split at hv
  · exact absurd hv (Succeeds.not_throw _)
  · next entries hentries =>
      split at hv
      · exact absurd hv (Succeeds.not_throw _)
      · next given hgiven =>
          split at hv
          · exact absurd hv (Succeeds.not_throw _)
          · next sorted hsorted =>
              have hparts := placed_of_allEntries hkey hvalue hv.of_bind.2
              have hperm := sortEntries_perm hsorted
              rw [map_snd_of_withKey hgiven] at hperm
              unfold entriesOf at hentries
              split at hentries
              · exact .other rfl nofun
              · split at hentries
                · cases hentries
                · next vs hmembers =>
                    refine placed_of_members hmembers fun m hm => ?_
                    obtain ⟨parts, hmem, hm⟩ := forall₂_right (forall₂_of_mapM hentries).flip hm
                    split at hm
                    · cases hm
                    · next parts' hparts' =>
                        cases hm
                        exact placed_of_members hparts' (hparts _ (hperm.mem_iff.mpr hmem))

theorem langError_takesPlaced : langError.TakesPlaced := by
  intro v h
  cases v with
  | langError => exact .atom rfl trivial
  | _ => exact absurd h (Succeeds.not_fail _)

theorem raisedLangError_takesPlaced : raisedLangError.TakesPlaced := by
  intro v h
  unfold raisedLangError at h
  split at h
  · exact .atom rfl trivial
  · exact langError_takesPlaced v h

end Encoder

/-! ### Declared types -/

namespace Environment
variable {env : Environment}

/-- Each declared type in the tree refuses what is no value of its own: no alternative stands in
the place of the operation that writes them and takes a value and a buffer. -/
def Discerning (env : Environment) (c : Codec) : Prop :=
  ∀ r cls, Reaches env c (.reference r) → env.hiding? .encodeTo r = some cls → cls.takes 2 = false

theorem Discerning.part {c d : Codec} (h : env.Discerning c) (hd : d ∈ env.partsOf c) :
    env.Discerning d :=
  fun r cls hr => h r cls (.step hd hr)

theorem layoutEncoder_takesPlaced (encoder : Codec → Encoder) (owner : String) (layout : Layout) :
    (env.layoutEncoder encoder owner layout).TakesPlaced := by
  intro v h
  cases layout with
  | record fields =>
      cases v with
      | record name given => exact .other rfl fun f vs hf => by cases hf; rfl
      | _ => exact absurd h (Succeeds.not_fail _)
  | sum alternatives =>
      cases v with
      | variant name label given => exact .other rfl fun f vs hf => by cases hf; rfl
      | _ => exact absurd h (Succeeds.not_fail _)

theorem unboundEncoder_takesPlaced (r : Reference) : (env.unboundEncoder r).TakesPlaced := by
  intro v h
  unfold unboundEncoder at h
  split at h
  · exact absurd h (Succeeds.not_throw _)
  · split at h
    · split at h
      · exact absurd h (Succeeds.not_throw _)
      · exact absurd h (Succeeds.not_fail _)
    · exact absurd h (Succeeds.not_fail _)
    · exact absurd h (Succeeds.not_throw _)

theorem ownEncoder_takesPlaced (encoder : Codec → Encoder) (r : Reference) :
    (env.ownEncoder encoder r).TakesPlaced := by
  unfold ownEncoder
  split
  · exact fun v h => absurd h (Succeeds.not_throw _)
  · exact fun v h => absurd h (Succeeds.not_throw _)
  · exact unboundEncoder_takesPlaced r
  · exact layoutEncoder_takesPlaced _ _ _

theorem writing_reference_takesPlaced {r : Reference}
    (h : ∀ cls, env.hiding? .encodeTo r = some cls → cls.takes 2 = false) (level : Nat) :
    (env.writing level (.reference r)).TakesPlaced := by
  intro v hv
  cases level with
  | zero => exact absurd hv (Succeeds.not_throw _)
  | succ level =>
      rw [writing_succ] at hv
      split at hv
      · next cls hcls =>
          rw [h cls hcls] at hv
          exact absurd hv (Succeeds.not_throw _)
      · exact ownEncoder_takesPlaced _ _ v hv

theorem writing_takesPlaced {c : Codec} (h : env.Discerning c) (level : Nat) :
    (env.writing level c).TakesPlaced := by
  induction c using Codec.parts_induction with
  | step c ih =>
      cases c with
      | int kind => exact Encoder.integer_takesPlaced kind
      | bool => exact Encoder.bool_takesPlaced
      | char => exact Encoder.char_takesPlaced
      | str => exact Encoder.str_takesPlaced
      | unit => exact Encoder.unit_takesPlaced
      | bytes => exact Encoder.bytes_takesPlaced
      | accountId | hash | fixedBytes => exact Encoder.fixedBytes_takesPlaced _ _
      | compact inner => exact Encoder.compact_takesPlaced _
      | tuple items =>
          rw [writing_tuple]
          refine Encoder.tuple_takesPlaced _ fun e he => ?_
          obtain ⟨d, hd, rfl⟩ := List.mem_map.mp he
          exact ih d hd (h.part hd)
      | array item length =>
          exact Encoder.array_takesPlaced _ (ih item List.mem_cons_self (h.part List.mem_cons_self))
            length
      | sequence item =>
          exact Encoder.sequence_takesPlaced
            (ih item List.mem_cons_self (h.part List.mem_cons_self))
      | option inner =>
          exact Encoder.option_takesPlaced
            (ih inner List.mem_cons_self (h.part List.mem_cons_self))
      | result ok err => exact Encoder.result_takesPlaced _ _ _
      | map key value =>
          have hvalue : value ∈ env.partsOf (.map key value) :=
            List.mem_cons_of_mem _ List.mem_cons_self
          exact Encoder.map_takesPlaced (ih key List.mem_cons_self (h.part List.mem_cons_self))
            (ih value hvalue (h.part hvalue))
      | langError => exact Encoder.langError_takesPlaced
      | raisedLangError => exact Encoder.raisedLangError_takesPlaced
      | reference r =>
          exact writing_reference_takesPlaced (fun cls hcls => h r cls (.refl _) hcls) level

end Environment
end InkBindings.Scale
