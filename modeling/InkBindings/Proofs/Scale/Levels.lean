import InkBindings.Proofs.Scale.Reading
import Mathlib.Data.Finset.Prod
import Mathlib.Order.Monotone.Basic

/-!
The levels of nesting that reading is given are enough. One more level changes nothing but the
readings that had too few. Only finitely many pairs of a declared type and a place of the data can
be told apart, and so from some level on there are no more of these.
-/

namespace InkBindings.Scale

namespace Environment

/-- Reading at one level gives what reading at the other gives, wherever it comes to an end. -/
def Agree (env : Environment) (root : Codec) (data : Bytes) (level other : Nat) : Prop :=
  ∀ r, Reaches env root (.reference r) → ∀ pre rest, pre ++ rest = data →
    env.reading level (.reference r) (.ofBytes data) pre.length = .error .endless ∨
      env.reading other (.reference r) (.ofBytes data) pre.length =
        env.reading level (.reference r) (.ofBytes data) pre.length

variable {env : Environment} {root : Codec} {data : Bytes} {level other third : Nat}

/-- No failure is excluded, and nothing is known of where reading comes to. -/
abbrev Lax (env : Environment) (strict : Prop) (root : Codec) (data : Bytes)
    (level other : Nat) : Prop :=
  Premises env strict root (fun _ => True) (fun _ _ => True) (fun _ => True) data level other

theorem lax_succ {strict : Prop} (hsound : env.Sound root)
    (hsingle : strict → ∀ c, Reaches env root c → c.IsSingle) (level : Nat) :
    Lax env strict root data level (level + 1) := by
  induction level with
  | zero =>
      refine ⟨hsound, fun _ => trivial, hsingle, fun _ _ _ _ => trivial, ?_⟩
      intro r pre rest _ _ _
      exact .endless trivial
  | succ level ih =>
      refine ⟨hsound, fun _ => trivial, hsingle, fun _ _ _ _ => trivial, ?_⟩
      intro r pre rest hr hdata _
      exact ih.readsAs_succ hr hdata (fun _ _ => ⟨fun _ => trivial, fun _ _ => trivial⟩)
        (.inl fun _ => trivial)

namespace Agree

theorem trans (h1 : Agree env root data level other) (h2 : Agree env root data other third) :
    Agree env root data level third := by
  intro r hr pre rest hdata
  rcases h1 r hr pre rest hdata with hend | hsame
  · exact .inl hend
  · rcases h2 r hr pre rest hdata with hend | hsame'
    · exact .inl (hsame ▸ hend)
    · exact .inr (hsame'.trans hsame)

theorem lax (hsound : env.Sound root) (h : Agree env root data level other) :
    Lax env False root data level other where
  sound := hsound
  faults := fun _ => trivial
  single := False.elim
  skipped := fun _ _ _ _ => trivial
  references := by
    intro r pre rest hr hdata _
    refine ⟨((lax_succ hsound False.elim level).references r pre rest hr hdata trivial).1, ?_⟩
    rw [hdata]
    exact h r hr pre rest hdata

theorem succ (hsound : env.Sound root) (h : Agree env root data level other) :
    Agree env root data (level + 1) (other + 1) := by
  intro r hr pre rest hdata
  have hreads := (h.lax hsound).readsAs_succ hr hdata
    (fun _ _ => ⟨fun _ => trivial, fun _ _ => trivial⟩) (.inl fun _ => trivial)
  rw [← hdata]
  exact hreads.2

theorem of_le (hsound : env.Sound root) (h : level ≤ other) : Agree env root data level other := by
  induction h with
  | refl =>
      intro r _ pre rest _
      exact .inr rfl
  | step _ ih =>
      refine ih.trans fun r hr pre rest hdata => ?_
      rw [← hdata]
      exact ((lax_succ hsound False.elim _).references r pre rest hr hdata trivial).2

/-- What is said of declared types holds of all codecs of the tree. -/
theorem codec (hsound : env.Sound root) (h : Agree env root data level other) {c : Codec}
    (hc : Reaches env root c) {pre rest : Bytes} (hdata : pre ++ rest = data) :
    env.reading level c (.ofBytes data) pre.length = .error .endless ∨
      env.reading other c (.ofBytes data) pre.length =
        env.reading level c (.ofBytes data) pre.length := by
  have hreads := (h.lax hsound).readsAs c hc hdata
    fun _ _ => ⟨fun _ => trivial, fun _ _ => trivial⟩
  rw [← hdata]
  exact hreads.2

end Agree

/-! ### The places that matter -/

/-- A class and its alternatives are read alike. -/
theorem reading_binding {r : Reference} {layout : Layout} (hlayout : env.layout? r = some layout) :
    env.reading level (.reference r.binding) = env.reading level (.reference r) := by
  cases r with
  | declared _ | instantiation _ _ => rfl
  | alternative owner label =>
      have hlayout' : env.layout? (.declared owner) = some layout := hlayout
      cases level with
      | zero => rfl
      | succ level =>
          have hown : env.ownDecoder (env.reading level) (.declared owner) =
              env.ownDecoder (env.reading level) (.alternative owner label) := by
            cases hcodec : env.alternative? owner Operation.codec.name with
            | none =>
                rw [ownDecoder_of_layout hlayout' hcodec, ownDecoder_of_layout hlayout hcodec]
                rfl
            | some c =>
                by_cases htakes : c.takes 0 = true <;>
                  simp [ownDecoder, codecFault?, hiding?, hcodec, htakes]
          rw [reading_succ, reading_succ, ← hown]
          rfl

/-- Reading at this level comes to an end at a type with this binding and a place of the data. -/
def Ends (env : Environment) (root : Codec) (data : Bytes) (level : Nat) (p : Reference × Nat) :
    Prop :=
  ∃ r, Reaches env root (.reference r) ∧ r.binding = p.1 ∧
    env.reading level (.reference r) (.ofBytes data) p.2 ≠ .error .endless

theorem Agree.ends (h : Agree env root data level other) {p : Reference × Nat}
    (hp : p.2 ≤ data.length) (hends : Ends env root data level p) : Ends env root data other p := by
  obtain ⟨r, hr, hbinding, hne⟩ := hends
  refine ⟨r, hr, hbinding, ?_⟩
  have hagree := h r hr (data.take p.2) (data.drop p.2) (List.take_append_drop ..)
  rw [List.length_take_of_le hp] at hagree
  rwa [hagree.resolve_left hne]

/-- If the other level adds no place where reading comes to an end, it changes nothing. -/
theorem Agree.symm_of_ends (hsound : env.Sound root) (h : Agree env root data level other)
    (hends : ∀ p : Reference × Nat, p.1 ∈ env.layouts.map (·.1) → p.2 ≤ data.length →
      Ends env root data other p → Ends env root data level p) :
    Agree env root data other level := by
  intro r hr pre rest hdata
  by_cases hend : env.reading other (.reference r) (.ofBytes data) pre.length = .error .endless
  · exact .inl hend
  obtain ⟨layout, hlayout, -⟩ := hsound.fits _ hr
  have hkey := mem_keys_of_layout hlayout
  have hlen : pre.length ≤ data.length := by simp [← hdata]
  obtain ⟨r', hr', hbinding, hne⟩ := hends (r.binding, pre.length) hkey hlen ⟨r, hr, rfl, hend⟩
  obtain ⟨layout', hlayout', -⟩ := hsound.fits _ hr'
  rw [← reading_binding hlayout', hbinding, reading_binding hlayout] at hne
  exact .inr ((h r hr pre rest hdata).resolve_left hne).symm

/-! ### Enough levels -/

open Classical in
/-- Where reading at this level comes to an end, up to bindings. -/
noncomputable def endings (env : Environment) (root : Codec) (data : Bytes) (level : Nat) :
    Finset (Reference × Nat) :=
  ((env.layouts.map (·.1)).toFinset ×ˢ Finset.range (data.length + 1)).filter
    (Ends env root data level)

theorem mem_endings {p : Reference × Nat} :
    p ∈ endings env root data level ↔
      (p.1 ∈ env.layouts.map (·.1) ∧ p.2 ≤ data.length) ∧ Ends env root data level p := by
  simp only [endings, Finset.mem_filter, Finset.mem_product, List.mem_toFinset, Finset.mem_range,
    Nat.lt_succ_iff]

theorem card_endings_le :
    (endings env root data level).card ≤ env.layouts.length * (data.length + 1) := by
  classical
  refine Nat.le_trans (Finset.card_filter_le _ _) ?_
  rw [Finset.card_product, Finset.card_range]
  refine Nat.mul_le_mul_right _ ?_
  have hle := List.toFinset_card_le (env.layouts.map (·.1))
  rwa [List.length_map] at hle

theorem endings_mono (h : Agree env root data level other) :
    endings env root data level ⊆ endings env root data other := by
  intro p hp
  rw [mem_endings] at hp ⊢
  exact ⟨hp.1, h.ends hp.1.2 hp.2⟩

theorem agree_of_card (hsound : env.Sound root) (h : Agree env root data level other)
    (hcard : (endings env root data level).card = (endings env root data other).card) :
    Agree env root data other level := by
  have heq := Finset.eq_of_subset_of_card_le (endings_mono h) (Nat.le_of_eq hcard.symm)
  refine h.symm_of_ends hsound fun p hkey hlen hends => ?_
  have hmem : p ∈ endings env root data level := heq ▸ mem_endings.mpr ⟨⟨hkey, hlen⟩, hends⟩
  exact (mem_endings.mp hmem).2

theorem agree_of_bound (hsound : env.Sound root)
    (h : env.layouts.length * (data.length + 1) ≤ other) (level : Nat) :
    Agree env root data level other := by
  have hmono : Monotone fun level => (endings env root data level).card :=
    fun a b hab => Finset.card_le_card (endings_mono (.of_le hsound hab))
  have hstable : ∀ a, (endings env root data a).card = (endings env root data (a + 1)).card →
      (endings env root data (a + 1)).card = (endings env root data (a + 2)).card := by
    intro a hcard
    have hback := agree_of_card hsound (.of_le hsound (Nat.le_succ a)) hcard
    exact Nat.le_antisymm (hmono (Nat.le_succ _))
      (Finset.card_le_card (endings_mono (hback.succ hsound)))
  rcases Nat.le_total level other with hle | hle
  · exact .of_le hsound hle
  refine agree_of_card hsound (.of_le hsound hle) ?_
  have hother := Nat.stabilises_of_monotone hmono (fun _ => card_endings_le) hstable h
  have hlevel := Nat.stabilises_of_monotone hmono (fun _ => card_endings_le) hstable
    (Nat.le_trans h hle)
  exact hother.trans hlevel.symm

theorem bound_le_possibleLevels (data : Bytes) (offset : Int) :
    env.layouts.length * (data.length + 1) ≤ env.possibleLevels (.ofBytes data) offset := by
  have hsize : (Source.ofBytes data).size = data.length := rfl
  simp only [possibleLevels, hsize]
  calc env.layouts.length * (data.length + 1)
      = (data.length + 1) * env.layouts.length := Nat.mul_comm ..
    _ ≤ (2 * data.length + offset.natAbs + 1) * (env.layouts.length + 1) :=
        Nat.mul_le_mul (by omega) (by omega)
    _ ≤ _ := Nat.le_succ _

end Environment

/-! ### Reading at the levels that are given -/

namespace Codec
variable {env : Environment} {c : Codec} {level : Nat} {pre rest : Bytes}

/-- What reading gives at any level is what it gives at all levels that are enough. -/
theorem reading_of_reading (hsound : env.Sound c) {other : Nat}
    (hother : env.layouts.length * ((pre ++ rest).length + 1) ≤ other)
    {result : Except DecodeFailure (Value × Int)}
    (h : env.reading level c (.ofBytes (pre ++ rest)) pre.length = result)
    (hend : result ≠ .error .endless) :
    env.reading other c (.ofBytes (pre ++ rest)) pre.length = result := by
  have hagree := (Environment.agree_of_bound hsound hother level).codec hsound (.refl c) rfl
  rw [h] at hagree
  exact hagree.resolve_left hend

theorem decodeFrom_of_reading (hsound : env.Sound c)
    {result : Except DecodeFailure (Value × Int)}
    (h : env.reading level c (.ofBytes (pre ++ rest)) pre.length = result)
    (hend : result ≠ .error .endless) :
    c.decodeFrom env (.ofBytes (pre ++ rest)) pre.length = result := by
  rw [Environment.decodeFrom_eq_reading hsound.room]
  exact reading_of_reading hsound (Environment.bound_le_possibleLevels _ _) h hend

theorem yields_decodeFrom (hsound : env.Sound c) {pad : Nat} {v : Value} {b : Bytes}
    (h : ∃ enough, ∀ level, enough ≤ level → Yields pad (env.reading level c) v b) :
    Yields pad (c.decodeFrom env) v b := by
  obtain ⟨enough, hyields⟩ := h
  intro pre left hpad
  exact decodeFrom_of_reading hsound (hyields enough (Nat.le_refl _) pre left hpad) (by simp)

theorem reads_wire (hsound : env.Sound c) {strict : Prop}
    (hsingle : strict → ∀ d, Reaches env c d → d.IsSingle) (level : Nat) (pre rest : Bytes) :
    Reads (fun _ => True) (Wire env strict (pre ++ rest).length c) (env.reading level c) pre rest :=
  ((Environment.lax_succ hsound hsingle level).readsAs c (.refl c) rfl
    fun _ _ => ⟨fun _ => trivial, fun _ _ => trivial⟩).1

/-- What is read stands on the wire. -/
theorem wire_of_decodeFrom (hsound : env.Sound c) {strict : Prop}
    (hsingle : strict → ∀ d, Reaches env c d → d.IsSingle) {v : Value} {next : Int}
    (h : c.decodeFrom env (.ofBytes (pre ++ rest)) pre.length = .ok (v, next)) :
    ∃ used left, rest = used ++ left ∧ next = (pre ++ used).length ∧
      Wire env strict (pre ++ rest).length c v used := by
  rw [Environment.decodeFrom_eq_reading hsound.room] at h
  have hreads := reads_wire hsound hsingle
    (env.possibleLevels (.ofBytes (pre ++ rest)) pre.length) pre rest
  simp only [Reads] at hreads
  rwa [h] at hreads

/-- A whole value is read at the levels that are enough, unless its class reads otherwise. -/
theorem decodeFromOwn_eq_reading (hroom : env.room = .unbounded)
    (hopen : ∀ r, c = .reference r → env.hiding? .decodeFrom r = none) (data : Source)
    (offset : Int) :
    ∃ level, env.possibleLevels data offset ≤ level ∧
      c.decodeFromOwn env data offset = env.reading level c data offset := by
  cases c with
  | reference r =>
      refine ⟨env.possibleLevels data offset + 1, Nat.le_succ _, ?_⟩
      rw [Environment.reading_succ, hopen r rfl]
      simp only [decodeFromOwn, hroom, Room.inside_unbounded]
      rfl
  | _ =>
      refine ⟨env.possibleLevels data offset, Nat.le_refl _, ?_⟩
      simp only [decodeFromOwn, hroom, Room.inside_unbounded]
      rfl

theorem decodeFromOwn_of_reading (hsound : env.Sound c)
    (hopen : ∀ r, c = .reference r → env.hiding? .decodeFrom r = none)
    {result : Except DecodeFailure (Value × Int)}
    (h : env.reading level c (.ofBytes (pre ++ rest)) pre.length = result)
    (hend : result ≠ .error .endless) :
    c.decodeFromOwn env (.ofBytes (pre ++ rest)) pre.length = result := by
  obtain ⟨other, hother, heq⟩ := decodeFromOwn_eq_reading hsound.room hopen
    (.ofBytes (pre ++ rest)) pre.length
  rw [heq]
  exact reading_of_reading hsound
    (Nat.le_trans (Environment.bound_le_possibleLevels _ _) hother) h hend

end Codec
end InkBindings.Scale
