import InkBindings.Proofs.Scale.MapOrder
import InkBindings.Scale.OwnEncoding

/-!
What is appended for a value, and what its codec encodes it as by itself. The two are the same
bytes, but for classes of which an alternative stands where values are written or encoded.
-/

namespace InkBindings.Scale

theorem Fails.throw (e : EncodeFailure) : Fails (throw e) e [] := by
  intro before
  rw [List.append_nil]
  rfl

theorem Fails.not_writes {write : EStateM EncodeFailure Buffer Unit} {e : EncodeFailure}
    {a b : Bytes} (h : Fails write e a) : ¬ Writes write b := by
  intro hwrites
  have hrun := (h []).symm.trans (hwrites [])
  cases hrun

theorem Encoder.not_writes_fail {e : EncodeError} {b : Bytes} : ¬ Writes (Encoder.fail e) b :=
  (Fails.throw _).not_writes

theorem binding_of_isClass {r : Reference} (h : r.isClass = true) :
    r.binding = .declared r.owner := by
  cases r with
  | declared _ | alternative _ _ => rfl
  | instantiation _ _ => cases h

namespace Environment
variable {env : Environment} {r : Reference} {v : Value} {b : Bytes}

/-- A class writes instances of itself only. -/
theorem owner_of_writes_layout {encoder : Codec → Encoder} {owner : String} {layout : Layout}
    (h : Writes (env.layoutEncoder encoder owner layout v) b) :
    (∃ given, v = .record owner given) ∨ ∃ label given, v = .variant owner label given := by
  cases layout with
  | record fields =>
      simp only [layoutEncoder] at h
      split at h
      · split at h
        · next hname => exact .inl ⟨_, by rw [hname]⟩
        · exact absurd h Encoder.not_writes_fail
      · exact absurd h Encoder.not_writes_fail
  | sum alternatives =>
      simp only [layoutEncoder] at h
      split at h
      · split at h
        · next hfind =>
            split at hfind
            · next hname => exact .inr ⟨_, _, by rw [hname]⟩
            · cases hfind
        · exact absurd h Encoder.not_writes_fail
      · exact absurd h Encoder.not_writes_fail

theorem hiding_of_isClass (hclass : r.isClass = true) (op : Operation) :
    env.hiding? op r = env.alternative? r.owner op.name := by
  cases r with
  | declared _ | alternative _ _ => rfl
  | instantiation _ _ => cases hclass

/-- Only classes have alternatives that could stand in the way. -/
theorem isClass_of_hiding {op : Operation} {cls : AlternativeClass}
    (h : env.hiding? op r = some cls) : r.isClass = true := by
  cases r with
  | declared _ | alternative _ _ => rfl
  | instantiation _ _ => cases h

/-- A class and its alternatives have one layout, which is hidden from all of them or from none. -/
theorem ownEncoder_of_owner (r' : Reference) (hclass : r.isClass = true)
    (hclass' : r'.isClass = true) (howner : r'.owner = r.owner) {layout : Layout}
    (hlayout : env.layout? r = some layout) :
    env.codecFault? r' = env.codecFault? r ∧
      ∀ encoder, env.ownEncoder encoder r' = env.ownEncoder encoder r := by
  have hsame : env.layout? r' = env.layout? r := by
    rw [layout?, layout?, binding_of_isClass hclass, binding_of_isClass hclass', howner]
  have hfault : env.codecFault? r' = env.codecFault? r := by
    rw [codecFault?, codecFault?, hiding_of_isClass hclass, hiding_of_isClass hclass,
      hiding_of_isClass hclass', hiding_of_isClass hclass', hsame, howner]
  refine ⟨hfault, fun encoder => ?_⟩
  unfold ownEncoder
  rw [hfault, hsame, hlayout, howner]
  cases env.codecFault? r with
  | none => rfl
  | some fault => cases fault <;> rfl

/-- What a class writes by its layout, the class of the value writes as well. -/
theorem exists_class_of_writes (hclass : r.isClass = true) {encoder : Codec → Encoder}
    (h : Writes (env.ownEncoder encoder r v) b) :
    ∃ r', classReference? v = some r' ∧ env.codecFault? r' = none ∧
      ∀ encoder, env.ownEncoder encoder r' = env.ownEncoder encoder r := by
  cases hfault : env.codecFault? r with
  | some fault =>
      rw [ownEncoder, hfault] at h
      cases fault <;> exact absurd h (Fails.throw _).not_writes
  | none =>
      cases hlayout : env.layout? r with
      | none =>
          rw [ownEncoder, hfault, hlayout] at h
          simp only [unboundEncoder, hclass, if_true] at h
          exact absurd h (Fails.throw _).not_writes
      | some layout =>
          rw [ownEncoder, hfault, hlayout] at h
          obtain ⟨given, rfl⟩ | ⟨label, given, rfl⟩ := owner_of_writes_layout h
          · obtain ⟨hfault', hsame⟩ :=
              ownEncoder_of_owner (.declared r.owner) hclass rfl rfl hlayout
            exact ⟨_, rfl, hfault'.trans hfault, hsame⟩
          · obtain ⟨hfault', hsame⟩ :=
              ownEncoder_of_owner (.alternative r.owner label) hclass rfl rfl hlayout
            exact ⟨_, rfl, hfault'.trans hfault, hsame⟩

end Environment

theorem encodeByClass_of_reference {env : Environment} {v : Value} {r : Reference}
    (h : classReference? v = some r) (hfault : env.codecFault? r = none) :
    encodeByClass env v = liftEncode (Codec.encodeByLayout env r v) := by
  cases v with
  | record _ _ | variant _ _ _ =>
      cases h
      simp only [encodeByClass, classReference?, hfault]
  | _ => cases h

/-- What a class writes for a value, the class of the value encodes it as. -/
theorem encodeByClass_of_writes {env : Environment} (hroom : env.room = .unbounded) {r : Reference}
    (hclass : r.isClass = true) (hopen : env.hiding? .encodeTo r = none) {v : Value} {b : Bytes}
    (h : Writes ((Codec.reference r).encodeTo env v) b) : encodeByClass env v = .ok b := by
  rw [Environment.encodeTo_eq_writing hroom, Environment.writing_succ, hopen] at h
  dsimp only at h
  obtain ⟨r', hr', hfault, hsame⟩ := Environment.exists_class_of_writes hclass h
  -- the class of the value has one level more than is left of them here
  have hwrites := (Environment.ownEncoder_follows
    (fun c => Environment.writing_follows (Nat.le_succ v.depth) c) r v).writes h
  rw [← hsame] at hwrites
  have hencode : Codec.encodeByLayout env r' v = .ok b := by
    simp only [Codec.encodeByLayout, hroom, Room.inside_unbounded]
    exact bytesOf_of_writes hwrites
  rw [encodeByClass_of_reference hr' hfault, hencode]
  rfl

/-- On every buffer that grows the value is refused with the same error, behind the same bytes, or
what the codec encodes it as is put behind what was there. -/
def AppendsEncoding (env : Environment) (c : Codec) (v : Value) : Prop :=
  (∃ b, encodeWhole env c v = .ok b ∧ Writes (c.encodeTo env v) b) ∨
    ∃ e b, Fails (c.encodeTo env v) e b

/-- No alternative stands where the values of the class are encoded, if there are any that it
writes, and none takes the place of writing them. -/
def Codec.LeavesOpen (env : Environment) (c : Codec) : Prop :=
  ∀ r, c = .reference r →
    ((∃ v b, Writes (c.encodeTo env v) b) → env.hiding? .encode r = none) ∧
      ∀ taking, env.hiding? .encodeTo r = some taking → taking.takes 2 = false

theorem encodeWhole_of_writes {env : Environment} (hroom : env.room = .unbounded) {c : Codec}
    (hopen : c.LeavesOpen env) {v : Value} {b : Bytes} (h : Writes (c.encodeTo env v) b) :
    encodeWhole env c v = .ok b := by
  cases c with
  | reference r =>
      obtain ⟨hencode, hencodeTo⟩ := hopen r rfl
      have hhidden : encodeHidden? env r [v] = none := by
        rw [encodeHidden?, hencode ⟨v, b, h⟩]
        rfl
      simp only [encodeWhole, hhidden]
      split
      · next hclass =>
          refine encodeByClass_of_writes hroom hclass ?_ h
          cases htaking : env.hiding? .encodeTo r with
          | none => rfl
          | some taking =>
              rw [Environment.encodeTo_eq_writing hroom, Environment.writing_succ, htaking] at h
              simp only [hencodeTo taking htaking, Bool.false_eq_true, if_false] at h
              exact absurd h (Fails.throw _).not_writes
      · rw [encode_of_writes h]
        rfl
  | langError =>
      cases v with
      | langError => rw [encodeWhole, encodeByClass, encode_of_writes h]; rfl
      | _ => exact absurd h Encoder.not_writes_fail
  | _ =>
      simp only [encodeWhole, encode_of_writes h]
      rfl

theorem leavesOpen_of_appendsEncoding {env : Environment} (hroom : env.room = .unbounded) {c : Codec}
    (h : ∀ v, AppendsEncoding env c v) : c.LeavesOpen env := by
  have hwhole {v : Value} {b : Bytes} (hwrites : Writes (c.encodeTo env v) b) :
      encodeWhole env c v = .ok b := by
    obtain ⟨b', hb', hwrites'⟩ | ⟨e, b', hfails⟩ := h v
    · rwa [hwrites.unique hwrites']
    · exact absurd hwrites hfails.not_writes
  rintro r rfl
  have hencode : (∃ v b, Writes ((Codec.reference r).encodeTo env v) b) →
      env.hiding? .encode r = none := by
    rintro ⟨v, b, hwrites⟩
    have hb := hwhole hwrites
    cases hhiding : env.hiding? .encode r with
    | none => rfl
    | some cls =>
        simp only [encodeWhole, encodeHidden?, hhiding, Option.map_some, bytesExpected] at hb
        obtain ⟨_, -, hmade⟩ := bind_ok hb
        cases hmade
  refine ⟨hencode, fun taking htaking => ?_⟩
  cases htakes : taking.takes 2 with
  | false => rfl
  | true =>
      -- the alternative takes a number as well, and the class of a number is no declared one
      have hwrites : Writes ((Codec.reference r).encodeTo env (.int 0)) [] := by
        rw [Environment.encodeTo_eq_writing hroom, Environment.writing_succ, htaking]
        simp only [htakes, if_true]
        exact .nothing
      have hb := hwhole hwrites
      simp only [encodeWhole, encodeHidden?, hencode ⟨_, _, hwrites⟩, Option.map_none,
        Environment.isClass_of_hiding htaking, if_true] at hb
      cases hb

/-- Writing a value never depends on what the buffer holds. What it appends is what the codec
encodes the value as, for every value, if and only if the codec is no class with an alternative in
the place of its operations. -/
theorem appendsEncoding_iff (env : Environment) (c : Codec) :
    (∀ v, Appends (c.encodeTo env v)) ∧
      (env.room = .unbounded → ((∀ v, AppendsEncoding env c v) ↔ c.LeavesOpen env)) := by
  refine ⟨c.encodeTo_appends env, fun hroom => ⟨leavesOpen_of_appendsEncoding hroom, ?_⟩⟩
  intro hopen v
  obtain ⟨b, hwrites⟩ | hfails := c.encodeTo_appends env v
  · exact .inl ⟨b, encodeWhole_of_writes hroom hopen hwrites, hwrites⟩
  · exact .inr hfails

theorem chain_appendsEncoding :
    chains.room = .unbounded ∧ AppendsEncoding chains chain (chainOf 5 (chainOf 200 chainEnd)) := by
  have hopen : chain.LeavesOpen chains := by
    intro r hr
    cases hr
    exact ⟨fun _ => rfl, nofun⟩
  exact ⟨rfl, ((appendsEncoding_iff chains chain).2 rfl).mpr hopen _⟩

/-- An alternative may have the label of the operation that encodes values by themselves, or of the
one that writes them, which then takes the value and the buffer. -/
theorem not_appendsEncoding_labelled :
    ¬ AppendsEncoding (single "encode") singleCodec (.variant "E" "encode" []) ∧
      ¬ AppendsEncoding taking singleCodec
        (.variant "E" "encode_to" [("value", .int 1), ("buffer", .int 2)]) := by
  have hencode : Writes
      (singleCodec.encodeTo (single "encode") (.variant "E" "encode" [])) [0] := .byte 0
  have hencodeTo : Writes (singleCodec.encodeTo taking
      (.variant "E" "encode_to" [("value", .int 1), ("buffer", .int 2)])) [] := .nothing
  constructor
  · rintro (⟨b, hb, -⟩ | ⟨e, b, hfails⟩)
    · cases hb
    · exact hfails.not_writes hencode
  · rintro (⟨b, hb, hwrites⟩ | ⟨e, b, hfails⟩)
    · cases hwrites.unique hencodeTo
      cases hb
    · exact hfails.not_writes hencodeTo

end InkBindings.Scale
