import InkBindings.Proofs.Scale.Parts

/-!
Encoders only append. Whatever a value and a codec come to on an empty buffer they come to on every
buffer that grows, behind what was there, also where a value is refused halfway.
-/

namespace InkBindings.Scale

/-- The computation fails on every buffer, and leaves these bytes behind what was there. -/
def Fails (write : EStateM EncodeFailure Buffer Unit) (e : EncodeFailure) (b : Bytes) : Prop :=
  ∀ before, write.run (.ofBytes before) = .error e (.ofBytes (before ++ b))

/-- What the computation does to a buffer does not depend on what the buffer holds. -/
def Appends (write : EStateM EncodeFailure Buffer Unit) : Prop :=
  (∃ b, Writes write b) ∨ ∃ e b, Fails write e b

namespace Appends
variable {first second : EStateM EncodeFailure Buffer Unit}

theorem nothing : Appends (pure ()) :=
  .inl ⟨[], .nothing⟩

theorem failure (e : EncodeFailure) : Appends (throw e) := by
  refine .inr ⟨e, [], fun before => ?_⟩
  rw [List.append_nil]
  rfl

theorem fail (e : EncodeError) : Appends (Encoder.fail e) :=
  failure (.value e)

theorem byte (x : UInt8) : Appends (Buffer.writeByte x) :=
  .inl ⟨[x], .byte x⟩

theorem bytes (b : Bytes) : Appends (Buffer.write b) :=
  .inl ⟨b, .bytes b⟩

theorem append (h1 : Appends first) (h2 : Appends second) : Appends (do first; second) := by
  obtain ⟨a, ha⟩ | ⟨e, a, ha⟩ := h1
  · obtain ⟨b, hb⟩ | ⟨e, b, hb⟩ := h2
    · exact .inl ⟨a ++ b, ha.append hb⟩
    · refine .inr ⟨e, a ++ b, fun before => ?_⟩
      rw [EStateM.run_bind, ha before, ← List.append_assoc]
      exact hb (before ++ a)
  · refine .inr ⟨e, a, fun before => ?_⟩
    rw [EStateM.run_bind, ha before]

end Appends

/-- All that an encoder does is to append. -/
def Encoder.Appends (encoder : Encoder) : Prop :=
  ∀ v, Scale.Appends (encoder v)

/-! ### Primitive codecs -/

namespace Compact

theorem write_appends (n : Nat) : Appends (write n) := by
  unfold write
  split
  · exact .bytes _
  · refine .append (.byte _) ?_
    split
    · exact .bytes _
    · exact .nothing

theorem encodeValue_appends (v : Value) : Appends (encodeValue v) := by
  unfold encodeValue
  split
  · split
    · exact .failure _
    · split
      · exact .failure _
      · exact write_appends _
  · exact .failure _

end Compact

namespace Encoder

theorem counted_appends (b : Bytes) : Scale.Appends (counted b) :=
  .append (Compact.encodeValue_appends _) (.bytes b)

theorem integer_appends (kind : IntKind) : (integer kind).Appends := by
  intro v
  unfold integer
  split
  · exact .bytes _
  · exact .fail _

theorem bool_appends : bool.Appends := by
  intro v
  unfold bool
  split
  · exact .byte _
  · exact .fail _

theorem char_appends : char.Appends := by
  intro v
  unfold char
  split
  · split
    · exact .bytes _
    · exact .fail _
  · exact .fail _

theorem str_appends : str.Appends := by
  intro v
  unfold str
  split
  · exact counted_appends _
  · exact .fail _

theorem unit_appends : unit.Appends := by
  intro v
  unfold unit
  split
  · exact .nothing
  · exact .nothing
  · exact .fail _

theorem bytes_appends : bytes.Appends := by
  intro v
  unfold bytes
  split
  · exact counted_appends _
  · exact .fail _

theorem fixedBytes_appends (codec : Codec) (length : Int) : (fixedBytes codec length).Appends := by
  intro v
  unfold fixedBytes
  split
  · split
    · exact .bytes _
    · exact .fail _
  · exact .fail _

theorem compact_appends (kind? : Option IntKind) : (compact kind?).Appends := by
  intro v
  unfold compact
  split
  · dsimp only
    split
    · exact Compact.encodeValue_appends _
    · exact .fail _
  · exact Compact.encodeValue_appends _

theorem langError_appends : langError.Appends := by
  intro v
  unfold langError
  split
  · exact .byte _
  · exact .fail _

theorem raisedLangError_appends : raisedLangError.Appends := by
  intro v
  unfold raisedLangError
  split <;> exact langError_appends _

/-! ### Codecs with parts -/

variable {item key value : Encoder}

theorem each_appends {items : List Encoder} (h : ∀ e ∈ items, e.Appends) (vs : List Value) :
    Scale.Appends (each items vs) := by
  induction items generalizing vs with
  | nil => exact .nothing
  | cons e rest ih =>
      cases vs with
      | nil => exact .nothing
      | cons v vs =>
          exact .append (h e List.mem_cons_self v)
            (ih (fun e he => h e (List.mem_cons_of_mem _ he)) vs)

theorem tuple_appends (codec : Codec) {items : List Encoder} (h : ∀ e ∈ items, e.Appends) :
    (tuple codec items).Appends := by
  intro v
  unfold tuple
  split
  · split
    · exact each_appends h _
    · exact .fail _
  · split
    · exact each_appends h _
    · exact .fail _
  · exact .fail _

theorem all_appends (h : item.Appends) (vs : List Value) : Scale.Appends (all item vs) := by
  induction vs with
  | nil => exact .nothing
  | cons v rest ih => exact .append (h v) ih

theorem array_appends (codec : Codec) (h : item.Appends) (length : Int) :
    (array codec item length).Appends := by
  intro v
  unfold array
  split
  · exact .failure _
  · split
    · exact all_appends h _
    · exact .fail _

theorem sequence_appends (h : item.Appends) : (sequence item).Appends := by
  intro v
  unfold sequence
  split
  · exact .failure _
  · exact .append (Compact.encodeValue_appends _) (all_appends h _)

theorem option_appends (h : item.Appends) : (option item).Appends := by
  intro v
  unfold option
  split
  · exact .byte _
  · exact .append (.byte _) (h _)

theorem result_appends (codec : Codec) (hok : key.Appends) (herr : value.Appends) :
    (result codec key value).Appends := by
  intro v
  unfold result
  split
  · exact .append (.byte _) (hok _)
  · exact .append (.byte _) (herr _)
  · exact .fail _

theorem allEntries_appends (hkey : key.Appends) (hvalue : value.Appends)
    (entries : List (List Value)) : Scale.Appends (allEntries key value entries) := by
  induction entries with
  | nil => exact .nothing
  | cons entry rest ih =>
      refine .append ?_ ih
      unfold Encoder.entry
      split
      · exact .append (hkey _) (hvalue _)
      · exact .failure _

theorem map_appends (hkey : key.Appends) (hvalue : value.Appends) : (map key value).Appends := by
  intro v
  unfold map
  split
  · exact .failure _
  · split
    · exact .failure _
    · split
      · exact .failure _
      · exact .append (Compact.encodeValue_appends _) (allEntries_appends hkey hvalue _)

theorem fields_appends {encoder : Codec → Encoder} (h : ∀ c, (encoder c).Appends) (owner : Value)
    (given : String → Option Value) (fs : Fields) :
    Scale.Appends (fields encoder owner given fs) := by
  induction fs with
  | nil => exact .nothing
  | cons f rest ih =>
      unfold fields
      split
      · exact .fail _
      · exact .append (h _ _) ih

end Encoder

/-- The encoder of a codec appends if those of declared types do. -/
theorem Codec.encoder_appends {declared : Room → Reference → Encoder}
    (h : ∀ room r, (declared room r).Appends) (room : Room) (c : Codec) :
    (c.encoder declared room).Appends := by
  induction c using Codec.parts_induction generalizing room with
  | step c ih =>
      cases c with
      | int kind => exact Encoder.integer_appends kind
      | bool => exact Encoder.bool_appends
      | char => exact Encoder.char_appends
      | str => exact Encoder.str_appends
      | unit => exact Encoder.unit_appends
      | bytes => exact Encoder.bytes_appends
      | accountId | hash | fixedBytes => exact Encoder.fixedBytes_appends _ _
      | compact inner => exact Encoder.compact_appends _
      | tuple items =>
          refine Encoder.tuple_appends _ fun e he => ?_
          rw [encoders_eq_map] at he
          obtain ⟨d, hd, rfl⟩ := List.mem_map.mp he
          exact ih d hd _
      | array item length => exact Encoder.array_appends _ (ih item List.mem_cons_self _) length
      | sequence item => exact Encoder.sequence_appends (ih item List.mem_cons_self _)
      | option inner => exact Encoder.option_appends (ih inner List.mem_cons_self _)
      | result ok err =>
          exact Encoder.result_appends _ (ih ok List.mem_cons_self _)
            (ih err (List.mem_cons_of_mem _ List.mem_cons_self) _)
      | map key value =>
          exact Encoder.map_appends (ih key List.mem_cons_self _)
            (ih value (List.mem_cons_of_mem _ List.mem_cons_self) _)
      | langError => exact Encoder.langError_appends
      | raisedLangError => exact Encoder.raisedLangError_appends
      | reference r => exact h room r

/-! ### Declared types -/

namespace Environment
variable (env : Environment)

theorem unboundEncoder_appends (r : Reference) : (env.unboundEncoder r).Appends := by
  intro v
  unfold unboundEncoder
  split
  · exact .failure _
  · split
    · split
      · exact .failure _
      · exact .fail _
    · exact .fail _
    · exact .failure _

theorem layoutEncoder_appends {encoder : Codec → Encoder} (h : ∀ c, (encoder c).Appends)
    (owner : String) (layout : Layout) : (env.layoutEncoder encoder owner layout).Appends := by
  intro v
  cases layout with
  | record fields =>
      simp only [layoutEncoder]
      split
      · split
        · exact Encoder.fields_appends h _ _ _
        · exact .fail _
      · exact .fail _
  | sum alternatives =>
      simp only [layoutEncoder]
      split
      · split
        · exact .append (.byte _) (Encoder.fields_appends h _ _ _)
        · exact .fail _
      · exact .fail _

theorem ownEncoder_appends {encoder : Codec → Encoder} (h : ∀ c, (encoder c).Appends)
    (r : Reference) : (env.ownEncoder encoder r).Appends := by
  unfold ownEncoder
  split
  · exact fun _ => .failure _
  · exact fun _ => .failure _
  · exact env.unboundEncoder_appends r
  · exact env.layoutEncoder_appends h _ _

theorem encoder_appends (level : Nat) (room : Room) (r : Reference) :
    (env.encoder level room r).Appends := by
  induction level generalizing room r with
  | zero => exact fun _ => .failure _
  | succ level ih =>
      unfold encoder
      split
      · split
        · intro v
          dsimp only
          split
          · exact .nothing
          · exact .failure _
        · exact env.ownEncoder_appends (Codec.encoder_appends ih _) r
      · exact fun _ => .failure _

end Environment

namespace Codec

theorem encodeTo_appends (env : Environment) (c : Codec) (v : Value) :
    Appends (c.encodeTo env v) :=
  encoder_appends (env.encoder_appends _) _ c v

/-- What a value is encoded as is what is appended for it, to every buffer. -/
theorem writes_of_encode {env : Environment} {c : Codec} {v : Value} {b : Bytes}
    (h : c.encode env v = .ok b) : Writes (c.encodeTo env v) b := by
  rw [encode, bytesOf] at h
  obtain ⟨a, ha⟩ | ⟨e, a, ha⟩ := encodeTo_appends env c v
  · have hrun : (c.encodeTo env v).run .empty = .ok () (.ofBytes a) := ha []
    rw [hrun] at h
    cases h
    rwa [Buffer.bytes_ofBytes]
  · have hrun : (c.encodeTo env v).run .empty = .error e (.ofBytes a) := ha []
    rw [hrun] at h
    cases h

end Codec
end InkBindings.Scale
