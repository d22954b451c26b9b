import InkBindings.Proofs.Scale.Parts

/-!
Reading and writing at a level, where calls may be nested without end. Everything that stands in a
row is read and written one after the other: the fields of an instance, the items of an array or a
sequence, the keys and values of a map.
-/

namespace InkBindings.Scale

namespace Decoder

theorem repeated_eq_each (item : Decoder) (count : Nat) :
    (fun data => repeated item data count []) = each (List.replicate count item) := by
  funext data offset
  induction count generalizing offset with
  | zero => rfl
  | succ count ih =>
      simp only [repeated, List.replicate_succ, each]
      cases item data offset with
      | error e => rfl
      | ok r =>
          simp only [Bind.bind, Except.bind]
          rw [repeated_eq_map]
          simp only [ih]
          cases each (List.replicate count item) data r.2 <;> rfl

/-- The entries of a map as they are read: keys and values in turn. -/
def pairUp : List Value → List (Value × Value)
  | k :: v :: rest => (hashableKey k, v) :: pairUp rest
  | _ => []

theorem entries_eq_each (key value : Decoder) (count : Nat) :
    (fun data => entries key value data count []) = fun data offset =>
      each (List.replicate count [key, value]).flatten data offset >>=
        fun r => .ok (pairUp r.1, r.2) := by
  funext data offset
  induction count generalizing offset with
  | zero => rfl
  | succ count ih =>
      simp only [entries, List.replicate_succ, List.flatten_cons, List.cons_append,
        List.nil_append, each]
      cases key data offset with
      | error e => rfl
      | ok k =>
          simp only [Bind.bind, Except.bind]
          cases value data k.2 with
          | error e => rfl
          | ok v =>
              simp only
              rw [entries_eq_map]
              simp only [ih]
              cases each (List.replicate count [key, value]).flatten data v.2 <;> rfl

theorem fields_eq_each (decoder : Codec → Decoder) (fs : Fields) :
    fields decoder fs = fun data offset =>
      each ((fs.map (·.2)).map decoder) data offset >>=
        fun r => .ok ((fs.map (·.1)).zip r.1, r.2) := by
  funext data offset
  induction fs generalizing offset with
  | nil => rfl
  | cons f rest ih =>
      simp only [fields, List.map_cons, each]
      cases decoder f.2 data offset with
      | error e => rfl
      | ok v =>
          simp only [Bind.bind, Except.bind]
          rw [ih]
          cases each ((rest.map (·.2)).map decoder) data v.2 <;> rfl

end Decoder

namespace Encoder

theorem all_eq_each (item : Encoder) (vs : List Value) :
    all item vs = each (List.replicate vs.length item) vs := by
  induction vs with
  | nil => rfl
  | cons v rest ih => rw [all, ih, List.length_cons, List.replicate_succ, each]

/-- The fields of an instance are written like any other row of values. -/
theorem fields_eq_each (encoder : Codec → Encoder) (owner : Value) (given : String → Option Value)
    {fs : Fields} {vs : List Value} (h : fs.map (fun f => given f.1) = vs.map some) :
    fields encoder owner given fs = each (fs.map fun f => encoder f.2) vs := by
  induction fs generalizing vs with
  | nil =>
      obtain rfl : vs = [] := by simpa using h.symm
      rfl
  | cons f rest ih =>
      cases vs with
      | nil => simp at h
      | cons v vs =>
          simp only [List.map_cons, List.cons.injEq] at h
          simp only [fields, h.1, List.map_cons, each, ih h.2]

end Encoder

namespace Environment
variable (env : Environment) (level : Nat)

/-- Reading by a codec, declared types being nested at most `level` deep. -/
def reading (c : Codec) : Decoder := c.decoder (env.decoder level) .unbounded

/-- Writing by a codec, declared types being nested at most `level` deep. -/
def writing (c : Codec) : Encoder := c.encoder (env.encoder level) .unbounded

theorem reading_tuple (items : List Codec) :
    env.reading level (.tuple items) = Decoder.tuple (items.map (env.reading level)) := by
  simp only [reading, Codec.decoder, Codec.decoders_eq_map, Room.inside_unbounded]
  rfl

theorem writing_tuple (items : List Codec) :
    env.writing level (.tuple items) =
      Encoder.tuple (.tuple items) (items.map (env.writing level)) := by
  simp only [writing, Codec.encoder, Codec.encoders_eq_map, Room.inside_unbounded]
  rfl

theorem writing_array (item : Codec) (length : Int) :
    env.writing level (.array item length) =
      Encoder.array (.array item length) (env.writing level item) length := rfl

theorem writing_option (inner : Codec) :
    env.writing level (.option inner) = Encoder.option (env.writing level inner) := rfl

theorem reading_succ (r : Reference) :
    env.reading (level + 1) (.reference r) =
      if (env.hiding? .decodeFrom r).isSome then fun _ _ => .error .hidden
      else env.ownDecoder (env.reading level) r := by
  simp only [reading, Codec.decoder, decoder, Room.holds_unbounded, Bool.not_true,
    Bool.false_eq_true, if_false, Room.inside_unbounded]
  rfl

theorem writing_succ (r : Reference) :
    env.writing (level + 1) (.reference r) =
      match env.hiding? .encodeTo r with
      | some c => fun _ => if c.takes 2 then pure () else throw .hidden
      | none => env.ownEncoder (env.writing level) r := by
  simp only [writing, Codec.encoder, encoder, Room.holds_unbounded, if_true,
    Room.inside_unbounded]
  rfl

variable {env level} {r : Reference} {layout : Layout}

theorem codecFault_of_layout (hlayout : env.layout? r = some layout)
    (h : env.hiding? .codec r = none) : env.codecFault? r = none := by
  simp [codecFault?, h, hlayout]

theorem ownDecoder_of_layout (hlayout : env.layout? r = some layout)
    (h : env.hiding? .codec r = none) (decoder : Codec → Decoder) :
    env.ownDecoder decoder r = env.layoutDecoder decoder r.owner layout := by
  simp only [ownDecoder, codecFault_of_layout hlayout h, hlayout]

theorem ownEncoder_of_layout (hlayout : env.layout? r = some layout)
    (h : env.hiding? .codec r = none) (encoder : Codec → Encoder) :
    env.ownEncoder encoder r = env.layoutEncoder encoder r.owner layout := by
  simp only [ownEncoder, codecFault_of_layout hlayout h, hlayout]

/-- Where an alternative hides the codec, nothing is read. -/
theorem ownDecoder_of_hidden {c : AlternativeClass} (h : env.hiding? .codec r = some c) :
    ∃ f, (f = .hidden ∨ f = .endless) ∧
      ∀ decoder, env.ownDecoder decoder r = fun _ _ => .error f := by
  by_cases htakes : c.takes 0
  · refine ⟨.endless, .inr rfl, fun decoder => ?_⟩
    simp only [ownDecoder, codecFault?, h, htakes, if_true]
    rfl
  · refine ⟨.hidden, .inl rfl, fun decoder => ?_⟩
    simp only [ownDecoder, codecFault?, h, htakes]
    rfl

/-- Reading instances of the type is left to its codec. -/
def Readable (env : Environment) (r : Reference) : Prop :=
  env.hiding? .codec r = none ∧ env.hiding? .decodeFrom r = none

theorem reading_of_readable (hlayout : env.layout? r = some layout) (h : env.Readable r) :
    env.reading (level + 1) (.reference r) =
      env.layoutDecoder (env.reading level) r.owner layout := by
  rw [reading_succ, h.2]
  exact ownDecoder_of_layout hlayout h.1 _

theorem not_readable (hnot : ¬ env.Readable r) :
    ∃ f, (f = .hidden ∨ f = .endless) ∧
      ∀ level, env.reading (level + 1) (.reference r) = fun _ _ => .error f := by
  simp only [Readable] at hnot
  cases hdecode : env.hiding? .decodeFrom r with
  | some c => exact ⟨.hidden, .inl rfl, fun level => by simp [reading_succ, hdecode]⟩
  | none =>
      cases hcodec : env.hiding? .codec r with
      | none => exact absurd ⟨hcodec, hdecode⟩ hnot
      | some c =>
          obtain ⟨f, hf, hown⟩ := ownDecoder_of_hidden hcodec
          exact ⟨f, hf, fun level => by simp [reading_succ, hdecode, hown]⟩

theorem writing_of_layout (hlayout : env.layout? r = some layout)
    (hcodec : env.hiding? .codec r = none) (h : env.hiding? .encodeTo r = none) :
    env.writing (level + 1) (.reference r) =
      env.layoutEncoder (env.writing level) r.owner layout := by
  rw [writing_succ, h]
  exact ownEncoder_of_layout hlayout hcodec _

theorem decodeFrom_eq_reading (hroom : env.room = .unbounded) (c : Codec) (data : Source)
    (offset : Int) :
    c.decodeFrom env data offset = env.reading (env.possibleLevels data offset) c data offset := by
  simp only [Codec.decodeFrom, hroom]
  rfl

theorem encodeTo_eq_writing (hroom : env.room = .unbounded) (c : Codec) (v : Value) :
    c.encodeTo env v = env.writing (v.depth + 1) c v := by
  simp only [Codec.encodeTo, hroom]
  rfl

end Environment
end InkBindings.Scale
