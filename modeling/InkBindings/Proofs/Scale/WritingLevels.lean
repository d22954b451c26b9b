import InkBindings.Proofs.Fallible
import InkBindings.Proofs.Scale.Appending
import InkBindings.Proofs.Scale.Nesting
import InkBindings.Proofs.Scale.Written

/-!
More levels of nesting change nothing but the writings that had too few. What a value is encoded as
by itself is what it is written as inside another value, so that a value is encoded as its parts are.
-/

namespace InkBindings.Scale

/-- The first computation does what the second does, or is given up for lack of levels. -/
def Follows (x y : EStateM EncodeFailure Buffer Unit) : Prop :=
  ∀ s, x.run s = y.run s ∨ ∃ s', x.run s = .error .endless s'

namespace Follows
variable {x y z : EStateM EncodeFailure Buffer Unit}

theorem refl (x : EStateM EncodeFailure Buffer Unit) : Follows x x :=
  fun _ => .inl rfl

theorem endless (y : EStateM EncodeFailure Buffer Unit) : Follows (throw .endless) y :=
  fun s => .inr ⟨s, rfl⟩

theorem trans (h1 : Follows x y) (h2 : Follows y z) : Follows x z := by
  intro s
  rcases h1 s with hsame | hend
  · rw [hsame]
    exact h2 s
  · exact .inr hend

theorem bind {first first' : EStateM EncodeFailure Buffer Unit} (h1 : Follows first first')
    (h2 : Follows x y) : Follows (do first; x) (do first'; y) := by
  intro s
  simp only [EStateM.run_bind]
  rcases h1 s with hsame | ⟨s', hend⟩
  · rw [hsame]
    cases first'.run s with
    | ok _ s' => exact h2 s'
    | error e s' => exact .inl rfl
  · exact .inr ⟨s', by rw [hend]⟩

theorem writes (h : Follows x y) {b : Bytes} (hx : Writes x b) : Writes y b := by
  intro before
  rcases h (.ofBytes before) with hsame | ⟨s', hend⟩
  · rw [← hsame]
    exact hx before
  · rw [hx before] at hend
    cases hend

end Follows

/-- Writing any value by the first encoder follows writing it by the second. -/
def Encoder.Follows (first second : Encoder) : Prop :=
  ∀ v, Scale.Follows (first v) (second v)

namespace Encoder
variable {item item' key key' value value' : Encoder}

theorem each_follows {items items' : List Encoder} (h : List.Forall₂ Encoder.Follows items items')
    (vs : List Value) : Scale.Follows (each items vs) (each items' vs) := by
  induction h generalizing vs with
  | nil => exact .refl _
  | cons hfirst _ ih =>
      cases vs with
      | nil => exact .refl _
      | cons v vs => exact .bind (hfirst v) (ih vs)

theorem tuple_follows (codec : Codec) {items items' : List Encoder}
    (h : List.Forall₂ Encoder.Follows items items') :
    (tuple codec items).Follows (tuple codec items') := by
  intro v
  unfold tuple
  rw [h.length_eq]
  split
  · split
    · exact each_follows h _
    · exact .refl _
  · split
    · exact each_follows h _
    · exact .refl _
  · exact .refl _

theorem all_follows (h : item.Follows item') (vs : List Value) :
    Scale.Follows (all item vs) (all item' vs) := by
  induction vs with
  | nil => exact .refl _
  | cons v rest ih => exact .bind (h v) ih

theorem array_follows (codec : Codec) (h : item.Follows item') (length : Int) :
    (array codec item length).Follows (array codec item' length) := by
  intro v
  unfold array
  split
  · exact .refl _
  · split
    · exact all_follows h _
    · exact .refl _

theorem sequence_follows (h : item.Follows item') : (sequence item).Follows (sequence item') := by
  intro v
  unfold sequence
  split
  · exact .refl _
  · exact .bind (.refl _) (all_follows h _)

theorem option_follows (h : item.Follows item') : (option item).Follows (option item') := by
  intro v
  unfold option
  split
  · exact .refl _
  · exact .bind (.refl _) (h _)

theorem result_follows (codec : Codec) (hok : key.Follows key') (herr : value.Follows value') :
    (result codec key value).Follows (result codec key' value') := by
  intro v
  unfold result
  split
  · exact .bind (.refl _) (hok _)
  · exact .bind (.refl _) (herr _)
  · exact .refl _

/-! ### Maps -/

/-- The bytes of a key are the same, or are not found for lack of levels. -/
theorem keyBytes_follows (h : key.Follows key') (k : Value) :
    keyBytes key k = keyBytes key' k ∨ keyBytes key k = .error .endless := by
  unfold keyBytes
  rcases h k .empty with hsame | ⟨s', hend⟩
  · rw [hsame]
    exact .inl rfl
  · rw [hend]
    exact .inr rfl

theorem mapM_follows {α β : Type} {f g : α → Except EncodeFailure β}
    (h : ∀ a, f a = g a ∨ f a = .error .endless) (as : List α) :
    as.mapM f = as.mapM g ∨ as.mapM f = .error .endless := by
  induction as with
  | nil => exact .inl rfl
  | cons a as ih =>
      rw [List.mapM_cons, List.mapM_cons]
      rcases h a with hsame | hend
      · rw [hsame]
        cases g a with
        | error e => exact .inl rfl
        | ok b =>
            rcases ih with hsame | hend
            · exact .inl (by rw [hsame])
            · exact .inr (by rw [hend]; rfl)
      · exact .inr (by rw [hend]; rfl)

theorem sortEntries_follows (h : key.Follows key') (entries : List (Value × List Value)) :
    sortEntries key entries = sortEntries key' entries ∨
      sortEntries key entries = .error .endless := by
  unfold sortEntries
  split
  · exact .inl rfl
  · split
    · exact .inl rfl
    · next left _ =>
        have hkeyed (e : Value × List Value) :
            (do return (← keyBytes key e.1, e.2) : Except EncodeFailure (Bytes × List Value)) =
              (do return (← keyBytes key' e.1, e.2)) ∨
            (do return (← keyBytes key e.1, e.2) : Except EncodeFailure (Bytes × List Value)) =
              .error .endless := by
          rcases keyBytes_follows h e.1 with hsame | hend
          · exact .inl (by rw [hsame])
          · exact .inr (by rw [hend]; rfl)
        rcases mapM_follows hkeyed left with hsame | hend
        · exact .inl (by rw [hsame])
        · exact .inr (by rw [hend]; rfl)

theorem allEntries_follows (hkey : key.Follows key') (hvalue : value.Follows value')
    (entries : List (List Value)) :
    Scale.Follows (allEntries key value entries) (allEntries key' value' entries) := by
  induction entries with
  | nil => exact .refl _
  | cons e rest ih =>
      refine .bind ?_ ih
      unfold entry
      split
      · exact .bind (hkey _) (hvalue _)
      · exact .refl _

theorem map_follows (hkey : key.Follows key') (hvalue : value.Follows value') :
    (map key value).Follows (map key' value') := by
  intro v
  unfold map
  split
  · exact .refl _
  · split
    · exact .refl _
    · next keyed _ =>
        rcases sortEntries_follows hkey keyed with hsame | hend
        · rw [hsame]
          split
          · exact .refl _
          · exact .bind (.refl _) (allEntries_follows hkey hvalue _)
        · rw [hend]
          exact .endless _

theorem fields_follows {encoder encoder' : Codec → Encoder}
    (h : ∀ c, (encoder c).Follows (encoder' c)) (owner : Value) (given : String → Option Value)
    (fs : Fields) :
    Scale.Follows (fields encoder owner given fs) (fields encoder' owner given fs) := by
  induction fs with
  | nil => exact .refl _
  | cons f rest ih =>
      unfold fields
      split
      · exact .refl _
      · exact .bind (h _ _) ih

end Encoder

/-- The encoder of a codec follows another if those of declared types do. -/
theorem Codec.encoder_follows {declared declared' : Room → Reference → Encoder}
    (h : ∀ room r, (declared room r).Follows (declared' room r)) (room : Room) (c : Codec) :
    (c.encoder declared room).Follows (c.encoder declared' room) := by
  induction c using Codec.parts_induction generalizing room with
  | step c ih =>
      cases c with
      | tuple items =>
          refine Encoder.tuple_follows _ ?_
          rw [encoders_eq_map, encoders_eq_map, forall₂_map_same]
          exact fun d hd => ih d hd _
      | array item length => exact Encoder.array_follows _ (ih item List.mem_cons_self _) length
      | sequence item => exact Encoder.sequence_follows (ih item List.mem_cons_self _)
      | option inner => exact Encoder.option_follows (ih inner List.mem_cons_self _)
      | result ok err =>
          exact Encoder.result_follows _ (ih ok List.mem_cons_self _)
            (ih err (List.mem_cons_of_mem _ List.mem_cons_self) _)
      | map key value =>
          exact Encoder.map_follows (ih key List.mem_cons_self _)
            (ih value (List.mem_cons_of_mem _ List.mem_cons_self) _)
      | reference r => exact h room r
      | _ => exact fun _ => .refl _

namespace Environment
variable {env : Environment}

theorem layoutEncoder_follows {encoder encoder' : Codec → Encoder}
    (h : ∀ c, (encoder c).Follows (encoder' c)) (owner : String) (layout : Layout) :
    (env.layoutEncoder encoder owner layout).Follows (env.layoutEncoder encoder' owner layout) := by
  intro v
  cases layout with
  | record fields =>
      simp only [layoutEncoder]
      split
      · split
        · exact Encoder.fields_follows h _ _ _
        · exact .refl _
      · exact .refl _
  | sum alternatives =>
      simp only [layoutEncoder]
      split
      · split
        · exact .bind (.refl _) (Encoder.fields_follows h _ _ _)
        · exact .refl _
      · exact .refl _

theorem ownEncoder_follows {encoder encoder' : Codec → Encoder}
    (h : ∀ c, (encoder c).Follows (encoder' c)) (r : Reference) :
    (env.ownEncoder encoder r).Follows (env.ownEncoder encoder' r) := by
  unfold ownEncoder
  split
  · exact fun _ => .refl _
  · exact fun _ => .refl _
  · exact fun _ => .refl _
  · exact layoutEncoder_follows h _ _

theorem encoder_follows_succ (level : Nat) (room : Room) (r : Reference) :
    (env.encoder level room r).Follows (env.encoder (level + 1) room r) := by
  induction level generalizing room r with
  | zero => exact fun _ => .endless _
  | succ level ih =>
      rw [encoder, encoder]
      split
      · split
        · exact fun _ => .refl _
        · exact ownEncoder_follows (Codec.encoder_follows ih _) r
      · exact fun _ => .refl _

theorem encoder_follows {level level' : Nat} (h : level ≤ level') (room : Room) (r : Reference) :
    (env.encoder level room r).Follows (env.encoder level' room r) := by
  induction h with
  | refl => exact fun _ => .refl _
  | step _ ih => exact fun v => (ih v).trans (encoder_follows_succ _ room r v)

theorem writing_follows {level level' : Nat} (h : level ≤ level') (c : Codec) :
    (env.writing level c).Follows (env.writing level' c) :=
  Codec.encoder_follows (encoder_follows h) _ c

end Environment

namespace Codec
variable {env : Environment} (hroom : env.room = .unbounded)

include hroom

/-- What a value is encoded as is what is written for it wherever it may be nested. -/
theorem writes_at_level {c : Codec} {v : Value} {b : Bytes} (h : c.encode env v = .ok b)
    {level : Nat} (hlevel : v.depth < level) : Writes (env.writing level c v) b := by
  have hwrites := writes_of_encode h
  rw [Environment.encodeTo_eq_writing hroom] at hwrites
  exact (Environment.writing_follows hlevel c v).writes hwrites

theorem encode_of_writing {c : Codec} {v : Value} {b : Bytes}
    (h : Writes (env.writing (v.depth + 1) c v) b) : c.encode env v = .ok b := by
  refine encode_of_writes ?_
  rwa [Environment.encodeTo_eq_writing hroom]

end Codec

/-! ### What is put together from encoded parts -/

/-- What the values of a row are encoded as, one behind the other. -/
inductive EncodedAll (env : Environment) : List Codec → List Value → Bytes → Prop
  | nil : EncodedAll env [] [] []
  | cons {c v b cs vs bs} : c.encode env v = .ok b → EncodedAll env cs vs bs →
      EncodedAll env (c :: cs) (v :: vs) (b ++ bs)

theorem EncodedAll.length_eq {env : Environment} {cs : List Codec} {vs : List Value} {b : Bytes}
    (h : EncodedAll env cs vs b) : vs.length = cs.length := by
  induction h with
  | nil => rfl
  | cons _ _ ih => rw [List.length_cons, List.length_cons, ih]

section
variable {env : Environment} (hroom : env.room = .unbounded) {vs : List Value} {b : Bytes}

include hroom

theorem EncodedAll.writes {level : Nat} {cs : List Codec} (h : EncodedAll env cs vs b)
    (hlevel : ∀ v ∈ vs, v.depth < level) :
    Writes (Encoder.each (cs.map (env.writing level)) vs) b := by
  induction h with
  | nil => exact .nothing
  | cons hv _ ih =>
      obtain ⟨hdepth, hdepths⟩ := List.forall_mem_cons.mp hlevel
      exact .append (Codec.writes_at_level hroom hv hdepth) (ih hdepths)

theorem EncodedAll.writes_items {level : Nat} {item : Codec}
    (h : EncodedAll env (List.replicate vs.length item) vs b)
    (hlevel : ∀ v ∈ vs, v.depth < level) : Writes (Encoder.all (env.writing level item) vs) b := by
  have heach := h.writes hroom hlevel
  rwa [List.map_replicate, ← Encoder.all_eq_each] at heach

namespace Codec

theorem encode_tuple {items : List Codec} (h : EncodedAll env items vs b) :
    (Codec.tuple items).encode env (.tuple vs) = .ok b := by
  refine encode_of_writing hroom ?_
  have heach := h.writes hroom
    fun v hv => Nat.lt_succ_of_lt (Nat.lt_succ_of_le (Value.depth_le_of_item hv))
  simpa only [Environment.writing_tuple, Encoder.tuple, Value.depth, List.length_map,
    h.length_eq, if_true] using heach

/-- Arrays are encoded alike whether they come as lists or as tuples, and so are sequences. -/
theorem encode_array {item : Codec} {v : Value} (hmembers : v.members? = some vs)
    (hdepth : ∀ w ∈ vs, w.depth ≤ v.depth)
    (h : EncodedAll env (List.replicate vs.length item) vs b) :
    (Codec.array item vs.length).encode env v = .ok b := by
  refine encode_of_writing hroom ?_
  have hitems := h.writes_items hroom fun w hw => Nat.lt_succ_of_le (hdepth w hw)
  simpa only [Environment.writing_array, Encoder.array, hmembers, if_true] using hitems

theorem encode_sequence {item : Codec} {v : Value} (hmembers : v.members? = some vs)
    (hdepth : ∀ w ∈ vs, w.depth ≤ v.depth) (hlen : vs.length < Compact.bound)
    (h : EncodedAll env (List.replicate vs.length item) vs b) :
    (Codec.sequence item).encode env v = .ok (Compact.encode vs.length ++ b) := by
  refine encode_of_writing hroom ?_
  have hitems := h.writes_items hroom fun w hw => Nat.lt_succ_of_le (hdepth w hw)
  have hwrites := Writes.append (Compact.writes_encodeValue hlen) hitems
  change Writes (Encoder.sequence (env.writing _ item) v) _
  simpa only [Encoder.sequence, hmembers] using hwrites

theorem encode_none (inner : Codec) : (Codec.option inner).encode env .none = .ok [0] :=
  encode_of_writing hroom (.byte 0)

theorem encode_some {inner : Codec} {v : Value} (hv : v ≠ .none)
    (h : inner.encode env v = .ok b) : (Codec.option inner).encode env v = .ok (1 :: b) := by
  refine encode_of_writing hroom ?_
  rw [Environment.writing_option, Encoder.option_of_ne_none hv]
  exact .append (.byte 1) (writes_at_level hroom h (Nat.lt_succ_self _))

theorem encode_ok {ok err : Codec} {v : Value} (h : ok.encode env v = .ok b) :
    (Codec.result ok err).encode env (.ok v) = .ok (0 :: b) :=
  encode_of_writing hroom
    (.append (.byte 0) (writes_at_level hroom h (Nat.lt_succ_of_lt (Nat.lt_succ_self _))))

theorem encode_err {ok err : Codec} {v : Value} (h : err.encode env v = .ok b) :
    (Codec.result ok err).encode env (.err v) = .ok (1 :: b) :=
  encode_of_writing hroom
    (.append (.byte 1) (writes_at_level hroom h (Nat.lt_succ_of_lt (Nat.lt_succ_self _))))

end Codec
end

section
variable {env : Environment} {r : Reference} (hsound : env.Sound (.reference r))
  (hcodec : env.hiding? .codec r = none) (hopen : env.hiding? .encodeTo r = none)
  {vs : List Value} {v : Value} {b : Bytes}

include hsound hcodec hopen

namespace Codec

/-- A record is encoded as the values that it was made of. -/
theorem encode_record {fields : Fields} (hlayout : env.layout? r = some (.record fields))
    (hmade : env.makeRecord r.owner ((fields.map (·.1)).zip vs) = .ok v)
    (h : EncodedAll env (fields.map (·.2)) vs b) : (Codec.reference r).encode env v = .ok b := by
  have hlen := h.length_eq
  rw [List.length_map] at hlen
  refine encode_of_writing hsound.room ?_
  refine Environment.writes_record hsound (.refl _) hcodec hopen hlayout hlen hmade ?_
  exact h.writes hsound.room
    (Environment.depth_lt_of_makeRecord hsound (.refl _) hlayout hlen hmade)

/-- An alternative is encoded as its index and the values that it was made of. -/
theorem encode_variant {alternatives : List Alternative} {a : Alternative}
    (hlayout : env.layout? r = some (.sum alternatives)) (ha : a ∈ alternatives)
    (hmade : env.makeVariant r.owner a.label ((a.fields.map (·.1)).zip vs) = .ok v)
    (h : EncodedAll env (a.fields.map (·.2)) vs b) :
    (Codec.reference r).encode env v = .ok (a.index :: b) := by
  have hlen := h.length_eq
  rw [List.length_map] at hlen
  refine encode_of_writing hsound.room ?_
  refine Environment.writes_variant hsound (.refl _) hcodec hopen hlayout ha hlen hmade ?_
  exact h.writes hsound.room
    (Environment.depth_lt_of_makeVariant hsound (.refl _) hlayout ha hlen hmade)

end Codec
end

end InkBindings.Scale
