import InkBindings.Contract.Event
import InkBindings.Proofs.Contract.Origin
import InkBindings.Proofs.Text.Hex

/-!
What is taken for the identifier of an account or of code. A byte string of the right size is one,
and so is a text that spells it, and an identifier that is written is read back. But a value that is
neither may count the bytes of an identifier, or list them; then one is made up for it.
-/

namespace InkBindings

/-- The bytes that a value consists of or, where texts are read, that it spells in hexadecimal. -/
inductive Value.Denotes : Value → (texts : Bool) → Bytes → Prop
  | content {v texts b} : v.byteContent? = some b → Denotes v texts b
  | text {s digits b} : Hex.Marked s digits → Hex.Spaced digits b → Denotes (.str s) true b

/-- An identifier that no one gave: zeros, for a value that counts its bytes, or the items of a value
that lists them. -/
inductive Value.MakesUp (v : Value) : Bytes → Prop
  | zeros : v.index? = some (.ok identifierSize) → MakesUp v (List.replicate identifierSize 0)
  | items {b} : b.length = identifierSize →
      List.Forall₂ (fun item x => item.index? = some (.ok x.toNat)) v.byteItems b → MakesUp v b

/-! ### Byte strings of values -/

namespace Value

theorem byteOfItem_eq_ok_iff {v : Value} {x : UInt8} :
    v.byteOfItem = .ok x ↔ v.index? = some (.ok x.toNat) := by
  have hx : x.toNat < 256 := x.toNat_lt
  rw [byteOfItem]
  split
  · next hnone => simp [hnone]
  · next r hsome =>
      rw [hsome, Option.some.injEq]
      cases r with
      | error e => exact iff_of_false nofun nofun
      | ok n =>
          change (if 0 ≤ n ∧ n < 256 then Except.ok (UInt8.ofNat n.toNat)
            else .error ConversionError.itemOutOfRange) = .ok x ↔ _
          rw [Except.ok.injEq]
          constructor
          · intro h
            split at h
            · next hrange =>
                cases h
                rw [UInt8.toNat_ofNat']
                omega
            · cases h
          · rintro rfl
            rw [if_pos (by omega), Int.toNat_natCast, UInt8.ofNat_toNat]

/-- The items of a byte string are read one by one. -/
theorem mapM_byteOfItem_iff {items : List Value} {b : Bytes} : items.mapM byteOfItem = .ok b ↔
    List.Forall₂ (fun item x => item.index? = some (.ok x.toNat)) items b := by
  constructor
  · intro h
    exact (forall₂_of_mapM h).imp fun _ _ => byteOfItem_eq_ok_iff.mp
  · intro h
    exact mapM_of_forall₂ (h.imp fun _ _ => byteOfItem_eq_ok_iff.mpr)

theorem exists_content_iff {x : Except ConversionError Bytes} {b : Bytes} :
    (∃ source, x.map ByteSource.content = .ok source ∧ source.bytes = b) ↔ x = .ok b := by
  cases x with
  | error e => exact iff_of_false nofun nofun
  | ok b' =>
      constructor
      · rintro ⟨_, ⟨⟩, rfl⟩
        rfl
      · rintro ⟨⟩
        exact ⟨.content b, rfl, rfl⟩

theorem zerosOf_eq_ok {n : Int} {source : ByteSource} (h : zerosOf n = .ok source) :
    0 ≤ n ∧ source = .zeros n.toNat := by
  unfold zerosOf at h
  split_ifs at h
  cases h
  exact ⟨by omega, rfl⟩

/-- A count gives so many zeros. -/
theorem exists_zeros_iff {n : Except ConversionError Int} {b : Bytes}
    (hb : b.length = identifierSize) :
    (∃ source, n.bind zerosOf = .ok source ∧ source.bytes = b) ↔
      n = .ok identifierSize ∧ b = List.replicate identifierSize 0 := by
  constructor
  · rintro ⟨source, hsource, rfl⟩
    obtain ⟨n, rfl, hzeros⟩ := bind_ok hsource
    obtain ⟨hn, rfl⟩ := zerosOf_eq_ok hzeros
    have hcount : n.toNat = identifierSize := List.length_replicate.symm.trans hb
    refine ⟨congrArg Except.ok ?_, congrArg (List.replicate · 0) hcount⟩
    rw [← hcount, Int.toNat_of_nonneg hn]
  · rintro ⟨rfl, rfl⟩
    exact ⟨.zeros identifierSize, rfl, rfl⟩

/-- The ways in which a value is read as a byte string, each of which excludes the others. -/
inductive ReadsBytes (v : Value) : Prop
  | content {b} (gives : v.byteContent? = some b) (counts : v.index? = Option.none)
      (lists : v.byteItems = []) (source : v.byteSource = .ok (.content b))
  | items (gives : v.byteContent? = Option.none) (counts : v.index? = Option.none)
      (source : v.byteSource = (v.byteItems.mapM byteOfItem).map .content)
  | count {n} (gives : v.byteContent? = Option.none) (counts : v.index? = some n)
      (lists : v.byteItems = []) (source : v.byteSource = n.bind zerosOf)
  | nothing (gives : v.byteContent? = Option.none) (counts : v.index? = Option.none)
      (lists : v.byteItems = []) (source : v.byteSource = .error .notConvertible)

theorem readsBytes (v : Value) : ReadsBytes v := by
  cases v with
  | bytes | byteArray | accountId | hash => exact .content rfl rfl rfl rfl
  | list | tuple => exact .items rfl rfl rfl
  | dict entries =>
      have hkeys : (entries.map (·.1)).mapM byteOfItem = entries.mapM fun e => byteOfItem e.1 :=
        List.mapM_map
      exact .items rfl rfl (congrArg (Except.map ByteSource.content) hkeys.symm)
  | bool | int | compact => exact .count rfl rfl rfl rfl
  | none | float | str | ok | err | record | variant | langError | raisedLangError | exception
  | member => exact .nothing rfl rfl rfl rfl

theorem ne_nil_of_size {b : Bytes} (hb : b.length = identifierSize) : b ≠ [] :=
  List.ne_nil_of_length_pos (hb ▸ by decide)

theorem makesUp_iff {v : Value} {b : Bytes} (hb : b.length = identifierSize) : v.MakesUp b ↔
    v.index? = some (.ok identifierSize) ∧ b = List.replicate identifierSize 0 ∨
      List.Forall₂ (fun item x => item.index? = some (.ok x.toNat)) v.byteItems b := by
  constructor
  · rintro (h | ⟨-, h⟩)
    · exact .inl ⟨h, rfl⟩
    · exact .inr h
  · rintro (⟨h, rfl⟩ | h)
    · exact .zeros h
    · exact .items hb h

/-- A value is read as a byte string of this size if it is one, or if one is made up for it. -/
theorem exists_byteSource_iff {v : Value} {b : Bytes} (hb : b.length = identifierSize) :
    (∃ source, v.byteSource = .ok source ∧ source.bytes = b) ↔
      v.byteContent? = some b ∨ v.MakesUp b := by
  have hne := ne_nil_of_size hb
  rw [makesUp_iff hb]
  cases v.readsBytes with
  | content gives counts lists source =>
      rw [gives, counts, lists, source]
      simp [ByteSource.bytes, hne]
  | items gives counts source =>
      rw [gives, counts, source, exists_content_iff, mapM_byteOfItem_iff]
      simp
  | count gives counts lists source =>
      rw [gives, counts, lists, source, exists_zeros_iff hb]
      simp [hne]
  | nothing gives counts lists source =>
      rw [gives, counts, lists, source]
      simp [hne]

theorem MakesUp.length {v : Value} {b : Bytes} (h : v.MakesUp b) : b.length = identifierSize := by
  cases h with
  | zeros => exact List.length_replicate
  | items hlength => exact hlength

theorem denotes_bytes_iff {v : Value} {b : Bytes} :
    v.Denotes false b ↔ v.byteContent? = some b := by
  refine ⟨fun h => ?_, .content⟩
  cases h with
  | content h => exact h

theorem denotes_iff {v : Value} {texts : Bool} {b : Bytes} (hv : ∀ s, v ≠ .str s) :
    v.Denotes texts b ↔ v.byteContent? = some b := by
  refine ⟨fun h => ?_, .content⟩
  cases h with
  | content h => exact h
  | text => exact absurd rfl (hv _)

theorem denotes_text_iff {s : String} {b : Bytes} :
    (Value.str s).Denotes true b ↔ ∃ digits, Hex.Marked s digits ∧ Hex.Spaced digits b := by
  constructor
  · rintro (h | ⟨hmarked, hspaced⟩)
    · cases h
    · exact ⟨_, hmarked, hspaced⟩
  · rintro ⟨digits, hmarked, hspaced⟩
    exact .text hmarked hspaced

/-- For a byte string none is made up. -/
theorem not_makesUp {v : Value} {b c : Bytes} (h : v.byteContent? = some c) : ¬ v.MakesUp b := by
  intro hmade
  have hne := ne_nil_of_size hmade.length
  rw [makesUp_iff hmade.length] at hmade
  cases v.readsBytes with
  | content gives counts lists source =>
      rw [counts, lists] at hmade
      simp [hne] at hmade
  | items gives | count gives | nothing gives => cases gives.symm.trans h

end Value

/-! ### Reading identifiers -/

theorem ByteSource.length_bytes (source : ByteSource) : source.bytes.length = source.size := by
  cases source with
  | zeros count => exact List.length_replicate
  | content b => rfl

theorem ByteSource.size_of_identifier {source : ByteSource} {id : Identifier}
    (h : source.bytes = id.bytes) : source.size = identifierSize := by
  rw [← source.length_bytes, h, id.size_eq]

theorem Identifier.ofBytes?_eq_some_iff {b : Bytes} {id : Identifier} :
    Identifier.ofBytes? b = some id ↔ b = id.bytes := by
  rw [Identifier.ofBytes?]
  constructor
  · intro h
    split at h
    · cases h
      rfl
    · cases h
  · rintro rfl
    rw [dif_pos id.size_eq]

theorem IdentifierKind.ofBytes_eq_ok_iff {kind : IdentifierKind} {b : Bytes} {id : Identifier} :
    kind.ofBytes b = .ok id ↔ b = id.bytes := by
  rw [← Identifier.ofBytes?_eq_some_iff, IdentifierKind.ofBytes]
  cases Identifier.ofBytes? b <;> simp

namespace IdentifierKind

variable {kind : IdentifierKind} {v : Value} {id : Identifier}

theorem read_text_iff {s : String} : kind.read (.str s) = .ok id ↔
    ∃ digits, Hex.Marked s digits ∧ Hex.Spaced digits id.bytes := by
  constructor
  · intro h
    simp only [read] at h
    split at h
    · cases h
    · next b hdecode =>
        rw [ofBytes_eq_ok_iff.mp h] at hdecode
        exact ⟨_, Hex.marked_stripMark s, Hex.decode_eq_ok_iff.mp hdecode⟩
  · rintro ⟨digits, hmarked, hspaced⟩
    have htext := Hex.stripMark_of_spaced hmarked hspaced
    have hdecode : Hex.decode (Hex.stripMark s) = .ok id.bytes :=
      Hex.decode_eq_ok_iff.mpr (htext ▸ hspaced)
    simp only [read, hdecode]
    exact ofBytes_eq_ok_iff.mpr rfl

theorem read_iff_byteSource (hv : ∀ s, v ≠ .str s) : kind.read v = .ok id ↔
    ∃ source, v.byteSource = .ok source ∧ source.bytes = id.bytes := by
  rw [read]
  swap
  · exact hv
  cases v.byteSource with
  | error e => exact iff_of_false nofun nofun
  | ok source =>
      constructor
      · intro h
        simp only at h
        split at h
        · exact ⟨source, rfl, ofBytes_eq_ok_iff.mp h⟩
        · cases h
      · rintro ⟨_, ⟨⟩, h⟩
        simp only [if_pos (ByteSource.size_of_identifier h)]
        exact ofBytes_eq_ok_iff.mpr h

theorem read_eq_ok_iff :
    kind.read v = .ok id ↔ v.Denotes true id.bytes ∨ v.MakesUp id.bytes := by
  by_cases hv : ∃ s, v = .str s
  · obtain ⟨s, rfl⟩ := hv
    have hmade : ¬ (Value.str s).MakesUp id.bytes := by
      rw [Value.makesUp_iff id.size_eq]
      simp [Value.index?, Value.byteItems, Value.ne_nil_of_size id.size_eq]
    rw [read_text_iff, Value.denotes_text_iff, or_iff_left hmade]
  · have hnot : ∀ s, v ≠ .str s := fun s h => hv ⟨s, h⟩
    rw [read_iff_byteSource hnot, Value.exists_byteSource_iff id.size_eq, Value.denotes_iff hnot]

/-- An identifier that is written is read as itself. -/
theorem read_text (kind : IdentifierKind) (id : Identifier) :
    kind.read (.str (kind.wrap id).text) = .ok id := by
  have htext : (kind.wrap id).text = id.text := by cases kind <;> rfl
  rw [htext, read_text_iff]
  exact ⟨_, Hex.marked_encode id.bytes, Hex.spaced_encodeChars id.bytes⟩

end IdentifierKind

namespace Contract

theorem readAccount_eq_ok_iff {v : Value} {id : Identifier} :
    readAccount v = .ok id ↔ IdentifierKind.account.read v = .ok id := by
  rw [readAccount]
  cases IdentifierKind.account.read v <;> simp

theorem readBytes_eq_ok_iff {v : Value} {source : ByteSource} :
    readBytes v = .ok source ↔ v.byteSource = .ok source := by
  rw [readBytes]
  cases v.byteSource <;> simp

theorem readCodeHash_eq_ok_iff {v : Value} {id : Identifier} :
    readCodeHash v = .ok id ↔ v.Denotes false id.bytes ∨ v.MakesUp id.bytes := by
  rw [Value.denotes_bytes_iff, ← Value.exists_byteSource_iff id.size_eq]
  constructor
  · intro h
    obtain ⟨source, hread, h⟩ := bind_ok h
    refine ⟨source, readBytes_eq_ok_iff.mp hread, ?_⟩
    split at h
    · split at h
      · next hid =>
          cases h
          exact Identifier.ofBytes?_eq_some_iff.mp hid
      · cases h
    · cases h
  · rintro ⟨source, hsource, hbytes⟩
    rw [readCodeHash, bind_of_ok (readBytes_eq_ok_iff.mpr hsource),
      if_pos (ByteSource.size_of_identifier hbytes), Identifier.ofBytes?_eq_some_iff.mpr hbytes]
    rfl

/-! ### Wherever an identifier is wanted -/

/-- An identifier that a value is taken for: by itself, as the account of an instance, an event or a
request, or as the hash of code. Texts are read for all but the last. -/
inductive TakenFor (v : Value) : (texts : Bool) → Identifier → Prop
  | identifier {kind id} : IdentifierKind.read kind v = .ok id → TakenFor v true id
  | handle {c i} : Instance.make c v = .ok i → TakenFor v true i.account
  | event {data e} : Event.make v data = .ok e → TakenFor v true e.account
  | exec {data codec value status e} : ExecCall.make v data codec value status = .ok e →
      TakenFor v true e.account
  | read {data codec value r} : ReadCall.make v data codec value = .ok r → TakenFor v true r.account
  | instantiate {data contract salt value status i} :
      InstantiateCall.make v data contract salt value status = .ok i → TakenFor v false i.codeHash
  | upload {wasm status u} : UploadCall.make wasm v status = .ok u → TakenFor v false u.expectedHash

/-- The value is taken for no identifier but one that it denotes. -/
def NeverInvented (v : Value) : Prop :=
  ∀ texts id, TakenFor v texts id → v.Denotes texts id.bytes

theorem Instance.account_of_make {c : InstanceClass} {v : Value} {i : Instance}
    (h : Instance.make c v = .ok i) : IdentifierKind.account.read v = .ok i.account := by
  obtain ⟨id, hread, h⟩ := bind_ok h
  cases h
  exact hread

theorem Event.account_of_make {v data : Value} {e : Event} (h : Event.make v data = .ok e) :
    IdentifierKind.account.read v = .ok e.account := by
  rw [Event.make] at h
  split at h
  · cases h
  · next id hread =>
      split at h
      · cases h
      · cases h
        exact hread

/-- An identifier is taken of a value if the value denotes it, or if it is made up for the value. -/
theorem takenFor_iff {v : Value} {texts : Bool} {id : Identifier} :
    TakenFor v texts id ↔ v.Denotes texts id.bytes ∨ v.MakesUp id.bytes := by
  constructor
  · intro h
    cases h with
    | identifier h => exact IdentifierKind.read_eq_ok_iff.mp h
    | handle h => exact IdentifierKind.read_eq_ok_iff.mp (Instance.account_of_make h)
    | event h => exact IdentifierKind.read_eq_ok_iff.mp (Event.account_of_make h)
    | exec h =>
        exact IdentifierKind.read_eq_ok_iff.mp
          (readAccount_eq_ok_iff.mp (ExecCall.parts_of_make h).1)
    | read h =>
        exact IdentifierKind.read_eq_ok_iff.mp
          (readAccount_eq_ok_iff.mp (ReadCall.parts_of_make h).1)
    | instantiate h => exact readCodeHash_eq_ok_iff.mp (InstantiateCall.parts_of_make h).1
    | upload h => exact readCodeHash_eq_ok_iff.mp (UploadCall.parts_of_make h).1
  · intro h
    cases texts with
    | true =>
        have hread : IdentifierKind.account.read v = .ok id := IdentifierKind.read_eq_ok_iff.mpr h
        exact .identifier hread
    | false =>
        have hmade : UploadCall.make .none v .finalized = .ok ⟨.none, id, .finalized⟩ :=
          bind_of_ok (readCodeHash_eq_ok_iff.mpr h) _
        exact .upload hmade

theorem neverInvented_iff {v : Value} : NeverInvented v ↔ ∀ b, ¬ v.MakesUp b := by
  constructor
  · intro h b hmade
    let id : Identifier := ⟨b, hmade.length⟩
    have htaken : TakenFor v false id := takenFor_iff.mpr (.inr hmade)
    exact Value.not_makesUp (Value.denotes_bytes_iff.mp (h false id htaken)) hmade
  · intro h texts id htaken
    exact (takenFor_iff.mp htaken).resolve_right (h id.bytes)

/-- A value is read as the identifier that it denotes, and as no other unless one is made up for it:
then it counts the bytes of an identifier or lists them. So wherever an identifier is wanted, all
other values stand for what they denote or are refused. An identifier that is written as text is
read as itself. -/
theorem identifiers_taken (v : Value) :
    (∀ kind id, IdentifierKind.read kind v = .ok id ↔
      v.Denotes true id.bytes ∨ v.MakesUp id.bytes) ∧
    (∀ id, readCodeHash v = .ok id ↔ v.Denotes false id.bytes ∨ v.MakesUp id.bytes) ∧
    (NeverInvented v ↔ ∀ b, ¬ v.MakesUp b) ∧
    ∀ kind id, IdentifierKind.read kind (.str (kind.wrap id).text) = .ok id :=
  ⟨fun _ _ => IdentifierKind.read_eq_ok_iff, fun _ => readCodeHash_eq_ok_iff,
    neverInvented_iff, IdentifierKind.read_text⟩

/-- A number is taken for an account of zeros. -/
theorem not_neverInvented_number : ¬ NeverInvented (.int 32) :=
  fun h => neverInvented_iff.mp h _ (.zeros rfl)

end Contract

end InkBindings
