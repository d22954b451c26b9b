import InkBindings.Proofs.Scale.ReadBack

/-!
What reading gives. A codec reads nothing but what stands on the wire for it, and two levels read
alike where they do so at the declared types. The induction is on the tree of the codec. What it
needs to know of a declared type is a premise, and only at the places that reading comes to: behind
at least one byte, or where the codec leads to the type at once.
-/

namespace InkBindings.Scale

/-- The codec comes to the reference before it has taken a byte; `skips` are the codecs that may
take none. -/
inductive Leads (skips : Codec → Prop) : Codec → Reference → Prop
  | reference (r) : Leads skips (.reference r) r
  | tuple {before c after r} : (∀ d ∈ before, skips d) → Leads skips c r →
      Leads skips (.tuple (before ++ c :: after)) r
  | array {item length r} : 0 < length → Leads skips item r → Leads skips (.array item length) r

/-- A row of codecs comes to the reference before it has taken a byte. -/
def LeadsAll (skips : Codec → Prop) (items : List Codec) (r : Reference) : Prop :=
  ∃ before c after, items = before ++ c :: after ∧ (∀ d ∈ before, skips d) ∧ Leads skips c r

namespace LeadsAll
variable {skips : Codec → Prop} {c : Codec} {cs : List Codec} {r : Reference}

theorem head (h : Leads skips c r) : LeadsAll skips (c :: cs) r :=
  ⟨[], c, cs, rfl, by simp, h⟩

theorem tail (hc : skips c) (h : LeadsAll skips cs r) : LeadsAll skips (c :: cs) r := by
  obtain ⟨before, d, after, rfl, hbefore, hd⟩ := h
  refine ⟨c :: before, d, after, rfl, ?_, hd⟩
  rintro e (- | ⟨-, he⟩)
  · exact hc
  · exact hbefore e he

theorem of_replicate {item : Codec} {count : Nat} (h : LeadsAll skips (List.replicate count item) r) :
    0 < count ∧ Leads skips item r := by
  obtain ⟨before, d, after, heq, -, hd⟩ := h
  have hmem : d ∈ List.replicate count item := by simp [heq]
  obtain ⟨hcount, rfl⟩ := List.mem_replicate.mp hmem
  exact ⟨Nat.pos_of_ne_zero hcount, hd⟩

end LeadsAll

/-- The premise on declared types is there wherever reading can come to with `n` bytes left. -/
def Ahead (env : Environment) (root : Codec) (A : Reference → Nat → Prop)
    (lead : Reference → Prop) (n : Nat) : Prop :=
  ∀ r, Reaches env root (.reference r) → (lead r → A r n) ∧ ∀ m, m < n → A r m

namespace Ahead
variable {env : Environment} {root : Codec} {A : Reference → Nat → Prop}
  {lead lead' : Reference → Prop} {n m : Nat}

theorem narrow (h : Ahead env root A lead n) (hlead : ∀ r, lead' r → lead r) :
    Ahead env root A lead' n :=
  fun r hr => ⟨fun hl => (h r hr).1 (hlead r hl), (h r hr).2⟩

theorem shorter (h : Ahead env root A lead n) (hm : m < n) : Ahead env root A lead' m :=
  fun r hr => ⟨fun _ => (h r hr).2 m hm, fun k hk => (h r hr).2 k (Nat.lt_trans hk hm)⟩

end Ahead

namespace Codec

/-- No two byte strings are read as one value for reasons of this codec alone: a map forgets the
order of its entries, and an option hides whether there is no value or one that is none. -/
def IsSingle : Codec → Prop
  | .map _ _ => False
  | .option .unit | .option (.option _) => False
  | _ => True

end Codec

/-- What is known when a tree of codecs is read at two levels. -/
structure Premises (env : Environment) (strict : Prop) (root : Codec) (E : DecodeFailure → Prop)
    (A : Reference → Nat → Prop) (skips : Codec → Prop) (data : Bytes) (level other : Nat) :
    Prop where
  sound : env.Sound root
  faults : ∀ e, E (.bytes e)
  single : strict → ∀ c, Reaches env root c → c.IsSingle
  skipped : ∀ c v, Reaches env root c → Wire env strict data.length c v [] → skips c
  references : ∀ r pre rest, Reaches env root (.reference r) → pre ++ rest = data →
    A r rest.length →
      ReadsAs E (Wire env strict data.length (.reference r)) (env.reading level (.reference r))
        (env.reading other (.reference r)) pre rest

/-! ### Rows and tags -/

section
variable {env : Environment} {strict : Prop} {root : Codec} {E : DecodeFailure → Prop}
  {A : Reference → Nat → Prop} {skips : Codec → Prop} {data : Bytes} {level other : Nat}
  {pre rest : Bytes}

theorem readsAs_each {d d' : Codec → Decoder} {items : List Codec}
    (hskips : ∀ c ∈ items, ∀ v, Wire env strict data.length c v [] → skips c)
    (hitems : ∀ c ∈ items, ∀ pre rest, pre ++ rest = data →
      Ahead env root A (Leads skips c) rest.length →
      ReadsAs E (Wire env strict data.length c) (d c) (d' c) pre rest)
    (hdata : pre ++ rest = data) (hahead : Ahead env root A (LeadsAll skips items) rest.length) :
    ReadsAs E (WireAll env strict data.length items) (Decoder.each (items.map d))
      (Decoder.each (items.map d')) pre rest := by
  induction items generalizing pre rest with
  | nil => exact .done .nil
  | cons c cs ih =>
      refine .bind (hitems c List.mem_cons_self pre rest hdata
        (hahead.narrow fun r hr => .head hr)) ?_
      rintro v used left rfl hv
      have hleft : Ahead env root A (LeadsAll skips cs) left.length := by
        cases used with
        | nil => exact hahead.narrow fun r hr => .tail (hskips c List.mem_cons_self v hv) hr
        | cons x more =>
            refine hahead.shorter ?_
            simp only [List.length_append, List.length_cons]
            omega
      refine .bind (ih (fun e he => hskips e (List.mem_cons_of_mem c he))
        (fun e he => hitems e (List.mem_cons_of_mem c he))
        (by rw [← hdata, List.append_assoc]) hleft) ?_
      rintro vs used' left' rfl hvs
      exact .done (by simpa using WireAll.cons hv hvs)

theorem readsAs_branch {P : Value → Bytes → Prop} {zero zero' one one' : Decoder} {x : UInt8}
    {fault : Int → DecodeError} (hE : ∀ e, E (.bytes e))
    (hzero : x = 0 → ReadsAs E P zero zero' pre rest)
    (hone : x = 1 → ReadsAs E P one one' pre rest) :
    ReadsAs E P
      (fun data next =>
        if (Tag.byte x).is 0 then zero data next
        else if (Tag.byte x).is 1 then one data next
        else throw ((Tag.byte x).fault fault))
      (fun data next =>
        if (Tag.byte x).is 0 then zero' data next
        else if (Tag.byte x).is 1 then one' data next
        else throw ((Tag.byte x).fault fault)) pre rest := by
  by_cases h0 : x = 0
  · simpa only [Tag.is, h0, beq_self_eq_true, if_true] using hzero h0
  by_cases h1 : x = 1
  · have hne : ((1 : UInt8) == 0) = false := rfl
    simpa only [Tag.is, h1, hne, Bool.false_eq_true, if_false, beq_self_eq_true, if_true]
      using hone h1
  simp only [Tag.is, beq_iff_eq, h0, h1, if_false]
  exact .fail (hE _)

theorem readsAs_repeated {d d' : Decoder} {item : Codec} {count : Nat}
    (h : ReadsAs E (WireAll env strict data.length (List.replicate count item))
      (Decoder.each (List.replicate count d)) (Decoder.each (List.replicate count d')) pre rest) :
    ReadsAs E (fun vs used => vs.length = count ∧
        WireAll env strict data.length (List.replicate vs.length item) vs used)
      (fun data => Decoder.repeated d data count [])
      (fun data => Decoder.repeated d' data count []) pre rest := by
  rw [Decoder.repeated_eq_each, Decoder.repeated_eq_each]
  refine h.mono fun vs used left _ hvs => ?_
  have hlen : vs.length = count := by simpa using hvs.length_eq
  exact ⟨hlen, hlen ▸ hvs⟩

theorem readsAs_entries {d d' e e' : Decoder} {key value : Codec} {count : Nat}
    (h : ReadsAs E (WireAll env strict data.length (List.replicate count [key, value]).flatten)
      (Decoder.each (List.replicate count [d, e]).flatten)
      (Decoder.each (List.replicate count [d', e']).flatten) pre rest) :
    ReadsAs E (fun pairs used => ∃ vs, pairs = Decoder.pairUp vs ∧
        WireAll env strict data.length (List.replicate count [key, value]).flatten vs used)
      (fun data => Decoder.entries d e data count [])
      (fun data => Decoder.entries d' e' data count []) pre rest := by
  rw [Decoder.entries_eq_each, Decoder.entries_eq_each]
  refine .bind h fun vs used left hrest hvs => ?_
  exact .done (a := Decoder.pairUp vs) ⟨vs, rfl, by simpa using hvs⟩

theorem readsAs_fields {d d' : Codec → Decoder} {fields : Fields}
    (h : ReadsAs E (WireAll env strict data.length (fields.map (·.2)))
      (Decoder.each ((fields.map (·.2)).map d)) (Decoder.each ((fields.map (·.2)).map d'))
      pre rest) :
    ReadsAs E (fun values used => ∃ vs, values = (fields.map (·.1)).zip vs ∧
        WireAll env strict data.length (fields.map (·.2)) vs used)
      (Decoder.fields d fields) (Decoder.fields d' fields) pre rest := by
  rw [Decoder.fields_eq_each, Decoder.fields_eq_each]
  refine .bind h fun vs used left hrest hvs => ?_
  exact .done (a := (fields.map Prod.fst).zip vs) ⟨vs, rfl, by simpa using hvs⟩

theorem mapOf_ne_none (pairs : List (Value × Value)) : Decoder.mapOf pairs ≠ .none := by
  unfold Decoder.mapOf Value.dictOf?
  split <;> simp

theorem Wire.ne_none {c : Codec} {v : Value} {b : Bytes} {pad : Nat}
    (hc : (Codec.option c).IsSingle) (h : Wire env strict pad c v b) : v ≠ .none := by
  cases h with
  | unit | absent | present => exact absurd hc (by simp [Codec.IsSingle])
  | map => exact mapOf_ne_none _
  | record _ _ _ hv =>
      obtain ⟨_, _, _, _, rfl⟩ := Environment.makeRecord_ok hv
      simp
  | variant _ _ _ _ hv =>
      obtain ⟨_, _, _, _, rfl⟩ := Environment.makeVariant_ok hv
      simp
  | _ => simp

/-! ### Codecs -/

namespace Premises

/-- Both levels read the codec alike, and what stands on the wire for it, from every place where the
premise on declared types is there for those that it leads to. -/
def ReadsAlike (_ : Premises env strict root E A skips data level other) (c : Codec) : Prop :=
  ∀ ⦃pre rest⦄, pre ++ rest = data → Ahead env root A (Leads skips c) rest.length →
    ReadsAs E (Wire env strict data.length c) (env.reading level c) (env.reading other c) pre rest

theorem row (h : Premises env strict root E A skips data level other) {items : List Codec}
    (hreach : ∀ c ∈ items, Reaches env root c) (hitems : ∀ c ∈ items, h.ReadsAlike c)
    (hdata : pre ++ rest = data) (hahead : Ahead env root A (LeadsAll skips items) rest.length) :
    ReadsAs E (WireAll env strict data.length items) (Decoder.each (items.map (env.reading level)))
      (Decoder.each (items.map (env.reading other))) pre rest :=
  readsAs_each (fun c hc v hv => h.skipped c v (hreach c hc) hv) hitems hdata hahead

theorem copies (h : Premises env strict root E A skips data level other) {item : Codec} {count : Nat}
    (hreach : Reaches env root item) (hitem : h.ReadsAlike item) (hdata : pre ++ rest = data)
    (hahead : Ahead env root A (LeadsAll skips (List.replicate count item)) rest.length) :
    ReadsAs E (fun vs used => vs.length = count ∧
        WireAll env strict data.length (List.replicate vs.length item) vs used)
      (fun data => Decoder.repeated (env.reading level item) data count [])
      (fun data => Decoder.repeated (env.reading other item) data count []) pre rest := by
  have hrow := h.row hreach.replicate (fun c hc => List.eq_of_mem_replicate hc ▸ hitem) hdata
    hahead
  rw [List.map_replicate, List.map_replicate] at hrow
  exact readsAs_repeated hrow

theorem tuple (h : Premises env strict root E A skips data level other) {items : List Codec}
    (hreach : Reaches env root (.tuple items)) (hitems : ∀ c ∈ items, h.ReadsAlike c) :
    h.ReadsAlike (.tuple items) := by
  intro pre rest hdata hahead
  rw [Environment.reading_tuple, Environment.reading_tuple]
  refine .bind (h.row (fun c hc => hreach.trans (.part hc)) hitems hdata (hahead.narrow ?_)) ?_
  · rintro r ⟨before, c, after, rfl, hbefore, hc⟩
    exact .tuple hbefore hc
  · rintro vs used left - hvs
    exact .done (by simpa using Wire.tuple hvs)

theorem array (h : Premises env strict root E A skips data level other) {item : Codec} {count : Nat}
    (hreach : Reaches env root (.array item count)) (hitem : h.ReadsAlike item) :
    h.ReadsAlike (.array item count) := by
  intro pre rest hdata hahead
  refine .bind (h.copies hreach.first hitem hdata (hahead.narrow fun r hr => ?_)) ?_
  · obtain ⟨hcount, hlead⟩ := hr.of_replicate
    exact .array (by omega) hlead
  · rintro vs used left - ⟨rfl, hvs⟩
    exact .done (by simpa using Wire.array rfl hvs)

theorem sequence (h : Premises env strict root E A skips data level other) {item : Codec}
    (hreach : Reaches env root (.sequence item)) (hitem : h.ReadsAlike item) :
    h.ReadsAlike (.sequence item) := by
  intro pre rest hdata hahead
  refine .bind (Compact.reads_decode h.faults).twice ?_
  rintro n used left rfl ⟨count, rfl, hcount, rfl⟩
  refine .guard (fun _ => h.faults _) fun hfits => ?_
  have henough : item.isUnit = true ∨ count ≤ left.length := by
    by_cases hfit : count ≤ left.length
    · exact .inr hfit
    · exact .inl (by simpa [Decoder.fits_behind, hfit] using hfits)
  have hleft : left.length ≤ data.length := by
    simp only [← hdata, List.length_append]
    omega
  refine .bind (h.copies hreach.first hitem (by rw [← hdata, List.append_assoc])
    (hahead.shorter (by simp [List.length_pos_iff, Compact.encode_ne_nil]))) ?_
  rintro vs used left' - ⟨rfl, hvs⟩
  exact .done (by simpa using Wire.sequence hcount (henough.imp_right (by omega)) hvs)

theorem option (h : Premises env strict root E A skips data level other) {inner : Codec}
    (hreach : Reaches env root (.option inner)) (hinner : h.ReadsAlike inner) :
    h.ReadsAlike (.option inner) := by
  intro pre rest hdata hahead
  refine .bind (Reads.takeTag h.faults).twice ?_
  rintro tag used left rfl ⟨x, rfl, rfl⟩
  refine readsAs_branch h.faults ?_ ?_
  · rintro rfl
    exact .done .absent
  · rintro rfl
    refine (hinner (by simpa using hdata) (hahead.shorter (by simp))).mono ?_
    rintro v used left' - hv
    exact .present (fun hstrict => hv.ne_none (h.single hstrict _ hreach)) hv

theorem result (h : Premises env strict root E A skips data level other) {ok err : Codec}
    (hok : h.ReadsAlike ok) (herr : h.ReadsAlike err) : h.ReadsAlike (.result ok err) := by
  intro pre rest hdata hahead
  refine .bind (Reads.takeTag h.faults).twice ?_
  rintro tag used left rfl ⟨x, rfl, rfl⟩
  have hdata' : (pre ++ [x]) ++ left = data := by simpa using hdata
  refine readsAs_branch h.faults ?_ ?_
  · rintro rfl
    refine .bind (hok hdata' (hahead.shorter (by simp))) ?_
    rintro v used left' - hv
    exact .done (by simpa using Wire.ok hv)
  · rintro rfl
    refine .bind (herr hdata' (hahead.shorter (by simp))) ?_
    rintro v used left' - hv
    exact .done (by simpa using Wire.err hv)

theorem map (h : Premises env strict root E A skips data level other) {key value : Codec}
    (hreach : Reaches env root (.map key value)) (hkey : h.ReadsAlike key)
    (hvalue : h.ReadsAlike value) : h.ReadsAlike (.map key value) := by
  intro pre rest hdata hahead
  refine .bind (Compact.reads_decode h.faults).twice ?_
  rintro n used left rfl ⟨count, rfl, hcount, rfl⟩
  refine .guard (fun _ => h.faults _) fun hfits => ?_
  have henough : count ≤ left.length := by simpa [Decoder.fits_behind] using hfits
  have hleft : left.length ≤ data.length := by
    simp only [← hdata, List.length_append]
    omega
  have hitems : ∀ c ∈ (List.replicate count [key, value]).flatten, h.ReadsAlike c := by
    intro c hc
    obtain ⟨row, hrow, hc⟩ := List.mem_flatten.mp hc
    rw [List.eq_of_mem_replicate hrow] at hc
    obtain rfl | rfl : c = key ∨ c = value := by simpa using hc
    · exact hkey
    · exact hvalue
  have hrow := h.row (hreach.entries count) hitems (by rw [← hdata, List.append_assoc])
    (hahead.shorter (by simp [List.length_pos_iff, Compact.encode_ne_nil]))
  rw [List.map_flatten, List.map_flatten, List.map_replicate, List.map_replicate] at hrow
  refine .bind (readsAs_entries hrow) ?_
  rintro pairs used left' - ⟨vs, rfl, hvs⟩
  have hnot : ¬ strict := fun hstrict => h.single hstrict _ hreach
  exact .done (by simpa using Wire.map hnot hcount (by omega) hvs)

theorem readsAs (h : Premises env strict root E A skips data level other) (c : Codec)
    (hreach : Reaches env root c) : h.ReadsAlike c := by
  induction c using Codec.parts_induction with
  | step c ih =>
      cases c with
      | int kind =>
          refine fun pre rest _ _ => (reads_integer h.faults kind).twice.mono ?_
          rintro v used left - ⟨n, rfl, hleast, hgreatest, rfl⟩
          exact .int hleast hgreatest
      | bool =>
          refine fun pre rest _ _ => (reads_bool h.faults).twice.mono ?_
          rintro v used left - ⟨b, rfl, rfl⟩
          exact .bool b
      | char =>
          refine fun pre rest _ _ => (reads_char h.faults).twice.mono ?_
          rintro v used left - ⟨c, rfl, rfl⟩
          exact .char c
      | str =>
          refine fun pre rest _ _ => (reads_str h.faults).twice.mono ?_
          rintro v used left - ⟨s, rfl, hs, rfl⟩
          exact .str hs
      | unit => exact fun pre rest _ _ => .done .unit
      | bytes =>
          refine fun pre rest _ _ => (reads_bytes h.faults).twice.mono ?_
          rintro v used left - ⟨b, rfl, hb, rfl⟩
          exact .bytes hb
      | accountId =>
          refine fun pre rest _ _ => (reads_identifier h.faults .account).twice.mono ?_
          rintro v used left - ⟨id, rfl, rfl⟩
          exact .accountId id
      | hash =>
          refine fun pre rest _ _ => (reads_identifier h.faults .hash).twice.mono ?_
          rintro v used left - ⟨id, rfl, rfl⟩
          exact .hash id
      | fixedBytes length =>
          obtain ⟨count, rfl⟩ := Int.eq_ofNat_of_zero_le (h.sound.fits _ hreach)
          refine fun pre rest _ _ => (reads_fixedBytes h.faults count).twice.mono ?_
          rintro v used left - ⟨rfl, hlen⟩
          exact .fixedBytes (by rw [hlen])
      | compact inner =>
          refine fun pre rest _ _ => (reads_compact h.faults inner.intKind?).twice.mono ?_
          rintro v used left - ⟨n, rfl, hn, hkind, rfl⟩
          exact .compact hn hkind
      | tuple items => exact h.tuple hreach fun c hc => ih c hc (hreach.trans (.part hc))
      | array item length =>
          obtain ⟨count, rfl⟩ := Int.eq_ofNat_of_zero_le (h.sound.fits _ hreach)
          exact h.array hreach (ih item List.mem_cons_self hreach.first)
      | sequence item => exact h.sequence hreach (ih item List.mem_cons_self hreach.first)
      | option inner => exact h.option hreach (ih inner List.mem_cons_self hreach.first)
      | result ok err =>
          exact h.result (ih ok List.mem_cons_self hreach.first)
            (ih err (List.mem_cons_of_mem ok List.mem_cons_self) hreach.second)
      | map key value =>
          exact h.map hreach (ih key List.mem_cons_self hreach.first)
            (ih value (List.mem_cons_of_mem key List.mem_cons_self) hreach.second)
      | langError =>
          refine fun pre rest _ _ => (reads_langErrorOf h.faults .langError).twice.mono ?_
          rintro v used left - ⟨rfl, rfl⟩
          exact .langError
      | raisedLangError =>
          refine fun pre rest _ _ => (reads_langErrorOf h.faults .raisedLangError).twice.mono ?_
          rintro v used left - ⟨rfl, rfl⟩
          exact .raisedLangError
      | reference r =>
          exact fun pre rest hdata hahead =>
            h.references r pre rest hreach hdata ((hahead r hreach).1 (.reference r))

end Premises

/-! ### Declared types -/

/-- A record comes to another declared type before it has taken a byte. -/
def Environment.LeadsTo (env : Environment) (skips : Codec → Prop) (r r' : Reference) : Prop :=
  ∃ fields, env.layout? r = some (.record fields) ∧ LeadsAll skips (fields.map (·.2)) r'

/-- The fields that make up an instance of the type, and how it is made of them. -/
inductive Environment.Row (env : Environment) (r : Reference) :
    Fields → (List (String × Value) → Except InstanceError Value) → Prop
  | record {fields} : env.layout? r = some (.record fields) →
      Row env r fields (env.makeRecord r.owner)
  | variant {alternatives a} : env.layout? r = some (.sum alternatives) → a ∈ alternatives →
      Row env r a.fields (env.makeVariant r.owner a.label)

theorem readsAs_made {P : Value → Bytes → Prop} {owner : String}
    {result : Except InstanceError Value} (hok : ∀ v, result = .ok v → P v [])
    (hfail : (∀ f, E f) ∨ ∃ v, result = .ok v) :
    ReadsAs E P (fun _ next => do return (← made owner result, next))
      (fun _ next => do return (← made owner result, next)) pre rest := by
  cases result with
  | ok v => exact .done (hok v rfl)
  | error e =>
      have hall := hfail.resolve_right (by simp)
      cases e with
      | endless => exact .fail (hall .endless)
      | unknownClass | wrongFields => exact .fail (hall (.construction owner))

namespace Premises

theorem fields (h : Premises env strict root E A skips data level other) {r : Reference}
    {fields : Fields} (hparts : ∀ c ∈ fields.map (·.2), c ∈ env.partsOf (.reference r))
    (hreach : Reaches env root (.reference r)) (hdata : pre ++ rest = data)
    (hahead : Ahead env root A (LeadsAll skips (fields.map (·.2))) rest.length) :
    ReadsAs E (fun values used => ∃ vs, values = (fields.map (·.1)).zip vs ∧
        WireAll env strict data.length (fields.map (·.2)) vs used)
      (Decoder.fields (env.reading level) fields) (Decoder.fields (env.reading other) fields)
      pre rest :=
  have hitems := fun c hc => hreach.trans (.part (hparts c hc))
  readsAs_fields (h.row hitems (fun c hc => h.readsAs c (hitems c hc)) hdata hahead)

/-- What one more level of nesting gives at a declared type. -/
theorem readsAs_succ (h : Premises env strict root E A skips data level other) {r : Reference}
    (hreach : Reaches env root (.reference r)) (hdata : pre ++ rest = data)
    (hahead : Ahead env root A (env.LeadsTo skips r) rest.length)
    (hmake : (∀ f, E f) ∨ env.Readable r ∧
      ∀ fields make, env.Row r fields make → ∀ vs b,
        WireAll env strict data.length (fields.map (·.2)) vs b →
        ∃ v, make ((fields.map (·.1)).zip vs) = .ok v) :
    ReadsAs E (Wire env strict data.length (.reference r))
      (env.reading (level + 1) (.reference r)) (env.reading (other + 1) (.reference r))
      pre rest := by
  by_cases hreadable : env.Readable r
  case neg =>
    obtain ⟨f, -, hf⟩ := Environment.not_readable hreadable
    rw [hf, hf]
    exact .fail ((hmake.resolve_right fun hr => hreadable hr.1) f)
  have hmade : ∀ fields make, env.Row r fields make → ∀ vs b,
      WireAll env strict data.length (fields.map (·.2)) vs b →
      (∀ f, E f) ∨ ∃ v, make ((fields.map (·.1)).zip vs) = .ok v :=
    fun fields make hrow vs b hvs => hmake.imp_right fun hr => hr.2 fields make hrow vs b hvs
  obtain ⟨layout, hlayout, hfits⟩ := h.sound.fits _ hreach
  rw [Environment.reading_of_readable hlayout hreadable,
    Environment.reading_of_readable hlayout hreadable]
  cases layout with
  | record fields =>
      refine .bind (h.fields (fun c hc => Environment.mem_partsOf_record hlayout hc) hreach hdata
        (hahead.narrow fun r' hr' => ⟨fields, hlayout, hr'⟩)) ?_
      rintro values used left - ⟨vs, rfl, hvs⟩
      refine readsAs_made (fun v hv => ?_) (hmade _ _ (.record hlayout) vs used hvs)
      simpa using Wire.record hreadable hlayout hvs hv
  | sum alternatives =>
      refine .bind (reads_chosen h.faults Alternative.index alternatives r.owner).twice ?_
      rintro a used left rfl ⟨ha, rfl⟩
      refine .bind (h.fields (fun c hc => Environment.mem_partsOf_sum hlayout ha hc) hreach
        (by rw [← hdata, List.append_assoc]) (hahead.shorter (by simp))) ?_
      rintro values used left - ⟨vs, rfl, hvs⟩
      refine readsAs_made (fun v hv => ?_) (hmade _ _ (.variant hlayout ha) vs used hvs)
      simpa using Wire.variant hreadable hlayout ha hvs hv

end Premises

end
end InkBindings.Scale
