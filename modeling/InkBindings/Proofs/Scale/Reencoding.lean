import InkBindings.Proofs.Scale.Loosened
import InkBindings.Proofs.Scale.MapOrder
import InkBindings.Proofs.Scale.WireOrder

/-!
Maps that are read and written again. They come back to the bytes they were read from exactly if
the keys that have been read are in the order in which keys like these are written. Each key and each
value is read from its own bytes wherever they stand.
-/

namespace InkBindings.Scale

open Encoder (AllComparable ofEntry)

variable {env : Environment} {key value : Codec} {es es' listed read : List (Value × Value)}
  {b : Bytes} {rows rows' : List Bytes}

/-! ### The entries that are read -/

/-- What makes the round trip is read within any data, at the levels that are enough for it. -/
theorem RoundTrip.reading {c : Codec} {v : Value} {b : Bytes} (h : RoundTrip env c v b)
    (hsound : env.Sound c) {data pre post : Bytes} (hdata : pre ++ (b ++ post) = data) {level : Nat}
    (hlevel : env.layouts.length * (data.length + 1) ≤ level) :
    env.reading level c (.ofBytes data) pre.length = .ok (v, (pre ++ b).length) := by
  subst hdata
  have hreads := h.reads pre post
  rw [List.append_assoc, Environment.decodeFrom_eq_reading hsound.room] at hreads
  rw [Codec.reading_of_reading hsound hlevel hreads (by simp), List.length_append]

/-- The entry makes the round trip as a row: the bytes of its key, and those of its value. -/
def RowTrip (env : Environment) (key value : Codec) (e : Value × Value) (row : Bytes) : Prop :=
  ∃ x y, RoundTrip env key e.1 x ∧ RoundTrip env value e.2 y ∧ row = x ++ y

/-- An entry as reading gives it, the key made fit for a dictionary. -/
def readEntry (e : Value × Value) : Value × Value := (Decoder.hashableKey e.1, e.2)

/-- The entry is read from the row wherever this stands in the data. -/
def RowReads (key value : Decoder) (data : Bytes) (e : Value × Value) (row : Bytes) : Prop :=
  ∀ pre post, pre ++ (row ++ post) = data →
    ∃ next, key (.ofBytes data) pre.length = .ok (e.1, next) ∧
      value (.ofBytes data) next = .ok (e.2, (pre ++ row).length)

theorem entries_of_rows {key value : Decoder} {data : Bytes} {es : List (Value × Value)}
    {rows : List Bytes} (h : List.Forall₂ (RowReads key value data) es rows) {pre post : Bytes}
    (hdata : pre ++ (rows.flatten ++ post) = data) :
    Decoder.entries key value (.ofBytes data) es.length [] pre.length =
      .ok (es.map readEntry, (pre ++ rows.flatten).length) := by
  induction h generalizing pre with
  | nil => simp [Decoder.entries, pure, Except.pure]
  | @cons e row es rows hrow _ ih =>
      obtain ⟨next, hkey, hvalue⟩ := hrow pre (rows.flatten ++ post) (by simpa using hdata)
      have hafter : (pre ++ row) ++ (rows.flatten ++ post) = data := by simpa using hdata
      have hrest := ih hafter
      simp only [List.length_cons, Decoder.entries, hkey, hvalue, bind, Except.bind]
      rw [Decoder.entries_eq_map, hrest]
      simp [Except.map, readEntry]

/-- A map is read as its entries, if there may be so many in what follows their number. -/
theorem map_of_rows {key value : Decoder} {data : Bytes} {es : List (Value × Value)}
    {rows : List Bytes} (hlen : es.length < Compact.bound)
    (hdata : Compact.encode es.length ++ rows.flatten = data)
    (hrows : List.Forall₂ (RowReads key value data) es rows) :
    Decoder.map key value (.ofBytes data) 0 =
      if es.length ≤ rows.flatten.length then
        .ok (Decoder.mapOf (es.map readEntry), (data.length : Int))
      else .error (.bytes (.mapTooLong es.length)) := by
  have hcount : Compact.decode (.ofBytes data) 0 =
      .ok (es.length, (Compact.encode es.length).length) := by
    rw [← hdata]
    exact Compact.decode_encode hlen [] rows.flatten
  have hwhole : Compact.encode es.length ++ (rows.flatten ++ []) = data := by simpa using hdata
  have hentries := entries_of_rows hrows hwhole
  have hsize : ((Source.ofBytes data).size : Int) =
      (Compact.encode es.length).length + rows.flatten.length := by
    rw [← hdata, ← Int.natCast_add, ← List.length_append]
    rfl
  simp only [Decoder.map, hcount, bind, Except.bind, Int.toNat_natCast, hentries, hdata]
  by_cases hle : es.length ≤ rows.flatten.length
  · have hfits : Decoder.fits es.length (.ofBytes data) (Compact.encode es.length).length = true :=
      decide_eq_true (by omega)
    simp only [hfits, hle, if_true]
    rfl
  · have hfits : Decoder.fits es.length (.ofBytes data) (Compact.encode es.length).length = false :=
      decide_eq_false (by omega)
    simp only [hfits, hle, if_false]
    rfl

theorem decode_map_of_rows (hsound : env.Sound (.map key value)) {es : List (Value × Value)}
    {rows : List Bytes} (hlen : es.length < Compact.bound)
    (hrows : List.Forall₂ (RowTrip env key value) es rows) :
    (Codec.map key value).decode env (Compact.encode es.length ++ rows.flatten) =
      if es.length ≤ rows.flatten.length then .ok (Decoder.mapOf (es.map readEntry))
      else .error (.bytes (.mapTooLong es.length)) := by
  obtain ⟨data, hdata⟩ : ∃ data, Compact.encode es.length ++ rows.flatten = data := ⟨_, rfl⟩
  obtain ⟨level, hlevel⟩ : ∃ level, env.possibleLevels (.ofBytes data) 0 = level := ⟨_, rfl⟩
  have henough : env.layouts.length * (data.length + 1) ≤ level :=
    hlevel ▸ Environment.bound_le_possibleLevels data 0
  have hkey : env.Sound key := hsound.of_reaches (.part List.mem_cons_self)
  have hvalue : env.Sound value :=
    hsound.of_reaches (.part (List.mem_cons_of_mem _ List.mem_cons_self))
  have hreads : List.Forall₂ (RowReads (env.reading level key) (env.reading level value) data)
      es rows := by
    refine hrows.imp fun e row ⟨x, y, hx, hy, hrow⟩ pre post hplace => ?_
    subst hrow
    have hfirst : pre ++ (x ++ (y ++ post)) = data := by simpa using hplace
    have hsecond : (pre ++ x) ++ (y ++ post) = data := by simpa using hplace
    have hafter := hy.reading hvalue hsecond henough
    rw [List.append_assoc] at hafter
    exact ⟨_, hx.reading hkey hfirst henough, hafter⟩
  have hown : (Codec.map key value).decodeFromOwn env (.ofBytes data) 0 =
      Decoder.map (env.reading level key) (env.reading level value) (.ofBytes data) 0 := by
    simp only [Codec.decodeFromOwn, hsound.room, Room.inside_unbounded, hlevel]
    rfl
  have hsize : (Source.ofBytes data).size = data.length := rfl
  simp only [hdata, Codec.decode, Codec.decodeHidden?, Codec.decodeAll, hown,
    map_of_rows hlen hdata hreads]
  split
  · simp [bind, Except.bind, hsize, pure, Except.pure]
  · rfl

/-! ### Entries that are written again -/

/-- What the value is written as is read as a value that makes the round trip. -/
def Stable (env : Environment) (c : Codec) (v : Value) : Prop :=
  ∃ w b, c.encode env v = .ok b ∧ RoundTrip env c w b

/-- What a dictionary is written as begins with the number of its entries. -/
theorem encode_map_count (hroom : env.room = .unbounded)
    (h : (Codec.map key value).encode env (.dict es) = .ok b) :
    es.length < Compact.bound ∧ ∃ rest, b = Compact.encode es.length ++ rest := by
  have hwrites := Codec.writes_of_encode h
  rw [Environment.encodeTo_eq_writing hroom] at hwrites
  change Writes (Encoder.map (env.writing _ key) (env.writing _ value) (.dict es)) b at hwrites
  rw [Encoder.map_dict] at hwrites
  split at hwrites
  · cases hwrites []
  · next sorted hsorted =>
      have hsize : sorted.length = es.length := by
        simpa using (Encoder.sortEntries_perm hsorted).length_eq
      rw [hsize] at hwrites
      have hlen : es.length < Compact.bound := by
        by_contra hnot
        have hthrow : Compact.encodeValue (.int es.length) =
            throw (.value (.compactTooLarge es.length)) := by
          simp only [Compact.encodeValue, Int.toNat_natCast, Nat.le_of_not_lt hnot, if_true]
          rw [if_neg (by omega)]
        rw [hthrow] at hwrites
        cases hwrites []
      refine ⟨hlen, ?_⟩
      have hcount := Compact.writes_encodeValue hlen
      have happends := fun c => Codec.encoder_appends
        (env.encoder_appends (Value.depth (.dict es) + 1)) .unbounded c
      rcases Encoder.allEntries_appends (happends key) (happends value) sorted with
        ⟨rest, hrest⟩ | ⟨e, rest, hrest⟩
      · exact ⟨rest, hwrites.unique (hcount.append hrest)⟩
      · have hrun := hwrites []
        rw [EStateM.run_bind, hcount []] at hrun
        cases hrun.symm.trans (hrest _)

theorem count_eq_of_append {n m : Nat} (hn : n < Compact.bound) (hm : m < Compact.bound)
    {rest rest' : Bytes} (h : Compact.encode n ++ rest = Compact.encode m ++ rest') : n = m := by
  have hleft := Compact.decode_encode hn [] rest
  have hright := Compact.decode_encode hm [] rest'
  rw [h, hright] at hleft
  have hsame : (m : Int) = n := congrArg Prod.fst (Except.ok.inj hleft)
  omega

/-! ### Rows -/

theorem RowOf.unique {e : Value × Value} {row row' : Bytes} (h : RowOf env key value e row)
    (h' : RowOf env key value e row') : row = row' := by
  obtain ⟨x, y, hx, hy, rfl⟩ := h
  obtain ⟨x', y', hx', hy', rfl⟩ := h'
  rw [Except.ok.inj (hx.symm.trans hx'), Except.ok.inj (hy.symm.trans hy')]

theorem rows_unique (h : List.Forall₂ (RowOf env key value) es rows)
    (h' : List.Forall₂ (RowOf env key value) es rows') : rows = rows' := by
  rw [← List.forall₂_eq_eq_eq]
  exact forall₂_comp h h' fun _ _ _ => RowOf.unique

/-- What has been read is written, as an entry of a dictionary, as what it was read from. -/
theorem RowTrip.rowOf (hroom : env.room = .unbounded)
    (hmap : ∀ d, Reaches env key d → d.isMap = false) {e : Value × Value} {row : Bytes}
    (h : RowTrip env key value e row) : RowOf env key value (readEntry e) row := by
  obtain ⟨x, y, hx, hy, rfl⟩ := h
  exact ⟨x, y, Codec.encode_loosened hroom hmap (hashableKey_loosened e.1) hx.encode, hy.encode, rfl⟩

/-- The entries on the wire, with what is read for them. -/
def ReadFor (env : Environment) (key value : Codec) (e r : Value × Value) : Prop :=
  (∃ x, key.encode env e.1 = .ok x ∧ RoundTrip env key r.1 x) ∧
    ∃ y, value.encode env e.2 = .ok y ∧ RoundTrip env value r.2 y

theorem ReadFor.rowTrip {e r : Value × Value} {row : Bytes} (h : ReadFor env key value e r)
    (hrow : RowOf env key value e row) : RowTrip env key value r row := by
  obtain ⟨⟨x, hx, hkey⟩, y, hy, hvalue⟩ := h
  obtain ⟨x', y', hx', hy', rfl⟩ := hrow
  rw [Except.ok.inj (hx.symm.trans hx')] at hkey
  rw [Except.ok.inj (hy.symm.trans hy')] at hvalue
  exact ⟨x', y', hkey, hvalue, rfl⟩

/-- The keys that have been read are written as those they were read for. -/
theorem ReadFor.encode_eq (hroom : env.room = .unbounded)
    (hmap : ∀ d, Reaches env key d → d.isMap = false) {e r : Value × Value}
    (h : ReadFor env key value e r) :
    key.encode env e.1 = key.encode env (readEntry r).1 := by
  obtain ⟨x, hx, hkey⟩ := h.1
  rw [hx]
  exact (Codec.encode_loosened hroom hmap (hashableKey_loosened r.1) hkey.encode).symm

theorem pairwise_ne_of_forall₂ {α β γ : Type} {f : α → γ} {g : β → γ} {as : List α} {bs : List β}
    (hsame : List.Forall₂ (fun a b => f a = g b) as bs) (h : as.Pairwise fun a a' => f a ≠ f a') :
    bs.Pairwise fun b b' => g b ≠ g b' := by
  have hmap : (as.map f).Pairwise (· ≠ ·) := List.pairwise_map.mpr h
  rw [map_eq_map_iff_forall₂.mpr hsame] at hmap
  exact List.pairwise_map.mp hmap

theorem keysApart_read (hroom : env.room = .unbounded)
    (hmap : ∀ d, Reaches env key d → d.isMap = false) (h : KeysApart env key es)
    (hperm : listed.Perm es) (hread : List.Forall₂ (ReadFor env key value) listed read)
    (hdict : Value.dictOf? (read.map readEntry) = some (.dict (read.map readEntry))) :
    KeysApart env key (read.map readEntry) := by
  refine ⟨(Value.dictOf_some hdict).1, Value.keysDiffer_of_dictOf hdict, ?_, ?_⟩
  · refine List.forall_mem_map.mpr fun r hr => ?_
    obtain ⟨e, he, hr⟩ := forall₂_right hread hr
    rw [← hr.encode_eq hroom hmap]
    exact h.written e (hperm.mem_iff.mp he)
  · refine List.pairwise_map.mpr ?_
    exact pairwise_ne_of_forall₂ (hread.imp fun e r hr => hr.encode_eq hroom hmap)
      ((hperm.pairwise_iff Ne.symm).mpr h.distinct)

/-- What is read for rows that are entries of a dictionary is the dictionary of these entries, in
the order of the rows. -/
theorem eq_of_decode_rows (hsound : env.Sound (.map key value))
    (hrows : List.Forall₂ (RowTrip env key value) read rows) (hlen : read.length < Compact.bound)
    (hdecode : (Codec.map key value).decode env (Compact.encode read.length ++ rows.flatten) =
      .ok (.dict es')) (hsize : es'.length = read.length) :
    es' = read.map readEntry ∧ Value.dictOf? (read.map readEntry) = some (.dict es') := by
  rw [decode_map_of_rows hsound hlen hrows] at hdecode
  split at hdecode
  · have hmade := Except.ok.inj hdecode
    unfold Decoder.mapOf at hmade
    cases hdict : Value.dictOf? (read.map readEntry) with
    | none => simp [hdict] at hmade
    | some d =>
        rw [hdict, Option.getD_some] at hmade
        subst hmade
        exact ⟨Value.eq_of_dictOf hdict (by simpa using hsize), rfl⟩
  · cases hdecode

/-- The rows of what has been read are read again as what was read the first time. -/
theorem eq_of_relisted (hsound : env.Sound (.map key value))
    (hmap : ∀ d, Reaches env key d → d.isMap = false)
    (hrows : List.Forall₂ (RowTrip env key value) read rows) (hlen : read.length < Compact.bound)
    (hlisted : ListedAs env key value (read.map readEntry) listed b)
    (hdecode : (Codec.map key value).decode env b = .ok (.dict es'))
    (hsize : es'.length = read.length) : es' = listed := by
  obtain ⟨rows', hrows', rfl⟩ := hlisted.rows
  obtain ⟨read', hperm, rfl⟩ := exists_perm_of_perm_map hlisted.perm
  have htrips : List.Forall₂ (RowTrip env key value) read' rows' := by
    rw [List.forall₂_map_left_iff] at hrows'
    refine forall₂_imp_of_mem hrows' fun r hr row _ hrow => ?_
    obtain ⟨row', -, (htrip : RowTrip env key value r row')⟩ :=
      forall₂_right hrows.flip (hperm.mem_iff.mp hr)
    exact (htrip.rowOf hsound.room hmap).unique hrow ▸ htrip
  rw [List.length_map, ← hperm.length_eq] at hdecode
  exact (eq_of_decode_rows hsound htrips (hperm.length_eq ▸ hlen) hdecode
    (hsize.trans hperm.length_eq.symm)).1

/-- A map that has been read is written as the bytes it was read from exactly if no entries have
become one, and they lie in the order in which keys like theirs are written. -/
theorem reencode_iff (hsound : env.Sound (.map key value)) (hkey : env.Discerning key)
    (hmap : ∀ d, Reaches env key d → d.isMap = false) (h : KeysApart env key es)
    (hstable : ∀ e ∈ es, Stable env key e.1 ∧ Stable env value e.2)
    (hlen : es.length < Compact.bound)
    (hencode : (Codec.map key value).encode env (.dict es) = .ok b)
    (hdecode : (Codec.map key value).decode env b = .ok (.dict es')) :
    (Codec.map key value).encode env (.dict es') = .ok b ↔
      es'.length = es.length ∧ es'.Pairwise fun a b => KeyOrder env key es' a.1 b.1 := by
  have hroom := hsound.room
  obtain ⟨listed, b', hlisted, -⟩ := exists_listedAs hroom hkey h (fun e he => by
    obtain ⟨w, y, hy, -⟩ := (hstable e he).2
    exact ⟨y, hy⟩) hlen
  obtain rfl := Except.ok.inj (hlisted.encode.symm.trans hencode)
  obtain ⟨rows, hrows, rfl⟩ := hlisted.rows
  obtain ⟨read, hread⟩ : ∃ read, List.Forall₂ (ReadFor env key value) listed read := by
    refine exists_forall₂ fun e he => ?_
    obtain ⟨⟨k, x, hx, hk⟩, v, y, hy, hv⟩ := hstable e (hlisted.perm.mem_iff.mp he)
    exact ⟨(k, v), ⟨x, hx, hk⟩, y, hy, hv⟩
  have htrips : List.Forall₂ (RowTrip env key value) read rows :=
    forall₂_comp hread hrows fun _ _ _ hr hrow => hr.rowTrip hrow
  have hcount : es.length = read.length := hlisted.perm.length_eq.symm.trans hread.length_eq
  have hlen' := hcount ▸ hlen
  rw [hcount] at hdecode hencode ⊢
  have hapart (hsize : es'.length = read.length) :
      es' = read.map readEntry ∧ KeysApart env key es' := by
    obtain ⟨rfl, hdict⟩ := eq_of_decode_rows hsound htrips hlen' hdecode hsize
    exact ⟨rfl, keysApart_read hroom hmap h hlisted.perm hread hdict⟩
  have hagain (hsize : es'.length = read.length) :
      ∃ listed' b', ListedAs env key value es' listed' b' ∧
      listed'.Pairwise fun a b => KeyOrder env key es' a.1 b.1 := by
    obtain ⟨heq, hapart⟩ := hapart hsize
    refine exists_listedAs hroom hkey hapart (fun e he => ?_) (hsize ▸ hlen')
    rw [heq] at he
    obtain ⟨r, hr, rfl⟩ := List.mem_map.mp he
    obtain ⟨e, -, -, y, -, hy⟩ := forall₂_right hread hr
    exact ⟨y, hy.encode⟩
  constructor
  · intro hwritten
    obtain ⟨hbound, rest, hrest⟩ := encode_map_count hroom hwritten
    have hsize : es'.length = read.length := (count_eq_of_append hlen' hbound hrest).symm
    refine ⟨hsize, ?_⟩
    obtain ⟨listed', b', hlisted', hfirst'⟩ := hagain hsize
    obtain rfl := Except.ok.inj (hlisted'.encode.symm.trans hwritten)
    have hlisted' := (hapart hsize).1 ▸ hlisted'
    exact eq_of_relisted hsound hmap htrips hlen' hlisted' hdecode hsize ▸ hfirst'
  · rintro ⟨hsize, hfirst⟩
    obtain ⟨heq, hapart⟩ := hapart hsize
    obtain ⟨listed', b', hlisted', hfirst'⟩ := hagain hsize
    have hsame : listed' = es' := List.Perm.eq_of_pairwise (fun e e' he he' hee' he'e =>
      absurd he'e (hapart.keyOrder_asymm (hlisted'.perm.mem_iff.mp he) he' hee'))
      hfirst' hfirst hlisted'.perm
    obtain ⟨rows', hrows', rfl⟩ := hlisted'.rows
    have hrows'' : List.Forall₂ (RowOf env key value) es' rows := by
      rw [heq, List.forall₂_map_left_iff]
      exact htrips.imp fun _ _ h => h.rowOf hroom hmap
    rw [hsame] at hrows'
    rw [hlisted'.encode, rows_unique hrows' hrows'', hsize]

/-! ### The order of maps -/

/-- Two keys stand in the same order in all dictionaries that have both of them. -/
def FixedOrder (env : Environment) (key value : Codec) : Prop :=
  ∀ es es' listed listed' b b', KeysApart env key es → KeysApart env key es' →
    ListedAs env key value es listed b → ListedAs env key value es' listed' b' →
    ∀ k k', k ∈ es.map (·.1) → k' ∈ es.map (·.1) → k ∈ es'.map (·.1) → k' ∈ es'.map (·.1) →
      (KeyBefore listed k k' ↔ KeyBefore listed' k k')

/-! ### Keys whose bytes are in another order -/

def wideKey : Codec := .int ⟨false, .w16⟩

/-- The bytes of 256 come before those of one. -/
def crossed : List (Value × Value) := [(.int 1, .int 0), (.int 256, .int 1)]

def crossedBeside (k : Value) : List (Value × Value) := (k, .int 2) :: crossed

theorem discerning_empty (c : Codec) : Environment.Discerning .empty c := by
  intro r cls _ hcls
  cases r <;> cases hcls

theorem KeysApart.tail {e : Value × Value} (h : KeysApart env key (e :: es)) :
    KeysApart env key es :=
  ⟨fun e he => h.hashable e (List.mem_cons_of_mem _ he), (List.pairwise_cons.mp h.differ).2,
    fun e he => h.written e (List.mem_cons_of_mem _ he), (List.pairwise_cons.mp h.distinct).2⟩

theorem crossed_values {k : Value} :
    ∀ e ∈ crossed ++ crossedBeside k, ∃ y, Codec.u8.encode .empty e.2 = .ok y := by
  simp only [crossed, crossedBeside, List.cons_append, List.nil_append, List.forall_mem_cons]
  exact ⟨⟨_, rfl⟩, ⟨_, rfl⟩, ⟨_, rfl⟩, ⟨_, rfl⟩, ⟨_, rfl⟩, nofun⟩

theorem crossedBeside_none_apart :
    KeysApart .empty (.option wideKey) (crossedBeside .none) := by
  have hnone : (Codec.option wideKey).encode .empty .none = .ok [0] := rfl
  have hone : (Codec.option wideKey).encode .empty (.int 1) = .ok [1, 1, 0] := rfl
  have hmany : (Codec.option wideKey).encode .empty (.int 256) = .ok [1, 0, 1] := rfl
  refine ⟨?_, ?_, ?_, ?_⟩
  · simp [crossedBeside, crossed, Value.isHashable]
  · refine List.pairwise_cons.mpr ⟨?_, List.pairwise_pair.mpr rfl⟩
    simpa [crossed] using ⟨rfl, rfl⟩
  · simp [crossedBeside, crossed, hnone, hone, hmany]
  · simp [crossedBeside, crossed, hnone, hone, hmany]

theorem crossedBeside_five_apart : KeysApart .empty wideKey (crossedBeside (.int 5)) := by
  have hfive : wideKey.encode .empty (.int 5) = .ok [5, 0] := rfl
  have hone : wideKey.encode .empty (.int 1) = .ok [1, 0] := rfl
  have hmany : wideKey.encode .empty (.int 256) = .ok [0, 1] := rfl
  refine ⟨?_, ?_, ?_, ?_⟩
  · simp [crossedBeside, crossed, Value.isHashable]
  · refine List.pairwise_cons.mpr ⟨?_, List.pairwise_pair.mpr rfl⟩
    simpa [crossed] using ⟨rfl, rfl⟩
  · simp [crossedBeside, crossed, hfive, hone, hmany]
  · simp [crossedBeside, crossed, hfive, hone, hmany]

theorem crossed_length (k : Value) :
    crossed.length < Compact.bound ∧ (crossedBeside k).length < Compact.bound := by
  simp only [crossedBeside, crossed, List.length_cons, List.length_nil, Compact.bound]
  omega

theorem wideKey_sound : Environment.Sound .empty (.map wideKey .u8) := by
  refine ⟨rfl, fun c hc => ?_⟩
  have hmem : c ∈ [.map wideKey .u8, wideKey, .u8] := Reaches.mem_of_closed List.mem_cons_self
    (by simp [Environment.partsOf, Codec.parts, wideKey, Codec.u8]) hc
  simp only [List.mem_cons, List.not_mem_nil, or_false] at hmem
  obtain rfl | rfl | rfl := hmem <;> trivial

theorem not_isMap_wideKey : ∀ d, Reaches .empty wideKey d → d.isMap = false := by
  intro d hd
  have hmem : d ∈ [wideKey] := Reaches.mem_of_closed List.mem_cons_self
    (by simp [Environment.partsOf, Codec.parts, wideKey]) hd
  rw [List.mem_singleton.mp hmem]
  rfl

end InkBindings.Scale
