import InkBindings.Contract.Event
import InkBindings.Proofs.Fallible
import InkBindings.Proofs.Scale.Safety

/-!
Reading the events of an instance from a log. Each event of the account has one entry, in order: a
value exactly if that is what its payload is read as, and otherwise an error about the bytes. It is
so for all logs, unless an alternative of a declared type stands in the place of an operation that
reads it.
-/

namespace InkBindings.Contract

open Scale (Codec Environment Reaches TakesBytes Constructs Makes SafeStart)

/-- The codec reads the value from the start of the payload, up to its end. -/
def ReadsWhole (env : Environment) (c : Codec) (data : Bytes) (v : Value) : Prop :=
  c.decodeFrom env data (0 : Nat) = .ok (v, data.length)

/-- The events of the account are extracted from the log, each by itself. -/
def Extracts (env : Environment) (c : Codec) (i : Instance) (log : List Event) : Prop :=
  ∃ entries, i.events env log = .ok entries ∧
    List.Forall₂ (fun e entry => ∀ v, entry = .ok v ↔ ReadsWhole env c e.data v)
      (log.filter (·.account = i.account)) entries

/-- The declared types of the codec are all declared types of a tree. -/
def MadeOf (env : Environment) (root c : Codec) : Prop :=
  ∀ r, Reaches env c (.reference r) → Reaches env root (.reference r)

/-! ### One payload -/

section
variable {env : Environment} {c : Codec}

/-- An entry for the payload, which is a value exactly if the payload is read as one. -/
def Settles (env : Environment) (c : Codec) (data : Bytes) : Prop :=
  ∃ entry, readEvent env c data = .ok entry ∧ ∀ v, entry = .ok v ↔ ReadsWhole env c data v

theorem decodeFromOwn_of_safe (hsound : env.Sound c)
    (hopen : ∀ r, c = .reference r → env.hiding? .decodeFrom r = none) (h : SafeStart env c)
    (data : Bytes) : c.decodeFromOwn env data 0 = c.decodeFrom env data (0 : Nat) := by
  have hend : c.decodeFrom env data (0 : Nat) ≠ .error .endless := by
    rcases h data with ⟨v, next, hread⟩ | ⟨e, hread⟩ <;> rw [hread] <;> simp
  have hreading := Environment.decodeFrom_eq_reading hsound.room c data (0 : Nat)
  have hown : c.decodeFromOwn env (.ofBytes ([] ++ data)) ([] : Bytes).length =
      c.decodeFrom env data (0 : Nat) :=
    Codec.decodeFromOwn_of_reading hsound hopen hreading.symm hend
  exact hown

theorem settles_of_safe (hsound : env.Sound c)
    (hopen : ∀ r, c = .reference r →
      env.hiding? .decodeFrom r = none ∧ env.hiding? .decode r = none)
    (h : SafeStart env c) (data : Bytes) : Settles env c data := by
  have hown := decodeFromOwn_of_safe hsound (fun r hr => (hopen r hr).1) h data
  have hsize : (Scale.Source.ofBytes data).size = data.length := rfl
  simp only [Settles, readEvent, ReadsWhole, Scale.decode_of_not_hidden (fun r hr => (hopen r hr).2),
    Codec.decodeAll, hown]
  rcases h data with ⟨v, next, hread⟩ | ⟨e, hread⟩
  · rw [hread]
    by_cases hnext : next = data.length
    · refine ⟨.ok v, ?_, fun w => ?_⟩
      · simp [Bind.bind, Except.bind, hsize, hnext, Pure.pure, Except.pure]
      · simp [hnext]
    · refine ⟨.error (.trailing (data.length - next) c.shortName), ?_, fun w => ?_⟩
      · simp [Bind.bind, Except.bind, hsize, hnext, throw, throwThe, MonadExceptOf.throw]
      · simp [hnext]
  · rw [hread]
    exact ⟨.error e, rfl, by simp⟩

end

/-! ### A log -/

section
variable {env : Environment} {c : Codec}

theorem events_of_class {i : Instance} (hevent : i.ofClass.event = some c) (log : List Event) :
    i.events env log =
      (log.filter (·.account = i.account)).mapM fun e => readEvent env c e.data := by
  simp only [Instance.events, hevent]

theorem extracts_of_settles (h : ∀ data, Settles env c data) {i : Instance}
    (hevent : i.ofClass.event = some c) (log : List Event) : Extracts env c i log := by
  rw [Extracts, events_of_class hevent]
  have hread : ∀ e ∈ log.filter (·.account = i.account),
      ∃ entry, readEvent env c e.data = .ok entry :=
    fun e _ => (h e.data).imp fun _ hentry => hentry.1
  obtain ⟨entries, hentries⟩ := exists_mapM_ok hread
  refine ⟨entries, hentries, (forall₂_of_mapM hentries).imp fun e entry hread => ?_⟩
  obtain ⟨told, htold, hv⟩ := h e.data
  cases hread.symm.trans htold
  exact hv

/-- An account for which events may be emitted. -/
def anAccount : Identifier := ⟨List.replicate identifierSize 1, List.length_replicate⟩

/-- A payload is read by itself in a log of one event. -/
theorem settles_of_extracts
    (h : ∀ i : Instance, i.ofClass.event = some c → ∀ log, Extracts env c i log) (data : Bytes) :
    Settles env c data := by
  let i : Instance := ⟨⟨"", some c⟩, anAccount⟩
  obtain ⟨entries, hentries, htold⟩ := h i rfl [⟨i.account, data⟩]
  rw [events_of_class (c := c) rfl] at hentries
  have hown : [(⟨i.account, data⟩ : Event)].filter (·.account = i.account) =
      [⟨i.account, data⟩] := by simp
  rw [hown] at hentries htold
  obtain ⟨entry, hentry, hentries⟩ := bind_ok hentries
  cases hentries
  cases htold with
  | cons hv _ => exact ⟨entry, hentry, hv⟩

end

/-! ### What may stand in the way -/

/-- Nothing stands in the place of what reads the type and makes its instances. -/
structure Open (env : Environment) (r : Scale.Reference) : Prop where
  readable : env.Readable r
  decode : env.hiding? .decode r = none
  constructs : Constructs env r

section
variable {env : Environment} {c : Codec} {r : Scale.Reference}

theorem settles_of_open (hsound : env.Sound c) (htakes : TakesBytes env c)
    (h : ∀ r, Reaches env c (.reference r) → Open env r) (data : Bytes) : Settles env c data := by
  have hopen : ∀ r, Reaches env c (.reference r) → env.Readable r ∧ Makes env r := fun r hr =>
    ⟨(h r hr).readable, (Scale.makes_iff (hsound.of_reaches hr)).mpr (h r hr).constructs⟩
  refine settles_of_safe hsound ?_ (Scale.safe_of_open hsound htakes hopen (.refl c)).safeStart data
  rintro r rfl
  exact ⟨(h r (.refl _)).readable.2, (h r (.refl _)).decode⟩

/-- A type with alternatives reads nothing from no bytes. -/
theorem not_readsWhole_nil (hsound : env.Sound (.reference r)) {op : Scale.Operation}
    {a : Scale.AlternativeClass} (hhidden : env.hiding? op r = some a) (v : Value) :
    ¬ ReadsWhole env (.reference r) [] v := by
  intro h
  have hreadable := Codec.readable_of_decodeFrom hsound.room h
  obtain ⟨layout, hlayout, hfits⟩ := hsound.fits _ (.refl _)
  rw [ReadsWhole, Environment.decodeFrom_eq_reading hsound.room, Environment.possibleLevels,
    Environment.reading_of_readable hlayout hreadable] at h
  cases layout with
  | record fields =>
      obtain ⟨attributes, hattributes, -⟩ := hfits
      simp [Environment.hiding_of_record op hattributes] at hhidden
  | sum alternatives => cases h

theorem decode_of_settles (hsound : env.Sound (.reference r))
    (h : Settles env (.reference r) []) : env.hiding? .decode r = none := by
  obtain ⟨entry, hentry, htold⟩ := h
  cases hhidden : env.hiding? .decode r with
  | none => rfl
  | some a =>
      simp only [readEvent, Codec.decode, Codec.decodeHidden?, hhidden, Option.map_some] at hentry
      cases hmade : a.make? r.owner [.bytes []] with
      | none =>
          rw [hmade] at hentry
          cases hentry
      | some v =>
          rw [hmade] at hentry
          cases hentry
          exact absurd ((htold v).mp rfl) (not_readsWhole_nil hsound hhidden v)

/-- What is read in a row of one is read by its own codec. -/
theorem safeStart_of_settles (hsound : env.Sound c) (h : ∀ data, Settles env (.tuple [c]) data) :
    SafeStart env c := by
  intro data
  obtain ⟨entry, hentry, -⟩ := h data
  have hroom : env.room = .unbounded := hsound.room
  obtain ⟨level, hlevel, hown⟩ := Codec.decodeFromOwn_eq_reading (c := .tuple [c]) hroom nofun
    (.ofBytes data) 0
  rw [Environment.reading_tuple] at hown
  simp only [readEvent, Scale.decode_of_not_hidden (c := .tuple [c]) nofun, Codec.decodeAll, hown,
    Scale.Decoder.tuple, Scale.Decoder.each, List.map_cons, List.map_nil] at hentry
  have hread : ∀ result, env.reading level c (.ofBytes ([] ++ data)) ([] : Bytes).length = result →
      result ≠ .error .endless →
      c.decodeFrom env (.ofBytes ([] ++ data)) ([] : Bytes).length = result :=
    fun result hresult hend => Codec.decodeFrom_of_reading hsound hresult hend
  cases hresult : env.reading level c (.ofBytes data) 0 with
  | ok result => exact .inl ⟨result.1, result.2, hread _ hresult (by simp)⟩
  | error f =>
      simp only [hresult, Bind.bind, Except.bind] at hentry
      cases f with
      | bytes e => exact .inr ⟨e, hread _ hresult (by simp)⟩
      | _ => cases hentry

theorem takesBytes_of_madeOf {root : Codec} (htakes : TakesBytes env root)
    (h : MadeOf env root c) : TakesBytes env c :=
  fun r hr => htakes r (h r hr)

/-- All types of a tree are open if logs are extracted by every codec that is made of them. -/
theorem open_of_extracts {root : Codec} (hsound : env.Sound root)
    (h : ∀ d, env.Sound d → MadeOf env root d → ∀ i : Instance, i.ofClass.event = some d →
      ∀ log, Extracts env d i log) (hr : Reaches env root (.reference r)) : Open env r := by
  have hreference := hsound.of_reaches hr
  have hrow : env.Sound (.tuple [.reference r]) :=
    Scale.sound_tuple hsound fun c hc => List.mem_singleton.mp hc ▸ hr
  have hmade : MadeOf env root (.reference r) := fun s hs => hr.trans hs
  have hmadeRow : MadeOf env root (.tuple [.reference r]) := by
    intro s hs
    cases hs with
    | step hpart hs =>
        rw [List.mem_singleton.mp hpart] at hs
        exact hr.trans hs
  obtain ⟨hreadable, hmakes⟩ := Scale.open_of_safeStart hreference <|
    safeStart_of_settles hreference (settles_of_extracts (h _ hrow hmadeRow))
  exact ⟨hreadable, decode_of_settles hreference (settles_of_extracts (h _ hreference hmade) []),
    (Scale.makes_iff hreference).mp hmakes⟩

/-! ### Logs in parts -/

theorem events_append (i : Instance) (log log' : List Event) :
    i.events env (log ++ log') = (do return (← i.events env log) ++ (← i.events env log')) := by
  cases hevent : i.ofClass.event with
  | none =>
      simp only [Instance.events, hevent]
      rfl
  | some c =>
      rw [events_of_class hevent, events_of_class hevent, events_of_class hevent,
        List.filter_append, List.mapM_append]

theorem events_of_ne {i : Instance} {e : Event} (h : e.account ≠ i.account)
    (before after : List Event) :
    i.events env (before ++ e :: after) = i.events env (before ++ after) := by
  have hfilter : (before ++ e :: after).filter (·.account = i.account) =
      (before ++ after).filter (·.account = i.account) := by
    rw [List.filter_append, List.filter_cons_of_neg (by simpa using h), List.filter_append]
  simp only [Instance.events, hfilter]

end

/-! ### An alternative in the way -/

open Scale (single singleCodec single_nodes single_sound chains chain chainOf chainEnd)

theorem single_takesBytes (label : String) : TakesBytes (single label) singleCodec := by
  intro r hr hcycle
  obtain ⟨s, ⟨fields, hlayout, -⟩, -⟩ := Relation.TransGen.head'_iff.mp hcycle
  obtain rfl : r = .declared "E" := by simpa [singleCodec] using single_nodes hr
  cases hlayout

def chainInstance : Instance := ⟨⟨"Instance", some chain⟩, anAccount⟩

def anotherAccount : Identifier := ⟨List.replicate identifierSize 2, List.length_replicate⟩

/-- Two chains of the contract with one of another contract between them, and three payloads that
are no chain: an unknown alternative, a chain that breaks off, and one that has a byte too many. -/
def chainLog : List Event :=
  [⟨anAccount, [1, 20, 0]⟩, ⟨anotherAccount, [0]⟩, ⟨anAccount, [0]⟩, ⟨anAccount, [7]⟩,
    ⟨anAccount, [1, 20]⟩, ⟨anAccount, [0, 0]⟩]

example : chainInstance.events chains chainLog = .ok [.ok (chainOf 5 chainEnd), .ok chainEnd,
    .error (.unknownAlternative "7" "Chain"), .error (.truncated 1 2 0),
    .error (.trailing 1 "Chain")] := rfl

end InkBindings.Contract
