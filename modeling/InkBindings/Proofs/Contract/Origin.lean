import InkBindings.Contract.Methods
import InkBindings.Proofs.Fallible

/-!
Where the parts of a request come from. It is made from values for its parts, and may be changed by
its methods after that. Whatever it has become, a part is read off the latest value that was given
for it, and has passed the check that goes with it.
-/

namespace InkBindings.Contract

/-- A change to a request by one of its methods. -/
inductive Change
  | salt (v : Value)
  | value (v : Value)
  | status (v : Value)
  | asRead

def Change.apply (c : Call) : Change → Built Call
  | .salt v => c.withSalt v
  | .value v => c.withValue v
  | .status v => c.withStatus v
  | .asRead => c.asRead

/-- How a request came about. -/
structure Origin where
  className : String
  arguments : Arguments
  changes : List Change

/-- The request of an origin, unless a part or a change was refused. -/
def Origin.call (o : Origin) : Built Call := do
  o.changes.foldlM Change.apply (← Call.ofArguments o.className o.arguments)

/-- What is given for the parts of a request. -/
structure Given where
  account : Value
  codeHash : Value
  data : Value
  wasm : Value
  salt : Value
  amount : Value

def Given.ofArguments (a : Arguments) : Given where
  account := a.value "account_id" .none
  codeHash := a.value "code_hash" .none
  data := a.value "data" .none
  wasm := a.value "wasm" .none
  salt := a.value "salt" (.bytes [])
  amount := a.value "value" (.int 0)

def Given.changed (g : Given) : Change → Given
  | .salt v => { g with salt := v }
  | .value v => { g with amount := v }
  | .status _ | .asRead => g

def Origin.given (o : Origin) : Given :=
  o.changes.foldl Given.changed (.ofArguments o.arguments)

/-- A value that is read as this byte string. -/
def Gives (v : Value) (b : Bytes) : Prop :=
  ∃ source, readBytes v = .ok source ∧ source.bytes = b

/-- A request whose parts are what was given for them. One that waits for an amount has the values
as they were given, but for a salt that it was changed to, which is a byte string by then. -/
inductive Holds (g : Given) : Call → Prop
  | instantiate {i} (codeHash : readCodeHash g.codeHash = .ok i.codeHash) (data : i.data = g.data)
      (salt : Gives g.salt i.salt) (amount : checkAmount g.amount = .ok i.value) :
      Holds g (.instantiate i)
  | payableInstantiate {i} (codeHash : i.codeHash = g.codeHash) (data : i.data = g.data)
      (salt : ∀ b, Gives i.salt b → Gives g.salt b) : Holds g (.payableInstantiate i)
  | exec {e} (account : readAccount g.account = .ok e.account) (data : e.data = g.data)
      (amount : checkAmount g.amount = .ok e.value) : Holds g (.exec e)
  | payableExec {e} (account : e.account = g.account) (data : e.data = g.data) :
      Holds g (.payableExec e)
  | read {r} (account : readAccount g.account = .ok r.account) (data : r.data = g.data)
      (amount : checkAmount g.amount = .ok r.value) : Holds g (.read r)
  | upload {u} (wasm : u.wasm = g.wasm) : Holds g (.upload u)

/-! ### Amounts and salts -/

theorem checkAmount_int {v : Value} {a : Amount} (h : checkAmount v = .ok a) :
    v = .int a.value := by
  unfold checkAmount Amount.ofValue? at h
  split at h
  · next b hb =>
      cases h
      split at hb
      · next n =>
          split at hb
          · next hbound =>
              cases hb
              exact congrArg Value.int (Int.toNat_of_nonneg hbound.1).symm
          · cases hb
      · cases hb
  · cases h

/-- An amount that has been checked passes again. -/
theorem checkAmount_value (a : Amount) : checkAmount (.int a.value) = .ok a := by
  have hbound : (0 : Int) ≤ (a.value : Int) ∧ (a.value : Int).toNat < amountBound :=
    ⟨Int.natCast_nonneg _, a.lt_bound⟩
  simp only [checkAmount, Amount.ofValue?, dif_pos hbound]
  rfl

theorem gives_bytes (b : Bytes) : Gives (.bytes b) b :=
  ⟨.content b, rfl, rfl⟩

theorem gives_injective {v : Value} {b other : Bytes} (h : Gives v b) (hother : Gives v other) :
    b = other := by
  obtain ⟨source, hread, rfl⟩ := h
  obtain ⟨source', hread', rfl⟩ := hother
  cases hread.symm.trans hread'
  rfl

/-! ### Making -/

theorem InstantiateCall.parts_of_make {codeHash data salt value : Value} {contract : InstanceClass}
    {status : TxStatus} {i : InstantiateCall}
    (h : InstantiateCall.make codeHash data contract salt value status = .ok i) :
    readCodeHash codeHash = .ok i.codeHash ∧ i.data = data ∧ Gives salt i.salt ∧
      checkAmount value = .ok i.value := by
  obtain ⟨id, hhash, h⟩ := bind_ok h
  obtain ⟨source, hsalt, h⟩ := bind_ok h
  obtain ⟨amount, hamount, h⟩ := bind_ok h
  cases h
  exact ⟨hhash, rfl, ⟨source, hsalt, rfl⟩, hamount⟩

theorem ExecCall.parts_of_make {account data value : Value} {codec : Option Scale.Codec}
    {status : TxStatus} {e : ExecCall} (h : ExecCall.make account data codec value status = .ok e) :
    readAccount account = .ok e.account ∧ e.data = data ∧ checkAmount value = .ok e.value := by
  obtain ⟨id, haccount, h⟩ := bind_ok h
  obtain ⟨amount, hamount, h⟩ := bind_ok h
  cases h
  exact ⟨haccount, rfl, hamount⟩

theorem ReadCall.parts_of_make {account data value : Value} {codec : Option Scale.Codec}
    {r : ReadCall} (h : ReadCall.make account data codec value = .ok r) :
    readAccount account = .ok r.account ∧ r.data = data ∧ checkAmount value = .ok r.value := by
  obtain ⟨id, haccount, h⟩ := bind_ok h
  obtain ⟨amount, hamount, h⟩ := bind_ok h
  cases h
  exact ⟨haccount, rfl, hamount⟩

theorem UploadCall.parts_of_make {wasm expectedHash : Value} {status : TxStatus} {u : UploadCall}
    (h : UploadCall.make wasm expectedHash status = .ok u) :
    readCodeHash expectedHash = .ok u.expectedHash ∧ u.wasm = wasm := by
  obtain ⟨id, hhash, h⟩ := bind_ok h
  cases h
  exact ⟨hhash, rfl⟩

theorem holds_ofArguments {className : String} {a : Arguments} {c : Call}
    (h : Call.ofArguments className a = .ok c) : Holds (.ofArguments a) c := by
  obtain ⟨status, -, h⟩ := bind_ok h
  cases hfit : a.fit ((argumentNames? className).getD ([], [])).1
      ((argumentNames? className).getD ([], [])).2 with
  | false =>
      simp only [hfit] at h
      cases h
  | true =>
      simp only [hfit, if_true] at h
      split at h
      · obtain ⟨i, hmake, h⟩ := bind_ok h
        cases h
        obtain ⟨hhash, hdata, hsalt, hamount⟩ := InstantiateCall.parts_of_make hmake
        exact .instantiate hhash hdata hsalt hamount
      · cases h
        exact .payableInstantiate rfl rfl fun _ => id
      · obtain ⟨e, hmake, h⟩ := bind_ok h
        cases h
        obtain ⟨haccount, hdata, hamount⟩ := ExecCall.parts_of_make hmake
        exact .exec haccount hdata hamount
      · cases h
        exact .payableExec rfl rfl
      · obtain ⟨r, hmake, h⟩ := bind_ok h
        cases h
        obtain ⟨haccount, hdata, hamount⟩ := ReadCall.parts_of_make hmake
        exact .read haccount hdata hamount
      · obtain ⟨u, hmake, h⟩ := bind_ok h
        cases h
        exact .upload (UploadCall.parts_of_make hmake).2

/-! ### Changing -/

theorem Holds.withSalt {g : Given} {c next : Call} {v : Value} (h : Holds g c)
    (hnext : c.withSalt v = .ok next) : Holds { g with salt := v } next := by
  cases h with
  | instantiate hhash hdata hsalt hamount =>
      obtain ⟨source, hread, hnext⟩ := bind_ok hnext
      cases hnext
      exact .instantiate hhash hdata ⟨source, hread, rfl⟩ hamount
  | payableInstantiate hhash hdata hsalt =>
      obtain ⟨source, hread, hnext⟩ := bind_ok hnext
      cases hnext
      refine .payableInstantiate hhash hdata fun b hb => ?_
      obtain rfl := gives_injective hb (gives_bytes source.bytes)
      exact ⟨source, hread, rfl⟩
  | exec | payableExec | read | upload => cases hnext

theorem Holds.withStatus {g : Given} {c next : Call} {v : Value} (h : Holds g c)
    (hnext : c.withStatus v = .ok next) : Holds g next := by
  cases h with
  | instantiate hhash hdata hsalt hamount =>
      obtain ⟨status, -, hnext⟩ := bind_ok hnext
      cases hnext
      exact .instantiate hhash hdata hsalt hamount
  | exec haccount hdata hamount =>
      obtain ⟨status, -, hnext⟩ := bind_ok hnext
      cases hnext
      exact .exec haccount hdata hamount
  | upload hwasm =>
      obtain ⟨status, -, hnext⟩ := bind_ok hnext
      cases hnext
      exact .upload hwasm
  | payableInstantiate | payableExec | read => cases hnext

/-- With its amount, a request that waited for one passes all the checks of its class. -/
theorem Holds.withValue {g : Given} {c next : Call} {v : Value} (h : Holds g c)
    (hnext : c.withValue v = .ok next) : Holds { g with amount := v } next := by
  cases h with
  | payableInstantiate hhash hdata hsalt =>
      obtain ⟨amount, hamount, hnext⟩ := bind_ok hnext
      obtain ⟨i, hmake, hnext⟩ := bind_ok hnext
      cases hnext
      obtain ⟨hread, hkept, hgives, hagain⟩ := InstantiateCall.parts_of_make hmake
      refine .instantiate (hhash ▸ hread) (hkept.trans hdata) (hsalt _ hgives) ?_
      rw [hamount, ← hagain, checkAmount_value]
  | payableExec haccount hdata =>
      obtain ⟨amount, hamount, hnext⟩ := bind_ok hnext
      obtain ⟨e, hmake, hnext⟩ := bind_ok hnext
      cases hnext
      obtain ⟨hread, hkept, hagain⟩ := ExecCall.parts_of_make hmake
      refine .exec (haccount ▸ hread) (hkept.trans hdata) ?_
      rw [hamount, ← hagain, checkAmount_value]
  | read haccount hdata hamount =>
      obtain ⟨amount, hcheck, hnext⟩ := bind_ok hnext
      cases hnext
      exact .read haccount hdata hcheck
  | instantiate | exec | upload => cases hnext

theorem Holds.asRead {g : Given} {c next : Call} (h : Holds g c) (hnext : c.asRead = .ok next) :
    Holds g next := by
  cases h with
  | exec haccount hdata hamount =>
      unfold Call.asRead at hnext
      split at hnext
      · next e heq =>
          cases heq
          split at hnext
          · cases hnext
            exact .read haccount hdata hamount
          · cases hnext
      · next hnot => exact absurd rfl (hnot _)
  | instantiate | payableInstantiate | payableExec | read | upload => cases hnext

/-- One change. -/
theorem Holds.apply {g : Given} {c next : Call} (h : Holds g c) {change : Change}
    (happly : change.apply c = .ok next) : Holds (g.changed change) next := by
  cases change with
  | salt v => exact h.withSalt happly
  | value v => exact h.withValue happly
  | status v => exact h.withStatus happly
  | asRead => exact h.asRead happly

theorem Holds.applyAll {changes : List Change} {g : Given} {c next : Call} (h : Holds g c)
    (happly : changes.foldlM Change.apply c = .ok next) :
    Holds (changes.foldl Given.changed g) next := by
  induction changes generalizing g c with
  | nil =>
      cases happly
      exact h
  | cons change rest ih =>
      rw [List.foldlM_cons] at happly
      obtain ⟨middle, hfirst, hrest⟩ := bind_ok happly
      exact ih (h.apply hfirst) hrest

/-- A request holds what its origin gives for it. -/
theorem Origin.holds {o : Origin} {c : Call} (h : o.call = .ok c) : Holds o.given c := by
  obtain ⟨first, hmade, hchanged⟩ := bind_ok h
  exact (holds_ofArguments hmade).applyAll hchanged

end InkBindings.Contract
