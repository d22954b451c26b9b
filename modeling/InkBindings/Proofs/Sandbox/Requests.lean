import InkBindings.Proofs.Contract.Origin
import InkBindings.Proofs.Sandbox.Poisoning

/-!
What reaches the context. A step makes one request at most, in the name of the caller that the
sandbox was made with. It holds the parts of the request that was submitted, each of which was given
for it and checked; one that still waits for an amount never gets there.
-/

namespace InkBindings.Sandbox

open Contract (Call Given Gives Holds Origin Reply readAccount readCodeHash)

/-- A request that reaches the context, with what was given for its parts. Only a read is a dry
run. -/
inductive Sent (caller : Identifier) (g : Given) (m : Method) : Call → Request → Prop
  | exec {e} (method : m = .read ∨ m = .exec) (account : readAccount g.account = .ok e.account)
      (data : e.data = g.data) (value : g.amount = .int e.value.value) :
      Sent caller g m (.exec e) (.call caller e.account e.data e.value (m = .read))
  | read {r} (method : m = .read ∨ m = .exec) (account : readAccount g.account = .ok r.account)
      (data : r.data = g.data) (value : g.amount = .int r.value.value) :
      Sent caller g m (.read r) (.call caller r.account r.data r.value (m = .read))
  | instantiate {i} (method : m.deploys) (codeHash : readCodeHash g.codeHash = .ok i.codeHash)
      (data : i.data = g.data) (salt : Gives g.salt i.salt)
      (value : g.amount = .int i.value.value) :
      Sent caller g m (.instantiate i) (.instantiate caller i.codeHash i.data i.salt i.value)
  | upload {u} (method : m = .upload) (wasm : u.wasm = g.wasm) :
      Sent caller g m (.upload u) (.upload caller u.wasm)

/-- The sizes and bounds that a ledger asks for. -/
def Request.InBounds : Request → Prop
  | .upload caller _ => caller.bytes.length = 32
  | .instantiate caller codeHash _ _ value =>
    caller.bytes.length = 32 ∧ codeHash.bytes.length = 32 ∧ value.value < 2 ^ 128
  | .call caller account _ value _ =>
    caller.bytes.length = 32 ∧ account.bytes.length = 32 ∧ value.value < 2 ^ 128

theorem Request.inBounds (r : Request) : r.InBounds := by
  cases r with
  | upload caller wasm => exact caller.size_eq
  | instantiate caller codeHash data salt value =>
      exact ⟨caller.size_eq, codeHash.size_eq, value.lt_bound⟩
  | call caller account data value dryRun =>
      exact ⟨caller.size_eq, account.size_eq, value.lt_bound⟩

theorem Sent.needsValue {caller : Identifier} {g : Given} {m : Method} {call : Call} {r : Request}
    (h : Sent caller g m call r) : call.needsValue = false := by
  cases h <;> rfl

/-- What a method asks for with a request, by what was given for the request. -/
theorem sent_of_request {caller : Identifier} {g : Given} {m : Method} {call : Call} {r : Request}
    (h : Holds g call) (hrequest : m.request caller call = .ok r) : Sent caller g m call r := by
  cases h with
  | exec haccount hdata hamount =>
      have hvalue := Contract.checkAmount_int hamount
      cases m with
      | read =>
          cases hrequest
          exact .exec (.inl rfl) haccount hdata hvalue
      | exec =>
          cases hrequest
          exact .exec (.inr rfl) haccount hdata hvalue
      | upload | instantiate | instantiateTx => cases hrequest
  | read haccount hdata hamount =>
      have hvalue := Contract.checkAmount_int hamount
      cases m with
      | read =>
          cases hrequest
          exact .read (.inl rfl) haccount hdata hvalue
      | exec =>
          cases hrequest
          exact .read (.inr rfl) haccount hdata hvalue
      | upload | instantiate | instantiateTx => cases hrequest
  | instantiate hhash hdata hsalt hamount =>
      have hvalue := Contract.checkAmount_int hamount
      cases m with
      | instantiate | instantiateTx =>
          cases hrequest
          exact .instantiate trivial hhash hdata hsalt hvalue
      | read | exec | upload => cases hrequest
  | upload hwasm =>
      cases m with
      | upload =>
          cases hrequest
          exact .upload rfl hwasm
      | read | exec | instantiate | instantiateTx => cases hrequest
  | payableInstantiate | payableExec => cases m <;> cases hrequest

variable {κ : Type} [Responder κ] {c : Connection}

namespace Connection

theorem Grows.caller {next : Connection} (h : c.Grows next) : next.caller = c.caller := by
  cases h <;> rfl

theorem perform_caller (env : Scale.Environment) (op : Operation) (context : κ) :
    (c.perform env op context).connection.caller = c.caller := by
  obtain ⟨next, hgrows, hnext | ⟨reason, hnext⟩⟩ := perform_grows (c := c) env op context
  · rw [hnext, hgrows.caller]
  · rw [hnext, ← hgrows.caller]
    rfl

theorem after_caller (env : Scale.Environment) (steps : List (Operation × κ)) :
    (c.after env steps).caller = c.caller := by
  induction steps generalizing c with
  | nil => rfl
  | cons step rest ih => exact ih.trans (perform_caller env step.1 step.2)

theorem request_of_asked {env : Scale.Environment} {m : Method} {call : Call} {context : κ}
    {r : Request} (h : (c.perform env (.submit m (.call call)) context).asked = some r) :
    m.request c.caller call = .ok r := by
  cases hpoison : c.poison with
  | some reason =>
      rw [perform_poisoned env hpoison] at h
      cases h
  | none =>
      rw [perform_eq env hpoison, settle_asked, Operation.course] at h
      split at h
      · cases h
      · cases hrequest : m.request c.caller call with
        | error e =>
            rw [hrequest] at h
            cases h
        | ok request =>
            rw [hrequest] at h
            cases h
            rfl

end Connection

/-! ### One request at most -/

/-- A course depends on the context only by its response to what is asked. -/
theorem Operation.course_congr (env : Scale.Environment) (op : Operation) {context other : κ}
    (h : ∀ r, (op.course env c context).asked = some r →
      Responder.respond other r = Responder.respond context r) :
    op.course env c other = op.course env c context := by
  cases op with
  | events txHash => rfl
  | submit m given =>
      cases given with
      | value | handle => rfl
      | call call =>
          cases hcheck : m.check call with
          | error e => simp only [course, hcheck]
          | ok =>
              simp only [course, hcheck, askCourse] at h ⊢
              cases hrequest : m.request c.caller call with
              | error e => rfl
              | ok r =>
                  rw [hrequest] at h
                  simp only [h r rfl]

theorem Connection.perform_congr (env : Scale.Environment) (op : Operation) {context other : κ}
    (h : ∀ r, (c.perform env op context).asked = some r →
      Responder.respond other r = Responder.respond context r) :
    c.perform env op other = c.perform env op context := by
  cases hpoison : c.poison with
  | some reason => rw [perform_poisoned env hpoison, perform_poisoned env hpoison]
  | none =>
      rw [perform_eq env hpoison, settle_asked] at h
      rw [perform_eq env hpoison, perform_eq env hpoison, op.course_congr env h]

/-! ### Runs -/

/-- A step does not depend on the context but for the response to one request, and that is a valid
one. -/
theorem requests_valid (env : Scale.Environment) (caller : Identifier)
    (earlier : List (Operation × κ)) (op : Operation) (context : κ) :
    let c := (Connection.start caller).after env earlier
    let t := c.perform env op context
    (∀ other : κ,
      (∀ r, t.asked = some r → Responder.respond other r = Responder.respond context r) →
      c.perform env op other = t) ∧
    ∀ (origin : Origin) m call, origin.call = .ok call → op = .submit m (.call call) →
      (call.needsValue = true → t.asked = none) ∧
      ∀ r, t.asked = some r → r.InBounds ∧ Sent caller origin.given m call r := by
  intro c t
  refine ⟨fun other => Connection.perform_congr env op, ?_⟩
  rintro origin m call horigin rfl
  have hcaller : c.caller = caller := Connection.after_caller env earlier
  have hsent : ∀ r, t.asked = some r → Sent caller origin.given m call r := fun r hasked =>
    sent_of_request (Origin.holds horigin) (hcaller ▸ Connection.request_of_asked hasked)
  refine ⟨fun hneeds => ?_, fun r hasked => ⟨r.inBounds, hsent r hasked⟩⟩
  cases hasked : t.asked with
  | none => rfl
  | some r => cases hneeds.symm.trans (hsent r hasked).needsValue

/-- A payable message with an amount, to be run without effect. -/
def paidProbe : Origin where
  className := "ExecCallNeedsValue"
  arguments := ⟨[("account_id", .accountId nobody), ("data", .bytes [0, 0, 0, 1])],
    some (some .bool), none, ⟨"Sample", none⟩⟩
  changes := [.value (.int 5), .asRead]

theorem paidProbe_sent :
    let call : Call := .read ⟨nobody, .bytes [0, 0, 0, 1], some .bool, ⟨5, by decide⟩⟩
    let r : Request := .call nobody nobody (.bytes [0, 0, 0, 1]) ⟨5, by decide⟩ true
    paidProbe.call = .ok call ∧
      ((Connection.start nobody).perform .empty (.submit .read (.call call)) done).asked = some r ∧
      r.InBounds ∧ Sent nobody paidProbe.given .read call r := by
  intro call r
  exact ⟨rfl, rfl,
    ((requests_valid .empty nobody [] (.submit .read (.call call)) done).2 paidProbe .read call
      rfl rfl).2 r rfl⟩

end InkBindings.Sandbox
