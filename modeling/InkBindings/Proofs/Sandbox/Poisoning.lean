import InkBindings.Proofs.Sandbox.Sessions

/-!
A sandbox that is poisoned stays so. Nothing asks its context again, every session is refused for
the reason of the first one that broke down, and the transactions are told as before. What the
library itself raises in a session does not poison, and nothing does that goes wrong outside of one.
-/

namespace InkBindings.Sandbox

open Contract (Built Call CallError Event Instance Reply)

/-- The result of an operation on a sandbox that is poisoned for this reason. -/
def Operation.whenPoisoned (c : Connection) (reason : String) : Operation → Except Failure Returned
  | .submit m (.call call) =>
    match m.check call with
    | .error e => .error (.call e)
    | .ok _ => .error (.runtime (.poisoned reason))
  | .submit _ _ => .error (.runtime (.poisoned reason))
  | .events txHash => c.answerEvents txHash

variable {κ : Type} [Responder κ] {c : Connection} {reason : String}

namespace Connection

theorem submit_poisoned (env : Scale.Environment) (h : c.poison = some reason) (m : Method)
    (call : Call) (hcheck : m.check call = .ok ()) (context : κ) :
    c.submit env m call context = ⟨.error (.runtime (.poisoned reason)), none, c⟩ := by
  cases m with
  | read | upload =>
      rw [submit]
      simp only [read, upload, session_poisoned h]
      rfl
  | exec | instantiate | instantiateTx =>
      have hvalue : call.requireValue = .ok () := hcheck
      rw [submit]
      simp only [exec, instantiate, instantiateTx, hvalue, session_poisoned h]
      rfl

/-- One step on a poisoned sandbox. -/
theorem perform_poisoned (env : Scale.Environment) (h : c.poison = some reason) (op : Operation)
    (context : κ) : c.perform env op context = ⟨op.whenPoisoned c reason, none, c⟩ := by
  cases op with
  | events txHash => rfl
  | submit m given =>
      cases given with
      | value | handle =>
          rw [perform, misuse, session_poisoned h]
          rfl
          all_goals
            intro _ hgiven
            cases hgiven
      | call call =>
          rw [perform, Operation.whenPoisoned]
          cases hcheck : m.check call with
          | ok => exact submit_poisoned env h m call hcheck context
          | error e => exact submit_refused env m call hcheck context

/-- Every step leaves the log as it was or with a further block, and may poison the sandbox. -/
theorem perform_grows (env : Scale.Environment) (op : Operation) (context : κ) :
    ∃ next, c.Grows next ∧
      ((c.perform env op context).connection = next ∨
        ∃ reason, (c.perform env op context).connection = next.poisoned reason) := by
  cases hpoison : c.poison with
  | some reason => exact ⟨c, .kept, .inl (by rw [perform_poisoned env hpoison])⟩
  | none =>
      rw [perform_eq env hpoison]
      obtain ⟨next, hgrows, hnext⟩ := grows_settle (c := c) (op.course env c context)
      exact ⟨next, hgrows, hnext.imp_right fun ⟨reason, hpoisoned, _⟩ => ⟨reason, hpoisoned⟩⟩

theorem turns_poisoned (env : Scale.Environment) (h : c.poison = some reason)
    (steps : List (Operation × κ)) :
    c.turns env steps = steps.map fun step => ⟨step.1.whenPoisoned c reason, none, c⟩ := by
  induction steps with
  | nil => rfl
  | cons step rest ih => rw [turns, perform_poisoned env h, ih, List.map_cons]

theorem after_poisoned (env : Scale.Environment) (h : c.poison = some reason)
    (steps : List (Operation × κ)) : c.after env steps = c := by
  induction steps with
  | nil => rfl
  | cons step rest ih =>
      rw [after_cons, perform_poisoned env h]
      exact ih

/-- The step that poisons a sandbox says why. -/
theorem result_of_poisons {env : Scale.Environment} {op : Operation} {context : κ}
    (h : c.poison = none) (hpoison : (c.perform env op context).connection.poison = some reason) :
    (c.perform env op context).result = .error (.runtime (.poisoned reason)) := by
  rw [perform_eq env h] at hpoison ⊢
  obtain ⟨next, hgrows, hnext | ⟨other, hother, hresult⟩⟩ :=
    grows_settle (c := c) (op.course env c context)
  · rw [hnext, hgrows.poison, h] at hpoison
    cases hpoison
  · rw [hother] at hpoison
    cases hpoison
    exact hresult

/-- What a step does to the transactions of earlier blocks: it leaves them. -/
theorem perform_answerEvents (env : Scale.Environment) (h : c.poison = none) (op : Operation)
    (context : κ) {txHash : Bytes} (hne : txHash ≠ (txAt (c.height + 1)).txHash) :
    (c.perform env op context).connection.answerEvents txHash = c.answerEvents txHash := by
  rw [perform_eq env h]
  obtain ⟨next, hgrows, hnext | ⟨reason, hnext, -⟩⟩ :=
    grows_settle (c := c) (op.course env c context)
  · rw [hnext]
    exact hgrows.answerEvents hne
  · rw [hnext]
    exact hgrows.answerEvents hne

end Connection

/-! ### What does not poison -/

def Method.deploys : Method → Prop
  | .instantiate | .instantiateTx => True
  | .read | .exec | .upload => False

/-- The errors of the library that a session ends with, by what the context responds. -/
inductive Raises (c : Connection) (call : Call) :
    Method → Except ContextFailure Answer → RuntimeError → Prop
  | refused {m e} : Raises c call m (.error (.refused e)) e
  | callReverted {o : Outcome} : o.reverted = true →
      Raises c call .exec (.ok (.outcome o))
        (.callReverted (Connection.accountBytes call) o.data)
  | deploymentReverted {m : Method} {o : Outcome} : m.deploys → o.reverted = true →
      Raises c call m (.ok (.outcome o)) (.deploymentReverted (Method.codeHash call) o.data)
  | noAccount {m : Method} {o : Outcome} : m.deploys → o.reverted = false → o.account = none →
      Raises c call m (.ok (.outcome o))
        (.dispatch "instantiation produced no account id" .none)
  | hashMismatch {hash : Bytes} : hash ≠ Connection.expectedHash call →
      Raises c call .upload (.ok (.bytes hash))
        (.codeHashMismatch (Connection.expectedHash call) hash)
  | emission {m : Method} {a accepted e} : m.accepted? call a = some accepted →
      accepted.emission.failure? = some (.refused e) → c.height + 1 < heightBound →
      Raises c call m (.ok a) e

theorem Connection.fill_of_refused {emission : Emission} {e : RuntimeError}
    (hfailure : emission.failure? = some (.refused e)) (hheight : c.height + 1 < heightBound) :
    ∃ next, c.fill emission = .error (.expected e) next := by
  simp only [fill, if_neg (Nat.not_le.mpr hheight)]
  cases emission with
  | events es => cases hfailure
  | failure f =>
      cases hfailure
      exact ⟨_, rfl⟩
  | uncounted es f =>
      cases hfailure
      exact ⟨_, rfl⟩

theorem Raises.run_plan (env : Scale.Environment) {call : Call} {m : Method}
    {response : Except ContextFailure Answer} {e : RuntimeError}
    (h : Raises c call m response e) :
    ∃ next, (Plan.upon response (m.plan env call)).run c = .error (.expected e) next := by
  cases h with
  | refused => exact ⟨c, rfl⟩
  | callReverted hreverted =>
      simp only [Plan.upon, Method.plan, execPlan, if_pos hreverted, Plan.map]
      exact ⟨c, rfl⟩
  | deploymentReverted hdeploys hreverted =>
      cases m with
      | read | exec | upload => cases hdeploys
      | instantiate | instantiateTx =>
          simp only [Plan.upon, Method.plan, instantiatePlan, if_pos hreverted, Plan.map]
          exact ⟨c, rfl⟩
  | noAccount hdeploys hreverted haccount =>
      cases m with
      | read | exec | upload => cases hdeploys
      | instantiate | instantiateTx =>
          simp only [Plan.upon, Method.plan, instantiatePlan, hreverted, haccount, Plan.map]
          exact ⟨c, rfl⟩
  | hashMismatch hhash =>
      simp only [Plan.upon, Method.plan, uploadPlan, if_neg hhash, Plan.map]
      exact ⟨c, rfl⟩
  | emission haccepted hfailure hheight =>
      obtain ⟨next, hfill⟩ := Connection.fill_of_refused hfailure hheight
      exact ⟨next, by simp only [Plan.upon, Method.plan_of_accepted env haccepted, Plan.run, hfill]⟩

/-! ### Runs -/

/-- The course of a request that the context was asked. -/
theorem Operation.course_of_asked {env : Scale.Environment} {m : Method} {call : Call}
    {context : κ} {r : Request}
    (hasked : ((Operation.submit m (.call call)).course env c context).asked = some r) :
    (Operation.submit m (.call call)).course env c context =
      ⟨some r, .upon (Responder.respond context r) (m.plan env call)⟩ := by
  rw [course] at hasked ⊢
  cases hcheck : m.check call with
  | error e =>
      rw [hcheck] at hasked
      cases hasked
  | ok =>
      rw [hcheck] at hasked
      cases hrequest : m.request c.caller call with
      | error e =>
          rw [hrequest] at hasked
          cases hasked
      | ok request =>
          rw [hrequest] at hasked
          cases hasked
          rfl

/-- What a run of contexts of this kind does to a sandbox that is poisoned for this reason: nothing.
No step asks its context, and each has the result that goes with the reason. -/
structure Stays (κ : Type) [Responder κ] (env : Scale.Environment) (c : Connection)
    (reason : String) : Prop where
  after : ∀ steps : List (Operation × κ), c.after env steps = c
  turns : ∀ steps : List (Operation × κ),
    c.turns env steps = steps.map fun step => ⟨step.1.whenPoisoned c reason, none, c⟩

theorem stays_of_poisoned (env : Scale.Environment) (h : c.poison = some reason) :
    Stays κ env c reason :=
  ⟨Connection.after_poisoned env h, Connection.turns_poisoned env h⟩

/-- What a sandbox is like after the step that poisons it. -/
structure Poisons (κ : Type) [Responder κ] (env : Scale.Environment) (c : Connection)
    (t : Turn Returned) (reason : String) : Prop where
  result : t.result = .error (.runtime (.poisoned reason))
  events : ∀ txHash, txHash ≠ (txAt (c.height + 1)).txHash →
    t.connection.answerEvents txHash = c.answerEvents txHash
  stays : Stays κ env t.connection reason

/-- What a response of the context to a request comes to, as far as it is known not to poison, or
to poison at once. -/
structure Heeds (env : Scale.Environment) (c : Connection) (m : Method) (call : Call)
    (response : Except ContextFailure Answer) (t : Turn Returned) : Prop where
  broken : ∀ kind text, response = .error (.broken kind text) →
    t.connection = c.poisoned (breakdown kind text)
  raises : ∀ e, Raises c call m response e →
    t.result = .error (.runtime e) ∧ t.connection.poison = none
  read : ∀ a, m = .read → response = .ok a →
    t.result = (callFailure do call.decode env (← a.data)).map .value ∧ t.connection = c

theorem heeds_upon (env : Scale.Environment) (h : c.poison = none) (m : Method) (call : Call)
    (response : Except ContextFailure Answer) (r : Request) :
    Heeds env c m call response (settle c ⟨some r, .upon response (m.plan env call)⟩) where
  broken kind text hresponse := by
    rw [hresponse]
    rfl
  raises e hraises := by
    obtain ⟨next, hrun⟩ := hraises.run_plan env
    have hgrows := Plan.grows_run c (.upon response (m.plan env call))
    rw [hrun] at hgrows
    rw [settle, hrun]
    exact ⟨rfl, hgrows.poison.trans h⟩
  read a hread hresponse := by
    rw [hread, hresponse]
    exact ⟨rfl, rfl⟩

/-- A sandbox that a step of a run poisons stays as that step has left it. Only what is no error of
the library poisons it, and only within a session. -/
theorem poisoning_permanent (env : Scale.Environment) (caller : Identifier)
    (earlier : List (Operation × κ)) (op : Operation) (context : κ)
    (h : ((Connection.start caller).after env earlier).poison = none) :
    let c := (Connection.start caller).after env earlier
    let t := c.perform env op context
    (∀ reason, t.connection.poison = some reason → Poisons κ env c t reason) ∧
      ∀ m call r, op = .submit m (.call call) → t.asked = some r →
        Heeds env c m call (Responder.respond context r) t := by
  intro c t
  refine ⟨fun reason hpoison => ?_, ?_⟩
  · exact ⟨Connection.result_of_poisons h hpoison,
      fun txHash => Connection.perform_answerEvents env h op context,
      stays_of_poisoned env hpoison⟩
  · rintro m call r rfl hasked
    have ht : t = settle c ((Operation.submit m (.call call)).course env c context) :=
      Connection.perform_eq env h _ context
    rw [ht, settle_asked] at hasked
    rw [ht, Operation.course_of_asked hasked]
    exact heeds_upon env h m call _ r

theorem crash_poisons :
    let c := (Connection.start nobody).after .empty [(ping, done)]
    let t := c.perform .empty ping crash
    t.connection.poison = some "RuntimeError: boom" ∧
      Poisons Context .empty c t "RuntimeError: boom" :=
  have hpoison : ((((Connection.start nobody).after .empty [(ping, done)]).perform .empty ping
      crash).connection).poison = some "RuntimeError: boom" := rfl
  ⟨hpoison, (poisoning_permanent .empty nobody [(ping, done)] ping crash rfl).1 _ hpoison⟩

end InkBindings.Sandbox
