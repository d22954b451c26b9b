import InkBindings.Proofs.Sandbox.Poisoning

/-!
What is recorded. A step begins a further block exactly when an answer was accepted, and what goes
wrong after that leaves the block behind: its height cannot be written, the events of the answer
cannot be gone through or counted, or its account is none.
-/

namespace InkBindings.Sandbox

open Contract (Built Call CallError Event Instance Reply)

/-- The block height and the table of transactions. -/
def Connection.log (c : Connection) : Nat × List (Bytes × List Event) :=
  (c.height, c.transactions)

variable {κ : Type} [Responder κ] {c : Connection}

/-- The answer to an operation, if one is given and accepted. -/
def Operation.accepted? (c : Connection) (op : Operation) (context : κ) : Option Acceptance :=
  match c.poison, op with
  | none, .submit m (.call call) =>
    match m.check call, m.request c.caller call with
    | .ok _, .ok r =>
      match Responder.respond context r with
      | .ok a => m.accepted? call a
      | .error _ => none
    | _, _ => none
  | _, _ => none

/-- What is accepted and can be recorded and returned as well. -/
structure Acceptance.Sound (accepted : Acceptance) (c : Connection) : Prop where
  height : c.height + 1 < heightBound
  emission : accepted.emission.failure? = none
  account : ∀ v, accepted.account = some v → ∃ id, IdentifierKind.account.read v = .ok id

theorem settle_log {α : Type} (course : Course (Except Failure α)) :
    (settle c course).connection.log = (left (course.plan.run c)).log := by
  rw [settle]
  cases course.plan.run c with
  | ok result next => rfl
  | error trouble next => cases trouble <;> rfl

/-! ### Accepted answers -/

def Returned.tx? : Returned → Option TxInfo
  | .transaction tx | .deployment _ tx => some tx
  | .value _ | .instance _ | .events _ => none

/-- The answers that a method accepts, each with what comes of it. -/
inductive Accepts (call : Call) : Method → Answer → Acceptance → Prop
  | exec {o : Outcome} (reverted : o.reverted = false) :
      Accepts call .exec (.outcome o) ⟨o.events, none⟩
  | deploy {m : Method} {o : Outcome} {account : Value} (deploys : m.deploys)
      (reverted : o.reverted = false) (account_eq : o.account = some account) :
      Accepts call m (.outcome o) ⟨o.events, some account⟩
  | upload : Accepts call .upload (.bytes (Connection.expectedHash call)) ⟨.events [], none⟩

theorem Method.accepts_of_accepted {m : Method} {call : Call} {a : Answer} {accepted : Acceptance}
    (h : m.accepted? call a = some accepted) : Accepts call m a accepted := by
  cases m with
  | read => cases h
  | upload =>
      cases a with
      | outcome o => cases h
      | bytes hash =>
          obtain ⟨rfl, heq⟩ := Option.ite_none_right_eq_some.mp h
          cases heq
          exact .upload
  | exec =>
      cases a with
      | bytes b => cases h
      | outcome o =>
          obtain ⟨hreverted, heq⟩ := Option.ite_none_left_eq_some.mp h
          cases heq
          exact .exec (Bool.eq_false_iff.mpr hreverted)
  | instantiate | instantiateTx =>
      cases a with
      | bytes b => cases h
      | outcome o =>
          obtain ⟨hreverted, hmap⟩ := Option.ite_none_left_eq_some.mp h
          obtain ⟨account, haccount, rfl⟩ := Option.map_eq_some_iff.mp hmap
          exact .deploy trivial (Bool.eq_false_iff.mpr hreverted) haccount

/-- The events of an answer. An upload has none. -/
def Answer.emission : Answer → Emission
  | .outcome o => o.events
  | .bytes _ => .events []

theorem Method.emission_of_accepted {m : Method} {call : Call} {a : Answer}
    {accepted : Acceptance} (h : m.accepted? call a = some accepted) :
    accepted.emission = a.emission := by
  cases accepts_of_accepted h <;> rfl

/-- Only an answer to the request of a constructor names an account. -/
theorem Method.call_of_account {m : Method} {caller : Identifier} {call : Call} {r : Request}
    {a : Answer} {accepted : Acceptance} {v : Value} (hrequest : m.request caller call = .ok r)
    (haccepted : m.accepted? call a = some accepted) (haccount : accepted.account = some v) :
    ∃ i, call = .instantiate i := by
  cases accepts_of_accepted haccepted with
  | exec | upload => cases haccount
  | deploy hdeploys =>
      cases m with
      | read | exec | upload => cases hdeploys
      | instantiate | instantiateTx =>
          cases call with
          | instantiate i => exact ⟨i, rfl⟩
          | payableInstantiate | exec | payableExec | read | upload => cases hrequest

theorem Connection.handle_instantiate (i : Contract.InstantiateCall) (v : Value) :
    handle (.instantiate i) v =
      match IdentifierKind.account.read v with
      | .ok id => .ok ⟨i.contract, id⟩
      | .error e => .error (.call (.account e)) := by
  simp only [handle, deployment?, Instance.make]
  cases IdentifierKind.account.read v <;> rfl

/-- An answer that was recorded is returned if what it names is an account. -/
theorem Method.conclude_ok_iff {m : Method} {caller : Identifier} {call : Call} {r : Request}
    {a : Answer} {accepted : Acceptance} (hrequest : m.request caller call = .ok r)
    (haccepted : m.accepted? call a = some accepted) (tx : TxInfo) :
    (∃ returned, m.conclude call accepted tx = .ok returned) ↔
      ∀ v, accepted.account = some v → ∃ id, IdentifierKind.account.read v = .ok id := by
  cases haccount : accepted.account with
  | none =>
      rw [conclude, haccount]
      exact ⟨fun _ _ => nofun, fun _ => ⟨_, rfl⟩⟩
  | some v =>
      obtain ⟨i, rfl⟩ := call_of_account hrequest haccepted haccount
      rw [conclude, haccount]
      simp only [Connection.handle_instantiate, Option.some.injEq, forall_eq']
      cases IdentifierKind.account.read v with
      | error e => exact ⟨nofun, nofun⟩
      | ok id => exact ⟨fun _ => ⟨id, rfl⟩, fun _ => ⟨_, rfl⟩⟩

/-- The transaction that is returned is the one that was recorded. -/
theorem Method.tx_of_conclude {m : Method} {call : Call} {accepted : Acceptance}
    {tx other : TxInfo} {returned : Returned} (h : m.conclude call accepted tx = .ok returned)
    (htx : returned.tx? = some other) : other = tx := by
  rw [conclude] at h
  cases haccount : accepted.account with
  | none =>
      rw [haccount] at h
      cases h
      exact (Option.some.inj htx).symm
  | some v =>
      rw [haccount] at h
      cases hhandle : Connection.handle call v with
      | error e =>
          simp only [hhandle] at h
          cases h
      | ok i =>
          simp only [hhandle] at h
          cases h
          split at htx
          · cases htx
          · exact (Option.some.inj htx).symm

/-- What comes of an answer once it has been recorded. -/
structure Acceptance.Concludes (accepted : Acceptance)
    (conclude : TxInfo → Except Failure Returned) : Prop where
  ok_iff : ∀ tx, (∃ returned, conclude tx = .ok returned) ↔
    ∀ v, accepted.account = some v → ∃ id, IdentifierKind.account.read v = .ok id
  tx : ∀ {tx other returned}, conclude tx = .ok returned → returned.tx? = some other → other = tx

theorem Operation.course_of_accepted (env : Scale.Environment) {op : Operation} {context : κ}
    {accepted : Acceptance} (h : op.accepted? c context = some accepted) :
    c.poison = none ∧ ∃ conclude, accepted.Concludes conclude ∧
      (op.course env c context).plan = .record accepted.emission conclude := by
  unfold accepted? at h
  split at h
  · next m call hpoison =>
      split at h
      · next hcheck hrequest =>
          split at h
          · next a hresponse =>
              refine ⟨hpoison, m.conclude call accepted,
                ⟨Method.conclude_ok_iff hrequest h, Method.tx_of_conclude⟩, ?_⟩
              simp only [course, hcheck, askCourse, hrequest, hresponse, Plan.upon]
              exact Method.plan_of_accepted env h
          · cases h
      · cases h
  · cases h

/-- What is accepted is an answer to what was asked. -/
theorem Connection.asked_of_accepted (env : Scale.Environment) {op : Operation} {context : κ}
    {accepted : Acceptance} (h : op.accepted? c context = some accepted) :
    ∃ r a, (c.perform env op context).asked = some r ∧ Responder.respond context r = .ok a ∧
      accepted.emission = a.emission := by
  unfold Operation.accepted? at h
  split at h
  · next m call hpoison =>
      split at h
      · next hcheck hrequest =>
          split at h
          · next a hresponse =>
              refine ⟨_, a, ?_, hresponse, Method.emission_of_accepted h⟩
              rw [perform_eq env hpoison, settle_asked]
              simp only [Operation.course, hcheck, askCourse, hrequest]
          · cases h
      · cases h
  · cases h

/-- What is not accepted leaves the log. Only a read or a look at the log returns then. -/
theorem Operation.course_of_not_accepted (env : Scale.Environment) {op : Operation} {context : κ}
    (hpoison : c.poison = none) (h : op.accepted? c context = none) :
    (∃ result, (op.course env c context).plan = .answer result ∧
      ∀ m given, op = .submit m given → m ≠ .read → ∃ failure, result = .error failure) ∨
    ∃ trouble, (op.course env c context).plan = .decline trouble := by
  cases op with
  | events txHash => exact .inl ⟨_, rfl, nofun⟩
  | submit m given =>
      cases given with
      | value | handle => exact .inr ⟨_, rfl⟩
      | call call =>
          simp only [accepted?, hpoison] at h
          rw [course]
          cases hcheck : m.check call with
          | error e => exact .inl ⟨_, rfl, fun _ _ _ _ => ⟨_, rfl⟩⟩
          | ok =>
              cases hrequest : m.request c.caller call with
              | error e => exact .inr ⟨_, by rw [askCourse]⟩
              | ok r =>
                  simp only [hcheck, hrequest] at h
                  simp only [askCourse, Plan.upon]
                  cases hresponse : Responder.respond context r with
                  | error f => exact .inr ⟨_, rfl⟩
                  | ok a =>
                      simp only [hresponse] at h
                      by_cases hread : m = .read
                      · cases hread
                        refine .inl ⟨_, rfl, ?_⟩
                        rintro _ _ heq hne
                        cases heq
                        exact absurd rfl hne
                      · exact .inr (Method.plan_of_not_accepted env hread h)

/-! ### Steps -/

theorem settle_ok {α : Type} {course : Course (Except Failure α)} {a : α}
    (h : (settle c course).result = .ok a) :
    course.plan.run c = .ok (.ok a) (settle c course).connection := by
  rw [settle] at h ⊢
  cases hrun : course.plan.run c with
  | ok result next =>
      rw [hrun] at h
      exact congrArg (EStateM.Result.ok · next) h
  | error trouble next =>
      rw [hrun] at h
      cases trouble <;> cases h

theorem Plan.run_record_ok {α : Type} {emission : Emission} {tell : TxInfo → α} {a : α}
    {next : Connection} (h : (Plan.record emission tell).run c = .ok a next) :
    c.height + 1 < heightBound ∧ ∃ es, emission = .events es ∧
      a = tell (txAt (c.height + 1)) ∧ next = c.recorded es := by
  rw [run] at h
  by_cases hheight : heightBound ≤ c.height + 1
  · simp only [Connection.fill, if_pos hheight] at h
    cases h
  · refine ⟨Nat.not_le.mp hheight, ?_⟩
    cases emission with
    | events es =>
        simp only [Connection.fill, if_neg hheight] at h
        cases h
        exact ⟨es, rfl, rfl, rfl⟩
    | failure | uncounted =>
        simp only [Connection.fill, if_neg hheight] at h
        cases h

theorem Plan.height_run_record {α : Type} (emission : Emission) (tell : TxInfo → α) :
    (left ((Plan.record emission tell).run c)).height = c.height + 1 := by
  rw [run]
  by_cases hheight : heightBound ≤ c.height + 1
  · simp only [Connection.fill, if_pos hheight]
    rfl
  · cases emission <;> simp only [Connection.fill, if_neg hheight] <;> rfl

/-- What is accepted is returned if and only if it is sound. -/
theorem settle_record {course : Course (Except Failure Returned)} {accepted : Acceptance}
    {conclude : TxInfo → Except Failure Returned}
    (hconcludes : accepted.Concludes conclude)
    (hplan : course.plan = .record accepted.emission conclude) :
    (∃ returned, (settle c course).result = .ok returned) ↔ accepted.Sound c := by
  constructor
  · rintro ⟨returned, hok⟩
    have hrun := settle_ok hok
    rw [hplan] at hrun
    obtain ⟨hheight, es, hemission, htell, -⟩ := Plan.run_record_ok hrun
    exact ⟨hheight, by rw [hemission]; rfl, (hconcludes.ok_iff _).mp ⟨returned, htell.symm⟩⟩
  · intro hsound
    obtain ⟨returned, hreturned⟩ := (hconcludes.ok_iff (txAt (c.height + 1))).mpr hsound.account
    refine ⟨returned, ?_⟩
    rw [settle, hplan]
    cases hemission : accepted.emission with
    | failure | uncounted =>
        have hread := hsound.emission
        rw [hemission] at hread
        cases hread
    | events es =>
        simp only [Plan.run, Connection.fill, if_neg (Nat.not_le.mpr hsound.height), hreturned]

/-! ### Blocks -/

/-- Every transaction is that of a block. -/
def Connection.Logged (c : Connection) : Prop :=
  ∀ entry ∈ c.transactions, ∃ k, 0 < k ∧ k ≤ c.height ∧ entry.1 = (txAt k).txHash

theorem Connection.start_logged (caller : Identifier) : (start caller).Logged := by
  intro entry hentry
  cases hentry

theorem mem_enter {txHash : Bytes} {es : List Event} {log : List (Bytes × List Event)}
    {entry : Bytes × List Event} (h : entry ∈ enter txHash es log) :
    entry.1 = txHash ∨ entry ∈ log := by
  induction log with
  | nil =>
      obtain rfl := List.mem_singleton.mp h
      exact .inl rfl
  | cons first rest ih =>
      rw [enter] at h
      split at h
      · obtain rfl | hrest := List.mem_cons.mp h
        · exact .inl rfl
        · exact .inr (List.mem_cons_of_mem first hrest)
      · obtain rfl | hrest := List.mem_cons.mp h
        · exact .inr List.mem_cons_self
        · exact (ih hrest).imp_right (List.mem_cons_of_mem first)

theorem Connection.Grows.logged {next : Connection} (h : c.Grows next) (hlogged : c.Logged) :
    next.Logged := by
  cases h with
  | kept => exact hlogged
  | begun =>
      intro entry hentry
      obtain ⟨k, hpos, hle, hhash⟩ := hlogged entry hentry
      exact ⟨k, hpos, Nat.le_succ_of_le hle, hhash⟩
  | recorded es =>
      intro entry hentry
      obtain hnew | hold := mem_enter hentry
      · exact ⟨c.height + 1, Nat.succ_pos _, Nat.le_refl _, hnew⟩
      · obtain ⟨k, hpos, hle, hhash⟩ := hlogged entry hold
        exact ⟨k, hpos, Nat.le_succ_of_le hle, hhash⟩

theorem Connection.perform_logged (env : Scale.Environment) (hlogged : c.Logged) (op : Operation)
    (context : κ) : (c.perform env op context).connection.Logged := by
  obtain ⟨next, hgrows, hnext | ⟨reason, hnext⟩⟩ := perform_grows (c := c) env op context
  · rw [hnext]
    exact hgrows.logged hlogged
  · rw [hnext]
    exact hgrows.logged hlogged

theorem Connection.after_logged (env : Scale.Environment) (hlogged : c.Logged)
    (steps : List (Operation × κ)) : (c.after env steps).Logged := by
  induction steps generalizing c with
  | nil => exact hlogged
  | cons step rest ih => exact ih (perform_logged env hlogged step.1 step.2)

/-! ### Runs -/

/-- What a turn leaves that records these events and returns: a further block with one transaction,
which is told from then on, while all others are told as before. -/
structure Records (c : Connection) (t : Turn Returned) (returned : Returned) (es : List Event) :
    Prop where
  height : t.connection.height = c.height + 1
  transactions : t.connection.transactions =
    enter (txAt (c.height + 1)).txHash es c.transactions
  /-- The transaction is a new one, unless its hash is that of an earlier one. -/
  new : (∀ k, 0 < k → k ≤ c.height → (txAt k).txHash ≠ (txAt (c.height + 1)).txHash) →
    t.connection.transactions = c.transactions ++ [((txAt (c.height + 1)).txHash, es)]
  told : t.connection.answerEvents (txAt (c.height + 1)).txHash = .ok (.events es)
  others : ∀ txHash, txHash ≠ (txAt (c.height + 1)).txHash →
    t.connection.answerEvents txHash = c.answerEvents txHash
  tx : ∀ tx, returned.tx? = some tx → tx = txAt (c.height + 1)

/-- A step that accepts no answer leaves the sandbox as it was, or poisons it. -/
theorem Connection.perform_of_not_accepted (env : Scale.Environment) {op : Operation} {context : κ}
    (h : op.accepted? c context = none) :
    (c.perform env op context).connection = c ∨
      c.poison = none ∧ ∃ reason, (c.perform env op context).connection = c.poisoned reason := by
  cases hpoison : c.poison with
  | some reason => exact .inl (by rw [perform_poisoned env hpoison])
  | none =>
      rw [perform_eq env hpoison, settle]
      obtain ⟨result, hplan, -⟩ | ⟨trouble, hplan⟩ :=
        Operation.course_of_not_accepted env hpoison h
      · rw [hplan]
        exact .inl rfl
      · rw [hplan]
        cases trouble with
        | expected e => exact .inl rfl
        | unexpected kind text => exact .inr ⟨rfl, _, rfl⟩

/-- A step that fails leaves the log as it was if and only if no answer was accepted that is not
sound. -/
theorem Connection.perform_log_iff (env : Scale.Environment) (op : Operation) (context : κ) :
    (∀ failure, (c.perform env op context).result = .error failure →
      (c.perform env op context).connection.log = c.log) ↔
    ∀ accepted, op.accepted? c context = some accepted → accepted.Sound c := by
  cases haccepted : op.accepted? c context with
  | none =>
      refine ⟨fun _ => nofun, fun _ failure _ => ?_⟩
      obtain hkept | ⟨-, reason, hpoisoned⟩ := perform_of_not_accepted env haccepted
      · rw [hkept]
      · rw [hpoisoned]
        rfl
  | some accepted =>
      obtain ⟨hpoison, conclude, hconcludes, hplan⟩ := op.course_of_accepted env haccepted
      rw [perform_eq env hpoison]
      simp only [Option.some.injEq, forall_eq']
      constructor
      · intro hlog
        refine (settle_record hconcludes hplan).mp ?_
        cases hresult : (settle c (op.course env c context)).result with
        | ok returned => exact ⟨returned, rfl⟩
        | error failure =>
            have hheight := congrArg Prod.fst (hlog failure hresult)
            rw [settle_log, hplan] at hheight
            exact absurd ((Plan.height_run_record _ _).symm.trans hheight) (Nat.succ_ne_self _)
      · intro hsound failure hfailure
        obtain ⟨returned, hok⟩ := (settle_record hconcludes hplan).mpr hsound
        cases hok.symm.trans hfailure

theorem records_recorded (hlogged : c.Logged) {t : Turn Returned} {returned : Returned}
    {es : List Event} (hnext : t.connection = c.recorded es)
    (htx : ∀ tx, returned.tx? = some tx → tx = txAt (c.height + 1)) :
    Records c t returned es where
  height := by rw [hnext]; rfl
  transactions := by rw [hnext]; rfl
  new hfresh := by
    rw [hnext]
    refine enter_of_forall_ne (fun entry hentry => ?_) es
    obtain ⟨k, hpos, hle, hhash⟩ := hlogged entry hentry
    exact hhash ▸ hfresh k hpos hle
  told := by
    rw [hnext, Connection.answerEvents, Connection.events]
    simp only [Connection.recorded, find_enter_self]
  others txHash hne := by
    rw [hnext]
    exact (Connection.Grows.recorded es).answerEvents hne
  tx := htx

/-- No request returns when nothing was accepted, but for one to read. -/
theorem Connection.result_of_not_accepted (env : Scale.Environment) {m : Method}
    (hread : m ≠ .read) {given : Reply} {context : κ}
    (h : (Operation.submit m given).accepted? c context = none) :
    ∃ failure, (c.perform env (.submit m given) context).result = .error failure := by
  cases hpoison : c.poison with
  | some reason =>
      rw [perform_poisoned env hpoison]
      cases given with
      | value | handle => exact ⟨_, rfl⟩
      | call call =>
          simp only [Operation.whenPoisoned]
          cases m.check call <;> exact ⟨_, rfl⟩
  | none =>
      rw [perform_eq env hpoison, settle]
      obtain ⟨result, hplan, hresult⟩ | ⟨trouble, hplan⟩ :=
        Operation.course_of_not_accepted env hpoison h
      · obtain ⟨failure, rfl⟩ := hresult m given rfl hread
        rw [hplan]
        exact ⟨failure, rfl⟩
      · rw [hplan]
        cases trouble <;> exact ⟨_, rfl⟩

/-- A step that returns has recorded what was accepted. -/
theorem Connection.perform_records (env : Scale.Environment) (hlogged : c.Logged) {m : Method}
    (hread : m ≠ .read) {given : Reply} {context : κ} {returned : Returned}
    (hreturned : (c.perform env (.submit m given) context).result = .ok returned) :
    ∃ accepted es, (Operation.submit m given).accepted? c context = some accepted ∧
      accepted.emission = .events es ∧
      Records c (c.perform env (.submit m given) context) returned es := by
  cases haccepted : (Operation.submit m given).accepted? c context with
  | none =>
      obtain ⟨failure, hfailure⟩ := result_of_not_accepted env hread haccepted
      cases hreturned.symm.trans hfailure
  | some accepted =>
      obtain ⟨hpoison, conclude, hconcludes, hplan⟩ := Operation.course_of_accepted env haccepted
      rw [perform_eq env hpoison] at hreturned ⊢
      have hrun := settle_ok hreturned
      rw [hplan] at hrun
      obtain ⟨-, es, hemission, htell, hnext⟩ := Plan.run_record_ok hrun
      exact ⟨accepted, es, rfl, hemission,
        records_recorded hlogged hnext fun tx => hconcludes.tx htell.symm⟩

theorem recordsNothing_iff (env : Scale.Environment) (caller : Identifier)
    (earlier : List (Operation × κ)) (op : Operation) (context : κ) :
    let c := (Connection.start caller).after env earlier
    let t := c.perform env op context
    ((∀ failure, t.result = .error failure → t.connection.log = c.log) ↔
      ∀ accepted, op.accepted? c context = some accepted → accepted.Sound c) ∧
    ∀ m given returned, op = .submit m given → m ≠ .read → t.result = .ok returned →
      ∃ accepted es, op.accepted? c context = some accepted ∧ accepted.emission = .events es ∧
        Records c t returned es := by
  intro c t
  have hlogged : c.Logged := Connection.after_logged env (Connection.start_logged caller) earlier
  refine ⟨Connection.perform_log_iff env op context, ?_⟩
  rintro m given returned rfl hread hreturned
  exact Connection.perform_records env hlogged hread hreturned

theorem ping_records :
    Records (.start nobody) ((Connection.start nobody).perform .empty ping done)
      (.transaction (txAt 1)) [] := by
  obtain ⟨accepted, es, haccepted, hemission, hrecords⟩ :=
    (recordsNothing_iff .empty nobody [] ping done).2 _ _ (.transaction (txAt 1)) rfl nofun rfl
  cases haccepted
  cases hemission
  exact hrecords

/-- The account that a constructor came to is looked at too late. -/
theorem not_recordsNothing_stray :
    let c := Connection.start nobody
    let t := c.perform .empty deploy stray
    t.result = .error (.call (.account (.wrongSize .account 1))) ∧
      t.connection.height = c.height + 1 ∧
      t.connection.transactions = [((txAt 1).txHash, [])] ∧ c.transactions = [] :=
  ⟨rfl, rfl, rfl, rfl⟩

end InkBindings.Sandbox
