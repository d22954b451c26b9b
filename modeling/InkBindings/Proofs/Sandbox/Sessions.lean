import InkBindings.Proofs.Sandbox.Runs

/-!
What an operation does to a sandbox, said once and for all. A step on a sandbox that is not poisoned
asks the context or does not, and has a plan for what to do then: to answer, to decline, or to
record events in a block of its own. On a poisoned sandbox there is nothing to plan.
-/

namespace InkBindings.Sandbox

open Contract (Built Call CallError Event Instance Reply)

/-! ### The log -/

theorem find_enter_self (txHash : Bytes) (es : List Event) (log : List (Bytes × List Event)) :
    (enter txHash es log).find? (·.1 = txHash) = some (txHash, es) := by
  induction log with
  | nil => simp [enter]
  | cons entry rest ih =>
      rw [enter]
      split
      · simp
      · next hne => rw [List.find?_cons_of_neg (by simpa using hne), ih]

theorem find_enter_of_ne {other txHash : Bytes} (hne : other ≠ txHash) (es : List Event)
    (log : List (Bytes × List Event)) :
    (enter txHash es log).find? (·.1 = other) = log.find? (·.1 = other) := by
  have hskip : decide (txHash = other) = false := by simpa using hne.symm
  induction log with
  | nil => simp [enter, hskip]
  | cons entry rest ih =>
      rw [enter]
      split
      · next heq => simp [hskip, heq]
      · rw [List.find?_cons, List.find?_cons, ih]

theorem enter_of_forall_ne {txHash : Bytes} {log : List (Bytes × List Event)}
    (hne : ∀ entry ∈ log, entry.1 ≠ txHash) (es : List Event) :
    enter txHash es log = log ++ [(txHash, es)] := by
  induction log with
  | nil => rfl
  | cons entry rest ih =>
      rw [enter, if_neg (hne entry List.mem_cons_self),
        ih fun other hother => hne other (List.mem_cons_of_mem entry hother), List.cons_append]

namespace Connection

/-- The sandbox with a further block, which is still empty. -/
def begun (c : Connection) : Connection :=
  { c with height := c.height + 1 }

/-- The sandbox with a further block that holds these events. -/
def recorded (c : Connection) (es : List Event) : Connection :=
  { c.begun with transactions := enter (txAt (c.height + 1)).txHash es c.transactions }

def poisoned (c : Connection) (reason : String) : Connection :=
  { c with poison := some reason }

/-- What becomes of a further block: it holds what was emitted, or something goes wrong with it. -/
def fill (c : Connection) (emission : Emission) : EStateM.Result Trouble Connection TxInfo :=
  if heightBound ≤ c.height + 1 then
    .error (.unexpected "OverflowError" "int too big to convert") c.begun
  else
    match emission with
    | .events es => .ok (txAt (c.height + 1)) (c.recorded es)
    | .failure f => .error f.trouble c.begun
    | .uncounted es f => .error f.trouble (c.recorded es)

/-- What can become of the log in one step: nothing, or a further block, which may stay empty. -/
inductive Grows (c : Connection) : Connection → Prop
  | kept : Grows c c
  | begun : Grows c c.begun
  | recorded (es : List Event) : Grows c (c.recorded es)

theorem Grows.poison {c next : Connection} (h : c.Grows next) : next.poison = c.poison := by
  cases h <;> rfl

/-- The transactions of earlier blocks are told as before. -/
theorem Grows.answerEvents {c next : Connection} (h : c.Grows next) {txHash : Bytes}
    (hne : txHash ≠ (txAt (c.height + 1)).txHash) :
    next.answerEvents txHash = c.answerEvents txHash := by
  cases h with
  | kept | begun => rfl
  | recorded es =>
      have hevents : (c.recorded es).events txHash = c.events txHash := by
        simp only [events, Connection.recorded, find_enter_of_ne hne]
      rw [Connection.answerEvents, hevents]
      rfl

end Connection

/-! ### Plans -/

def Emission.failure? : Emission → Option ContextFailure
  | .events _ => none
  | .failure f | .uncounted _ f => some f

/-- What is done about an answer. What is recorded is told by its transaction. -/
inductive Plan (α : Type)
  | answer (a : α)
  | decline (trouble : Trouble)
  | record (emission : Emission) (tell : TxInfo → α)

namespace Plan
variable {α β : Type}

def map (f : α → β) : Plan α → Plan β
  | answer a => answer (f a)
  | decline trouble => decline trouble
  | record emission tell => record emission fun tx => f (tell tx)

def run (c : Connection) : Plan α → EStateM.Result Trouble Connection α
  | answer a => .ok a c
  | decline trouble => .error trouble c
  | record emission tell =>
    match c.fill emission with
    | .ok tx next => .ok (tell tx) next
    | .error trouble next => .error trouble next

theorem map_map {γ : Type} (f : α → β) (g : β → γ) (plan : Plan α) :
    (plan.map f).map g = plan.map (g ∘ f) := by
  cases plan <;> rfl

theorem run_map (f : α → β) (plan : Plan α) (c : Connection) :
    (plan.map f).run c =
      match plan.run c with
      | .ok a next => .ok (f a) next
      | .error trouble next => .error trouble next := by
  cases plan with
  | answer | decline => rfl
  | record emission tell =>
      rw [map, run, run]
      cases c.fill emission <;> rfl

end Plan

/-- The sandbox that an action leaves, also where it fails. -/
def left {α : Type} : EStateM.Result Trouble Connection α → Connection
  | .ok _ next | .error _ next => next

theorem grows_fill (c : Connection) (emission : Emission) : c.Grows (left (c.fill emission)) := by
  unfold Connection.fill
  split
  · exact .begun
  · cases emission with
    | events es => exact .recorded es
    | failure f => exact .begun
    | uncounted es f => exact .recorded es

theorem Plan.grows_run {α : Type} (c : Connection) (plan : Plan α) :
    c.Grows (left (plan.run c)) := by
  cases plan with
  | answer | decline => exact .kept
  | record emission tell =>
      have hfill := grows_fill c emission
      rw [run]
      cases hresult : c.fill emission <;> rwa [hresult] at hfill

def execPlan (account : Bytes) : Answer → Plan TxInfo
  | .outcome o =>
    if o.reverted then .decline (.expected (.callReverted account o.data))
    else .record o.events id
  | .bytes _ => .decline (lacking "bytes" "reverted")

def uploadPlan (expected : Bytes) : Answer → Plan TxInfo
  | .bytes hash =>
    if hash = expected then .record (.events []) id
    else .decline (.expected (.codeHashMismatch expected hash))
  | .outcome _ =>
    .decline (.unexpected "TypeError" "cannot convert 'ExecOutcome' object to bytes")

def instantiatePlan (codeHash : Bytes) : Answer → Plan (Value × TxInfo)
  | .outcome o =>
    if o.reverted then .decline (.expected (.deploymentReverted codeHash o.data))
    else
      match o.account with
      | some account => .record o.events fun tx => (account, tx)
      | none => .decline (.expected (.dispatch "instantiation produced no account id" .none))
  | .bytes _ => .decline (lacking "bytes" "reverted")

@[simp] theorem run_throw {α : Type} (trouble : Trouble) (c : Connection) :
    (throw trouble : Action α).run c = .error trouble c := rfl

@[simp] theorem run_map {α β : Type} (f : α → β) (action : Action α) (c : Connection) :
    (f <$> action).run c =
      match action.run c with
      | .ok a next => .ok (f a) next
      | .error trouble next => .error trouble next := by
  rw [← bind_pure_comp, EStateM.run_bind]
  cases action.run c <;> rfl

theorem run_record (c : Connection) (emission : Emission) :
    (record emission).run c = c.fill emission := by
  by_cases hheight : heightBound ≤ c.height + 1
  · simp [record, Connection.fill, hheight, Connection.begun]
  · cases emission <;>
      simp [record, Connection.fill, Emission.read, Emission.count, hheight, Connection.recorded,
        Connection.begun]

theorem run_plan_record (c : Connection) (emission : Emission) :
    (Plan.record emission id).run c = (record emission).run c := by
  rw [Plan.run, run_record]
  cases c.fill emission <;> rfl

theorem run_answer {α : Type} (c : Connection) (a : α) :
    (pure a : Action α).run c = (Plan.answer a).run c := rfl

theorem run_decline {α : Type} (c : Connection) (trouble : Trouble) :
    (throw trouble : Action α).run c = (Plan.decline trouble : Plan α).run c := rfl

theorem run_finishExec (c : Connection) (account : Bytes) (a : Answer) :
    (Connection.finishExec account a).run c = (execPlan account a).run c := by
  cases a with
  | bytes b => rfl
  | outcome o =>
      by_cases hreverted : o.reverted = true
      · simp [Connection.finishExec, Answer.outcome?, hreverted, execPlan, Plan.run]
      · rw [execPlan, if_neg hreverted, run_plan_record]
        simp [Connection.finishExec, Answer.outcome?, hreverted]

theorem run_finishUpload (c : Connection) (expected : Bytes) (a : Answer) :
    (Connection.finishUpload expected a).run c = (uploadPlan expected a).run c := by
  cases a with
  | outcome o => rfl
  | bytes hash =>
      by_cases hhash : hash = expected
      · rw [uploadPlan, if_pos hhash, run_plan_record]
        simp [Connection.finishUpload, Answer.bytes?, hhash]
      · simp [Connection.finishUpload, Answer.bytes?, hhash, uploadPlan, Plan.run]

theorem run_finishInstantiate (c : Connection) (codeHash : Bytes) (a : Answer) :
    (Connection.finishInstantiate codeHash a).run c = (instantiatePlan codeHash a).run c := by
  cases a with
  | bytes b => rfl
  | outcome o =>
      by_cases hreverted : o.reverted = true
      · simp [Connection.finishInstantiate, Answer.outcome?, hreverted, instantiatePlan, Plan.run]
      · rw [instantiatePlan, if_neg hreverted]
        cases haccount : o.account with
        | none =>
            simp [Connection.finishInstantiate, Answer.outcome?, hreverted, haccount, Plan.run]
        | some account =>
            have htell : (Plan.record o.events fun tx => (account, tx)) =
                (Plan.record o.events id).map fun tx => (account, tx) := rfl
            dsimp only
            rw [htell, Plan.run_map, run_plan_record, ← run_map]
            simp [Connection.finishInstantiate, Answer.outcome?, hreverted, haccount]

/-! ### Turns -/

/-- How a step goes: what is asked of the context, and the plan for what comes of it. -/
structure Course (α : Type) where
  asked : Option Request
  plan : Plan α

def Course.map {α β : Type} (f : α → β) (course : Course α) : Course β :=
  ⟨course.asked, course.plan.map f⟩

theorem Course.map_map {α β γ : Type} (f : α → β) (g : β → γ) (course : Course α) :
    (course.map f).map g = course.map (g ∘ f) := by
  cases course with
  | mk asked plan => exact congrArg _ (Plan.map_map f g plan)

/-- The turn in which a plan is carried out. A plan may end well with a result that is a failure:
that is one which shows outside of the session. -/
def settle {α : Type} (c : Connection) (course : Course (Except Failure α)) : Turn α :=
  match course.plan.run c with
  | .ok result next => ⟨result, course.asked, next⟩
  | .error (.expected e) next => ⟨.error (.runtime e), course.asked, next⟩
  | .error (.unexpected kind text) next =>
    let reason := breakdown kind text
    ⟨.error (.runtime (.poisoned reason)), course.asked, next.poisoned reason⟩

variable {α β : Type} {κ : Type} [Responder κ] {c : Connection}

theorem settle_asked (course : Course (Except Failure α)) :
    (settle c course).asked = course.asked := by
  rw [settle]
  split <;> rfl

/-- Every turn leaves the log as it was or with a further block. -/
theorem grows_settle (course : Course (Except Failure α)) :
    ∃ next, c.Grows next ∧
      ((settle c course).connection = next ∨
        ∃ reason, (settle c course).connection = next.poisoned reason ∧
          (settle c course).result = .error (.runtime (.poisoned reason))) := by
  refine ⟨left (course.plan.run c), course.plan.grows_run c, ?_⟩
  rw [settle]
  cases course.plan.run c with
  | ok result next => exact .inl rfl
  | error trouble next =>
      cases trouble with
      | expected e => exact .inl rfl
      | unexpected kind text => exact .inr ⟨_, rfl, rfl⟩

theorem settle_andThen (course : Course (Except Failure α)) (f : α → Except Failure β) :
    (settle c course).andThen f = settle c (course.map fun result => result.bind f) := by
  rw [settle, settle, Course.map, Plan.run_map]
  cases course.plan.run c with
  | ok result next => rfl
  | error trouble next => cases trouble <;> rfl

namespace Connection

theorem session_poisoned {reason : String} (h : c.poison = some reason) (s : Session α) :
    c.session s = ⟨.error (.runtime (.poisoned reason)), none, c⟩ := by
  rw [session, h]

theorem session_eq_settle (h : c.poison = none) {s : Session α} {plan : Plan α}
    (hrun : s.action.run c = plan.run c) :
    c.session s = settle c ((Course.mk s.asked plan).map .ok) := by
  rw [session, h, settle, Course.map, Plan.run_map, ← hrun]
  cases s.action.run c with
  | ok a next => rfl
  | error trouble next => cases trouble <;> rfl

end Connection

/-- The plan once the context has responded. -/
def Plan.upon (response : Except ContextFailure Answer) (plan : Answer → Plan α) : Plan α :=
  match response with
  | .error f => .decline f.trouble
  | .ok a => plan a

/-- The course of a session with one request. -/
def askCourse (request : Built Request) (context : κ) (plan : Answer → Plan α) : Course α :=
  match request with
  | .error e => ⟨none, .decline (missingPart e)⟩
  | .ok r => ⟨some r, .upon (Responder.respond context r) plan⟩

theorem askCourse_map (f : α → β) (request : Built Request) (context : κ)
    (plan : Answer → Plan α) :
    (askCourse request context plan).map f =
      askCourse request context fun a => (plan a).map f := by
  cases request with
  | error e => rfl
  | ok r =>
      simp only [askCourse, Course.map, Plan.upon]
      cases Responder.respond context r <;> rfl

theorem session_ask (h : c.poison = none) (request : Built Request) (context : κ)
    {finish : Answer → Action α} {plan : Answer → Plan α}
    (hfinish : ∀ a, (finish a).run c = (plan a).run c) :
    c.session (ask request context finish) =
      settle c ((askCourse request context plan).map .ok) := by
  cases request with
  | error e => exact Connection.session_eq_settle h rfl
  | ok r =>
      simp only [ask, askCourse, Plan.upon]
      cases Responder.respond context r with
      | error f => exact Connection.session_eq_settle h rfl
      | ok a => exact Connection.session_eq_settle h (hfinish a)

/-! ### Steps -/

/-- An answer that is accepted: what is recorded for it, and the account that an instance is then
made of. -/
structure Acceptance where
  emission : Emission
  account : Option Value

namespace Method

/-- What a request must pass before there is a session. -/
def check (m : Method) (call : Call) : Built Unit :=
  match m with
  | .exec | .instantiate | .instantiateTx => call.requireValue
  | .read | .upload => .ok ()

def request (m : Method) (caller : Identifier) (call : Call) : Built Request :=
  match m with
  | .read => callRequest caller true call
  | .exec => callRequest caller false call
  | .upload => uploadRequest caller call
  | .instantiate | .instantiateTx => instantiateRequest caller call

def codeHash (call : Call) : Bytes :=
  ((Connection.deployment? call).map (·.1.bytes)).getD []

/-- The plan for an answer of the context. -/
def plan (env : Scale.Environment) (m : Method) (call : Call) (a : Answer) :
    Plan (Except Failure Returned) :=
  match m with
  | .read => .answer ((callFailure do call.decode env (← a.data)).map .value)
  | .exec => (execPlan (Connection.accountBytes call) a).map fun tx => .ok (.transaction tx)
  | .upload => (uploadPlan (Connection.expectedHash call) a).map fun tx => .ok (.transaction tx)
  | .instantiate =>
    (instantiatePlan (codeHash call) a).map fun p =>
      (Connection.handle call p.1).map .instance
  | .instantiateTx =>
    (instantiatePlan (codeHash call) a).map fun p =>
      (Connection.handle call p.1).map fun i => .deployment i p.2

def accepted? (m : Method) (call : Call) (a : Answer) : Option Acceptance :=
  match m, a with
  | .exec, .outcome o => if o.reverted then none else some ⟨o.events, none⟩
  | .instantiate, .outcome o | .instantiateTx, .outcome o =>
    if o.reverted then none else o.account.map fun account => ⟨o.events, some account⟩
  | .upload, .bytes hash =>
    if hash = Connection.expectedHash call then some ⟨.events [], none⟩ else none
  | _, _ => none

/-- What is returned once an answer has been recorded. -/
def conclude (m : Method) (call : Call) (accepted : Acceptance) (tx : TxInfo) :
    Except Failure Returned :=
  match accepted.account with
  | none => .ok (.transaction tx)
  | some account =>
    (Connection.handle call account).map fun i =>
      if m = .instantiate then .instance i else .deployment i tx

theorem plan_of_accepted (env : Scale.Environment) {m : Method} {call : Call} {a : Answer}
    {accepted : Acceptance} (h : m.accepted? call a = some accepted) :
    m.plan env call a = .record accepted.emission (m.conclude call accepted) := by
  cases m with
  | read => cases h
  | upload =>
      cases a with
      | outcome o => cases h
      | bytes hash =>
          obtain ⟨hhash, heq⟩ := Option.ite_none_right_eq_some.mp h
          cases heq
          rw [plan, uploadPlan, if_pos hhash]
          rfl
  | exec =>
      cases a with
      | bytes b => cases h
      | outcome o =>
          obtain ⟨hreverted, heq⟩ := Option.ite_none_left_eq_some.mp h
          cases heq
          rw [plan, execPlan, if_neg hreverted]
          rfl
  | instantiate | instantiateTx =>
      cases a with
      | bytes b => cases h
      | outcome o =>
          obtain ⟨hreverted, hmap⟩ := Option.ite_none_left_eq_some.mp h
          obtain ⟨account, haccount, heq⟩ := Option.map_eq_some_iff.mp hmap
          cases heq
          rw [plan, instantiatePlan, if_neg hreverted, haccount]
          rfl

theorem plan_of_not_accepted (env : Scale.Environment) {m : Method} {call : Call} {a : Answer}
    (hread : m ≠ .read) (h : m.accepted? call a = none) :
    ∃ trouble, m.plan env call a = .decline trouble := by
  cases m with
  | read => exact absurd rfl hread
  | upload =>
      cases a with
      | outcome o => exact ⟨_, rfl⟩
      | bytes hash =>
          have hhash : hash ≠ Connection.expectedHash call := fun heq => by
            simp [accepted?, heq] at h
          rw [plan, uploadPlan, if_neg hhash]
          exact ⟨_, rfl⟩
  | exec =>
      cases a with
      | bytes b => exact ⟨_, rfl⟩
      | outcome o =>
          cases hreverted : o.reverted with
          | false => simp [accepted?, hreverted] at h
          | true =>
              rw [plan, execPlan, if_pos hreverted]
              exact ⟨_, rfl⟩
  | instantiate | instantiateTx =>
      cases a with
      | bytes b => exact ⟨_, rfl⟩
      | outcome o =>
          rw [plan, instantiatePlan]
          cases hreverted : o.reverted with
          | true => exact ⟨_, rfl⟩
          | false =>
              have haccount : o.account = none := by
                simpa [accepted?, hreverted] using h
              rw [haccount]
              exact ⟨_, rfl⟩

end Method

/-- How an operation goes on a sandbox that is not poisoned. -/
def Operation.course (env : Scale.Environment) (c : Connection) (op : Operation) (context : κ) :
    Course (Except Failure Returned) :=
  match op with
  | .events txHash => ⟨none, .answer (c.answerEvents txHash)⟩
  | .submit m (.call call) =>
    match m.check call with
    | .error e => ⟨none, .answer (.error (.call e))⟩
    | .ok _ => askCourse (m.request c.caller call) context (m.plan env call)
  | .submit m given => ⟨none, .decline (missingFrom m.part given)⟩

namespace Connection
variable {κ : Type} [Responder κ] {c : Connection}

theorem exec_eq (h : c.poison = none) {call : Call} (hcheck : call.requireValue = .ok ())
    (context : κ) :
    c.exec call context =
      settle c ((askCourse (callRequest c.caller false call) context
        (execPlan (accountBytes call))).map .ok) := by
  rw [exec, hcheck]
  exact session_ask h _ _ (run_finishExec c _)

theorem instantiateTx_eq (h : c.poison = none) {call : Call}
    (hcheck : call.requireValue = .ok ()) (context : κ) :
    c.instantiateTx call context =
      settle c ((askCourse (instantiateRequest c.caller call) context
        (instantiatePlan (Method.codeHash call))).map fun p =>
          (handle call p.1).map (·, p.2)) := by
  rw [instantiateTx, hcheck]
  dsimp only
  rw [session_ask h _ _ (run_finishInstantiate c _), settle_andThen, Course.map_map]
  rfl

theorem submit_eq (env : Scale.Environment) (h : c.poison = none) (m : Method) (call : Call)
    (hcheck : m.check call = .ok ()) (context : κ) :
    c.submit env m call context =
      settle c (askCourse (m.request c.caller call) context (m.plan env call)) := by
  cases m with
  | read =>
      rw [submit, read, session_ask h _ _ (run_answer c), Turn.map, settle_andThen, settle_andThen,
        Course.map_map, Course.map_map, askCourse_map]
      rfl
  | upload =>
      rw [submit, upload, session_ask h _ _ (run_finishUpload c _), Turn.map, settle_andThen,
        Course.map_map, askCourse_map]
      rfl
  | exec =>
      rw [submit, exec_eq h hcheck, Turn.map, settle_andThen, Course.map_map, askCourse_map]
      rfl
  | instantiate =>
      rw [submit, instantiate, instantiateTx_eq h hcheck, Turn.map, settle_andThen, settle_andThen,
        Course.map_map, Course.map_map, askCourse_map]
      congr 2
      funext a
      congr 1
      funext p
      simp only [Function.comp_def]
      cases handle call p.1 <;> rfl
  | instantiateTx =>
      rw [submit, instantiateTx_eq h hcheck, Turn.map, settle_andThen, Course.map_map,
        askCourse_map]
      congr 2
      funext a
      congr 1
      funext p
      simp only [Function.comp_def]
      cases handle call p.1 <;> rfl

theorem submit_refused (env : Scale.Environment) (m : Method) (call : Call) {e : CallError}
    (hcheck : m.check call = .error e) (context : κ) :
    c.submit env m call context = ⟨.error (.call e), none, c⟩ := by
  cases m with
  | read | upload => cases hcheck
  | exec | instantiate | instantiateTx =>
      have hvalue : call.requireValue = .error e := hcheck
      rw [submit]
      simp only [exec, instantiate, instantiateTx, hvalue]
      rfl

theorem misuse_eq (h : c.poison = none) (part : FirstPart) (given : Reply) :
    (c.misuse part given : Turn Returned) = settle c ⟨none, .decline (missingFrom part given)⟩ :=
  session_eq_settle (s := ⟨none, throw (missingFrom part given)⟩) h (run_decline c _)

/-- What a step does to a sandbox that is not poisoned. -/
theorem perform_eq (env : Scale.Environment) (h : c.poison = none) (op : Operation)
    (context : κ) : c.perform env op context = settle c (op.course env c context) := by
  cases op with
  | events txHash => rfl
  | submit m given =>
      cases given with
      | value | handle => exact misuse_eq h _ _
      | call call =>
          rw [perform, Operation.course]
          cases hcheck : m.check call with
          | ok => exact submit_eq env h m call hcheck context
          | error e => exact submit_refused env m call hcheck context

end Connection
end InkBindings.Sandbox
