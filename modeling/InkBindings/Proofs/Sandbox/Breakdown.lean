import InkBindings.Proofs.Sandbox.Recording

/-!
What poisons a sandbox. Its context has broken down, or a request without the parts that a method
takes from it was given to that method: they are missed within the session, where every failure
counts as one of the context. What is checked before the session poisons nothing.
-/

namespace InkBindings.Sandbox

open Contract (Call CallError Reply)

/-- Whether a request has the parts that a method takes from it. -/
def Method.takes : Method → Call → Bool
  | .read, .exec _ | .read, .read _ | .exec, .exec _ | .exec, .read _ => true
  | .upload, .upload _ => true
  | .instantiate, .instantiate _ | .instantiateTx, .instantiate _ => true
  | _, _ => false

/-- An answer of the sort that a request is for. The events of an outcome can be gone through and
counted. -/
def Answer.Fits : Request → Answer → Prop
  | .upload .., .bytes _ => True
  | .instantiate .., .outcome o | .call .., .outcome o => o.events.failure? = none
  | _, _ => False

theorem Method.takes_iff (m : Method) (caller : Identifier) (call : Call) :
    m.takes call = true ↔ ∃ r, m.request caller call = .ok r := by
  cases m <;> cases call <;>
    simp [takes, request, callRequest, instantiateRequest, uploadRequest, Call.noAttribute]

/-! ### Plans -/

/-- A plan whose failure counts as one of the context. -/
def Plan.Breaks {α : Type} (c : Connection) (plan : Plan α) : Prop :=
  ∃ kind text next, plan.run c = .error (.unexpected kind text) next

variable {α : Type} {κ : Type} [Responder κ] {c : Connection}

theorem Plan.not_breaks_answer (a : α) : ¬ (answer a).Breaks c := by
  rintro ⟨kind, text, next, h⟩
  cases h

theorem Plan.breaks_decline (trouble : Trouble) :
    (decline trouble : Plan α).Breaks c ↔ ∃ kind text, trouble = .unexpected kind text := by
  constructor
  · rintro ⟨kind, text, next, h⟩
    cases h
    exact ⟨kind, text, rfl⟩
  · rintro ⟨kind, text, rfl⟩
    exact ⟨kind, text, c, rfl⟩

theorem Plan.not_breaks_expected (e : RuntimeError) :
    ¬ (decline (.expected e) : Plan α).Breaks c := by
  rintro ⟨kind, text, next, h⟩
  cases h

theorem Plan.breaks_record {emission : Emission} (h : emission.failure? = none)
    (tell : TxInfo → α) : (record emission tell).Breaks c ↔ heightBound ≤ c.height + 1 := by
  cases emission with
  | failure | uncounted => cases h
  | events es =>
      by_cases hheight : heightBound ≤ c.height + 1
      · simp only [Breaks, run, Connection.fill, hheight, if_true, iff_true]
        exact ⟨_, _, _, rfl⟩
      · simp only [Breaks, run, Connection.fill, hheight, if_false, iff_false]
        rintro ⟨kind, text, next, hrun⟩
        cases hrun

theorem settle_isPoisoned (h : c.poison = none) (course : Course (Except Failure α)) :
    (settle c course).connection.isPoisoned = true ↔ course.plan.Breaks c := by
  have hgrows := course.plan.grows_run c
  rw [settle, Plan.Breaks]
  cases hrun : course.plan.run c with
  | ok result next =>
      rw [hrun] at hgrows
      have hnext : next.poison = none := hgrows.poison.trans h
      simp [Connection.isPoisoned, hnext]
  | error trouble next =>
      rw [hrun] at hgrows
      have hnext : next.poison = none := hgrows.poison.trans h
      cases trouble with
      | expected e => simp [Connection.isPoisoned, hnext]
      | unexpected kind text => simp [Connection.isPoisoned, Connection.poisoned]

/-- The sort of an answer that fits. -/
theorem Method.sort_of_fits {m : Method} {caller : Identifier} {call : Call} {r : Request}
    {a : Answer} (hrequest : m.request caller call = .ok r) (hfits : a.Fits r) :
    m = .upload ∧ (∃ hash, a = .bytes hash) ∨
      m ≠ .upload ∧ ∃ o, a = .outcome o ∧ o.events.failure? = none := by
  cases r with
  | upload sender wasm =>
      cases a with
      | outcome o => cases hfits
      | bytes hash =>
          refine .inl ⟨?_, hash, rfl⟩
          cases m with
          | upload => rfl
          | read | exec | instantiate | instantiateTx => cases call <;> cases hrequest
  | instantiate | call =>
      cases a with
      | bytes hash => cases hfits
      | outcome o =>
          refine .inr ⟨?_, o, rfl, hfits⟩
          rintro rfl
          cases call <;> cases hrequest

/-- What becomes of an answer that fits: it is accepted with its events, or nothing breaks. -/
theorem Method.plan_of_fits (env : Scale.Environment) {m : Method} {caller : Identifier}
    {call : Call} {r : Request} {a : Answer} (hrequest : m.request caller call = .ok r)
    (hfits : a.Fits r) :
    (∃ accepted, m.accepted? call a = some accepted ∧ accepted.emission.failure? = none) ∨
      m.accepted? call a = none ∧ ¬ (m.plan env call a).Breaks c := by
  obtain ⟨rfl, hash, rfl⟩ | ⟨hupload, o, rfl, hevents⟩ := sort_of_fits hrequest hfits
  · by_cases hhash : hash = Connection.expectedHash call
    · exact .inl ⟨⟨.events [], none⟩, if_pos hhash, rfl⟩
    · refine .inr ⟨if_neg hhash, ?_⟩
      rw [plan, uploadPlan, if_neg hhash]
      exact Plan.not_breaks_expected _
  · cases m with
    | upload => exact absurd rfl hupload
    | read => exact .inr ⟨rfl, Plan.not_breaks_answer _⟩
    | exec =>
        cases hreverted : o.reverted with
        | true =>
            refine .inr ⟨if_pos hreverted, ?_⟩
            rw [plan, execPlan, if_pos hreverted]
            exact Plan.not_breaks_expected _
        | false => exact .inl ⟨⟨o.events, none⟩, by simp [accepted?, hreverted], hevents⟩
    | instantiate | instantiateTx =>
        cases hreverted : o.reverted with
        | true =>
            refine .inr ⟨if_pos hreverted, ?_⟩
            rw [plan, instantiatePlan, if_pos hreverted]
            exact Plan.not_breaks_expected _
        | false =>
            cases haccount : o.account with
            | none =>
                refine .inr ⟨by simp [accepted?, hreverted, haccount], ?_⟩
                simp only [plan, instantiatePlan, hreverted, haccount]
                exact Plan.not_breaks_expected _
            | some account =>
                exact .inl ⟨⟨o.events, some account⟩, by simp [accepted?, hreverted, haccount],
                  hevents⟩

/-- Once the context has responded, a step breaks if the context did, or if there is no room for the
block of an answer that is accepted. -/
theorem Method.breaks_upon_iff (env : Scale.Environment) {m : Method} {caller : Identifier}
    {call : Call} {r : Request} {response : Except ContextFailure Answer}
    (hrequest : m.request caller call = .ok r) (hfits : ∀ a, response = .ok a → a.Fits r) :
    (Plan.upon response (m.plan env call)).Breaks c ↔
      (∃ kind text, response = .error (.broken kind text)) ∨
      heightBound ≤ c.height + 1 ∧
        ∃ a accepted, response = .ok a ∧ m.accepted? call a = some accepted := by
  cases response with
  | error f =>
      cases f with
      | refused e =>
          refine iff_of_false (Plan.not_breaks_expected e) ?_
          rintro (⟨kind, text, hbroken⟩ | ⟨-, a, accepted, hanswer, -⟩)
          · cases hbroken
          · cases hanswer
      | broken kind text =>
          exact iff_of_true ((Plan.breaks_decline _).mpr ⟨kind, text, rfl⟩) (.inl ⟨kind, text, rfl⟩)
  | ok a =>
      obtain ⟨accepted, haccepted, hevents⟩ | ⟨hnone, hquiet⟩ :=
        plan_of_fits (c := c) env hrequest (hfits a rfl)
      · rw [Plan.upon, plan_of_accepted env haccepted, Plan.breaks_record hevents]
        refine ⟨fun hheight => .inr ⟨hheight, a, accepted, rfl, haccepted⟩, ?_⟩
        rintro (⟨kind, text, hbroken⟩ | ⟨hheight, -⟩)
        · cases hbroken
        · exact hheight
      · refine iff_of_false hquiet ?_
        rintro (⟨kind, text, hbroken⟩ | ⟨-, b, accepted, hanswer, haccepted⟩)
        · cases hbroken
        · cases hanswer
          cases hnone.symm.trans haccepted

/-! ### Steps -/

/-- A step takes a part that is not there, from a request that has passed what is checked before. -/
def Operation.Lacks : Operation → Prop
  | .submit m (.call call) => m.check call = .ok () ∧ m.takes call = false
  | .submit _ _ => True
  | .events _ => False

/-- The context does not answer what it is asked in a step, or the answer fits. -/
def AnswerFits (env : Scale.Environment) (c : Connection) (op : Operation) (context : κ) : Prop :=
  ∀ r a, (c.perform env op context).asked = some r → Responder.respond context r = .ok a → a.Fits r

/-- Why a step poisons a sandbox whose context answers as it should. -/
inductive Cause (env : Scale.Environment) (c : Connection) (op : Operation) (context : κ) : Prop
  /-- The context was asked, and broke down. -/
  | context {r : Request} {kind text : String} (asked : (c.perform env op context).asked = some r)
      (broken : Responder.respond context r = .error (.broken kind text))
  | lacks (lacks : op.Lacks)
  /-- The height of the block for an answer that was accepted does not fit. -/
  | height {accepted : Acceptance} (height : heightBound ≤ c.height + 1)
      (accepted : op.accepted? c context = some accepted)

theorem breaks_missingPart (e : CallError) : (Plan.decline (missingPart e) : Plan α).Breaks c := by
  refine (Plan.breaks_decline _).mpr ?_
  cases e <;> exact ⟨_, _, rfl⟩

theorem breaks_missingFrom (part : FirstPart) (given : Reply) :
    (Plan.decline (missingFrom part given) : Plan α).Breaks c := by
  refine (Plan.breaks_decline _).mpr ?_
  cases given <;> exact ⟨_, _, rfl⟩

theorem lacks_of_cause {env : Scale.Environment} {op : Operation} {context : κ}
    (hasked : (c.perform env op context).asked = none) (h : Cause env c op context) : op.Lacks := by
  cases h with
  | context hother => cases hasked.symm.trans hother
  | lacks hlacks => exact hlacks
  | height hheight haccepted =>
      obtain ⟨r, a, hother, -⟩ := Connection.asked_of_accepted env haccepted
      cases hasked.symm.trans hother

/-- A step in which the context is asked. -/
theorem cause_of_request (env : Scale.Environment) (h : c.poison = none) {m : Method}
    {call : Call} {context : κ} {r : Request} (hcheck : m.check call = .ok ())
    (hrequest : m.request c.caller call = .ok r)
    (hfits : AnswerFits env c (.submit m (.call call)) context) :
    ((Operation.submit m (.call call)).course env c context).plan.Breaks c ↔
      Cause env c (.submit m (.call call)) context := by
  have hcourse : (Operation.submit m (.call call)).course env c context =
      ⟨some r, .upon (Responder.respond context r) (m.plan env call)⟩ := by
    simp only [Operation.course, hcheck, askCourse, hrequest]
  have hasked : (c.perform env (.submit m (.call call)) context).asked = some r := by
    rw [Connection.perform_eq env h, settle_asked, hcourse]
  rw [hcourse, Method.breaks_upon_iff env hrequest fun a => hfits r a hasked]
  constructor
  · rintro (⟨kind, text, hbroken⟩ | ⟨hheight, a, accepted, hanswer, hyes⟩)
    · exact .context hasked hbroken
    · have haccepted : (Operation.submit m (.call call)).accepted? c context = some accepted := by
        simp only [Operation.accepted?, h, hcheck, hrequest, hanswer, hyes]
      exact .height hheight haccepted
  · rintro (⟨hother, hbroken⟩ | ⟨-, htakes⟩ | ⟨hheight, hyes⟩)
    · cases hasked.symm.trans hother
      exact .inl ⟨_, _, hbroken⟩
    · cases htakes.symm.trans ((m.takes_iff c.caller call).mpr ⟨r, hrequest⟩)
    · simp only [Operation.accepted?, h, hcheck, hrequest] at hyes
      split at hyes
      · next a hanswer => exact .inr ⟨hheight, a, _, hanswer, hyes⟩
      · cases hyes

/-- One step. -/
theorem Connection.perform_isPoisoned_iff (env : Scale.Environment) (h : c.isPoisoned = false)
    {op : Operation} {context : κ} (hfits : AnswerFits env c op context) :
    (c.perform env op context).connection.isPoisoned = true ↔ Cause env c op context := by
  have hpoison : c.poison = none := Option.not_isSome_iff_eq_none.mp (Bool.eq_false_iff.mp h)
  have hasked := settle_asked (c := c) (op.course env c context)
  rw [← perform_eq env hpoison] at hasked
  rw [perform_eq env hpoison, settle_isPoisoned hpoison]
  cases op with
  | events txHash =>
      exact iff_of_false (Plan.not_breaks_answer _) fun hcause => lacks_of_cause hasked hcause
  | submit m given =>
      cases given with
      | value | handle => exact iff_of_true (breaks_missingFrom _ _) (.lacks trivial)
      | call call =>
          cases hcheck : m.check call with
          | error e =>
              simp only [Operation.course, hcheck] at hasked ⊢
              refine iff_of_false (Plan.not_breaks_answer _) fun hcause => ?_
              cases (lacks_of_cause hasked hcause).1.symm.trans hcheck
          | ok =>
              cases hrequest : m.request c.caller call with
              | ok r => exact cause_of_request env hpoison hcheck hrequest hfits
              | error e =>
                  have htakes : m.takes call = false := by
                    rw [Bool.eq_false_iff, ne_eq, m.takes_iff c.caller, hrequest]
                    rintro ⟨r, hr⟩
                    cases hr
                  simp only [Operation.course, hcheck, askCourse, hrequest]
                  exact iff_of_true (breaks_missingPart e) (.lacks ⟨hcheck, htakes⟩)

/-! ### Runs -/

/-- A step of a run, before which the sandbox is not poisoned. -/
structure SoundAt (env : Scale.Environment) (c : Connection) (steps : List (Operation × κ))
    (earlier : List (Operation × κ)) (op : Operation) (context : κ) : Prop where
  step : ∃ later, steps = earlier ++ (op, context) :: later
  sound : (c.after env earlier).isPoisoned = false

theorem Connection.after_isPoisoned (env : Scale.Environment) (h : c.isPoisoned = true)
    (steps : List (Operation × κ)) : (c.after env steps).isPoisoned = true := by
  obtain ⟨reason, hreason⟩ := Option.isSome_iff_exists.mp h
  rwa [after_poisoned env hreason]

/-- A sandbox that is poisoned at the end of a run has become so in one of its steps. -/
theorem Connection.after_isPoisoned_iff (env : Scale.Environment) (h : c.isPoisoned = false)
    (steps : List (Operation × κ)) :
    (c.after env steps).isPoisoned = true ↔
      ∃ earlier op context, SoundAt env c steps earlier op context ∧
        ((c.after env earlier).perform env op context).connection.isPoisoned = true := by
  constructor
  · intro hpoisoned
    induction steps generalizing c with
    | nil => cases h.symm.trans hpoisoned
    | cons step rest ih =>
        cases hnext : (c.perform env step.1 step.2).connection.isPoisoned with
        | true => exact ⟨[], step.1, step.2, ⟨⟨rest, rfl⟩, h⟩, hnext⟩
        | false =>
            obtain ⟨earlier, op, context, ⟨⟨later, rfl⟩, hsound⟩, hstep⟩ := ih hnext hpoisoned
            exact ⟨step :: earlier, op, context, ⟨⟨later, rfl⟩, hsound⟩, hstep⟩
  · rintro ⟨earlier, op, context, ⟨⟨later, rfl⟩, -⟩, hstep⟩
    rw [after_append]
    exact after_isPoisoned env hstep later

/-- In a run whose context answers as it should, a step poisons the sandbox if and only if there is
cause: the context was asked and broke down, a part of the request is missing which no check asks
for, or there are too many blocks. So it is poisoned in the end if and only if some step had cause. -/
theorem poisons_iff (env : Scale.Environment) (caller : Identifier)
    (steps : List (Operation × κ))
    (hfits : ∀ earlier op context, SoundAt env (.start caller) steps earlier op context →
      AnswerFits env ((Connection.start caller).after env earlier) op context) :
    let c := Connection.start caller
    (∀ earlier op context, SoundAt env c steps earlier op context →
      (((c.after env earlier).perform env op context).connection.isPoisoned = true ↔
        Cause env (c.after env earlier) op context)) ∧
      ((c.after env steps).isPoisoned = true ↔
        ∃ earlier op context, SoundAt env c steps earlier op context ∧
          Cause env (c.after env earlier) op context) := by
  intro c
  have hstep : ∀ earlier op context, SoundAt env c steps earlier op context →
      (((c.after env earlier).perform env op context).connection.isPoisoned = true ↔
        Cause env (c.after env earlier) op context) := fun earlier op context hat =>
    Connection.perform_isPoisoned_iff env hat.sound (hfits earlier op context hat)
  refine ⟨hstep, (Connection.after_isPoisoned_iff env rfl steps).trans ?_⟩
  constructor
  · rintro ⟨earlier, op, context, hat, hpoisoned⟩
    exact ⟨earlier, op, context, hat, (hstep earlier op context hat).mp hpoisoned⟩
  · rintro ⟨earlier, op, context, hat, hcause⟩
    exact ⟨earlier, op, context, hat, (hstep earlier op context hat).mpr hcause⟩

/-- A message that waits for an amount. -/
def unpaid : Call :=
  .payableExec ⟨.accountId nobody, .bytes [0, 0, 0, 1], some .bool⟩

/-- The message that was paid for does no harm, and the dry run of the unpaid one does. -/
theorem unpaid_cause :
    let c := Connection.start nobody
    let probe := Operation.submit .read (.call unpaid)
    ¬ Cause .empty c ping done ∧ Cause .empty (c.after .empty [(ping, done)]) probe done := by
  intro c probe
  have hfits : ∀ earlier op context,
      SoundAt .empty c [(ping, done), (probe, done)] earlier op context →
      AnswerFits .empty (c.after .empty earlier) op context := by
    rintro (_ | ⟨first, _ | ⟨second, rest⟩⟩) op context ⟨⟨later, hsteps⟩, -⟩ r a hasked hanswer
    · cases hsteps
      cases hasked
      cases hanswer
      rfl
    · cases hsteps
      cases hasked
    · cases rest <;> cases hsteps
  have hcause := (poisons_iff .empty nobody [(ping, done), (probe, done)] hfits).1
  refine ⟨fun h => ?_, (hcause [(ping, done)] probe done ⟨⟨[], rfl⟩, rfl⟩).mp rfl⟩
  cases (hcause [] ping done ⟨⟨[(probe, done)], rfl⟩, rfl⟩).mpr h

/-- A dry run of a message that waits for an amount is no failure of the context, which is not even
asked. -/
theorem unpaid_poisons :
    let c := Connection.start nobody
    let t := c.perform .empty (.submit .read (.call unpaid)) done
    unpaid.needsValue = true ∧ c.poison = none ∧ t.asked = none ∧
      t.connection.poison =
        some "AttributeError: 'ExecCallNeedsValue' object has no attribute 'value'" :=
  ⟨rfl, rfl, rfl, rfl⟩

end InkBindings.Sandbox
