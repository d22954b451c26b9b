import InkBindings.Proofs.Sandbox.Recording

/-!
Reads do not interfere. One that does not poison the sandbox leaves it as it was, whatever becomes
of it, so that a run goes on as it would have without it.
-/

namespace InkBindings.Sandbox

open Contract (Reply)

/-- What is left of a list without the places that are omitted. -/
def without {α : Type} (omitted : Nat → Bool) : List α → List α
  | [] => []
  | x :: rest =>
    let later := without (fun i => omitted (i + 1)) rest
    if omitted 0 then later else x :: later

variable {κ : Type} [Responder κ] {c : Connection}

/-- A read that does not poison the sandbox. It may be refused, or fail in any other way. -/
structure QuietRead (env : Scale.Environment) (c : Connection) (op : Operation) (context : κ) :
    Prop where
  read : ∃ given, op = .submit .read given
  quiet : c.isPoisoned = false → (c.perform env op context).connection.isPoisoned = false

theorem accepted_of_read (given : Reply) (context : κ) :
    (Operation.submit .read given).accepted? c context = none := by
  cases given with
  | value | handle => cases hpoison : c.poison <;> simp [Operation.accepted?, hpoison]
  | call call =>
      unfold Operation.accepted?
      split
      · next m call hpoison hop =>
          cases hop
          split
          · split <;> rfl
          · rfl
      · rfl

/-- One step. -/
theorem QuietRead.connection {env : Scale.Environment} {op : Operation} {context : κ}
    (h : QuietRead env c op context) : (c.perform env op context).connection = c := by
  obtain ⟨⟨given, rfl⟩, hquiet⟩ := h
  obtain hkept | ⟨hpoison, reason, hpoisoned⟩ :=
    Connection.perform_of_not_accepted env (accepted_of_read given context)
  · exact hkept
  · have hstill := hquiet (by rw [Connection.isPoisoned, hpoison]; rfl)
    rw [hpoisoned] at hstill
    cases hstill

/-- A run may be taken without the steps that leave the sandbox as it was. -/
theorem run_without (env : Scale.Environment) (steps : List (Operation × κ)) (omitted : Nat → Bool)
    (h : ∀ i op context, omitted i = true → steps[i]? = some (op, context) →
      ((c.after env (steps.take i)).perform env op context).connection =
        c.after env (steps.take i)) :
    c.turns env (without omitted steps) = without omitted (c.turns env steps) ∧
      c.after env (without omitted steps) = c.after env steps := by
  induction steps generalizing c omitted with
  | nil => exact ⟨rfl, rfl⟩
  | cons step rest ih =>
      have hrest := ih (c := (c.perform env step.1 step.2).connection) (fun i => omitted (i + 1))
        fun i op context hi hstep => h (i + 1) op context hi hstep
      cases homitted : omitted 0 with
      | true =>
          have hkept : (c.perform env step.1 step.2).connection = c := h 0 step.1 step.2 homitted rfl
          simp only [without, Connection.turns, homitted, if_true]
          rw [hkept] at hrest ⊢
          refine ⟨hrest.1, hrest.2.trans ?_⟩
          rw [Connection.after_cons, hkept]
      | false =>
          simp only [without, Connection.turns, homitted, Bool.false_eq_true, if_false]
          exact ⟨congrArg _ hrest.1, hrest.2⟩

/-- The reads of a run that do not poison the sandbox may be omitted, each with the response to it.
Every other step has the same turn: its result, its request and the sandbox after it. -/
theorem reads_omitted (env : Scale.Environment) (caller : Identifier)
    (steps : List (Operation × κ)) (omitted : Nat → Bool)
    (h : ∀ i op context, omitted i = true → steps[i]? = some (op, context) →
      QuietRead env ((Connection.start caller).after env (steps.take i)) op context) :
    let c := Connection.start caller
    c.turns env (without omitted steps) = without omitted (c.turns env steps) ∧
      c.after env (without omitted steps) = c.after env steps :=
  run_without env steps omitted fun i op context hi hstep => (h i op context hi hstep).connection

/-- A dry run of a message that returns a truth value. -/
def probe : Operation :=
  .submit .read (.call (.read ⟨nobody, .bytes [0, 0, 0, 1], some .bool, .zero⟩))

def refusal : Context := .error (.refused (.dispatch "out of gas" .none))

/-- The answer to the second read cannot be decoded. -/
theorem probes_omitted :
    let c := Connection.start nobody
    let steps := [(probe, refusal), (ping, done), (probe, done), (ping, crash)]
    c.turns .empty [(ping, done), (ping, crash)] =
        without (fun i => i = 0 ∨ i = 2) (c.turns .empty steps) ∧
      c.after .empty [(ping, done), (ping, crash)] = c.after .empty steps := by
  intro c steps
  refine reads_omitted .empty nobody steps (fun i => i = 0 ∨ i = 2) ?_
  rintro i op context hi hstep
  obtain rfl | rfl := of_decide_eq_true hi
  · cases hstep
    exact ⟨⟨_, rfl⟩, fun _ => rfl⟩
  · cases hstep
    exact ⟨⟨_, rfl⟩, fun _ => rfl⟩

end InkBindings.Sandbox
