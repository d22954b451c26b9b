import InkBindings.Sandbox.Operation

/-!
Runs of a sandbox: operations one after the other, each with the context as it then is. An operation
may be given anything, also what is no request.
-/

namespace InkBindings.Sandbox

open Contract (Call Event Instance Reply)

/-- What a sandbox can do with a request. -/
inductive Method
  | read
  | exec
  | upload
  | instantiate
  | instantiateTx
  deriving DecidableEq, Repr

inductive Operation
  | submit (m : Method) (given : Reply)
  | events (txHash : Bytes)

inductive Returned
  | value (v : Value)
  | transaction (tx : TxInfo)
  | instance (i : Instance)
  | deployment (i : Instance) (tx : TxInfo)
  | events (es : List Event)

/-- The part of a request that is taken first. -/
def Method.part : Method → FirstPart
  | .read | .exec => .account
  | .upload => .wasm
  | .instantiate | .instantiateTx => .codeHash

def Turn.map {α β : Type} (f : α → β) (t : Turn α) : Turn β :=
  t.andThen fun a => .ok (f a)

namespace Connection
variable {κ : Type} [Responder κ]

def submit (env : Scale.Environment) (c : Connection) (m : Method) (call : Call) (context : κ) :
    Turn Returned :=
  match m with
  | .read => (c.read env call context).map .value
  | .exec => (c.exec call context).map .transaction
  | .upload => (c.upload call context).map .transaction
  | .instantiate => (c.instantiate call context).map .instance
  | .instantiateTx => (c.instantiateTx call context).map fun (i, tx) => .deployment i tx

/-- The events of a transaction as they are returned. -/
def answerEvents (c : Connection) (txHash : Bytes) : Except Failure Returned :=
  match c.events txHash with
  | .ok es => .ok (.events es)
  | .error e => .error (.runtime e)

def perform (env : Scale.Environment) (c : Connection) (op : Operation) (context : κ) :
    Turn Returned :=
  match op with
  | .submit m (.call call) => c.submit env m call context
  | .submit m given => c.misuse m.part given
  | .events txHash => ⟨c.answerEvents txHash, none, c⟩

/-- The turns of a run. -/
def turns (env : Scale.Environment) (c : Connection) : List (Operation × κ) → List (Turn Returned)
  | [] => []
  | (op, context) :: rest =>
    let t := c.perform env op context
    t :: t.connection.turns env rest

/-- The sandbox after a run. -/
def after (env : Scale.Environment) (c : Connection) (steps : List (Operation × κ)) : Connection :=
  steps.foldl (fun c step => (c.perform env step.1 step.2).connection) c

variable {c : Connection}

theorem after_cons (env : Scale.Environment) (step : Operation × κ) (rest : List (Operation × κ)) :
    c.after env (step :: rest) = (c.perform env step.1 step.2).connection.after env rest := rfl

theorem after_append (env : Scale.Environment) (earlier later : List (Operation × κ)) :
    c.after env (earlier ++ later) = (c.after env earlier).after env later :=
  List.foldl_append

end Connection

/-! ### A small run -/

def nobody : Identifier := ⟨List.replicate identifierSize 0, List.length_replicate⟩

/-- A message without arguments. -/
def ping : Operation :=
  .submit .exec (.call (.exec ⟨nobody, .bytes [0, 0, 0, 1], none, .zero, .finalized⟩))

def deploy : Operation :=
  .submit .instantiateTx
    (.call (.instantiate ⟨nobody, .bytes [0, 0, 0, 1], ⟨"Sample", none⟩, [], .zero, .finalized⟩))

def done : Context := .ok (.outcome ⟨[], false, .events [], none⟩)

/-- A context that names an account that is none. -/
def stray : Context := .ok (.outcome ⟨[], false, .events [], some (.bytes [0])⟩)

def crash : Context := .error (.broken "RuntimeError" "boom")

end InkBindings.Sandbox
