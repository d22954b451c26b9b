import InkBindings.Contract.Methods
import InkBindings.Sandbox.Basic
/-!
The operations of a sandbox. Each makes at most one request, from the parts of the call it is given,
and a transaction is recorded only if nothing was refused or reverted.
-/

namespace InkBindings.Sandbox

open Contract (Built Call CallError Event Instance InstanceClass)

def callRequest (caller : Identifier) (dryRun : Bool) : Call → Built Request
  | .exec e => .ok (.call caller e.account e.data e.value dryRun)
  | .read r => .ok (.call caller r.account r.data r.value dryRun)
  | c@(.payableExec _) => c.noAttribute "value"
  | c => c.noAttribute "account_id"

def instantiateRequest (caller : Identifier) : Call → Built Request
  | .instantiate i => .ok (.instantiate caller i.codeHash i.data i.salt i.value)
  | c@(.payableInstantiate _) => c.noAttribute "value"
  | c => c.noAttribute "code_hash"

def uploadRequest (caller : Identifier) : Call → Built Request
  | .upload u => .ok (.upload caller u.wasm)
  | c => c.noAttribute "wasm"

/-- A session with one request, of which `finish` takes the answer. -/
def ask {α κ : Type} [Responder κ] (request : Built Request) (context : κ)
    (finish : Answer → Action α) : Session α :=
  match request with
  | .error e => ⟨none, throw (missingPart e)⟩
  | .ok r =>
    match Responder.respond context r with
    | .error f => ⟨some r, throw f.trouble⟩
    | .ok a => ⟨some r, finish a⟩

def Answer.outcome? : Answer → Action Outcome
  | .outcome o => return o
  | .bytes _ => throw (lacking "bytes" "reverted")

def Answer.data : Answer → Built Bytes
  | .outcome o => .ok o.data
  | .bytes _ => .error (.noAttribute "bytes" "data")

def Answer.bytes? : Answer → Action Bytes
  | .bytes b => return b
  | .outcome _ => throw (.unexpected "TypeError" "cannot convert 'ExecOutcome' object to bytes")

inductive FirstPart
  | account
  | codeHash
  | wasm
  deriving DecidableEq, Repr

def FirstPart.name : FirstPart → String
  | account => "account_id"
  | codeHash => "code_hash"
  | wasm => "wasm"

/-- What the answer to an earlier request lacks, taken for a request. A handle has an account. -/
def missingFrom (part : FirstPart) : Contract.Reply → Trouble
  | .call c => lacking c.className part.name
  | .value v => lacking v.typeName part.name
  | .handle i => lacking i.ofClass.name (if part = .account then "data" else part.name)

def refuse {α : Type} (c : Connection) (e : CallError) : Turn α :=
  ⟨.error (.call e), none, c⟩

def Turn.andThen {α β : Type} (t : Turn α) (f : α → Except Failure β) : Turn β :=
  { t with result := t.result.bind f }

def callFailure {α : Type} : Built α → Except Failure α
  | .ok a => .ok a
  | .error e => .error (.call e)

namespace Connection
variable {κ : Type} [Responder κ]

/-- Runs a message without effect and reads what it returns, which may be an error that the
contract reverted with. -/
def read (env : Scale.Environment) (c : Connection) (call : Call) (context : κ) : Turn Value :=
  (c.session (ask (callRequest c.caller true call) context pure)).andThen
    fun a => callFailure do call.decode env (← a.data)

/-- What becomes of an operation on what is no request: it shows within a session. -/
def misuse {α : Type} (c : Connection) (part : FirstPart) (given : Contract.Reply) : Turn α :=
  c.session ⟨none, throw (missingFrom part given)⟩

def accountBytes : Call → Bytes
  | .exec e => e.account.bytes
  | .read r => r.account.bytes
  | _ => []

def finishExec (account : Bytes) (a : Answer) : Action TxInfo := do
  let o ← a.outcome?
  if o.reverted then throw (.expected (.callReverted account o.data))
  record o.events

def exec (c : Connection) (call : Call) (context : κ) : Turn TxInfo :=
  match call.requireValue with
  | .error e => refuse c e
  | .ok _ =>
    c.session (ask (callRequest c.caller false call) context (finishExec (accountBytes call)))

def deployment? : Call → Option (Identifier × InstanceClass)
  | .instantiate i => some (i.codeHash, i.contract)
  | _ => none

def finishInstantiate (codeHash : Bytes) (a : Answer) : Action (Value × TxInfo) := do
  let o ← a.outcome?
  if o.reverted then throw (.expected (.deploymentReverted codeHash o.data))
  match o.account with
  | none => throw (.expected (.dispatch "instantiation produced no account id" .none))
  | some account => return (account, ← record o.events)

def handle (call : Call) (account : Value) : Except Failure Instance :=
  match deployment? call with
  | some (_, ofClass) =>
    match Instance.make ofClass account with
    | .ok i => .ok i
    | .error e => .error (.call (.account e))
  | none => .error (.call (.noAttribute call.className "contract_type"))

/-- Runs a constructor. The account the context gives is looked at when the transaction has been
recorded. -/
def instantiateTx (c : Connection) (call : Call) (context : κ) : Turn (Instance × TxInfo) :=
  match call.requireValue with
  | .error e => refuse c e
  | .ok _ =>
    let codeHash := ((deployment? call).map (·.1.bytes)).getD []
    (c.session (ask (instantiateRequest c.caller call) context
      (finishInstantiate codeHash))).andThen
        fun (account, tx) => (handle call account).map (·, tx)

def instantiate (c : Connection) (call : Call) (context : κ) : Turn Instance :=
  (c.instantiateTx call context).andThen fun (i, _) => .ok i

def expectedHash : Call → Bytes
  | .upload u => u.expectedHash.bytes
  | _ => []

def finishUpload (expected : Bytes) (a : Answer) : Action TxInfo := do
  let hash ← a.bytes?
  if hash ≠ expected then throw (.expected (.codeHashMismatch expected hash))
  record (.events [])

def upload (c : Connection) (call : Call) (context : κ) : Turn TxInfo :=
  c.session (ask (uploadRequest c.caller call) context (finishUpload (expectedHash call)))

/-- The events of a transaction. This needs no context. -/
def events (c : Connection) (txHash : Bytes) : Except RuntimeError (List Event) :=
  match c.transactions.find? (·.1 = txHash) with
  | some (_, events) => .ok events
  | none => .error (.dispatch "unknown transaction" (.str (Hex.encode txHash)))

end Connection

/-- What a connection does with an upload unless it knows better. -/
def defaultUpload : Except RuntimeError TxInfo :=
  .error (.unsupported "upload")

end InkBindings.Sandbox
