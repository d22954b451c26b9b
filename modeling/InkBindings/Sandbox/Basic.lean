import InkBindings.Contract.Building
import InkBindings.Contract.Event
import InkBindings.Hash.Blake2b
import InkBindings.Number.Shortest
import InkBindings.Sandbox.Error
/-!
A sandbox: a connection to a context that carries out requests one at a time, and the log of the
transactions that succeeded. Each transaction has a block of its own.
-/

namespace InkBindings.Sandbox

open Contract (Amount Call Event)

inductive Request
  | upload (caller : Identifier) (wasm : Value)
  | instantiate (caller codeHash : Identifier) (data : Value) (salt : Bytes) (value : Amount)
  | call (caller account : Identifier) (data : Value) (value : Amount) (dryRun : Bool)

/-- The part of a request that the caller chooses freely. -/
def Request.content : Request → Value
  | .upload _ wasm => wasm
  | .instantiate _ _ data _ _ | .call _ _ data _ _ => data

/-- A value in hexadecimal, as a context notes it down. -/
def note? (v : Value) : Option String :=
  match v.byteContent?, v with
  | some b, _ => some (Hex.encode b)
  | none, .float x => some x.hexText
  | none, _ => none

/-- The events of an outcome. They are gone through when the outcome is recorded, and counted after
that. Either may fail. -/
inductive Emission
  | events (es : List Event)
  | failure (f : ContextFailure)
  | uncounted (es : List Event) (f : ContextFailure)

instance : Coe (List Event) Emission := ⟨.events⟩

structure Outcome where
  data : Bytes
  reverted : Bool
  events : Emission
  account : Option Value

inductive Answer
  | bytes (b : Bytes)
  | outcome (o : Outcome)

/-- What carries out requests: it answers each of them, or fails. -/
class Responder (κ : Type) where
  respond : κ → Request → Except ContextFailure Answer

/-- A context that does as it is told, whatever it is asked for. -/
abbrev Context := Except ContextFailure Answer

/-- It notes a request down before it does anything. -/
instance : Responder Context where
  respond context r :=
    match note? r.content with
    | some _ => context
    | none =>
      .error (.broken "AttributeError" (Contract.missingAttribute r.content.typeName "hex"))

structure TxInfo where
  blockHash : Bytes
  txHash : Bytes
  deriving DecidableEq

def TxInfo.text (tx : TxInfo) : String :=
  s!"tx {markedHex tx.txHash} in block {markedHex tx.blockHash}"

structure Connection where
  caller : Identifier
  poison : Option String
  height : Nat
  transactions : List (Bytes × List Event)

namespace Connection

def start (caller : Identifier) : Connection :=
  ⟨caller, none, 0, []⟩

def isPoisoned (c : Connection) : Bool :=
  c.poison.isSome

end Connection

def heightHash (mark : String) (height : Nat) : Bytes :=
  Blake2b.digest identifierSize (Bytes.ofText mark ++ Bytes.ofNat 8 height)

def txAt (height : Nat) : TxInfo :=
  ⟨heightHash "block" height, heightHash "tx" height⟩

/-- How many blocks have a height that can be written in eight bytes. -/
def heightBound : Nat := 2 ^ 64

/-- The transactions with these events under a hash, in the place of those it had. -/
def enter (txHash : Bytes) (events : List Event) :
    List (Bytes × List Event) → List (Bytes × List Event)
  | [] => [(txHash, events)]
  | entry :: rest =>
    if entry.1 = txHash then (txHash, events) :: rest else entry :: enter txHash events rest

/-! ### Sessions -/

inductive Trouble
  | expected (e : RuntimeError)
  | unexpected (kind text : String)

def ContextFailure.trouble : ContextFailure → Trouble
  | .refused e => .expected e
  | .broken kind text => .unexpected kind text

/-- What is done within a session. It leaves what it has changed when it fails. -/
abbrev Action := EStateM Trouble Connection

def Emission.read : Emission → Action (List Event)
  | .events es | .uncounted es _ => return es
  | .failure f => throw f.trouble

def Emission.count : Emission → Action Unit
  | .uncounted _ f => throw f.trouble
  | _ => return ()

/-- Records the events of a transaction. Its block is begun before they are gone through, and
stays when they cannot be counted. -/
def record (emission : Emission) : Action TxInfo := do
  modify fun c => { c with height := c.height + 1 }
  let height := (← get).height
  if heightBound ≤ height then throw (.unexpected "OverflowError" "int too big to convert")
  let tx := txAt height
  let events ← emission.read
  modify fun c => { c with transactions := enter tx.txHash events c.transactions }
  emission.count
  return tx

/-- An operation on a sandbox: its result, what the context was asked, and the sandbox after it. -/
structure Turn (α : Type) where
  result : Except Failure α
  asked : Option Request
  connection : Connection

/-- The request as the context noted it down, if it could. -/
def Turn.request {α : Type} (t : Turn α) : Option Request :=
  t.asked.filter fun r => (note? r.content).isSome

def lacking (typeName field : String) : Trouble :=
  .unexpected "AttributeError" (Contract.missingAttribute typeName field)

/-- A request that lacks a part is a breakdown if that shows within a session. -/
def missingPart (e : Contract.CallError) : Trouble :=
  match e with
  | .noAttribute className field => lacking className field
  | e => .unexpected "TypeError" (e.message?.getD "")

/-- What happens in a session: a request that is made or not, and what is done about it. -/
structure Session (α : Type) where
  asked : Option Request
  action : Action α

/-- Refuses a session on a sandbox that is poisoned, and poisons it if the session ends in a way
that is not expected. -/
def Connection.session {α : Type} (c : Connection) (s : Session α) : Turn α :=
  match c.poison with
  | some reason => ⟨.error (.runtime (.poisoned reason)), none, c⟩
  | none =>
    match s.action.run c with
    | .ok a next => ⟨.ok a, s.asked, next⟩
    | .error (.expected e) next => ⟨.error (.runtime e), s.asked, next⟩
    | .error (.unexpected kind text) next =>
      let reason := breakdown kind text
      ⟨.error (.runtime (.poisoned reason)), s.asked, { next with poison := some reason }⟩

end InkBindings.Sandbox
