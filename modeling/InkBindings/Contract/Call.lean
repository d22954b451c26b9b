import InkBindings.Contract.Instance
/-!
Requests to a contract. Those for a payable constructor or message first wait for an amount, and
nothing about them is checked before they get it.
-/

namespace InkBindings.Contract

/-! ### Amounts that a call transfers -/

def amountBound : Nat := 2 ^ 128

structure Amount where
  value : Nat
  lt_bound : value < amountBound
  deriving DecidableEq

namespace Amount

def zero : Amount := ⟨0, by decide⟩

/-- The amount that a value is. Truth values and compact ones are none. -/
def ofValue? : Value → Option Amount
  | .int n => if h : 0 ≤ n ∧ n.toNat < amountBound then some ⟨n.toNat, h.2⟩ else none
  | _ => none

end Amount

/-! ### Calls -/

/-- How far a transaction must have come before it counts as done. -/
inductive TxStatus
  | finalized
  | inBlock
  | submitted
  deriving DecidableEq, Repr

namespace TxStatus

def name : TxStatus → String
  | .finalized => "finalized"
  | .inBlock => "in_block"
  | .submitted => "submitted"

def ofName? : String → Option TxStatus
  | "finalized" => some .finalized
  | "in_block" => some .inBlock
  | "submitted" => some .submitted
  | _ => none

end TxStatus

structure InstantiateCall where
  codeHash : Identifier
  data : Value
  contract : InstanceClass
  salt : Bytes
  value : Amount
  status : TxStatus

structure PayableInstantiateCall where
  codeHash : Value
  data : Value
  contract : InstanceClass
  salt : Value

structure ExecCall where
  account : Identifier
  data : Value
  codec : Option Scale.Codec
  value : Amount
  status : TxStatus

structure PayableExecCall where
  account : Value
  data : Value
  codec : Option Scale.Codec

structure ReadCall where
  account : Identifier
  data : Value
  codec : Option Scale.Codec
  value : Amount

structure UploadCall where
  wasm : Value
  expectedHash : Identifier
  status : TxStatus

inductive Call
  | instantiate (c : InstantiateCall)
  | payableInstantiate (c : PayableInstantiateCall)
  | exec (c : ExecCall)
  | payableExec (c : PayableExecCall)
  | read (c : ReadCall)
  | upload (c : UploadCall)

def Call.className : Call → String
  | .instantiate _ => "InstantiateCall"
  | .payableInstantiate _ => "InstantiateCallNeedsValue"
  | .exec _ => "ExecCall"
  | .payableExec _ => "ExecCallNeedsValue"
  | .read _ => "ReadCall"
  | .upload _ => "UploadCall"

def Call.needsValue : Call → Bool
  | .payableInstantiate _ | .payableExec _ => true
  | _ => false

end InkBindings.Contract
