import InkBindings.Contract.Call
import InkBindings.Contract.CallError
import InkBindings.Scale.Decode
/-!
Making requests and changing them. Each request that is ready to be sent has a code hash or an
account of the right size, and an amount in range, from the moment it is made.
-/

namespace InkBindings.Contract

abbrev Built := Except CallError

def checkAmount (v : Value) : Built Amount :=
  match Amount.ofValue? v with
  | some a => .ok a
  | none => .error (.notAnAmount v)

def readBytes (v : Value) : Built ByteSource :=
  match v.byteSource with
  | .ok source => .ok source
  | .error e => .error (.conversion e)

def readCodeHash (v : Value) : Built Identifier := do
  let source ← readBytes v
  if source.size = identifierSize then
    match Identifier.ofBytes? source.bytes with
    | some id => return id
    | none => throw (.codeHashSize source.size)
  else throw (.codeHashSize source.size)

def readAccount (v : Value) : Built Identifier :=
  match IdentifierKind.account.read v with
  | .ok id => .ok id
  | .error e => .error (.account e)

def readStatus : Value → Built TxStatus
  | .str s =>
    match TxStatus.ofName? s with
    | some status => .ok status
    | none => .error .unknownStatus
  | _ => .error .unknownStatus

def InstantiateCall.make (codeHash data : Value) (contract : InstanceClass) (salt value : Value)
    (status : TxStatus) : Built InstantiateCall := do
  let codeHash ← readCodeHash codeHash
  let salt ← readBytes salt
  return ⟨codeHash, data, contract, salt.bytes, ← checkAmount value, status⟩

def ExecCall.make (account data : Value) (codec : Option Scale.Codec) (value : Value)
    (status : TxStatus) : Built ExecCall := do
  let account ← readAccount account
  return ⟨account, data, codec, ← checkAmount value, status⟩

def ReadCall.make (account data : Value) (codec : Option Scale.Codec) (value : Value) :
    Built ReadCall := do
  let account ← readAccount account
  return ⟨account, data, codec, ← checkAmount value⟩

def UploadCall.make (wasm expectedHash : Value) (status : TxStatus) : Built UploadCall := do
  return ⟨wasm, ← readCodeHash expectedHash, status⟩

/-- A class that gives no codec refuses any data, before they are looked at. -/
def checkClass (env : Scale.Environment) : Scale.Codec → Built Unit
  | .reference r =>
    match env.codecFault? r with
    | some .refused => .error (.decode .hidden)
    | some _ => .error (.decode .endless)
    | none =>
      if r.isClass && (env.layout? r).isNone then .error (.decode (.layout (.generic r.name)))
      else .ok ()
  | _ => .ok ()

namespace Call

def noAttribute {α : Type} (c : Call) (field : String) : Built α :=
  .error (.noAttribute c.className field)

def withSalt (c : Call) (salt : Value) : Built Call := do
  match c with
  | .instantiate i => return .instantiate { i with salt := (← readBytes salt).bytes }
  | .payableInstantiate i =>
    return .payableInstantiate { i with salt := .bytes (← readBytes salt).bytes }
  | c => c.noAttribute "with_salt"

def withStatus (c : Call) (status : Value) : Built Call := do
  match c with
  | .instantiate i => return .instantiate { i with status := ← readStatus status }
  | .exec e => return .exec { e with status := ← readStatus status }
  | .upload u => return .upload { u with status := ← readStatus status }
  | c => c.noAttribute "with_tx_status"

/-- Gives the amount a request waits for, or changes that of a dry run. The amount is checked
before anything else. -/
def withValue (c : Call) (value : Value) : Built Call := do
  match c with
  | .payableInstantiate i =>
    let amount ← checkAmount value
    return .instantiate (← InstantiateCall.make i.codeHash i.data i.contract i.salt
      (.int amount.value) .finalized)
  | .payableExec e =>
    let amount ← checkAmount value
    return .exec (← ExecCall.make e.account e.data e.codec (.int amount.value) .finalized)
  | .read r => return .read { r with value := ← checkAmount value }
  | c => c.noAttribute "with_value"

def asRead (c : Call) : Built Call :=
  match c with
  | .exec e =>
    if e.codec.isSome then .ok (.read ⟨e.account, e.data, e.codec, e.value⟩)
    else .error .noReturnCodec
  | c => c.noAttribute "as_read"

def returnCodec (c : Call) : Built Scale.Codec :=
  match c with
  | .read r =>
    match r.codec with
    | some codec => .ok codec
    | none => .error (.noAttribute Value.none.typeName "decode")
  | c => c.noAttribute "decode"

def decode (env : Scale.Environment) (c : Call) (data : Bytes) : Built Value := do
  let codec ← c.returnCodec
  match codec.decode env data with
  | .ok v => return v
  | .error e => throw (.decode e)

def requireValue (c : Call) : Built Unit :=
  if c.needsValue then .error (.valueMissing c.className) else .ok ()

end Call

end InkBindings.Contract
