import InkBindings.Contract.Call
import InkBindings.Contract.ValueMethods
import InkBindings.Value.Display
/-!
Requests as text, and by the names of their classes, arguments and methods. The text leaves out
codecs, classes of instances and code.
-/

namespace InkBindings.Contract

def TxStatus.constantName : TxStatus → String
  | .finalized => "FINALIZED"
  | .inBlock => "IN_BLOCK"
  | .submitted => "SUBMITTED"

def TxStatus.display (s : TxStatus) : String :=
  s!"<TxStatus.{s.constantName}: '{s.name}'>"

def Call.shownFields : Call → List (String × String)
  | .instantiate c =>
    [("code_hash", Text.quoteBytes c.codeHash.bytes), ("data", c.data.display),
      ("salt", Text.quoteBytes c.salt), ("value", toString c.value.value),
      ("tx_status", c.status.display)]
  | .payableInstantiate c =>
    [("code_hash", c.codeHash.display), ("data", c.data.display), ("salt", c.salt.display)]
  | .exec c =>
    [("account_id", (Value.accountId c.account).display), ("data", c.data.display),
      ("value", toString c.value.value), ("tx_status", c.status.display)]
  | .payableExec c => [("account_id", c.account.display), ("data", c.data.display)]
  | .read c =>
    [("account_id", (Value.accountId c.account).display), ("data", c.data.display),
      ("value", toString c.value.value)]
  | .upload c =>
    [("expected_code_hash", Text.quoteBytes c.expectedHash.bytes),
      ("tx_status", c.status.display)]

def Call.display (c : Call) : String :=
  Value.displayCall c.className (c.shownFields.map fun f => f.1 ++ "=" ++ f.2)

/-- What a request is made from. Arguments that are left out take the usual value, if there is
one. -/
structure Arguments where
  values : List (String × Value)
  /-- Null stands for no codec. -/
  codec : Option (Option Scale.Codec)
  status : Option Value
  contract : InstanceClass

namespace Arguments

def value (a : Arguments) (name : String) (usual : Value) : Value :=
  ((a.values.find? (·.1 = name)).map (·.2)).getD usual

def names (a : Arguments) : List String :=
  a.values.map (·.1) ++ (if a.codec.isSome then ["codec"] else []) ++
    (if a.status.isSome then ["tx_status"] else [])

/-- Whether exactly these arguments are given, up to some of the optional ones. -/
def fit (a : Arguments) (required optional : List String) : Bool :=
  a.names.all (required ++ optional).contains && required.all a.names.contains

end Arguments

/-- The arguments that requests of a class must have, and those that they may have. -/
def argumentNames? : String → Option (List String × List String)
  | "InstantiateCall" => some (["code_hash", "data"], ["salt", "value", "tx_status"])
  | "InstantiateCallNeedsValue" => some (["code_hash", "data"], ["salt"])
  | "ExecCall" => some (["account_id", "data"], ["codec", "value", "tx_status"])
  | "ExecCallNeedsValue" => some (["account_id", "data"], ["codec"])
  | "ReadCall" => some (["account_id", "data", "codec"], ["value"])
  | "UploadCall" => some (["wasm", "expected_code_hash"], ["tx_status"])
  | _ => none

def Call.ofArguments (className : String) (a : Arguments) : Built Call := do
  let status ← readStatus (a.status.getD (.str TxStatus.finalized.name))
  let (required, optional) := (argumentNames? className).getD ([], [])
  unless a.fit required optional do throw .wrongArguments
  let given (name : String) : Value := a.value name .none
  let salt := a.value "salt" (.bytes [])
  let amount := a.value "value" (.int 0)
  let codec := a.codec.getD none
  match className with
  | "InstantiateCall" =>
    return .instantiate (← InstantiateCall.make (given "code_hash") (given "data") a.contract salt
      amount status)
  | "InstantiateCallNeedsValue" =>
    return .payableInstantiate ⟨given "code_hash", given "data", a.contract, salt⟩
  | "ExecCall" =>
    return .exec (← ExecCall.make (given "account_id") (given "data") codec amount status)
  | "ExecCallNeedsValue" => return .payableExec ⟨given "account_id", given "data", codec⟩
  | "ReadCall" => return .read (← ReadCall.make (given "account_id") (given "data") codec amount)
  | _ => return .upload (← UploadCall.make (given "wasm") (given "expected_code_hash") status)

inductive Reply
  | call (c : Call)
  | value (v : Value)
  | handle (i : Instance)

/-- The check that a request passed when it was made, and passes again. -/
def recheckName : String := "__post_init__"

def Call.methodNames : Call → List String
  | .instantiate _ => [recheckName, "with_salt", "with_tx_status", "contract_type"]
  | .payableInstantiate _ => ["with_salt", "with_value", "contract_type"]
  | .exec _ => [recheckName, "with_tx_status", "as_read"]
  | .payableExec _ => ["with_value"]
  | .read _ => [recheckName, "with_value", "decode"]
  | .upload _ => [recheckName, "with_tx_status"]

def Call.partNames (c : Call) : List String :=
  let (required, optional) := (argumentNames? c.className).getD ([], [])
  required ++ optional

def Call.contractType (c : Call) (account : Value) : Built Instance :=
  let made (ofClass : InstanceClass) : Built Instance :=
    match Instance.make ofClass account with
    | .ok i => .ok i
    | .error e => .error (.account e)
  match c with
  | .instantiate i => made i.contract
  | .payableInstantiate i => made i.contract
  | c => c.noAttribute "contract_type"

def Call.method (env : Scale.Environment) (c : Call) (name : String) (arguments : List Value) :
    Built Reply := do
  unless c.methodNames.contains name do
    throw (if c.partNames.contains name then .noMethod c.className name
      else .noAttribute c.className name)
  match name, arguments with
  | "__post_init__", [] => return .value .none
  | "with_salt", [v] => return .call (← c.withSalt v)
  | "with_tx_status", [v] => return .call (← c.withStatus v)
  | "with_value", [v] => return .call (← c.withValue v)
  | "as_read", [] => return .call (← c.asRead)
  | "contract_type", [v] => return .handle (← c.contractType v)
  | "decode", [v] => return .value (← decodeByClass env (← c.returnCodec) v)
  | _, _ => throw .wrongArguments

namespace Reply

def display : Reply → String
  | .call c => c.display
  | .value v => v.display
  | .handle i => i.display

/-- Applies a method, or what can be asked of anything: its text, and that it does not wait for an
amount. -/
def method (env : Scale.Environment) (r : Reply) (name : String) (arguments : List Value) :
    Built Reply :=
  match name, r with
  | "repr", r => .ok (.value (.str r.display))
  | "require_value", .call c => c.requireValue.map fun _ => .value .none
  | "require_value", _ => .ok (.value .none)
  | name, .value v => (valueMethod env v name arguments).map .value
  | "__repr__", r | "__str__", r =>
    if arguments.isEmpty then .ok (.value (.str r.display)) else .error .wrongArguments
  | name, .call c => c.method env name arguments
  | "account_id", .handle i | "Event", .handle i => .error (.noMethod i.ofClass.name name)
  | "__bytes__", .handle i =>
    if arguments.isEmpty then .ok (.value (.bytes i.account.bytes)) else .error .wrongArguments
  | name, .handle i => .error (.noAttribute i.ofClass.name name)

/-- Everything that a chain of methods gives, up to the first error. -/
def chain (env : Scale.Environment) (r : Reply) :
    List (String × List Value) → List Reply × Option CallError
  | [] => ([r], none)
  | (name, arguments) :: rest =>
    match r.method env name arguments with
    | .error e => ([r], some e)
    | .ok next =>
      let (more, e) := chain env next rest
      (r :: more, e)

end Reply

end InkBindings.Contract
