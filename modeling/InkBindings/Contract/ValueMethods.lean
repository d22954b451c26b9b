import InkBindings.Contract.Building
import InkBindings.Value.Methods
/-!
What values answer that a request gave: outcomes are taken apart, and values of declared types are
written and read by their class.
-/

namespace InkBindings.Contract

def classCodec? : Value → Option Scale.Codec
  | .langError => some .langError
  | .raisedLangError => some .raisedLangError
  | v => (Scale.classReference? v).map .reference

def valueParts : Value → List String
  | .ok _ | .compact _ => ["value"]
  | .err _ => ["error"]
  | .raisedLangError => ["error", "args"]
  | .record _ fields | .variant _ _ fields => fields.map (·.1)
  | _ => []

def liftUnwrap : Except UnwrapError Value → Built Value
  | .ok v => .ok v
  | .error e => .error (.unwrap e)

def liftDecode {α : Type} : Except Scale.DecodeFailure α → Built α
  | .ok v => .ok v
  | .error e => .error (.decode e)

def liftOwn {α : Type} : Except Scale.OwnEncodingFailure α → Built α
  | .ok v => .ok v
  | .error e => .error (.encode e)

/-- The instance of a neighbour of an alternative, if the name is one's label. -/
def neighbour? (env : Scale.Environment) (v : Value) (name : String) (arguments : List Value) :
    Option (Built Value) :=
  match v with
  | .variant owner .. => (env.alternative? owner name).map fun c =>
    match c.make? owner arguments with
    | some made => .ok made
    | none => .error .wrongArguments
  | _ => none

def decodeByClass (env : Scale.Environment) (codec : Scale.Codec) (data : Value) : Built Value := do
  match codec.decodeHidden? env data with
  | some made => liftDecode made
  | none =>
    checkClass env codec
    liftDecode (codec.decodeAll env (.ofByteSource (← readBytes data)))

def offsetOf? : Value → Option Int
  | .int n => some n
  | .bool b => some (if b then 1 else 0)
  | _ => none

/-- Reads a value from an offset on; gives it with the offset after it. What reads nothing asks
neither for data nor for a number, and leaves the offset as it is. -/
def decodeFromByClass (env : Scale.Environment) (codec : Scale.Codec) (data offset : Value) :
    Built Value := do
  checkClass env codec
  match codec.decodeFrom env .sizeless 0, offsetOf? offset with
  | .ok (v, _), _ => return .tuple [v, offset]
  | .error _, some n =>
    let (v, next) ← liftDecode (codec.decodeFrom env (.ofValue data) n)
    return .tuple [v, .int next]
  | .error e, none => throw (.decode e)

/-- Writes a value to a buffer, of which nobody else knows. -/
def encodeToByClass (env : Scale.Environment) (codec : Scale.Codec) (v buffer : Value) :
    Built Value :=
  match (codec.encodeTo env v).run (.ofValue buffer) with
  | .ok _ _ => .ok .none
  | .error e _ => .error (.encode (.encode e))

def classMethod (env : Scale.Environment) (v : Value) (codec : Scale.Codec) (name : String)
    (arguments : List Value) : Built Value :=
  match name, arguments with
  | "encode", [] => (liftOwn (Scale.encodeOwn env v)).map .bytes
  | "encode", [given] =>
    match v with
    | .raisedLangError =>
      (liftOwn (Scale.liftEncode (codec.encode env given))).map .bytes
    | _ => .error .wrongArguments
  | "decode", [data] => decodeByClass env codec data
  | "decode_from", [data] => decodeFromByClass env codec data (.int 0)
  | "decode_from", [data, offset] => decodeFromByClass env codec data offset
  | "encode_to", [given, buffer] => encodeToByClass env codec given buffer
  | "encode", _ | "decode", _ | "decode_from", _ | "encode_to", _ => .error .wrongArguments
  | "_codec", _ | "layout", _ | "alternative", _ =>
    .error (if v matches .raisedLangError then .noAttribute v.typeName name else .wrongArguments)
  | _, _ => .error (.noAttribute v.typeName name)

def outcomeMethod (v : Value) (name : String) (arguments : List Value) : Built Value :=
  match name, arguments with
  | "is_ok", [] => .ok (.bool v.isOk)
  | "is_err", [] => .ok (.bool v.isErr)
  | "unwrap", [] => liftUnwrap v.unwrap
  | "unwrap_err", [] => liftUnwrap v.unwrapErr
  | "is_ok", _ | "is_err", _ | "unwrap", _ | "unwrap_err", _ => .error .wrongArguments
  | _, _ => .error (.noAttribute v.typeName name)

def valueMethod (env : Scale.Environment) (v : Value) (name : String) (arguments : List Value) :
    Built Value :=
  if (valueParts v).contains name then .error (.noMethod v.typeName name)
  else
    match neighbour? env v name arguments with
    | some made => made
    | none =>
      match v.ask name arguments with
      | .given answer => .ok answer
      | .refused => .error .wrongArguments
      | .failed e => .error (.conversion e)
      | .unknown =>
        match v, classCodec? v with
        | .ok _, _ | .err _, _ => outcomeMethod v name arguments
        | v, some codec => classMethod env v codec name arguments
        | v, none => .error (.noAttribute v.typeName name)

end InkBindings.Contract
