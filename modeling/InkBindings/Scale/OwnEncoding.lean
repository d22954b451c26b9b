import InkBindings.Scale.Encode
/-!
Values that carry their own encoding: records, alternatives and texts need no codec to be told.
-/

namespace InkBindings.Scale

inductive OwnEncodingFailure
  | encode (e : EncodeFailure)
  | codecWanted
  /-- A field of the value, or an alternative, stands where its encoding is looked for. -/
  | hidden
  | notEncodable

def liftEncode : Except EncodeFailure Bytes → Except OwnEncodingFailure Bytes
  | .ok b => .ok b
  | .error e => .error (.encode e)

def classReference? : Value → Option Reference
  | .record name _ => some (.declared name)
  | .variant owner label _ => some (.alternative owner label)
  | _ => none

def encodeByClass (env : Environment) (v : Value) : Except OwnEncodingFailure Bytes :=
  match v, classReference? v with
  | .langError, _ => liftEncode (Codec.encode env .langError v)
  | _, none => .error .notEncodable
  | v, some r =>
    match env.codecFault? r with
    | some (.instead _) => .error .hidden
    | _ => liftEncode (Codec.encodeByLayout env r v)

/-- What an alternative makes of values where it hides the encoding of its class. -/
def encodeHidden? (env : Environment) (r : Reference) (values : List Value) :
    Option (Except OwnEncodingFailure Value) :=
  (env.hiding? .encode r).map fun c =>
    match c.make? r.owner values with
    | some v => .ok v
    | none => .error .hidden

/-- An instance in the place of bytes is of no use. -/
def bytesExpected (made : Except OwnEncodingFailure Value) : Except OwnEncodingFailure Bytes :=
  made.bind fun _ => .error .notEncodable

def encodeOwn (env : Environment) (v : Value) : Except OwnEncodingFailure Bytes :=
  match v with
  | .record _ fields | .variant _ _ fields =>
    if fields.any (·.1 = ClassKind.encodeName) then .error .hidden
    else
      match (classReference? v).bind fun r => encodeHidden? env r [] with
      | some made => bytesExpected made
      | none => encodeByClass env v
  | .raisedLangError => .error .codecWanted
  | .str s => .ok (Bytes.ofText s)
  | v => encodeByClass env v

/-- The bytes of a value by a codec. A declared type leaves it to the class of the value. -/
def encodeWhole (env : Environment) (c : Codec) (v : Value) : Except OwnEncodingFailure Bytes :=
  match c with
  | .langError => encodeByClass env v
  | .reference r =>
    match encodeHidden? env r [v] with
    | some made => bytesExpected made
    | none => if r.isClass then encodeByClass env v else liftEncode (c.encode env v)
  | c => liftEncode (c.encode env v)

end InkBindings.Scale
