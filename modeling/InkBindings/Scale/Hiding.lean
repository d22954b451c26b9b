import InkBindings.Scale.Members
/-!
Alternatives that are labelled like an operation of their class. Where the operation is looked for,
the alternative is found: an instance of it is made from what the operation was given.
-/

namespace InkBindings.Scale

inductive Operation
  | codec
  /-- The codec itself, as long as no layout is bound. -/
  | boundCodec
  | encodeTo
  | decodeFrom
  | decode
  | encode

def Operation.name : Operation → String
  | codec => "_codec"
  | boundCodec => ClassKind.codecName
  | encodeTo => "encode_to"
  | decodeFrom => "decode_from"
  | decode => "decode"
  | encode => ClassKind.encodeName

namespace AlternativeClass

def make? (c : AlternativeClass) (owner : String) (values : List Value) : Option Value :=
  if c.takes values.length then
    some (.variant owner c.label
      ((c.attributes.zip values).map (fun (a, v) => (a.name, v)) ++
        (c.attributes.drop values.length).filterMap fun a => a.default?.map (a.name, ·)))
  else none

end AlternativeClass

inductive CodecFault
  | refused
  | instead (label : String)
  /-- The codec of an alternative is sought at the alternative itself. -/
  | endless

namespace Environment

def hiding? (env : Environment) (op : Operation) : Reference → Option AlternativeClass
  | .declared owner | .alternative owner _ => env.alternative? owner op.name
  | .instantiation .. => none

def codecFault? (env : Environment) (r : Reference) : Option CodecFault :=
  match env.hiding? .codec r with
  | some c => some (if c.takes 0 then .instead c.label else .refused)
  | none =>
    if (env.layout? r).isNone && (env.hiding? .boundCodec r).isSome then some .endless else none

/-- The text of a value; none if an alternative stands where texts are made. -/
def textOf? (env : Environment) (v : Value) : Option String :=
  match v with
  | .variant owner .. =>
    if (env.alternative? owner "__str__").isSome then none else some v.text
  | v => some v.text

end Environment
end InkBindings.Scale
