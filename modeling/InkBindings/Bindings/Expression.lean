import InkBindings.Scale.Codec
/-!
Codecs as expressions of the emitted module.
-/

namespace InkBindings.Bindings

def call (name : String) (arguments : List String) : String :=
  "scale." ++ name ++ "(" ++ ", ".intercalate arguments ++ ")"

def intConstant (kind : Scale.IntKind) : String :=
  "scale." ++ (if kind.signed then "I" else "U") ++ toString kind.bits

/-- What a declared type is bound to: its class, or the codec of one instantiation. -/
def referenceName : Scale.Reference → String
  | .instantiation key _ => key
  | r => r.name

mutual

/-- The expression of a codec where declared types go by `qualifier` and their name. -/
def expression (qualifier : String) : Scale.Codec → String
  | .int kind => intConstant kind
  | .bool => "scale.BOOL"
  | .char => "scale.CHAR"
  | .str => "scale.STR"
  | .unit => "scale.UNIT"
  | .bytes => "scale.BYTES"
  | .accountId => "AccountId.SCALE"
  | .hash => "Hash.SCALE"
  | .fixedBytes length => call "FixedBytesCodec" [toString length]
  | .compact inner => call "CompactCodec" [expression qualifier inner]
  | .tuple items => call "TupleCodec" (expressions qualifier items)
  | .array item length => call "ArrayCodec" [expression qualifier item, toString length]
  | .sequence item => call "SequenceCodec" [expression qualifier item]
  | .option inner => call "OptionCodec" [expression qualifier inner]
  | .result ok err => call "ResultCodec" [expression qualifier ok, expression qualifier err]
  | .map key value => call "MapCodec" [expression qualifier key, expression qualifier value]
  | .langError => "LangError"
  | .raisedLangError => "InkLangError"
  | .reference r => qualifier ++ referenceName r

def expressions (qualifier : String) : List Scale.Codec → List String
  | [] => []
  | c :: rest => expression qualifier c :: expressions qualifier rest

end

def fieldList (qualifier : String) (fields : Scale.Fields) : String :=
  "[" ++ ", ".intercalate (fields.map fun f => s!"(\"{f.1}\", {expression qualifier f.2})") ++ "]"

end InkBindings.Bindings
