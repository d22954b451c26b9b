import InkBindings.Scale.Compact
import InkBindings.Scale.Hiding
import InkBindings.Sorting.Attempt
import InkBindings.Value.Conversion
import InkBindings.Value.Order
/-!
Writing values. An encoder appends to a buffer; what it wrote before it failed stays there. The
encoder of a codec is put together from encoders of its parts, and declared types are looked up in
an environment, one level of nesting at a time.
-/

namespace InkBindings.Scale

abbrev Encoder := Value → EStateM EncodeFailure Buffer Unit

namespace Encoder

def fail (e : EncodeError) : EStateM EncodeFailure Buffer Unit :=
  throw (.value e)

def integerBytes (kind : IntKind) (n : Int) : Bytes :=
  Bytes.ofNat kind.width.bytes (n % 2 ^ kind.bits).toNat

def checkInteger (kind : IntKind) : Value → Except EncodeError Int
  | .int n => if kind.least ≤ n ∧ n ≤ kind.greatest then .ok n else .error (.outOfRange n kind)
  | v => .error (.integerExpected kind v)

def integer (kind : IntKind) : Encoder := fun v =>
  match checkInteger kind v with
  | .ok n => Buffer.write (integerBytes kind n)
  | .error e => fail e

def bool : Encoder
  | .bool b => Buffer.writeByte (if b then 1 else 0)
  | v => fail (.boolExpected v)

def char : Encoder
  | .str s =>
    match s.toList with
    | [c] => Buffer.write (Bytes.ofNat 4 c.toNat)
    | _ => fail (.characterExpected (.str s))
  | v => fail (.characterExpected v)

def counted (b : Bytes) : EStateM EncodeFailure Buffer Unit := do
  Compact.encodeValue (.int b.length)
  Buffer.write b

def str : Encoder
  | .str s => counted (Bytes.ofText s)
  | v => fail (.textExpected v)

def unit : Encoder
  | .none | .tuple [] => pure ()
  | v => fail (.unitExpected v)

def bytes : Encoder := fun v =>
  match v.byteContent? with
  | some b => counted b
  | none => fail (.bytesExpected .bytes v)

def fixedBytes (codec : Codec) (length : Int) : Encoder := fun v =>
  match v.byteContent? with
  | some b => if (b.length : Int) = length then Buffer.write b
    else fail (.byteCount codec length b.length)
  | none => fail (.bytesExpected codec v)

def unwrapCompact : Value → Value
  | .compact inner => inner
  | v => v

def compact (kind? : Option IntKind) : Encoder := fun v => do
  let n := unwrapCompact v
  match kind? with
  | some kind =>
    match checkInteger kind n with
    | .ok _ => Compact.encodeValue n
    | .error e => fail e
  | none => Compact.encodeValue n

def each : List Encoder → List Value → EStateM EncodeFailure Buffer Unit
  | e :: es, v :: vs => do
    e v
    each es vs
  | _, _ => pure ()

def tuple (codec : Codec) (items : List Encoder) : Encoder := fun v =>
  match v with
  | .tuple vs | .list vs =>
    if vs.length = items.length then each items vs else fail (.tupleExpected codec items.length v)
  | v => fail (.tupleExpected codec items.length v)

def all (item : Encoder) : List Value → EStateM EncodeFailure Buffer Unit
  | [] => pure ()
  | v :: vs => do
    item v
    all item vs

def array (codec : Codec) (item : Encoder) (length : Int) : Encoder := fun v =>
  match v.members? with
  | none => throw (.container .noSize)
  | some vs =>
    if (vs.length : Int) = length then all item vs
    else fail (.itemCount codec length vs.length)

def sequence (item : Encoder) : Encoder := fun v =>
  match v.members? with
  | none => throw (.container .noMembers)
  | some vs => do
    Compact.encodeValue (.int vs.length)
    all item vs

def option (inner : Encoder) : Encoder
  | .none => Buffer.writeByte 0
  | v => do
    Buffer.writeByte 1
    inner v

def result (codec : Codec) (ok err : Encoder) : Encoder
  | .ok v => do
    Buffer.writeByte 0
    ok v
  | .err v => do
    Buffer.writeByte 1
    err v
  | v => fail (.resultExpected codec v)

def entriesOf (v : Value) : Except ContainerError (List (List Value)) :=
  match v with
  | .dict entries => .ok (entries.map fun e => [e.1, e.2])
  | v =>
    match v.members? with
    | none => .error .noMembers
    | some vs => vs.mapM fun m =>
      match m.members? with
      | none => .error .noMembers
      | some parts => .ok parts

def eachOrdered : List Value → Bool
  | [] => true
  | k :: rest =>
    k.equals k && rest.all (fun k' => (Value.less? k' k).isSome) && eachOrdered rest

def allOrdered (keys : List Value) : Bool :=
  Value.areOfOneKind keys || eachOrdered keys

def keyBytes (key : Encoder) (k : Value) : Except EncodeFailure Bytes :=
  match (key k).run .empty with
  | .ok _ b => .ok b.bytes
  | .error e _ => .error e

/-- Entries in the order of their keys, or of the encodings of their keys where two keys that have
to be compared have no order. Entries with equal keys stay as they were, and entries with equal
encodings as the search for an order left them. -/
def sortEntries (key : Encoder) (entries : List (Value × List Value)) :
    Except EncodeFailure (List (List Value)) :=
  if allOrdered (entries.map (·.1)) then
    .ok ((entries.mergeSort fun a b => Value.less? b.1 a.1 != some true).map (·.2))
  else
    match Sorting.sort (fun a b => Value.less? a.1 b.1) entries with
    | .ok sorted => .ok (sorted.map (·.2))
    | .error left => do
      let keyed ← left.mapM fun e => return (← keyBytes key e.1, e.2)
      return (keyed.mergeSort fun a b => !Value.lessBytes b.1 a.1).map (·.2)

def withKey : List Value → Except ContainerError (Value × List Value)
  | [] => .error .emptyEntry
  | k :: rest => .ok (k, k :: rest)

def entry (key value : Encoder) : List Value → EStateM EncodeFailure Buffer Unit
  | [k, v] => do
    key k
    value v
  | _ => throw (.container .entrySize)

def allEntries (key value : Encoder) : List (List Value) → EStateM EncodeFailure Buffer Unit
  | [] => pure ()
  | e :: rest => do
    entry key value e
    allEntries key value rest

def map (key value : Encoder) : Encoder := fun v =>
  match entriesOf v with
  | .error e => throw (.container e)
  | .ok entries =>
    match entries.mapM withKey with
    | .error e => throw (.container e)
    | .ok keyed =>
      match sortEntries key keyed with
      | .error e => throw e
      | .ok sorted => do
        Compact.encodeValue (.int sorted.length)
        allEntries key value sorted

def langError : Encoder
  | .langError => Buffer.writeByte langErrorIndex
  | v => fail (.notAnAlternative v "LangError")

def raisedLangError : Encoder
  | .raisedLangError => langError .langError
  | v => langError v

def fields (encoder : Codec → Encoder) (owner : Value) (given : String → Option Value) :
    Fields → EStateM EncodeFailure Buffer Unit
  | [] => pure ()
  | (name, codec) :: rest =>
    match given name with
    | none => fail (.missingField owner name)
    | some v => do
      encoder codec v
      fields encoder owner given rest

end Encoder

mutual

def Codec.encoder (declared : Room → Reference → Encoder) (room : Room) : Codec → Encoder
  | .int kind => Encoder.integer kind
  | .bool => Encoder.bool
  | .char => Encoder.char
  | .str => Encoder.str
  | .unit => Encoder.unit
  | .bytes => Encoder.bytes
  | .accountId => Encoder.fixedBytes .accountId identifierSize
  | .hash => Encoder.fixedBytes .hash identifierSize
  | .fixedBytes length => Encoder.fixedBytes (.fixedBytes length) length
  | .compact inner => Encoder.compact inner.intKind?
  | .tuple items => Encoder.tuple (.tuple items) (Codec.encoders declared (room.inside 1) items)
  | .array item length =>
    Encoder.array (.array item length) (Codec.encoder declared (room.inside 1) item) length
  | .sequence item => Encoder.sequence (Codec.encoder declared (room.inside 1) item)
  | .option inner => Encoder.option (Codec.encoder declared (room.inside 1) inner)
  | .result ok err =>
    Encoder.result (.result ok err) (Codec.encoder declared (room.inside 1) ok)
      (Codec.encoder declared (room.inside 1) err)
  | .map key value =>
    Encoder.map (Codec.encoder declared (room.inside 1) key)
      (Codec.encoder declared (room.inside 1) value)
  | .langError => Encoder.langError
  | .raisedLangError => Encoder.raisedLangError
  | .reference r => declared room r

def Codec.encoders (declared : Room → Reference → Encoder) (room : Room) :
    List Codec → List Encoder
  | [] => []
  | c :: rest => Codec.encoder declared room c :: Codec.encoders declared room rest

end

namespace Environment

/-- What writing an instance meets when the layout is not there. -/
def unboundEncoder (env : Environment) (r : Reference) : Encoder := fun v =>
  if r.isClass then throw (.layout (.generic r.name))
  else
    match env.shape? r.owner, v with
    | some (.record _), .record name _ =>
      if name = r.owner then throw (.layout (.unbound r.owner))
      else Encoder.fail (.recordExpected r.owner v)
    | some (.record _), v => Encoder.fail (.recordExpected r.owner v)
    | _, _ => throw (.layout (.unbound r.owner))

/-- The value of a field of an instance, or the member of its class that has the name. -/
def fieldOf? (env : Environment) (v : Value) (given : List (String × Value)) (name : String) :
    Option Value :=
  ((given.find? (·.1 = name)).map (·.2)).or (env.memberOf? v name)

def layoutEncoder (env : Environment) (encoder : Codec → Encoder) (owner : String) :
    Layout → Encoder
  | .record fields, v =>
    match v with
    | .record name given =>
      if name = owner then Encoder.fields encoder v (env.fieldOf? v given) fields
      else Encoder.fail (.recordExpected owner v)
    | v => Encoder.fail (.recordExpected owner v)
  | .sum alternatives, v =>
    match v with
    | .variant name label given =>
      match if name = owner then alternatives.find? (·.label = label) else none with
      | some a => do
        Buffer.writeByte a.index
        Encoder.fields encoder v (env.fieldOf? v given) a.fields
      | none => Encoder.fail (.notAnAlternative v owner)
    | v => Encoder.fail (.notAnAlternative v owner)

def ownEncoder (env : Environment) (encoder : Codec → Encoder) (r : Reference) : Encoder :=
  match env.codecFault? r, env.layout? r with
  | some .refused, _ => fun _ => throw .hidden
  | some _, _ => fun _ => throw .endless
  | none, none => env.unboundEncoder r
  | none, some layout => env.layoutEncoder encoder r.owner layout

/-- The encoder of declared types that are nested at most `level` deep. An alternative that hides
the operation takes the value and the buffer, and writes nothing. -/
def encoder (env : Environment) : (level : Nat) → Room → Reference → Encoder
  | 0, _, _ => fun _ => throw .endless
  | level + 1, room, r =>
    if room.holds (env.writingCalls r) then
      match env.hiding? .encodeTo r with
      | some c => fun _ => if c.takes 2 then pure () else throw .hidden
      | none => env.ownEncoder (Codec.encoder (env.encoder level) (room.inside r.calls)) r
    else fun _ => throw .endless

end Environment

namespace Codec

/-- Writes a value after what is in the buffer. Each declared type takes one level off the value,
so the levels suffice. -/
def encodeTo (env : Environment) (codec : Codec) (v : Value) : EStateM EncodeFailure Buffer Unit :=
  codec.encoder (env.encoder (v.depth + 1)) env.room v

def bytesOf (written : EStateM EncodeFailure Buffer Unit) : Except EncodeFailure Bytes :=
  match written.run .empty with
  | .ok _ b => .ok b.bytes
  | .error e _ => .error e

def encode (env : Environment) (codec : Codec) (v : Value) : Except EncodeFailure Bytes :=
  bytesOf (codec.encodeTo env v)

def encodeByLayout (env : Environment) (r : Reference) (v : Value) : Except EncodeFailure Bytes :=
  bytesOf (env.ownEncoder
    (Codec.encoder (env.encoder (v.depth + 1)) (env.room.inside (r.calls + 1))) r v)

end Codec
end InkBindings.Scale
