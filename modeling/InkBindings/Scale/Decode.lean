import InkBindings.Scale.Compact
import InkBindings.Scale.Hiding
import InkBindings.Value.Order
/-!
Reading values. A decoder starts at an offset into the data and gives the value with the offset
after it. Like the encoder it is put together from the parts of a codec and looks declared types up
in an environment.
-/

namespace InkBindings.Scale

abbrev Decoder := Source → Int → Except DecodeFailure (Value × Int)

namespace Decoder

/-- The number that bytes stand for, two's complement where they are signed. -/
def integerOf (signed : Bool) (raw : Bytes) : Int :=
  let n := Bytes.toNat raw
  let bound := 256 ^ raw.length
  if signed && bound ≤ 2 * n then n - bound else n

def integer (kind : IntKind) : Decoder := fun data offset => do
  let (raw, next) ← data.takeBytes offset kind.width.bytes
  return (.int (integerOf kind.signed raw), next)

def bool : Decoder := fun data offset => do
  let (tag, next) ← data.takeTag offset
  if ← tag.exceedsOne then throw (tag.fault .invalidBool)
  return (.bool (tag.is 1), next)

def char : Decoder := fun data offset => do
  let (raw, next) ← data.takeBytes offset 4
  let n := Bytes.toNat raw
  if n.isValidChar then return (.str (String.singleton (Char.ofNat n)), next)
  else throw (.bytes (.invalidCodePoint n))

def counted (data : Source) (offset : Int) : Except DecodeFailure (Stretch × Int) := do
  let (n, next) ← Compact.decode data offset
  data.take next n

def str : Decoder := fun data offset => do
  let (taken, next) ← counted data offset
  match ← taken.text with
  | .ok s => return (.str s, next)
  | .error fault => throw (.bytes (.invalidText fault))

def unit : Decoder := fun _ offset =>
  return (.none, offset)

def bytes : Decoder := fun data offset => do
  let (taken, next) ← counted data offset
  return (taken.toValue, next)

/-- A negative length steps back. -/
def fixedBytes (length : Int) : Decoder := fun data offset => do
  let (taken, next) ← data.take offset length
  return (taken.toValue, next)

def identifierOf (kind : IdentifierKind) : Stretch → Except IdentifierError Identifier
  | .bytes b => kind.ofBytes b
  | .value v => kind.read v

def identifier (kind : IdentifierKind) : Decoder := fun data offset => do
  let (taken, next) ← data.take offset identifierSize
  match identifierOf kind taken with
  | .ok id => return (kind.wrap id, next)
  | .error e => throw (.identifier e)

def compact (kind? : Option IntKind) : Decoder := fun data offset => do
  let (n, next) ← Compact.decode data offset
  match kind? with
  | some kind =>
    if kind.greatest < n then throw (.bytes (.compactOutOfRange n kind))
    return (.compact (.int n), next)
  | none => return (.compact (.int n), next)

def each : List Decoder → Source → Int → Except DecodeFailure (List Value × Int)
  | [], _, offset => return ([], offset)
  | d :: ds, data, offset => do
    let (v, next) ← d data offset
    let (vs, next) ← each ds data next
    return (v :: vs, next)

def tuple (items : List Decoder) : Decoder := fun data offset => do
  let (vs, next) ← each items data offset
  return (.tuple vs, next)

/-- Reads `count` more items after those that have been read, the last of them first. -/
def repeated (item : Decoder) (data : Source) :
    (count : Nat) → (read : List Value) → Int → Except DecodeFailure (List Value × Int)
  | 0, read, offset => return (read.reverse, offset)
  | count + 1, read, offset => do
    let (v, next) ← item data offset
    repeated item data count (v :: read) next

theorem repeated_eq_map (item : Decoder) (data : Source) (count : Nat) (read : List Value)
    (offset : Int) :
    repeated item data count read offset =
      (repeated item data count [] offset).map fun r => (read.reverse ++ r.1, r.2) := by
  induction count generalizing read offset with
  | zero => simp [repeated, Pure.pure, Except.pure, Except.map]
  | succ count ih =>
    simp only [repeated]
    cases item data offset with
    | error e => rfl
    | ok r =>
      simp only [Bind.bind, Except.bind]
      rw [ih (r.1 :: read), ih [r.1]]
      cases repeated item data count [] r.2 <;> simp [Except.map]

def array (item : Decoder) (length : Int) : Decoder := fun data offset => do
  let (vs, next) ← repeated item data length.toNat [] offset
  return (.list vs, next)

/-- Whether so many items of at least one byte can follow. -/
def fits (count : Int) (data : Source) (offset : Int) : Bool :=
  count ≤ data.size - offset

/-- Every item is taken to have at least one byte, unless it is the unit. -/
def sequence (itemIsUnit : Bool) (item : Decoder) : Decoder := fun data offset => do
  let (n, next) ← Compact.decode data offset
  if !fits n data next && !itemIsUnit then throw (.bytes (.sequenceTooLong n))
  let (vs, next) ← repeated item data n.toNat [] next
  return (.list vs, next)

def option (inner : Decoder) : Decoder := fun data offset => do
  let (tag, next) ← data.takeTag offset
  if tag.is 0 then return (.none, next)
  else if tag.is 1 then inner data next
  else throw (tag.fault .invalidOptionTag)

def result (ok err : Decoder) : Decoder := fun data offset => do
  let (tag, next) ← data.takeTag offset
  if tag.is 0 then
    let (v, next) ← ok data next
    return (.ok v, next)
  else if tag.is 1 then
    let (v, next) ← err data next
    return (.err v, next)
  else throw (tag.fault .invalidResultTag)

mutual

/-- A list in the place of a key becomes a tuple, and so do the lists in it. -/
def hashableKey : Value → Value
  | .list items => .tuple (hashableKeys items)
  | v => v

def hashableKeys : List Value → List Value
  | [] => []
  | v :: rest => hashableKey v :: hashableKeys rest

end

/-- Reads `count` more entries after those that have been read, the last of them first. -/
def entries (key value : Decoder) (data : Source) :
    (count : Nat) → (read : List (Value × Value)) → Int →
      Except DecodeFailure (List (Value × Value) × Int)
  | 0, read, offset => return (read.reverse, offset)
  | count + 1, read, offset => do
    let (k, next) ← key data offset
    let (v, next) ← value data next
    entries key value data count ((hashableKey k, v) :: read) next

theorem entries_eq_map (key value : Decoder) (data : Source) (count : Nat)
    (read : List (Value × Value)) (offset : Int) :
    entries key value data count read offset =
      (entries key value data count [] offset).map fun r => (read.reverse ++ r.1, r.2) := by
  induction count generalizing read offset with
  | zero => simp [entries, Pure.pure, Except.pure, Except.map]
  | succ count ih =>
    simp only [entries]
    cases key data offset with
    | error e => rfl
    | ok k =>
      simp only [Bind.bind, Except.bind]
      cases value data k.2 with
      | error e => rfl
      | ok v =>
        simp only
        rw [ih ((hashableKey k.1, v.1) :: read), ih [(hashableKey k.1, v.1)]]
        cases entries key value data count [] v.2 <;> simp [Except.map]

/-- The dictionary of the entries, or their list if some key cannot be one. -/
def mapOf (pairs : List (Value × Value)) : Value :=
  (Value.dictOf? pairs).getD (.list (pairs.map fun p => .tuple [p.1, p.2]))

def map (key value : Decoder) : Decoder := fun data offset => do
  let (n, next) ← Compact.decode data offset
  if !fits n data next then throw (.bytes (.mapTooLong n))
  let (pairs, next) ← entries key value data n.toNat [] next
  return (mapOf pairs, next)

def chosen {α : Type} (index : α → UInt8) (alternatives : List α) (owner : String) (data : Source)
    (offset : Int) : Except DecodeFailure (α × Int) := do
  let (tag, next) ← data.takeTag offset
  if !tag.isHashable then throw (.conversion .notConvertible)
  match alternatives.find? (tag.is <| index ·) with
  | some a => return (a, next)
  | none => throw (.bytes (.unknownAlternative tag.text owner))

def langErrorOf (wrap : Value) : Decoder := fun data offset => do
  let (_, next) ← chosen id [langErrorIndex] Value.langErrorName data offset
  return (wrap, next)

def fields (decoder : Codec → Decoder) :
    Fields → Source → Int → Except DecodeFailure (List (String × Value) × Int)
  | [], _, offset => return ([], offset)
  | (name, codec) :: rest, data, offset => do
    let (v, next) ← decoder codec data offset
    let (vs, next) ← fields decoder rest data next
    return ((name, v) :: vs, next)

end Decoder

mutual

def Codec.decoder (declared : Room → Reference → Decoder) (room : Room) : Codec → Decoder
  | .int kind => Decoder.integer kind
  | .bool => Decoder.bool
  | .char => Decoder.char
  | .str => Decoder.str
  | .unit => Decoder.unit
  | .bytes => Decoder.bytes
  | .accountId => Decoder.identifier .account
  | .hash => Decoder.identifier .hash
  | .fixedBytes length => Decoder.fixedBytes length
  | .compact inner => Decoder.compact inner.intKind?
  | .tuple items => Decoder.tuple (Codec.decoders declared (room.inside 1) items)
  | .array item length => Decoder.array (Codec.decoder declared (room.inside 1) item) length
  | .sequence item =>
    Decoder.sequence item.isUnit (Codec.decoder declared (room.inside 1) item)
  | .option inner => Decoder.option (Codec.decoder declared (room.inside 1) inner)
  | .result ok err =>
    Decoder.result (Codec.decoder declared (room.inside 1) ok)
      (Codec.decoder declared (room.inside 1) err)
  | .map key value =>
    Decoder.map (Codec.decoder declared (room.inside 1) key)
      (Codec.decoder declared (room.inside 1) value)
  | .langError => Decoder.langErrorOf .langError
  | .raisedLangError => Decoder.langErrorOf .raisedLangError
  | .reference r => declared room r

def Codec.decoders (declared : Room → Reference → Decoder) (room : Room) :
    List Codec → List Decoder
  | [] => []
  | c :: rest => Codec.decoder declared room c :: Codec.decoders declared room rest

end

def made (owner : String) : Except InstanceError Value → Except DecodeFailure Value
  | .ok v => .ok v
  | .error .endless => .error .endless
  | .error _ => .error (.construction owner)

namespace Environment

def layoutDecoder (env : Environment) (decoder : Codec → Decoder) (owner : String) :
    Layout → Decoder
  | .record fields, data, offset => do
    let (values, next) ← Decoder.fields decoder fields data offset
    return (← made owner (env.makeRecord owner values), next)
  | .sum alternatives, data, offset => do
    let (a, next) ← Decoder.chosen Alternative.index alternatives owner data offset
    let (values, next) ← Decoder.fields decoder a.fields data next
    return (← made owner (env.makeVariant owner a.label values), next)

def ownDecoder (env : Environment) (decoder : Codec → Decoder) (r : Reference) : Decoder :=
  match env.codecFault? r, env.layout? r with
  | some .refused, _ => fun _ _ => throw .hidden
  | some _, _ => fun _ _ => throw .endless
  | none, none =>
    fun _ _ => throw (.layout (if r.isClass then .generic r.name else .unbound r.name))
  | none, some layout => env.layoutDecoder decoder r.owner layout

/-- The decoder of declared types that are nested at most `level` deep. What an alternative that
hides the operation makes of the data has no offset after it. -/
def decoder (env : Environment) : (level : Nat) → Room → Reference → Decoder
  | 0, _, _ => fun _ _ => throw .endless
  | level + 1, room, r =>
    if !room.holds (env.readingCalls r) then fun _ _ => throw .endless
    else if (env.hiding? .decodeFrom r).isSome then fun _ _ => throw .hidden
    else env.ownDecoder (Codec.decoder (env.decoder level) (room.inside r.calls)) r

/-- How deep declared types can be nested in data from an offset on: between two of the same type
the offset must have changed, or the nesting has no end. -/
def possibleLevels (env : Environment) (data : Source) (offset : Int) : Nat :=
  (2 * data.size + offset.natAbs + 1) * (env.layouts.length + 1) + 1

end Environment

namespace Codec

def decodeFrom (env : Environment) (codec : Codec) : Decoder := fun data offset =>
  codec.decoder (env.decoder (env.possibleLevels data offset)) env.room data offset

/-- Reads a value at an offset by the layout that a class is bound to. -/
def decodeFromOwn (env : Environment) (codec : Codec) : Decoder := fun data offset =>
  let decoder := env.decoder (env.possibleLevels data offset)
  let room := env.room.inside 1
  match codec with
  | .reference r => env.ownDecoder (Codec.decoder decoder (room.inside r.calls)) r data offset
  | codec => codec.decoder decoder room data offset

/-- What an alternative makes of data where it hides the reading of a whole value. -/
def decodeHidden? (env : Environment) (codec : Codec) (data : Value) :
    Option (Except DecodeFailure Value) :=
  match codec with
  | .reference r => (env.hiding? .decode r).map fun c =>
    match c.make? r.owner [data] with
    | some v => .ok v
    | none => .error .hidden
  | _ => none

def decodeAll (env : Environment) (codec : Codec) (data : Source) : Except DecodeFailure Value := do
  let (v, next) ← codec.decodeFromOwn env data 0
  if next = data.size then return v
  else throw (.bytes (.trailing (data.size - next) codec.shortName))

def decode (env : Environment) (codec : Codec) (data : Bytes) : Except DecodeFailure Value :=
  match codec.decodeHidden? env (.bytes data) with
  | some made => made
  | none => codec.decodeAll env data

end Codec
end InkBindings.Scale
