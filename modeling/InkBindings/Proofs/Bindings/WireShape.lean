import InkBindings.Metadata.Registry
import InkBindings.Proofs.Bindings.Emitted

/-!
What is written on the wire for a type, to any depth. The shape of a type is read off the registry
by following its ids, and off the emitted blocks by following the names in codec expressions. Both
may go on without end: what lies deeper than one looks is cut off.
-/

namespace InkBindings.Bindings

inductive WireShape
  | cut
  | int (kind : Scale.IntKind)
  | bool
  | char
  | str
  | unit
  | bytes
  | fixedBytes (length : Int)
  /-- An account or a hash of so many bytes. -/
  | identifier (kind : IdentifierKind) (size : Nat)
  | langError
  | tuple (items : List WireShape)
  | array (item : WireShape) (length : Int)
  | sequence (item : WireShape)
  | compact (inner : WireShape)
  | option (inner : WireShape)
  | result (ok err : WireShape)
  | map (key value : WireShape)
  | record (fields : List WireShape)
  | sum (alternatives : List (Int × List WireShape))

end InkBindings.Bindings

/-! ### Off the registry -/

namespace InkBindings.Metadata

open Bindings (WireShape)

def Primitive.wireShape : Primitive → WireShape
  | .int kind => .int kind
  | .bool => .bool
  | .char => .char
  | .str => .str

/-- The shapes of the framework's types. -/
def frameworkShape? : String → Option WireShape
  | "AccountId" => some (.identifier .account 32)
  | "Hash" => some (.identifier .hash 32)
  | "LangError" => some .langError
  | _ => none

/-- The shapes of the built-in types with their parameters. -/
def builtinShape? (shape? : TypeId → Option WireShape) (name : String)
    (arguments : List TypeId) : Option WireShape :=
  match name, arguments with
  | "Option", [inner] => do return .option (← shape? inner)
  | "Result", [ok, err] => do return .result (← shape? ok) (← shape? err)
  | "BTreeMap", [key, value] => do return .map (← shape? key) (← shape? value)
  | _, _ => none

def Fields.wireShapes? (shape? : TypeId → Option WireShape) (fields : Fields) :
    Option (List WireShape) :=
  fields.toList.mapM fun f => shape? f.typeId

def Alternative.wireShape? (shape? : TypeId → Option WireShape) (a : Alternative) :
    Option (Int × List WireShape) := do
  return (a.index, ← a.fields.wireShapes? shape?)

/-- The shape of what the contract declares: components in order, alternatives by their indices. -/
def ownShape? (shape? : TypeId → Option WireShape) : Definition → Option WireShape
  | .composite fields => do return .record (← fields.wireShapes? shape?)
  | .variant alternatives => do
    return .sum (← alternatives.mapM (Alternative.wireShape? shape?))
  | _ => none

/-- The shape of a type to some depth. -/
def Registry.wireShape? (r : Registry) : (depth : Nat) → TypeId → Option WireShape
  | 0, _ => some .cut
  | depth + 1, id => do
    let e ← r.find? id
    match e.definition with
    | .primitive p => return p.wireShape
    | .tuple [] => return .unit
    | .tuple items => return .tuple (← items.mapM (r.wireShape? depth))
    | .array item length =>
      if (← r.find? item).isU8 then return .fixedBytes length
      else return .array (← r.wireShape? depth item) length
    | .sequence item =>
      if (← r.find? item).isU8 then return .bytes
      else return .sequence (← r.wireShape? depth item)
    | .compact item => return .compact (← r.wireShape? depth item)
    | .bitSequence _ _ => none
    | .composite _ | .variant _ =>
      match e.kind with
      | .reserved => frameworkShape? e.name
      | .builtin => builtinShape? (r.wireShape? depth) e.name e.arguments
      | .custom => ownShape? (r.wireShape? depth) e.definition

end InkBindings.Metadata

/-! ### Off the emitted blocks -/

namespace InkBindings.Bindings

/-- The codecs that the emitted module imports. -/
def importedCodecs : List (String × WireShape) :=
  [("scale.U8", .int ⟨false, .w8⟩), ("scale.U16", .int ⟨false, .w16⟩),
    ("scale.U32", .int ⟨false, .w32⟩), ("scale.U64", .int ⟨false, .w64⟩),
    ("scale.U128", .int ⟨false, .w128⟩), ("scale.U256", .int ⟨false, .w256⟩),
    ("scale.I8", .int ⟨true, .w8⟩), ("scale.I16", .int ⟨true, .w16⟩),
    ("scale.I32", .int ⟨true, .w32⟩), ("scale.I64", .int ⟨true, .w64⟩),
    ("scale.I128", .int ⟨true, .w128⟩), ("scale.I256", .int ⟨true, .w256⟩),
    ("scale.BOOL", .bool), ("scale.CHAR", .char), ("scale.STR", .str), ("scale.UNIT", .unit),
    ("scale.BYTES", .bytes), ("AccountId.SCALE", .identifier .account 32),
    ("Hash.SCALE", .identifier .hash 32), ("InkLangError", .langError)]

def importedShape? (name : String) : Option WireShape :=
  (importedCodecs.find? (·.1 = name)).map (·.2)

/-- The codec in a component of a layout, behind its name in quotes. -/
def component? : Phrase → Option Phrase
  | .group "" .round [.word name, codec] =>
    if name.toList.head? = some '"' then some codec else none
  | _ => none

namespace Emitted

/-- The codecs of an alternative with its index. -/
def alternative? (t : Emitted) : Phrase → Option (Int × List Phrase)
  | .group "" .round [.word className, .group "" .square components] => do
    return (← t.index? className, ← components.mapM component?)
  | _ => none

def listedShape? (shape? : Phrase → Option WireShape) (a : Int × List Phrase) :
    Option (Int × List WireShape) := do
  return (a.1, ← a.2.mapM shape?)

/-- The shape of what a layout was bound to, given those of codecs. -/
def boundShape? (t : Emitted) (shape? : Phrase → Option WireShape) (name : String) :
    Option WireShape := do
  let items ← t.bound? name
  match ← t.kind? name with
  | .record => return .record (← (← items.mapM component?).mapM shape?)
  | .sum =>
    return .sum (← (← items.mapM t.alternative?).mapM (listedShape? shape?))

/-- The shape of a function of the codec library, given those of codecs. -/
def libraryShape? (shape? : Phrase → Option WireShape) (name : String) (arguments : List Phrase) :
    Option WireShape :=
  match name, arguments with
  | "scale.FixedBytesCodec", [.word length] => do
    return .fixedBytes (← intOfChars? length.toList)
  | "scale.CompactCodec", [inner] => do return .compact (← shape? inner)
  | "scale.TupleCodec", items => do return .tuple (← items.mapM shape?)
  | "scale.ArrayCodec", [item, .word length] => do
    return .array (← shape? item) (← intOfChars? length.toList)
  | "scale.SequenceCodec", [item] => do return .sequence (← shape? item)
  | "scale.OptionCodec", [inner] => do return .option (← shape? inner)
  | "scale.ResultCodec", [ok, err] => do return .result (← shape? ok) (← shape? err)
  | "scale.MapCodec", [key, value] => do return .map (← shape? key) (← shape? value)
  | _, _ => none

/-- The shape of a codec expression, unfolded to some depth. -/
def codecShape? (t : Emitted) : (depth : Nat) → Phrase → Option WireShape
  | 0, _ => some .cut
  | depth + 1, .word name =>
    match importedShape? name with
    | some shape => some shape
    | none => t.boundShape? (t.codecShape? depth) name
  | depth + 1, .group name .round arguments => libraryShape? (t.codecShape? depth) name arguments
  | _ + 1, .group _ .square _ => none

end Emitted
end InkBindings.Bindings
