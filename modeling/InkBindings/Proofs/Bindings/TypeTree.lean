import InkBindings.Proofs.Bindings.ExprTree
import InkBindings.Proofs.Metadata.Declarations

/-!
The tree of a type, as its descriptor in the registry tells it, and what annotations and codecs are
as expressions by the tree. Byte strings are leaves. A declared type is a leaf of a codec; in an
annotation it has its generic parameters below it.
-/

namespace InkBindings.Bindings

open Metadata (TypeId TypeEntry Declaration Primitive)

inductive TypeTree
  | primitive (p : Primitive)
  | unit
  | tuple (items : List TypeTree)
  | fixedBytes (length : Int)
  | array (item : TypeTree) (length : Int)
  | bytes
  | sequence (item : TypeTree)
  | compact (item : TypeTree)
  | reserved (r : Reserved)
  | option (inner : TypeTree)
  | result (ok err : TypeTree)
  | map (key value : TypeTree)
  | declared (d : Declaration) (id : TypeId) (parameters : List TypeTree)

/-! ### Off the registry -/

namespace Scope

/-- The tree of a composite or a variant by those of other types. -/
def structuredTree (s : Scope) (deep : Bool) (sub : TypeId → Option TypeTree) (e : TypeEntry) :
    Option TypeTree := do
  match e.kind with
  | .reserved => return .reserved (← Reserved.ofName? e.name)
  | .builtin =>
    match e.name, e.arguments with
    | "Option", [inner] => return .option (← sub inner)
    | "Result", [ok, err] => return .result (← sub ok) (← sub err)
    | "BTreeMap", [key, value] => return .map (← sub key) (← sub value)
    | _, _ => none
  | .custom =>
    let d ← s.declaration? e
    return .declared d e.id (← if deep then e.arguments.mapM sub else some [])

/-- The tree of an entry by those of other types, with what is below declared types or without. -/
def entryTree (s : Scope) (deep : Bool) (sub : TypeId → Option TypeTree) (e : TypeEntry) :
    Option TypeTree := do
  match e.definition with
  | .primitive p => return .primitive p
  | .tuple [] => return .unit
  | .tuple items => return .tuple (← items.mapM sub)
  | .array item length =>
    if (← s.registry.find? item).isU8 then return .fixedBytes length
    else return .array (← sub item) length
  | .sequence item =>
    if (← s.registry.find? item).isU8 then return .bytes else return .sequence (← sub item)
  | .compact item => return .compact (← sub item)
  | .bitSequence _ _ => none
  | .composite _ | .variant _ => s.structuredTree deep sub e

def treeWithin (s : Scope) (deep : Bool) : (depth : Nat) → TypeId → Option TypeTree
  | 0, _ => none
  | depth + 1, id => do s.entryTree deep (s.treeWithin deep depth) (← s.registry.find? id)

/-- The tree that the codec of a type is rendered from. -/
def codecTree (s : Scope) (id : TypeId) : Option TypeTree :=
  s.treeWithin false s.depth id

/-- The tree that the annotation of a type is rendered from. -/
def annotationTree (s : Scope) (id : TypeId) : Option TypeTree :=
  s.treeWithin true s.depth id

end Scope

/-! ### Expressions -/

def primitiveCodecName : Primitive → String
  | .int kind => (if kind.signed then "I" else "U") ++ toString kind.bits
  | .bool => "BOOL"
  | .char => "CHAR"
  | .str => "STR"

def primitiveTypeName : Primitive → String
  | .int _ => "int"
  | .bool => "bool"
  | .char | .str => "str"

def Reserved.codecName : Reserved → List String
  | .accountId => ["AccountId", "SCALE"]
  | .hash => ["Hash", "SCALE"]
  | .langError => ["InkLangError"]

def Reserved.typeName : Reserved → String
  | .accountId => "AccountId"
  | .hash => "Hash"
  | .langError => "InkLangError"

namespace TypeTree

/-- A function of the codec library, applied. -/
def library (name : String) (arguments : List ExprTree) : ExprTree :=
  .applied ["scale", name] arguments

mutual

/-- The codec of a type where declared types are qualified by these segments. -/
def codecExpr (q : List String) : TypeTree → ExprTree
  | primitive p => .name ["scale", primitiveCodecName p]
  | unit => .name ["scale", "UNIT"]
  | tuple items => library "TupleCodec" (codecExprs q items)
  | fixedBytes length => library "FixedBytesCodec" [.number length.toNat]
  | array item length => library "ArrayCodec" [codecExpr q item, .number length.toNat]
  | bytes => .name ["scale", "BYTES"]
  | sequence item => library "SequenceCodec" [codecExpr q item]
  | compact item => library "CompactCodec" [codecExpr q item]
  | reserved r => .name r.codecName
  | option inner => library "OptionCodec" [codecExpr q inner]
  | result ok err => library "ResultCodec" [codecExpr q ok, codecExpr q err]
  | map key value => library "MapCodec" [codecExpr q key, codecExpr q value]
  | declared d id _ => .name (q ++ [referenceName (entryReference d id)])

def codecExprs (q : List String) : List TypeTree → List ExprTree
  | [] => []
  | t :: rest => codecExpr q t :: codecExprs q rest

end

mutual

/-- The annotation of a type where declared types are qualified by these segments. -/
def annotationExpr (q : List String) : TypeTree → ExprTree
  | primitive p => .name [primitiveTypeName p]
  | unit => .name ["None"]
  | tuple items => .applied ["Tuple"] (annotationExprs q items)
  | fixedBytes _ | bytes => .name ["bytes"]
  | array item _ | sequence item => .applied ["List"] [annotationExpr q item]
  | compact item => .applied ["Compact"] [annotationExpr q item]
  | reserved r => .name [r.typeName]
  | option inner => .applied ["Optional"] [annotationExpr q inner]
  | result ok err => .applied ["Result"] [annotationExpr q ok, annotationExpr q err]
  | map key value => .applied ["Dict"] [annotationExpr q key, annotationExpr q value]
  | declared d _ [] => .name (q ++ [d.name])
  | declared d _ parameters => .applied (q ++ [d.name]) (annotationExprs q parameters)

def annotationExprs (q : List String) : List TypeTree → List ExprTree
  | [] => []
  | t :: rest => annotationExpr q t :: annotationExprs q rest

end

end TypeTree
end InkBindings.Bindings
