import InkBindings.Room
import InkBindings.Value.Basic
/-!
The shapes of the SCALE wire format. A codec is a tree over primitive shapes; a reference stands
for a declared type, whose own shape is kept apart so that declared types may be recursive.
-/

namespace InkBindings.Scale

inductive IntWidth
  | w8 | w16 | w32 | w64 | w128 | w256
  deriving DecidableEq, Repr

def IntWidth.bytes : IntWidth → Nat
  | .w8 => 1
  | .w16 => 2
  | .w32 => 4
  | .w64 => 8
  | .w128 => 16
  | .w256 => 32

structure IntKind where
  signed : Bool
  width : IntWidth
  deriving DecidableEq, Repr

namespace IntKind

def bits (k : IntKind) : Nat := 8 * k.width.bytes

def least (k : IntKind) : Int :=
  if k.signed then -(2 ^ (k.bits - 1)) else 0

def greatest (k : IntKind) : Int :=
  if k.signed then 2 ^ (k.bits - 1) - 1 else 2 ^ k.bits - 1

def name (k : IntKind) : String :=
  (if k.signed then "i" else "u") ++ toString k.bits

end IntKind

/-- A declared type in the place of a codec: by its own layout, or by the layout of one
instantiation of it, which has a key of its own. An alternative stands for its sum. -/
inductive Reference
  | declared (name : String)
  | alternative (owner label : String)
  | instantiation (key owner : String)
  deriving DecidableEq, Repr

namespace Reference

def owner : Reference → String
  | .declared name => name
  | .alternative owner _ => owner
  | .instantiation _ owner => owner

def name : Reference → String
  | .declared name => name
  | .alternative owner label => Value.alternativeName owner label
  | .instantiation _ owner => owner

def binding : Reference → Reference
  | .alternative owner _ => .declared owner
  | r => r

def isClass : Reference → Bool
  | .instantiation .. => false
  | _ => true

/-- The calls between a reference and the codecs of its fields: a class hands over to its codec, and
that to the fields. -/
def calls (r : Reference) : Nat := if r.isClass then 3 else 2

end Reference

inductive Codec
  | int (kind : IntKind)
  | bool
  | char
  | str
  | unit
  | bytes
  | accountId
  | hash
  | fixedBytes (length : Int)
  | compact (inner : Codec)
  | tuple (items : List Codec)
  | array (item : Codec) (length : Int)
  | sequence (item : Codec)
  | option (inner : Codec)
  | result (ok err : Codec)
  | map (key value : Codec)
  | langError
  /-- The language error, read as the exception that wraps it. -/
  | raisedLangError
  | reference (r : Reference)
  deriving Inhabited

namespace Codec

abbrev u8 : Codec := .int ⟨false, .w8⟩

/-- The name of a declared class within the bindings. -/
def className (name : String) : String := "<class 'contract." ++ name ++ "'>"

def frameworkClassName (name : String) : String :=
  "<class 'ink_wrapper_types.primitives." ++ name ++ "'>"

mutual

def display : Codec → String
  | .int kind => kind.name
  | .bool => "bool"
  | .char => "char"
  | .str => "str"
  | .unit => "()"
  | .bytes => "Vec<u8>"
  | .accountId | .hash => "[u8; 32]"
  | .fixedBytes length => "[u8; " ++ toString length ++ "]"
  | .compact inner => "Compact<" ++ display inner ++ ">"
  | .tuple items => "(" ++ ", ".intercalate (displayAll items) ++ ")"
  | .array item length => "[" ++ display item ++ "; " ++ toString length ++ "]"
  | .sequence item => "Vec<" ++ display item ++ ">"
  | .option inner => "Option<" ++ display inner ++ ">"
  | .result ok err => "Result<" ++ display ok ++ ", " ++ display err ++ ">"
  | .map key value => "BTreeMap<" ++ display key ++ ", " ++ display value ++ ">"
  | .langError => frameworkClassName "LangError"
  | .raisedLangError => frameworkClassName "InkLangError"
  | .reference r => if r.isClass then className r.name else r.name

def displayAll : List Codec → List String
  | [] => []
  | c :: rest => display c :: displayAll rest

end

mutual

def displayCalls : Codec → Nat
  | .tuple items => displayCallsOfAll items + 5
  | .compact inner | .array inner _ | .sequence inner | .option inner => displayCalls inner + 2
  | .result a b | .map a b => max (displayCalls a) (displayCalls b) + 2
  | _ => 2

def displayCallsOfAll : List Codec → Nat
  | [] => 0
  | c :: rest => max (displayCalls c) (displayCallsOfAll rest)

end

def displayWithin? (room : Room) (c : Codec) : Option String :=
  if room.holds (c.displayCalls + 1) then some c.display else none

/-- The codec as a failure of a whole reading names it: declared types go by their bare name. -/
def shortName : Codec → String
  | .langError => "LangError"
  | .raisedLangError => "InkLangError"
  | .reference r => r.owner
  | c => c.display

def intKind? : Codec → Option IntKind
  | .int kind => some kind
  | _ => none

def isUnit : Codec → Bool
  | .unit => true
  | _ => false

end Codec

def langErrorIndex : UInt8 := 1

/-- Named components of a record or an alternative, in wire order. -/
abbrev Fields := List (String × Codec)

end InkBindings.Scale
