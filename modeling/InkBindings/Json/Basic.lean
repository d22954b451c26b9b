import InkBindings.Number.Shortest
import InkBindings.Text.Quoted
/-!
JSON values. Integers and floating-point numbers are told apart by how they are written; the
members of an object keep their order, and no two have the same name.
-/

namespace InkBindings

inductive Json
  | null
  | bool (b : Bool)
  | int (n : Int)
  | float (x : Binary64)
  | str (s : String)
  | array (items : List Json)
  | object (members : List (String × Json))
  deriving Inhabited

namespace Json

abbrev Members := List (String × Json)

def typeName : Json → String
  | .null => "NoneType"
  | .bool _ => "bool"
  | .int _ => "int"
  | .float _ => "float"
  | .str _ => "str"
  | .array _ => "list"
  | .object _ => "dict"

/-- Null, false, zero and what is empty do not count as present. -/
def isPresent : Json → Bool
  | .null => false
  | .bool b => b
  | .int n => n != 0
  | .float x => !x.isZero
  | .str s => !s.isEmpty
  | .array items => !items.isEmpty
  | .object members => !members.isEmpty

def member? (members : Members) (name : String) : Option Json :=
  (members.find? (·.1 = name)).map (·.2)

/-- Adds a member; one of the same name keeps its place and takes the new value. -/
def insertMember (members : Members) (name : String) (value : Json) : Members :=
  if members.any (·.1 = name) then
    members.map fun m => if m.1 = name then (m.1, value) else m
  else members ++ [(name, value)]

mutual

def display : Json → String
  | .null => "None"
  | .bool b => if b then "True" else "False"
  | .int n => toString n
  | .float x => x.text
  | .str s => Text.quote s
  | .array items => "[" ++ ", ".intercalate (displayItems items) ++ "]"
  | .object members => "\x7b" ++ ", ".intercalate (displayMembers members) ++ "\x7d"
  termination_by structural j => j

def displayItems : List Json → List String
  | [] => []
  | j :: rest => display j :: displayItems rest
  termination_by structural js => js

def displayMembers : List (String × Json) → List String
  | [] => []
  | (n, j) :: rest => (Text.quote n ++ ": " ++ display j) :: displayMembers rest
  termination_by structural ms => ms

end

end Json
end InkBindings
