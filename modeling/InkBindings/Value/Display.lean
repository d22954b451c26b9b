import InkBindings.Number.Shortest
import InkBindings.Room
import InkBindings.Text.Quoted
import InkBindings.Value.Basic
/-!
Values as text: `display` writes a value the way source code would, `text` gives texts and
identifiers plainly.
-/

namespace InkBindings.Value

def displayCall (name : String) (arguments : List String) : String :=
  name ++ "(" ++ ", ".intercalate arguments ++ ")"

/-- A tuple; one item alone is followed by a comma. -/
def displayTuple : List String → String
  | [x] => "(" ++ x ++ ",)"
  | xs => "(" ++ ", ".intercalate xs ++ ")"

mutual

def display : Value → String
  | .none => "None"
  | .bool b => if b then "True" else "False"
  | .int n => toString n
  | .float x => x.text
  | .str s => Text.quote s
  | .bytes b => Text.quoteBytes b
  | .byteArray b => displayCall "bytearray" [Text.quoteBytes b]
  | .accountId id => displayCall "AccountId" [id.text]
  | .hash id => displayCall "Hash" [id.text]
  | .list items => "[" ++ ", ".intercalate (displayItems items) ++ "]"
  | .tuple items => displayTuple (displayItems items)
  | .dict entries => "\x7b" ++ ", ".intercalate (displayEntries entries) ++ "\x7d"
  | .compact inner => displayCall "Compact" ["value=" ++ display inner]
  | .ok inner => displayCall "Ok" ["value=" ++ display inner]
  | .err inner => displayCall "Err" ["error=" ++ display inner]
  | .record name fields => displayCall name (displayFields fields)
  | .variant owner label fields => displayCall (alternativeName owner label) (displayFields fields)
  | .langError => displayCall (alternativeName langErrorName langErrorLabel) []
  | .raisedLangError => displayCall raisedLangErrorName [langErrorLabel]
  | .exception kind text => displayCall kind [Text.quote text]
  | .member _ text => text
  termination_by structural v => v

def displayItems : List Value → List String
  | [] => []
  | v :: rest => display v :: displayItems rest
  termination_by structural vs => vs

def displayEntries : List (Value × Value) → List String
  | [] => []
  | (k, v) :: rest => (display k ++ ": " ++ display v) :: displayEntries rest
  termination_by structural es => es

def displayFields : List (String × Value) → List String
  | [] => []
  | (n, v) :: rest => (n ++ "=" ++ display v) :: displayFields rest
  termination_by structural fs => fs

end

mutual

/-- How many calls inside one another show a value: one for a value of a plain kind, and three where
the kind has a form of its own. -/
def displayCalls : Value → Nat
  | .list items | .tuple items => displayCallsOfItems items + 1
  | .dict entries => displayCallsOfEntries entries + 1
  | .compact inner | .ok inner | .err inner => displayCalls inner + 3
  | .record _ fields | .variant _ _ fields => displayCallsOfFields fields + 3
  | _ => 1
  termination_by structural v => v

def displayCallsOfItems : List Value → Nat
  | [] => 0
  | v :: rest => max (displayCalls v) (displayCallsOfItems rest)
  termination_by structural vs => vs

def displayCallsOfEntries : List (Value × Value) → Nat
  | [] => 0
  | (k, v) :: rest => max (max (displayCalls k) (displayCalls v)) (displayCallsOfEntries rest)
  termination_by structural es => es

def displayCallsOfFields : List (String × Value) → Nat
  | [] => 0
  | (_, v) :: rest => max (displayCalls v) (displayCallsOfFields rest)
  termination_by structural fs => fs

end

def displayWithin? (room : Room) (v : Value) : Option String :=
  if room.holds (v.displayCalls + 1) then some v.display else Option.none

/-- The message of an exception of this kind; a missing key is quoted. -/
def exceptionText (kind text : String) : String :=
  if kind = "KeyError" then Text.quote text else text

def text : Value → String
  | .str s => s
  | .accountId id | .hash id => id.text
  | .exception kind text => exceptionText kind text
  | v => v.display

end InkBindings.Value
