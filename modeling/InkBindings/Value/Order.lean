import InkBindings.Value.Basic
/-!
Equality and order of values. Truth values, integers and floating-point numbers are numbers and
compare by what they count; byte strings compare by content in all their forms. Only numbers,
texts, byte strings and sequences of one kind have an order.
-/

namespace InkBindings

inductive Number
  | int (n : Int)
  | float (x : Binary64)

namespace Number

def compare? : Number → Number → Option Ordering
  | .int a, .int b => some (compare a b)
  | .float x, .int b => x.compareInt? b
  | .int a, .float y => (y.compareInt? a).map Ordering.swap
  | .float x, .float y => x.compare? y

end Number

namespace Value

def number? : Value → Option Number
  | .bool b => some (.int (if b then 1 else 0))
  | .int n => some (.int n)
  | .float x => some (.float x)
  | _ => Option.none

def atomEquals (a b : Value) : Bool :=
  match a.number?, b.number? with
  | some x, some y => x.compare? y == some .eq
  | _, _ =>
    match a.byteContent?, b.byteContent? with
    | some x, some y => x == y
    | _, _ =>
      match a, b with
      | .none, .none => true
      | .str s, .str t => s == t
      | .langError, .langError => true
      | .raisedLangError, .raisedLangError => true
      | .member kind text, .member kind' text' => kind == kind' && text == text'
      | _, _ => false

mutual

/-- Equality of two values made apart from each other: two exceptions are never the same. -/
def equals : Value → Value → Bool
  | .list xs, b => match b with
    | .list ys => equalItems xs ys
    | _ => false
  | .tuple xs, b => match b with
    | .tuple ys => equalItems xs ys
    | _ => false
  | .dict es, b => match b with
    | .dict fs => es.length == fs.length && entriesAmong es fs
    | _ => false
  | .compact x, b => match b with
    | .compact y => equals x y
    | _ => false
  | .ok x, b => match b with
    | .ok y => equals x y
    | _ => false
  | .err x, b => match b with
    | .err y => equals x y
    | _ => false
  | .record name fs, b => match b with
    | .record name' gs => name == name' && equalFields fs gs
    | _ => false
  | .variant owner label fs, b => match b with
    | .variant owner' label' gs => owner == owner' && label == label' && equalFields fs gs
    | _ => false
  | a, b => atomEquals a b
  termination_by structural a => a

def equalItems : List Value → List Value → Bool
  | [], [] => true
  | x :: xs, y :: ys => equals x y && equalItems xs ys
  | _, _ => false
  termination_by structural xs => xs

/-- Each entry stands somewhere among the others. -/
def entriesAmong : List (Value × Value) → List (Value × Value) → Bool
  | [], _ => true
  | (k, v) :: rest, fs => fs.any (fun f => equals k f.1 && equals v f.2) && entriesAmong rest fs
  termination_by structural es => es

def equalFields : List (String × Value) → List (String × Value) → Bool
  | [], [] => true
  | (n, x) :: xs, (m, y) :: ys => n == m && equals x y && equalFields xs ys
  | _, _ => false
  termination_by structural xs => xs

end

/-- A value always equals itself, unless it is no number. -/
def equalsItself : Value → Bool
  | .float x => !x.isNan
  | _ => true

def lessBytes : Bytes → Bytes → Bool
  | [], [] => false
  | [], _ :: _ => true
  | _ :: _, [] => false
  | x :: xs, y :: ys => x < y || (x == y && lessBytes xs ys)

mutual

/-- Whether the first value comes before the second; nothing where they have no order. -/
def less? : Value → Value → Option Bool
  | .list xs, b => match b with
    | .list ys => lessItems? xs ys
    | _ => Option.none
  | .tuple xs, b => match b with
    | .tuple ys => lessItems? xs ys
    | _ => Option.none
  | a, b =>
    match a.number?, b.number? with
    | some x, some y => some (x.compare? y == some .lt)
    | _, _ =>
      match a.byteContent?, b.byteContent? with
      | some x, some y => some (lessBytes x y)
      | _, _ =>
        match a, b with
        | .str s, .str t => some (decide (s < t))
        | _, _ => Option.none
  termination_by structural a => a

/-- Sequences compare at the first place where they differ, else by length. -/
def lessItems? : List Value → List Value → Option Bool
  | [], ys => some !ys.isEmpty
  | _ :: _, [] => some false
  | x :: xs, y :: ys => if equals x y then lessItems? xs ys else less? x y
  termination_by structural xs => xs

end

def ascending : List Value → Bool
  | a :: b :: rest => less? a b == some true && ascending (b :: rest)
  | _ => true

inductive OrderKind
  | number
  | text
  | bytes
  deriving DecidableEq, Repr

def orderKind? : Value → Option OrderKind
  | .bool _ | .int _ => some .number
  | .float x => if x.isNan then Option.none else some .number
  | .str _ => some .text
  | v => if v.byteContent?.isSome then some .bytes else Option.none

def areOfOneKind : List Value → Bool
  | [] => true
  | v :: rest =>
    match v.orderKind? with
    | some kind => rest.all (·.orderKind? == some kind)
    | Option.none => false

/-- Adds an entry to a dictionary, the newest first: an equal key stays where it is and takes the
new value. -/
def insertEntry (entries : List (Value × Value)) (key value : Value) : List (Value × Value) :=
  if entries.any fun e => equals e.1 key then
    entries.map fun e => if equals e.1 key then (e.1, value) else e
  else (key, value) :: entries

/-- The dictionary with these entries, added in order; nothing if a key cannot be one. No two of
ascending keys are equal. -/
def dictOf? (entries : List (Value × Value)) : Option Value :=
  if entries.all fun e => e.1.isHashable then
    some <| .dict <|
      if ascending (entries.map (·.1)) then entries
      else (entries.foldl (fun d e => insertEntry d e.1 e.2) []).reverse
  else Option.none

end Value
end InkBindings
