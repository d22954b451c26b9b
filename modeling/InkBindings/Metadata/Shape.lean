import InkBindings.Metadata.Error
import InkBindings.Text.Truth
import InkBindings.Value.Conversion
/-!
Checking the shape of a JSON value. A check gives what it reads, or every issue it finds, in the
order in which the parts are declared.
-/

namespace InkBindings.Metadata

structure Issue where
  path : List Step
  problem : ShapeProblem
  deriving DecidableEq, Repr

def Issue.location (i : Issue) : String :=
  ".".intercalate (i.path.map Step.text)

/-- The result of a check; where it is bad there is at least one issue. -/
inductive Checked (α : Type)
  | ok (a : α)
  | bad (first : Issue) (more : List Issue)

namespace Checked

def map {α β : Type} (f : α → β) : Checked α → Checked β
  | .ok a => .ok (f a)
  | .bad first more => .bad first more

/-- Both checks are made, and the issues of both are kept. -/
def seq {α β : Type} (f : Checked (α → β)) (x : Unit → Checked α) : Checked β :=
  match f, x () with
  | .ok f, .ok a => .ok (f a)
  | .ok _, .bad first more => .bad first more
  | .bad first more, .ok _ => .bad first more
  | .bad first more, .bad first' more' => .bad first (more ++ first' :: more')

instance : Applicative Checked where
  pure := Checked.ok
  map := Checked.map
  seq := Checked.seq

def one {α : Type} (problem : ShapeProblem) : Checked α :=
  .bad ⟨[], problem⟩ []

def under {α : Type} (step : Step) : Checked α → Checked α
  | .ok a => .ok a
  | .bad first more =>
    let further (i : Issue) : Issue := { i with path := step :: i.path }
    .bad (further first) (more.map further)

end Checked

abbrev Check (α : Type) := Json → Checked α

namespace Check

def text : Check String
  | .str s => .ok s
  | _ => .one .notAText

/-- A plus sign counts for nothing, unless a minus follows. -/
def dropPlus : List Char → Option (List Char)
  | '+' :: '-' :: _ => none
  | '+' :: rest => some rest
  | cs => some cs

/-- The characters after zeros and underscores, with the last of these if a point follows or nothing
does. -/
def afterZeros (last : Char) : List Char → Option (List Char)
  | [] => some [last]
  | c :: rest =>
    if c = '0' || c = '_' then afterZeros c rest
    else if c.isDigit || c = '-' then some (c :: rest)
    else if c = '.' then some (last :: c :: rest)
    else none

def dropZeros : List Char → Option (List Char)
  | [] => none
  | c :: rest =>
    if c = '0' then afterZeros c rest
    else if c.isDigit || c = '-' then some (c :: rest)
    else none

def dropLeadingZeros : List Char → Option (List Char)
  | '-' :: rest => (dropZeros rest).map ('-' :: ·)
  | cs => dropZeros cs

def dropZeroFraction (cs : List Char) : List Char :=
  let fraction := (cs.dropWhile (· ≠ '.')).drop 1
  if !fraction.isEmpty && fraction.all (· = '0') then cs.takeWhile (· ≠ '.') else cs

def hasDouble : List Char → Bool
  | '_' :: '_' :: _ => true
  | _ :: rest => hasDouble rest
  | [] => false

/-- Drops underscores that stand alone and not at an end. -/
def dropUnderscores (cs : List Char) : List Char :=
  if cs.head? = some '_' || cs.getLast? = some '_' || hasDouble cs then cs
  else cs.filter (· ≠ '_')

/-- Reads an integer in its one plain form: a minus sign or none, then digits without a zero that
leads others. That there are too many is seen before what follows them. -/
def plainInteger (cs : List Char) : Checked Int :=
  let (negative, rest) := Binary64.splitMinus cs
  let digits := rest.takeWhile Char.isDigit
  if digits.head? ≠ some '0' && Text.maxDigits < digits.length then
    .one .integerTooLarge
  else if digits = rest && (digits = ['0'] || (!digits.isEmpty && digits.head? ≠ some '0')) then
    .ok (Text.applySign negative (Binary64.digitsAfter 0 digits))
  else .one .notAnIntegerText

/-- The plain form of a text that has blanks around it, a plus sign, zeros in front, single
underscores or a fraction of zeros besides. -/
def plainForm? (cs : List Char) : Option (List Char) := do
  let cs ← dropPlus (Text.trimChars Text.isWhiteSpace cs)
  let cs ← dropLeadingZeros cs
  return dropUnderscores (dropZeroFraction cs)

/-- A text writes an integer if it is its plain form or has one. Too many digits are told only of
the text as it stands. -/
def integerOfText (s : String) : Checked Int :=
  match plainInteger s.toList with
  | .bad ⟨_, .notAnIntegerText⟩ _ =>
    match (plainForm? s.toList).map plainInteger with
    | some (.ok n) => .ok n
    | _ => .one .notAnIntegerText
  | r => r

/-- A floating-point number is an integer if it has no fraction and fits in 64 bits. -/
def integerOfFloat (x : Binary64) : Checked Int :=
  match x with
  | .finite .. =>
    match x.toInt? with
    | none => .one .fractional
    | some n => if -(2 ^ 63) < n ∧ n < 2 ^ 63 then .ok n else .one .integerTooLarge
  | _ => .one .notFinite

def integer : Check Int
  | .bool b => .ok (if b then 1 else 0)
  | .int n => .ok n
  | .float x => integerOfFloat x
  | .str s => integerOfText s
  | _ => .one .notAnInteger

def truthOfText (s : String) : Checked Bool :=
  match Text.truth? s with
  | some b => .ok b
  | none => .one .unknownTruthValue

def truthOfInteger (n : Int) : Checked Bool :=
  if n = 0 then .ok false
  else if n = 1 then .ok true
  else .one .unknownTruthValue

def truth : Check Bool
  | .bool b => .ok b
  | .int n =>
    if -(2 ^ 63) ≤ n ∧ n < 2 ^ 63 then truthOfInteger n else .one .notATruthValue
  | .float x =>
    match integerOfFloat x with
    | .ok n => truthOfInteger n
    | .bad .. => .one .notATruthValue
  | .str s => truthOfText s
  | _ => .one .notATruthValue

/-- A text stays a text; another value is a number if it can be one. -/
def version : Check Version
  | .str s => .ok (.text s)
  | j =>
    match integer j with
    | .ok n => .ok (.number n)
    | .bad .. => (Checked.one .notAText).under (.key "str")

def nullable {α : Type} (check : Check α) : Check (Option α)
  | .null => .ok none
  | j => some <$> check j

def itemsFrom {α : Type} (check : Check α) : (index : Nat) → List Json → Checked (List α)
  | _, [] => .ok []
  | i, j :: rest => List.cons <$> (check j).under (.index i) <*> itemsFrom check (i + 1) rest

def list {α : Type} (check : Check α) : Check (List α)
  | .array items => itemsFrom check 0 items
  | _ => .one .notAList

def object : Check Json.Members
  | .object members => .ok members
  | _ => .one .notAnObject

def record {α : Type} (model : String) (check : Json.Members → Checked α) : Check α
  | .object members => check members
  | _ => .one (.notARecord model)

def findMember? (members : Json.Members) (names : List String) : Option (String × Json) :=
  names.findSome? fun n => (Json.member? members n).map (n, ·)

def required {α : Type} (members : Json.Members) (names : List String) (check : Check α) :
    Checked α :=
  match findMember? members names with
  | some (name, j) => (check j).under (.key name)
  | none => (Checked.one .missing).under (.key (names.headD ""))

def optional {α : Type} (members : Json.Members) (names : List String) (absent : α)
    (check : Check α) : Checked α :=
  match findMember? members names with
  | some (name, j) => (check j).under (.key name)
  | none => .ok absent

end Check
end InkBindings.Metadata
