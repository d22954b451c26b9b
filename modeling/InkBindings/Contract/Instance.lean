import InkBindings.Scale.Codec
import InkBindings.Value.AsIdentifier
/-!
Deployed contracts: the class that was emitted for the contract, and the account.
-/

namespace InkBindings

namespace Scale.Codec

mutual

def equals : Codec → Codec → Bool
  | .int a, .int b => a = b
  | .bool, .bool | .char, .char | .str, .str | .unit, .unit | .bytes, .bytes => true
  | .accountId, .accountId | .hash, .hash => true
  | .langError, .langError | .raisedLangError, .raisedLangError => true
  | .fixedBytes m, .fixedBytes n => m = n
  | .compact a, .compact b | .sequence a, .sequence b | .option a, .option b => equals a b
  | .tuple as, .tuple bs => equalsAll as bs
  | .array a m, .array b n => equals a b && decide (m = n)
  | .result a c, .result b d | .map a c, .map b d => equals a b && equals c d
  | .reference a, .reference b => a = b
  | _, _ => false

def equalsAll : List Codec → List Codec → Bool
  | [], [] => true
  | a :: as, b :: bs => equals a b && equalsAll as bs
  | _, _ => false

end

end Scale.Codec

namespace Contract

/-- A class of instances. Its events have a type of their own, or none. -/
structure InstanceClass where
  name : String
  event : Option Scale.Codec

namespace InstanceClass

def equals (a b : InstanceClass) : Bool :=
  a.name == b.name &&
    match a.event, b.event with
    | none, none => true
    | some c, some d => c.equals d
    | _, _ => false

end InstanceClass

structure Instance where
  ofClass : InstanceClass
  account : Identifier

namespace Instance

def make (c : InstanceClass) (account : Value) : Except IdentifierError Instance := do
  return ⟨c, ← IdentifierKind.account.read account⟩

def equals (a b : Instance) : Bool :=
  a.ofClass.equals b.ofClass && decide (a.account = b.account)

def display (i : Instance) : String :=
  s!"{i.ofClass.name}({i.account.text})"

/-- The instances without those that equal an earlier one. -/
def distinct (instances : List Instance) : List Instance :=
  instances.foldl (fun kept i => if kept.any (equals i) then kept else kept ++ [i]) []

end Instance

end Contract

end InkBindings
