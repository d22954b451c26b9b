import InkBindings.Scale.Hiding
/-!
Binding layouts to declared types, when all are there. A layout of a sum is only bound if its
alternatives have different indices of one byte.
-/

namespace InkBindings.Scale

inductive BindError
  | invalidIndex (listed : String)
  | duplicateIndex (index : UInt8) (owner : String)
  | unknownAlternative (owner label : String)
  deriving DecidableEq, Repr

def BindError.message : BindError → String
  | .invalidIndex listed => s!"{listed} has no valid variant index"
  | .duplicateIndex index owner => s!"duplicate variant index {index.toNat} in {owner}"
  | .unknownAlternative owner label => s!"{owner} has no alternative {label}"

/-- An index that fits in the one byte that tells alternatives apart. -/
def validIndex? : Option Int → Option UInt8
  | some i => if 0 ≤ i ∧ i ≤ 255 then some (UInt8.ofNat i.toNat) else none
  | none => none

/-- The index of what a sum has under a label, if it is an alternative with a valid one. -/
def indexOf (owner : String) (classes : List AlternativeClass) (label : String) :
    Except BindError UInt8 :=
  match classes.find? (·.label = label) with
  | some c =>
    match validIndex? c.index with
    | some index => .ok index
    | none => .error (.invalidIndex (Codec.className (Value.alternativeName owner label)))
  | none =>
    match ClassKind.member? (.sum owner (classes.map (·.label))) label with
    | some v => .error (.invalidIndex v.display)
    | none => .error (.unknownAlternative owner label)

def bindAlternatives (owner : String) (classes : List AlternativeClass) (bound : List Alternative) :
    List (String × Fields) → Except BindError (List Alternative)
  | [] => .ok bound
  | (label, fields) :: rest => do
    let index ← indexOf owner classes label
    if bound.any (·.index = index) then throw (.duplicateIndex index owner)
    bindAlternatives owner classes (bound ++ [⟨label, index, fields⟩]) rest

namespace Environment

/-- What is bound to an instantiation of a sum already; a type starts anew. -/
def boundAlternatives (env : Environment) (r : Reference) : List Alternative :=
  match r.isClass, env.layout? r with
  | false, some (.sum alternatives) => alternatives
  | _, _ => []

def bindSum (env : Environment) (r : Reference) (entries : List (String × Fields)) :
    Except BindError Environment := do
  return env.addLayout r (.sum
    (← bindAlternatives r.owner (env.alternatives r.owner) (env.boundAlternatives r) entries))

end Environment

inductive LayoutStep
  | bound (env : Environment)
  /-- An alternative stands where layouts are bound, and cannot be made from one. -/
  | refused

/-- An alternative of this label stands where layouts are bound. -/
def binderName : String := "layout"

def Environment.bindDeclared (env : Environment) (name : String) (entries : List (String × Fields)) :
    Except BindError LayoutStep :=
  match env.alternative? name binderName with
  | some c => .ok (if c.takes 1 then .bound env else .refused)
  | none => (env.bindSum (.declared name) entries).map .bound

end InkBindings.Scale
