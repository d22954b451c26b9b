import InkBindings.Metadata.Error
/-!
Why no bindings can be made of the metadata of a contract.
-/

namespace InkBindings.Bindings

inductive Failure
  | metadata (e : MetadataError)
  /-- A reference leads back to itself without passing a declared type. -/
  | endless
  /-- An instantiation has an alternative that the first one lacks. -/
  | missingAlternative (name : String)
  /-- Of two instantiations of one type, one is a record and the other a sum. -/
  | notARecord
  | notASum

def Failure.message : Failure → String
  | .metadata e => e.message
  | .endless => "maximum recursion depth exceeded"
  | .missingAlternative name => Text.quote name
  | .notARecord => "'VariantDef' object has no attribute 'fields'"
  | .notASum => "'CompositeDef' object has no attribute 'alternatives'"

abbrev Outcome := Except Failure

def ofMetadata {α : Type} : Except MetadataError α → Outcome α
  | .ok a => .ok a
  | .error e => .error (.metadata e)

def unsupported {α : Type} (id : Metadata.TypeId) (reason : Metadata.UnsupportedReason) :
    Outcome α :=
  .error (.metadata (.unsupported id reason))

end InkBindings.Bindings
