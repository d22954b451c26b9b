import InkBindings.Contract.Call
import InkBindings.Value.Order
/-!
When two requests are equal. The codec counts for dry runs only. Requests that were made from one
another share their data and their codec; of codecs made apart from each other, only those without
parts are the same.
-/

namespace InkBindings.Contract

/-- Codecs without parts, and classes, exist once. -/
def isShared : Scale.Codec → Bool
  | .fixedBytes _ | .compact _ | .tuple _ | .array _ _ | .sequence _ | .option _ => false
  | .result _ _ | .map _ _ => false
  | _ => true

def sameCodec (related : Bool) : Option Scale.Codec → Option Scale.Codec → Bool
  | none, none => true
  | some a, some b => a.equals b && (related || isShared a)
  | _, _ => false

/-- Whether two values are equal; one and the same value always is. -/
def sameValue (related : Bool) (a b : Value) : Bool :=
  related || Value.equals a b

/-- Whether two requests are equal. They are `related` if they were made from one another. -/
def Call.equals (related : Bool) : Call → Call → Bool
  | .instantiate a, .instantiate b =>
    decide (a.codeHash = b.codeHash) && sameValue related a.data b.data &&
      a.contract.equals b.contract && a.salt == b.salt && decide (a.value = b.value) &&
      decide (a.status = b.status)
  | .payableInstantiate a, .payableInstantiate b =>
    sameValue related a.codeHash b.codeHash && sameValue related a.data b.data &&
      a.contract.equals b.contract && Value.equals a.salt b.salt
  | .exec a, .exec b =>
    decide (a.account = b.account) && sameValue related a.data b.data &&
      decide (a.value = b.value) && decide (a.status = b.status)
  | .payableExec a, .payableExec b =>
    sameValue related a.account b.account && sameValue related a.data b.data
  | .read a, .read b =>
    decide (a.account = b.account) && sameValue related a.data b.data &&
      sameCodec related a.codec b.codec && decide (a.value = b.value)
  | .upload a, .upload b =>
    sameValue related a.wasm b.wasm && decide (a.expectedHash = b.expectedHash) &&
      decide (a.status = b.status)
  | _, _ => false

end InkBindings.Contract
