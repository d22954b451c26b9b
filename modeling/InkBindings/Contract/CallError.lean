import InkBindings.Scale.OwnEncoding
import InkBindings.Value.AsIdentifier
import InkBindings.Value.Outcome
/-!
Why a request cannot be made, changed or used.
-/

namespace InkBindings.Contract

inductive CallError
  | notAnAmount (got : Value)
  | codeHashSize (size : Nat)
  | conversion (e : ConversionError)
  | account (e : IdentifierError)
  | unknownStatus
  | noReturnCodec
  /-- An argument is missing, or there is one too many. -/
  | wrongArguments
  | noAttribute (className field : String)
  | noMethod (className field : String)
  | valueMissing (className : String)
  | decode (e : Scale.DecodeFailure)
  | encode (e : Scale.OwnEncodingFailure)
  | unwrap (e : UnwrapError)

def missingAttribute (className field : String) : String :=
  s!"'{className}' object has no attribute '{field}'"

/-- The message, where it is one of this library's own. -/
def CallError.message? : CallError → Option String
  | .notAnAmount got => some s!"transferred value must be a u128, got {got.display}"
  | .codeHashSize size => some s!"code hash must be 32 bytes, got {size}"
  | .account e => e.message?
  | .noReturnCodec => some "ExecCall has no return codec to decode a dry run with"
  | .valueMissing className =>
    some s!"{className} targets a payable entry point; call .with_value(...) first"
  | .unwrap e => some e.message
  | .conversion _ | .unknownStatus | .wrongArguments | .noAttribute _ _ | .noMethod _ _ => none
  | .decode _ | .encode _ => none

end InkBindings.Contract
