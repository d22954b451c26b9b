import InkBindings.Contract.CallError
/-!
What goes wrong when requests are carried out. Refusals and reversals leave the sandbox as it is;
any other failure of the context leaves it unusable.
-/

namespace InkBindings.Sandbox

inductive RuntimeError
  | dispatch (message : String) (details : Value)
  | callReverted (account data : Bytes)
  | deploymentReverted (codeHash data : Bytes)
  | codeHashMismatch (expected actual : Bytes)
  | poisoned (reason : String)
  | unsupported (capability : String)
  | encode (text : String)
  | decode (text : String)
  | other (text : String)
  /-- A request to stop, which says nothing about what it interrupts. -/
  | interrupt (kind text : String)

def markedHex (b : Bytes) : String := "0x" ++ Hex.encode b

def RuntimeError.message : RuntimeError → String
  | .dispatch message .none => s!"dispatch failed: {message}"
  | .dispatch message details => s!"dispatch failed: {message} ({details.display})"
  | .callReverted account data =>
    s!"call to {markedHex account} reverted (data={markedHex data})"
  | .deploymentReverted codeHash data =>
    s!"instantiation of code {markedHex codeHash} reverted (data={markedHex data})"
  | .codeHashMismatch expected actual =>
    s!"code hash mismatch: expected {markedHex expected}, got {markedHex actual}"
  | .poisoned reason => s!"execution context is no longer usable: {reason}"
  | .unsupported capability => s!"connection does not support {capability}"
  | .encode text | .decode text | .other text | .interrupt _ text => text

def RuntimeError.kind : RuntimeError → String
  | .dispatch .. => "DispatchError"
  | .callReverted .. => "CallReverted"
  | .deploymentReverted .. => "DeploymentReverted"
  | .codeHashMismatch .. => "CodeHashMismatch"
  | .poisoned _ => "ContextPoisoned"
  | .unsupported _ => "UnsupportedCapability"
  | .encode _ => "EncodeError"
  | .decode _ => "DecodeError"
  | .other _ => "InkWrapperError"
  | .interrupt kind _ => kind

inductive ContextFailure
  | refused (e : RuntimeError)
  | broken (kind text : String)

def breakdown (kind text : String) : String :=
  s!"{kind}: {text}"

inductive Failure
  | runtime (e : RuntimeError)
  | call (e : Contract.CallError)

end InkBindings.Sandbox
