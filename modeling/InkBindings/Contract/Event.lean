import InkBindings.Contract.Instance
import InkBindings.Scale.Decode
import InkBindings.Value.ConversionText
/-!
Events that contracts emitted, and reading those of one instance. An event that cannot be read does
not keep the others from being read.
-/

namespace InkBindings.Contract

structure Event where
  account : Identifier
  data : Bytes
  deriving DecidableEq

inductive EventError
  | account (e : IdentifierError)
  | data (e : ConversionError)

def Event.make (account data : Value) : Except EventError Event :=
  match IdentifierKind.account.read account with
  | .error e => .error (.account e)
  | .ok id =>
    match data.byteSource with
    | .error e => .error (.data e)
    | .ok source => .ok ⟨id, source.bytes⟩

def EventError.kind : EventError → String
  | .account e => e.kind
  | .data e => e.kind

def EventError.message? : EventError → Option String
  | .account e => e.message?
  | .data _ => none

def EventError.text (account data : Value) : EventError → String
  | .account e => e.text account
  | .data e => data.byteSourceText e

inductive EventsFailure
  | noEventType (className : String)
  | decode (e : Scale.DecodeFailure)

def EventsFailure.message? : EventsFailure → Option String
  | .noEventType className => some s!"{className} has no Event type to decode with"
  | .decode _ => none

abbrev EventEntry := Except Scale.DecodeError Value

def readEvent (env : Scale.Environment) (codec : Scale.Codec) (data : Bytes) :
    Except EventsFailure EventEntry :=
  match codec.decode env data with
  | .ok v => .ok (.ok v)
  | .error (.bytes e) => .ok (.error e)
  | .error e => .error (.decode e)

/-- The events of an instance in the order in which they were emitted. -/
def Instance.events (env : Scale.Environment) (i : Instance) (log : List Event) :
    Except EventsFailure (List EventEntry) :=
  match i.ofClass.event with
  | none => .error (.noEventType i.ofClass.name)
  | some codec =>
    (log.filter fun e => decide (e.account = i.account)).mapM fun e => readEvent env codec e.data

end InkBindings.Contract
