import InkBindings.Value.Display
/-!
Taking apart the outcome of a computation, `ok` or `err`.
-/

namespace InkBindings

inductive UnwrapError
  /-- There is no value, only an error that is no exception. -/
  | noValue (outcome : Value)
  | noError (outcome : Value)
  /-- The error is an exception and is raised. -/
  | held (exception : Value)

namespace Value

def isException : Value → Bool
  | .raisedLangError | .exception .. => true
  | _ => false

def isOk : Value → Bool
  | .ok _ => true
  | _ => false

def isErr : Value → Bool
  | .err _ => true
  | _ => false

def unwrap : Value → Except UnwrapError Value
  | .ok v => .ok v
  | .err e => if e.isException then .error (.held e) else .error (.noValue (.err e))
  | v => .error (.noValue v)

def unwrapErr : Value → Except UnwrapError Value
  | .err e => .ok e
  | v => .error (.noError v)

end Value

def UnwrapError.message : UnwrapError → String
  | .noValue outcome => s!"called unwrap() on {outcome.display}"
  | .noError outcome => s!"called unwrap_err() on {outcome.display}"
  | .held exception => exception.text

end InkBindings
