import InkBindings.Json.Basic
import InkBindings.Sandbox.Basic
/-!
Contexts that answer as they are told: failures by the name of their kind and by what they are made
of.
-/

namespace InkBindings.Sandbox

mutual

def valueOfJson : Json → Value
  | .null => .none
  | .bool b => .bool b
  | .int n => .int n
  | .float x => .float x
  | .str s => .str s
  | .array items => .list (valuesOfJson items)
  | .object members => .dict (entriesOfJson members)

def valuesOfJson : List Json → List Value
  | [] => []
  | j :: rest => valueOfJson j :: valuesOfJson rest

def entriesOfJson : List (String × Json) → List (Value × Value)
  | [] => []
  | (name, j) :: rest => (.str name, valueOfJson j) :: entriesOfJson rest

end

def argumentsText (kind : String) : List Value → String
  | [] => ""
  | [v] => if kind = "KeyError" then v.display else v.text
  | vs => (Value.tuple vs).display

def contentOf (v : Value) : Bytes :=
  v.byteContent?.getD []

/-! ### Failures of the system -/

def numberedKinds : List (List Int × String) :=
  [([1, 13], "PermissionError"), ([2], "FileNotFoundError"), ([3], "ProcessLookupError"),
    ([4], "InterruptedError"), ([10], "ChildProcessError"), ([11, 114, 115], "BlockingIOError"),
    ([17], "FileExistsError"), ([20], "NotADirectoryError"), ([21], "IsADirectoryError"),
    ([32, 108], "BrokenPipeError"), ([103], "ConnectionAbortedError"),
    ([104], "ConnectionResetError"), ([110], "TimeoutError"), ([111], "ConnectionRefusedError")]

def generalNames : List String := ["OSError", "IOError", "EnvironmentError"]

def isSystemKind (kind : String) : Bool :=
  kind = "ConnectionError" || generalNames.contains kind || numberedKinds.any (·.2 = kind)

/-- The kind of a failure with this number, if it is not told more exactly. -/
def systemKind (kind : String) (number : Value) : String :=
  if generalNames.contains kind then
    match number.number? with
    | some (.int n) => ((numberedKinds.find? (·.1.contains n)).map (·.2)).getD "OSError"
    | _ => "OSError"
  else kind

def systemText (number text : Value) (files : List Value) : String :=
  let shown := files.filterMap fun f =>
    match f with
    | .none => none
    | f => some f.display
  "[Errno " ++ number.text ++ "] " ++ text.text ++
    (if shown.isEmpty then "" else ": " ++ " -> ".intercalate shown)

/-- A blocked operation is told with how much was written, where others are told with a file: an
integer of 64 bits. -/
def blockedFailure (kind : String) (number text : Value) : (written : Value) → ContextFailure
  | .float _ => .broken "TypeError" "'float' object cannot be interpreted as an integer"
  | .int n =>
    if -(2 ^ 63) ≤ n ∧ n < 2 ^ 63 then .broken kind (systemText number text [])
    else .broken "ValueError" "cannot fit 'int' into an index-sized integer"
  | _ => .broken kind (systemText number text [])

def systemFailure (kind : String) : List Value → ContextFailure
  | number :: text :: files =>
    if 3 < files.length then
      .broken (systemKind kind .none) (argumentsText kind (number :: text :: files))
    else
      let kind := systemKind kind number
      match files with
      | [] => .broken kind (systemText number text [])
      | f :: more =>
        if kind = "BlockingIOError" && f.number?.isSome then blockedFailure kind number text f
        else if f matches .none then .broken kind (systemText number text [])
        else .broken kind (systemText number text (f :: more.drop 1))
  | vs => .broken (systemKind kind .none) (argumentsText kind vs)

/-! ### Failures that are made of parts -/

/-- The parts that a failure is made of, and how many more it may have. -/
def partsOf? : String → Option (List String × Nat)
  | "DispatchError" => some (["message"], 1)
  | "CallReverted" => some (["account_id", "data"], 0)
  | "DeploymentReverted" => some (["code_hash", "data"], 0)
  | "CodeHashMismatch" => some (["expected", "actual"], 0)
  | "ContextPoisoned" => some (["reason"], 0)
  | "UnsupportedCapability" => some (["capability"], 0)
  | "InkLangError" => some (["error"], 0)
  | _ => none

def partsFault? (kind : String) (required : List String) (optional given : Nat) : Option String :=
  let missing := required.drop given
  let most := required.length + optional
  if !missing.isEmpty then
    some (kind ++ s!".__init__() missing {missing.length} required positional argument" ++
      (if missing.length = 1 then "" else "s") ++ ": " ++
      " and ".intercalate (missing.map fun n => "'" ++ n ++ "'"))
  else if most < given then
    some (kind ++ ".__init__() takes " ++
      (if optional = 0 then "" else s!"from {required.length + 1} to ") ++
      s!"{most + 1} positional arguments but {given + 1} were given")
  else none

def interruptKinds : List String :=
  ["BaseException", "GeneratorExit", "KeyboardInterrupt", "SystemExit"]

/-- The failure of a kind. One that is no part of carrying out requests is a breakdown, unless it is
a request to stop. -/
def ContextFailure.ofKind (kind : String) (arguments : List Value) : ContextFailure :=
  let text := argumentsText kind arguments
  let fault? := (partsOf? kind).bind fun (required, optional) =>
    partsFault? kind required optional arguments.length
  match fault?, kind, arguments with
  | some fault, _, _ => .broken "TypeError" fault
  | none, "DispatchError", [m] => .refused (.dispatch m.text .none)
  | none, "DispatchError", [m, d] => .refused (.dispatch m.text d)
  | none, "CallReverted", [a, d] => .refused (.callReverted (contentOf a) (contentOf d))
  | none, "DeploymentReverted", [h, d] => .refused (.deploymentReverted (contentOf h) (contentOf d))
  | none, "CodeHashMismatch", [e, a] => .refused (.codeHashMismatch (contentOf e) (contentOf a))
  | none, "ContextPoisoned", [m] => .refused (.poisoned m.text)
  | none, "UnsupportedCapability", [m] => .refused (.unsupported m.text)
  | none, "InkLangError", [v] => .broken kind (Value.displayCall kind [v.typeName])
  | none, "EncodeError", _ => .refused (.encode text)
  | none, "DecodeError", _ => .refused (.decode text)
  | none, "InkWrapperError", _ => .refused (.other text)
  | none, kind, vs =>
    if isSystemKind kind then systemFailure kind vs
    else if interruptKinds.contains kind then .refused (.interrupt kind text)
    else .broken kind text

end InkBindings.Sandbox
