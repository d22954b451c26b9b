/-!
The types that the emitted signatures and components are annotated with.
-/

namespace InkBindings.Bindings

inductive Annotation
  | int
  | bool
  | str
  | none
  | bytes
  | accountId
  | hash
  | langError
  | tuple (items : List Annotation)
  | list (item : Annotation)
  | compact (inner : Annotation)
  | optional (inner : Annotation)
  | result (ok err : Annotation)
  | dict (key value : Annotation)
  | declared (name : String) (arguments : List Annotation)
  /-- Different instantiations disagree on the type. -/
  | any
  deriving Inhabited

namespace Annotation

def subscript (name : String) (arguments : List String) : String :=
  name ++ "[" ++ ", ".intercalate arguments ++ "]"

mutual

/-- The annotation as it is written where declared types go by `qualifier` and their name. -/
def text (qualifier : String) : Annotation → String
  | .int => "int"
  | .bool => "bool"
  | .str => "str"
  | .none => "None"
  | .bytes => "bytes"
  | .accountId => "AccountId"
  | .hash => "Hash"
  | .langError => "InkLangError"
  | .tuple items => subscript "Tuple" (texts qualifier items)
  | .list item => subscript "List" [text qualifier item]
  | .compact inner => subscript "Compact" [text qualifier inner]
  | .optional inner => subscript "Optional" [text qualifier inner]
  | .result ok err => subscript "Result" [text qualifier ok, text qualifier err]
  | .dict key value => subscript "Dict" [text qualifier key, text qualifier value]
  | .declared name [] => qualifier ++ name
  | .declared name arguments => subscript (qualifier ++ name) (texts qualifier arguments)
  | .any => "Any"

def texts (qualifier : String) : List Annotation → List String
  | [] => []
  | a :: rest => text qualifier a :: texts qualifier rest

end

end Annotation

end InkBindings.Bindings
