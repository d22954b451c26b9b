/-!
Names that the emitted module defines, imports or relies on, and that names of the contract must
not take.
-/

namespace InkBindings.Bindings

def importedNames : List String :=
  ["annotations", "abc", "os", "sys", "dataclass", "Any", "Dict", "List", "Optional", "Tuple",
    "scale", "AccountId", "Compact", "ContractInstance", "ExecCall", "ExecCallNeedsValue", "Hash",
    "InkLangError", "InstantiateCall", "InstantiateCallNeedsValue", "ReadCall", "Result",
    "UploadCall"]

def definedNames : List String :=
  ["CODE_HASH", "Instance", "event", "upload", "_contract", "_WASM_PATH"]

def languageNames : List String :=
  ["bytes", "bytearray", "int", "bool", "str", "None", "open", "__file__", "property",
    "staticmethod", "self"]

def moduleNames : List String :=
  importedNames ++ definedNames ++ languageNames

/-- Attributes of the base classes of declared types. -/
def recordNames : List String :=
  ["encode", "decode", "encode_to", "decode_from", "layout", "alternative"]

def instanceNames : List String :=
  ["account_id", "Event"]

def eventClass : String := "Event"

/-- The module by which the events refer to declared types. -/
def moduleQualifier : String := "_contract."

end InkBindings.Bindings
