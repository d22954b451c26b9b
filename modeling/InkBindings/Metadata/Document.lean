import InkBindings.Metadata.Shape
/-!
The shape of a metadata document: which members its records have, under which names, and what
stands in for those that are left out. Members that are not named here are passed over.
-/

namespace InkBindings.Metadata

namespace Document

structure Component where
  name : Option String
  typeId : TypeId
  typeName : Option String
  docs : List String

structure Variant where
  name : String
  index : Int
  fields : List Component
  docs : List String

structure TypeNode where
  path : List String
  parameters : List Parameter
  definition : Json.Members
  docs : List String

structure TypeItem where
  id : TypeId
  type : TypeNode

structure EntryItem where
  label : String
  selector : String
  arguments : List Argument
  payable : Bool
  returnType : Option TypeId
  docs : List String
  mutates : Bool

structure Spec where
  constructors : List EntryItem
  messages : List EntryItem
  events : List Event

end Document

structure Document where
  version : Option Version
  hash : String
  name : Option String
  types : List Document.TypeItem
  spec : Document.Spec

namespace Check
open Document

def docs (m : Json.Members) : Checked (List String) :=
  optional m ["docs"] [] (list text)

def componentModel : String := "RawField"
def variantModel : String := "RawVariant"

def component : Check Component :=
  record componentModel fun m =>
    Component.mk <$> optional m ["name"] none (nullable text) <*> required m ["type"] integer
      <*> optional m ["typeName", "type_name"] none (nullable text) <*> docs m

def variant : Check Variant :=
  record variantModel fun m =>
    Variant.mk <$> required m ["name"] text <*> required m ["index"] integer
      <*> optional m ["fields"] [] (list component) <*> docs m

def parameter : Check Parameter :=
  record "RawParam" fun m =>
    Parameter.mk <$> required m ["name"] text <*> optional m ["type"] none (nullable integer)

def typeNode : Check TypeNode :=
  record "RawType" fun m =>
    TypeNode.mk <$> optional m ["path"] [] (list text) <*> optional m ["params"] [] (list parameter)
      <*> required m ["def", "definition"] object <*> docs m

def typeItem : Check TypeItem :=
  record "RawTypeEntry" fun m =>
    TypeItem.mk <$> required m ["id"] integer <*> required m ["type"] typeNode

/-- A use of a type; the name it is displayed by is checked and passed over. -/
def typeUse : Check TypeId :=
  record "RawTypeSpec" fun m =>
    (fun id (_ : List String) => id) <$> required m ["type"] integer
      <*> optional m ["displayName", "display_name"] [] (list text)

def argument : Check Argument :=
  record "RawArg" fun m =>
    Argument.mk <$> required m ["label"] text <*> required m ["type"] typeUse

def entryItem (m : Json.Members) : Checked (Bool → EntryItem) :=
  EntryItem.mk <$> required m ["label"] text <*> required m ["selector"] text
    <*> optional m ["args"] [] (list argument) <*> optional m ["payable"] false truth
    <*> optional m ["returnType", "return_type"] none (nullable typeUse) <*> docs m

def constructor : Check EntryItem :=
  record "RawConstructor" fun m => (· true) <$> entryItem m

def message : Check EntryItem :=
  record "RawMessage" fun m => entryItem m <*> optional m ["mutates"] false truth

def eventField : Check EventField :=
  record "RawEventArg" fun m =>
    EventField.mk <$> required m ["label"] text <*> required m ["type"] typeUse <*> docs m
      <*> optional m ["indexed"] false truth

def event : Check Event :=
  record "RawEvent" fun m =>
    Event.mk <$> required m ["label"] text <*> optional m ["args"] [] (list eventField) <*> docs m

def spec : Check Spec :=
  record "RawSpec" fun m =>
    Spec.mk <$> optional m ["constructors"] [] (list constructor)
      <*> optional m ["messages"] [] (list message) <*> optional m ["events"] [] (list event)

def source : Check String :=
  record "RawSource" fun m => required m ["hash"] text

def contract : Check (Option String) :=
  record "RawContract" fun m => optional m ["name"] none (nullable text)

/-- A contract that is null has no name, as one without a name. -/
def contractName (m : Json.Members) : Checked (Option String) :=
  Option.join <$> optional m ["contract"] none (nullable contract)

def document (m : Json.Members) : Checked Document :=
  Document.mk <$> optional m ["version"] none (nullable version) <*> required m ["source"] source
    <*> contractName m <*> required m ["types"] (list typeItem) <*> required m ["spec"] spec

end Check
end InkBindings.Metadata
