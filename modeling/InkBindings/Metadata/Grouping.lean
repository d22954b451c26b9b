import InkBindings.Metadata.Error
/-!
Messages by namespace. Those without one stand apart; the namespaces come in the order of their
first message, and the messages of each in the order of the document.
-/

namespace InkBindings.Metadata

structure Groups where
  inherent : List EntryPoint
  grouped : List (String × List EntryPoint)

/-- Adds a message to the group of its namespace, which is the last one if it is new. -/
def addToGroup (message : EntryPoint) (name : String) :
    List (String × List EntryPoint) → List (String × List EntryPoint)
  | [] => [(name, [message])]
  | (other, members) :: rest =>
    if other = name then (other, members ++ [message]) :: rest
    else (other, members) :: addToGroup message name rest

def Groups.add (g : Groups) (message : EntryPoint) : Except MetadataError Groups :=
  match Label.parts message.label with
  | [_] => .ok { g with inherent := g.inherent ++ [message] }
  | [name, _] => .ok { g with grouped := addToGroup message name g.grouped }
  | _ => .error (.nestedNamespace message.label)

def groupMessages (messages : List EntryPoint) : Except MetadataError Groups :=
  messages.foldlM Groups.add ⟨[], []⟩

/-- The messages that leave the contract as it is. -/
def readers (messages : List EntryPoint) : List EntryPoint :=
  messages.filter fun m => !m.mutates

def mutators (messages : List EntryPoint) : List EntryPoint :=
  messages.filter (·.mutates)

end InkBindings.Metadata
