import InkBindings.Contract.CallEquality
import InkBindings.Contract.Methods
import InkBindings.Json.Writer
import InkBindings.Main
import InkBindings.Sandbox.Operation
import InkBindings.Sandbox.Script
import InkBindings.Scale.Binding
import InkBindings.Scale.Declaration
import InkBindings.Scale.OwnEncoding
import InkBindings.Value.Outcome
import InkBindings.Proofs.Scale.CompactForm
import InkBindings.Proofs.Scale.Parts
import InkBindings.Proofs.Scale.Primitives
import InkBindings.Proofs.Scale.Nesting
import InkBindings.Proofs.Scale.Wire
import InkBindings.Proofs.Scale.Instances
import InkBindings.Proofs.Scale.Written
import InkBindings.Proofs.Scale.ReadBack
import InkBindings.Proofs.Scale.Reading
import InkBindings.Proofs.Scale.Levels
import InkBindings.Proofs.Scale.RoundTrip
import InkBindings.Proofs.Scale.Canonical
import InkBindings.Proofs.Scale.Safety
import InkBindings.Proofs.Bindings.CodecPhrase
import InkBindings.Proofs.Bindings.Emitted
import InkBindings.Proofs.Bindings.EmittedTypes
import InkBindings.Proofs.Bindings.WireShape
import InkBindings.Proofs.Bindings.MadeTypes
import InkBindings.Proofs.Metadata.Declarations
import InkBindings.Proofs.Bindings.Faithful
import InkBindings.Proofs.Scale.Appending
import InkBindings.Proofs.Bindings.Packing
import InkBindings.Proofs.Bindings.ExprTree
import InkBindings.Proofs.Bindings.AnnotationPhrase
import InkBindings.Proofs.Bindings.TypeTree
import InkBindings.Proofs.Bindings.TreeDecoding
import InkBindings.Proofs.Bindings.References
import InkBindings.Proofs.Bindings.Reparsing
import InkBindings.Proofs.Sandbox.Runs
import InkBindings.Proofs.Sandbox.Sessions
import InkBindings.Proofs.Sandbox.Poisoning
import InkBindings.Proofs.Sandbox.Recording
import InkBindings.Proofs.Sandbox.Ledger
import InkBindings.Proofs.Contract.Origin
import InkBindings.Proofs.Sandbox.Requests
import InkBindings.Proofs.Sandbox.Breakdown
import InkBindings.Proofs.Sandbox.Noninterference
import InkBindings.Proofs.Contract.Extraction
import InkBindings.Proofs.Bindings.CallTypes
import InkBindings.Proofs.Bindings.Instantiations
import InkBindings.Proofs.Bindings.Indices
import InkBindings.Proofs.Bindings.Descents
import InkBindings.Proofs.Bindings.Refusals
import InkBindings.Proofs.Text.Hex
import InkBindings.Proofs.Metadata.Writing
import InkBindings.Proofs.Metadata.Records
import InkBindings.Proofs.Metadata.ReadBack
import InkBindings.Proofs.Metadata.Escaping
import InkBindings.Proofs.Bindings.ClassText
import InkBindings.Proofs.Bindings.ClassFunctions
import InkBindings.Proofs.Bindings.MethodText
import InkBindings.Proofs.Bindings.MethodNames
import InkBindings.Proofs.Bindings.EntryPoints
import InkBindings.Proofs.Sorting.Search
import InkBindings.Proofs.Sorting.Run
import InkBindings.Proofs.Sorting.Merge
import InkBindings.Proofs.Sorting.Attempt
import InkBindings.Proofs.Value.Number
import InkBindings.Proofs.Value.Order
import InkBindings.Proofs.Value.Dictionary
import InkBindings.Proofs.Scale.WritingLevels
import InkBindings.Proofs.Scale.EntryOrder
import InkBindings.Proofs.Scale.Placed
import InkBindings.Proofs.Scale.MapOrder
import InkBindings.Proofs.Scale.WireOrder
import InkBindings.Proofs.Scale.Loosened
import InkBindings.Proofs.Scale.Reencoding
import InkBindings.Proofs.Scale.KeyForms
import InkBindings.Proofs.Scale.MapRoundTrip
import InkBindings.Proofs.Scale.EmptyItems
import InkBindings.Proofs.Scale.Presence
import InkBindings.Proofs.Bindings.Lexing
import InkBindings.Proofs.Bindings.ShiftedText
import InkBindings.Proofs.Bindings.Literals
import InkBindings.Proofs.Bindings.DocLiterals
import InkBindings.Proofs.Bindings.DocValues
import InkBindings.Proofs.Bindings.QuotedText
import InkBindings.Proofs.Bindings.CompletePhrases
import InkBindings.Proofs.Bindings.CompleteBindings
import InkBindings.Proofs.Bindings.CompleteText
import InkBindings.Proofs.Bindings.RelabelledText
import InkBindings.Proofs.Metadata.Renaming
import InkBindings.Proofs.Bindings.Outlines
import InkBindings.Proofs.Bindings.RenamedBindings
import InkBindings.Proofs.Bindings.EnclosedTexts
import InkBindings.Proofs.Bindings.EventScope
import InkBindings.Proofs.Bindings.Partition
import InkBindings.Proofs.Bindings.ModuleNames
import InkBindings.Proofs.Bindings.DecoratorScope
import InkBindings.Proofs.Bindings.MethodScope
import InkBindings.Proofs.Metadata.Namespaces
import InkBindings.Proofs.Naming.Unique
import InkBindings.Proofs.Scale.CompactIntegers
import InkBindings.Proofs.Scale.ByteItems
import InkBindings.Proofs.Scale.WholeEncoding
import InkBindings.Proofs.Bindings.Endings
import InkBindings.Proofs.Metadata.ContainerBodies
import InkBindings.Proofs.Contract.Identifiers
import InkBindings.Proofs.Naming.Collisions
