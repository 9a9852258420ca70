import ClassHeader.Binary.Reader
import ClassHeader.Binary.Shrinks
import ClassHeader.Bytecode.Decode
import ClassHeader.Bytecode.Encode
import ClassHeader.Bytecode.Instruction
import ClassHeader.Bytecode.Opcode
import ClassHeader.ClassFile.Basic
import ClassHeader.ClassFile.Assemble
import ClassHeader.ClassFile.Constant
import ClassHeader.ClassFile.Decode
import ClassHeader.ClassFile.Nesting
import ClassHeader.ClassFile.Payload
import ClassHeader.ClassFile.Pool
import ClassHeader.ClassFile.Validate
import ClassHeader.ClassPath.Basic
import ClassHeader.ClassPath.Index
import ClassHeader.ClassPath.Source
import ClassHeader.Command.Arguments
import ClassHeader.Command.Entry
import ClassHeader.Command.Flags
import ClassHeader.Command.Run
import ClassHeader.Config.Basic
import ClassHeader.Config.Json
import ClassHeader.Config.Load
import ClassHeader.Config.Toml
import ClassHeader.Cpp.Header
import ClassHeader.Cpp.Literal
import ClassHeader.Cpp.Name
import ClassHeader.Cpp.Node
import ClassHeader.Cpp.Printer
import ClassHeader.Cpp.TypeRef
import ClassHeader.Cpp.Verify
import ClassHeader.CrossCheck
import ClassHeader.Decimal
import ClassHeader.Descriptor
import ClassHeader.Digest.Blake2b
import ClassHeader.Error
import ClassHeader.Explorer
import ClassHeader.Files.Tree
import ClassHeader.Graph.Basic
import ClassHeader.Graph.Order
import ClassHeader.Graph.Collect
import ClassHeader.Json.Reader
import ClassHeader.LineEditor
import ClassHeader.Resolve.Class
import ClassHeader.Main
import ClassHeader.Resolve.Ref
import ClassHeader.Resolve.Resolver
import ClassHeader.Session
import ClassHeader.Text.Basic
import ClassHeader.Text.Utf8
import ClassHeader.Text.Width
import ClassHeader.Text.Csv
import ClassHeader.Text.Grapheme
import ClassHeader.Text.LowerCase
import ClassHeader.Text.Quoted
import ClassHeader.Proofs.Binary.Format
import ClassHeader.Proofs.Binary.Datum
import ClassHeader.Proofs.ClassFile.Representable
import ClassHeader.Proofs.ClassFile.RoundTrip
import ClassHeader.Proofs.Bytecode.Operand
import ClassHeader.Proofs.Bytecode.Layout
import ClassHeader.Proofs.Bytecode.RoundTrip
import ClassHeader.Proofs.Graph.BitSet
import ClassHeader.Proofs.Graph.Built
import ClassHeader.Proofs.Graph.Order
import ClassHeader.Proofs.Graph.PostOrder
import ClassHeader.Proofs.Graph.BreadthFirst
import ClassHeader.Proofs.Result
import ClassHeader.Proofs.Graph.Collect
import ClassHeader.Proofs.Text.Basic
import ClassHeader.Proofs.Text.Utf8
import ClassHeader.Proofs.Cpp.Name
import ClassHeader.Proofs.Graph.Bases
import ClassHeader.Proofs.Cpp.Render
import ClassHeader.Proofs.Session.Cache
import ClassHeader.Proofs.Session.Compile
import ClassHeader.Proofs.ClassFile.Sources
import ClassHeader.Proofs.Resolve.ClassNames
import ClassHeader.Proofs.Session.ClassNames
import ClassHeader.Proofs.Cpp.Declared
import ClassHeader.Proofs.Cpp.Distinct
import ClassHeader.Proofs.ClassFile.Truncation
import ClassHeader.Proofs.ClassFile.Valid
import ClassHeader.Proofs.Resolve.Valid
import ClassHeader.Proofs.ClassPath.Basic
import ClassHeader.Proofs.ClassPath.Lookup
import ClassHeader.Proofs.Files.Tree
import ClassHeader.Proofs.Files.Places
import ClassHeader.Proofs.ClassPath.Build
import ClassHeader.Proofs.Session.Fresh
import ClassHeader.Proofs.Session.Policies
import ClassHeader.Proofs.Cpp.Bases
import ClassHeader.Proofs.ClassFile.Code
import ClassHeader.Proofs.Resolve.Stripped
import ClassHeader.Proofs.Session.Descent
import ClassHeader.Proofs.Cpp.Parameters
import ClassHeader.Proofs.Cpp.Members
import ClassHeader.Proofs.Cpp.Disassembly
import ClassHeader.Proofs.Resolve.Faults
import ClassHeader.Proofs.Session.Blame
import ClassHeader.Proofs.Bytecode.Accepted
import ClassHeader.Proofs.Cpp.Comments
import ClassHeader.Proofs.Cpp.HeaderComments
import ClassHeader.Proofs.Cpp.OwnName
import ClassHeader.Proofs.Binary.Failure
import ClassHeader.Proofs.Descriptor.Field
import ClassHeader.Proofs.Descriptor.Method
import ClassHeader.Proofs.Descriptor.Chain
import ClassHeader.Proofs.ClassFile.Tables
import ClassHeader.Proofs.Bytecode.Confined
import ClassHeader.Proofs.Resolve.Mirrored
import ClassHeader.Proofs.ClassFile.Interned
import ClassHeader.Proofs.ClassFile.Draft
import ClassHeader.Proofs.ClassFile.Assembled
import ClassHeader.Proofs.Cpp.TypeText
import ClassHeader.Proofs.Cpp.Packages
import ClassHeader.Proofs.Cpp.Literal
import ClassHeader.Proofs.Cpp.Lines
import ClassHeader.Proofs.Cpp.HeaderLines
import ClassHeader.Proofs.Graph.Additions
import ClassHeader.Proofs.Graph.Tables
import ClassHeader.Proofs.Explorer
import ClassHeader.Proofs.Cpp.Refusal
import ClassHeader.Proofs.CrossCheck.Agreement
import ClassHeader.Proofs.CrossCheck.FirstDisagreement
import ClassHeader.Proofs.Command.Output
