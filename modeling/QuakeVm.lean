import QuakeVm.Bytes
import QuakeVm.Text.Lossy
import QuakeVm.Text.Blank
import QuakeVm.Number.Digits
import QuakeVm.Number.Exact
import QuakeVm.Number.Decimal
import QuakeVm.Number.Scan
import QuakeVm.Vector
import QuakeVm.Format.Directive
import QuakeVm.Limits
import QuakeVm.Format.Field
import QuakeVm.Format.Render
import QuakeVm.Text.Info
import QuakeVm.Text.Uri
import QuakeVm.Text.Checksum
import QuakeVm.Text.Edit
import QuakeVm.Text.Markup
import QuakeVm.Text.Token
import QuakeVm.Glob.Pattern
import QuakeVm.Glob.Match
import QuakeVm.Role
import QuakeVm.Log
import QuakeVm.Fault
import QuakeVm.Opcode
import QuakeVm.Program.Basic
import QuakeVm.Program.Codec
import QuakeVm.Registers
import QuakeVm.Assembler
import QuakeVm.StringTable
import QuakeVm.Entities
import QuakeVm.Cvar
import QuakeVm.Disk.Path
import QuakeVm.Disk.Basic
import QuakeVm.Sandbox
import QuakeVm.Ownership
import QuakeVm.Files
import QuakeVm.Buffer
import QuakeVm.Search
import QuakeVm.Builtin.Primitive
import QuakeVm.Builtin.Catalog
import QuakeVm.Builtin.Table
import QuakeVm.Extension
import QuakeVm.World
import QuakeVm.Machine.Basic
import QuakeVm.Machine.Action
import QuakeVm.Calendar
import QuakeVm.Machine.Link
import QuakeVm.Builtin.Math
import QuakeVm.Builtin.Strings
import QuakeVm.Machine.Autocvar
import QuakeVm.Builtin.Console
import QuakeVm.Builtin.Entity
import QuakeVm.Builtin.Storage
import QuakeVm.Builtin.Tokens
import QuakeVm.Builtin.Run
import QuakeVm.Machine.Instruction
import QuakeVm.Machine.Execute
import QuakeVm.Machine.Load
import QuakeVm.Machine.Invoke
import QuakeVm.Host
import QuakeVm.Declarations
import QuakeVm.CommandLine
import QuakeVm.Main
import QuakeVm.Proofs.StringTable
import QuakeVm.Proofs.Handles
import QuakeVm.Proofs.Ownership
import QuakeVm.Proofs.Action
import QuakeVm.Proofs.Tables
import QuakeVm.Proofs.Builtins
import QuakeVm.Proofs.Entities
import QuakeVm.Proofs.Allocation
import QuakeVm.Proofs.Fields
import QuakeVm.Proofs.Step
import QuakeVm.Proofs.Calls
import QuakeVm.Proofs.Runs
import QuakeVm.Proofs.ProgramFile
import QuakeVm.Proofs.FileFormat
import QuakeVm.Proofs.Assembly
import QuakeVm.Proofs.Layout
import QuakeVm.Proofs.WorldLock
import QuakeVm.Proofs.Linking
import QuakeVm.Proofs.LoadedProgram
import QuakeVm.Proofs.Jumps
import QuakeVm.Proofs.Convention
import QuakeVm.Proofs.Usable
import QuakeVm.Proofs.Deeds
import QuakeVm.Proofs.Partition
import QuakeVm.Proofs.Indifference
import QuakeVm.Proofs.VectorFields
import QuakeVm.Proofs.IndifferentBuiltins
import QuakeVm.Proofs.PassedArguments
import QuakeVm.Proofs.LazyBinding
import QuakeVm.Proofs.Sandbox
import QuakeVm.Proofs.Budget
import QuakeVm.Proofs.Faults
import QuakeVm.Proofs.Traceback
import QuakeVm.Proofs.FaultViews
import QuakeVm.Proofs.Activity
import QuakeVm.Proofs.Single
import QuakeVm.Proofs.Variables
import QuakeVm.Proofs.Autocvars
import QuakeVm.Proofs.Directives
import QuakeVm.Proofs.Numerals
import QuakeVm.Proofs.IntegerText
import QuakeVm.Proofs.VectorText
import QuakeVm.Proofs.Lines
import QuakeVm.Proofs.BufferMaps
import QuakeVm.Proofs.Tree
import QuakeVm.Proofs.Search
import QuakeVm.Proofs.InfoStrings
import QuakeVm.Proofs.Joining
import QuakeVm.Proofs.Sorting
import QuakeVm.Proofs.WrittenLines
import QuakeVm.Proofs.Separators
import QuakeVm.Proofs.Replacing
import QuakeVm.Proofs.Lexing
import QuakeVm.Proofs.Markup
import QuakeVm.Proofs.PercentEncoding
import QuakeVm.Proofs.ErrorDetection
import QuakeVm.Proofs.Numbering
import QuakeVm.Proofs.Interning
