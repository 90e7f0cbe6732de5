import Gsdb.ByteMemory
import Gsdb.ByteCursor
import Gsdb.Leb128
import Gsdb.PartialOrbit
import Gsdb.AdjacentPairs
import Gsdb.Effects
import Gsdb.Failure
import Gsdb.Registers
import Gsdb.StoppointCollection
import Gsdb.Machine
import Gsdb.HardwareStoppoints
import Gsdb.BreakpointSites
import Gsdb.BreakpointOwnership
import Gsdb.BreakpointShadow
import Gsdb.StopHandling
import Gsdb.StopFrame
import Gsdb.SyscallStops
import Gsdb.ThreadFrame
import Gsdb.CallFrame
import Gsdb.CallFrameRules
import Gsdb.DwarfExpression
import Gsdb.ExpressionFraming
import Gsdb.CompositeLocations
import Gsdb.LineTable
import Gsdb.LineProgram
import Gsdb.LineHistory
import Gsdb.LineLookup
import Gsdb.EndSequences
import Gsdb.DebugInfo
import Gsdb.AttributeForms
import Gsdb.DieTree
import Gsdb.NameIndex
import Gsdb.IndexWalk
import Gsdb.IndexLookups
import Gsdb.IndexComplete
import Gsdb.Elf
import Gsdb.AddressTranslation
import Gsdb.EhFrame
import Gsdb.UnwindTables
import Gsdb.UnwindRecords
import Gsdb.FdeSearch
import Gsdb.CallFrameUnwind
import Gsdb.CallFrameFraming
import Gsdb.CallFrameRows
import Gsdb.UnwindRules
import Gsdb.ExpressionRules
import Gsdb.RestoredRegisters
import Gsdb.UnwindSurvival
import Gsdb.SourceBreakpoints
import Gsdb.Stack
import Gsdb.StackFrames
import Gsdb.CodeLookups
import Gsdb.CodePosition
import Gsdb.SelectedFrame
import Gsdb.StackTermination
import Gsdb.Types
import Gsdb.Classification
import Gsdb.ProcessMemory
import Gsdb.MemoryWrites
import Gsdb.InferiorCall
import Gsdb.ReturnValue
import Gsdb.Integers
import Gsdb.Evaluation
import Gsdb.CallHistory
import Gsdb.EvaluationFrame
import Gsdb.Transparency
import Gsdb.Watchpoints
import Gsdb.DebugRegisters
import Gsdb.SlotAllocation
import Gsdb.Roster
import Gsdb.Commands
import Gsdb.AllStop
import Gsdb.CachedRegisters
import Gsdb.SigstopAccounting
import Gsdb.ThreadArming
import Gsdb.ThreadExits
import Gsdb.StepInstruction
import Gsdb.DynamicLibraries
import Gsdb.RunUntil
import Gsdb.Calls
import Gsdb.StepOut
import Gsdb.FrameList
import Gsdb.StepIn
import Gsdb.StepOver
import Gsdb.Signatures
import Gsdb.Triviality
import Gsdb.Qualifiers
import Gsdb.Values
import Gsdb.ValueQualifiers
import Gsdb.ArgumentAllocation
import Gsdb.StackArguments
import Gsdb.StoppointOwners
import Gsdb.FunctionSymbols
import Gsdb.CallTargets
import Gsdb.CallAlignment
import Gsdb.ByteKeeping
import Gsdb.CallRoom
import Gsdb.StackReach
import Gsdb.BitFields
import Gsdb.LocationData
import Gsdb.CompositeData
import Gsdb.TypeEquality
import Gsdb.ArgumentTexts
import Gsdb.IndirectNames
import Gsdb.VariablePaths
import Gsdb.RangeLists
import Gsdb.CodeBounds
import Gsdb.VectorTexts
import Gsdb.VectorPrinting
import Gsdb.AbbrevTables
import Gsdb.UnitHeaders
import Gsdb.OrderedMap
import Gsdb.SymbolAddresses
import Gsdb.SectionHeaders
import Gsdb.ScopeSearch
import Gsdb.Scopes
import Gsdb.LabelScopes
import Gsdb.RemoteDescriptors
import Gsdb.StringReading
import Gsdb.WriteExtent
import Gsdb.RegisterWrites
import Gsdb.LebEncoding
import Gsdb.AuxiliaryVector
import Gsdb.Interleavings
import Gsdb.SharedPipe
import Gsdb.LaunchHandshake
import Gsdb.PostfixCode
import Gsdb.ExpressionTrees
import Gsdb.Detach
import Gsdb.LocationLists
import Gsdb.PatchedExecution
import Gsdb.NativeExecution
import Gsdb.NativeSteps
import Gsdb.NativeRuns
import Gsdb.NativeRounds
import Gsdb.NativeStepping
