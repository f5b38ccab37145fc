import SymbolicDex.Access
import SymbolicDex.Analysis.ClassRestore
import SymbolicDex.Analysis.Context
import SymbolicDex.Analysis.FlowGraph
import SymbolicDex.Analysis.Method
import SymbolicDex.Analysis.Narrowing
import SymbolicDex.Analysis.Point
import SymbolicDex.Analysis.Recovery
import SymbolicDex.Analysis.RegisterEffect
import SymbolicDex.Analysis.Restore
import SymbolicDex.Analysis.Run
import SymbolicDex.Analysis.Session
import SymbolicDex.Analysis.Transfer
import SymbolicDex.AnalysisFailure
import SymbolicDex.Archive.Class
import SymbolicDex.Archive.Instruction
import SymbolicDex.Archive.Record
import SymbolicDex.ByteCursor
import SymbolicDex.ClassDef
import SymbolicDex.Descriptor
import SymbolicDex.Failure
import SymbolicDex.Hierarchy.Ancestry
import SymbolicDex.Hierarchy.ClassPath
import SymbolicDex.Hierarchy.InterfaceMap
import SymbolicDex.Hierarchy.Layout.Art
import SymbolicDex.Hierarchy.Layout.Basic
import SymbolicDex.Hierarchy.Layout.Dalvik
import SymbolicDex.Hierarchy.Lookup
import SymbolicDex.Hierarchy.Memo
import SymbolicDex.Hierarchy.Tables
import SymbolicDex.Hierarchy.Vtable
import SymbolicDex.InlineTable
import SymbolicDex.Instruction.Basic
import SymbolicDex.Instruction.Decoder
import SymbolicDex.Instruction.Printer
import SymbolicDex.Instruction.Reader
import SymbolicDex.Member
import SymbolicDex.Opcode.Basic
import SymbolicDex.Opcode.FieldAccess
import SymbolicDex.Opcode.Format
import SymbolicDex.Opcode.Info
import SymbolicDex.Opcode.Table
import SymbolicDex.Opcode.VersionSpan
import SymbolicDex.Partition.IdPool
import SymbolicDex.Partition.Shard
import SymbolicDex.Partition.Store
import SymbolicDex.Proofs.Analysis.Bookkeeping
import SymbolicDex.Proofs.Analysis.CheckedBranches
import SymbolicDex.Proofs.Analysis.CheckedCopies
import SymbolicDex.Proofs.Analysis.CheckedTypes
import SymbolicDex.Proofs.Analysis.Completeness
import SymbolicDex.Proofs.Analysis.FlowEdges
import SymbolicDex.Proofs.Analysis.FlowEquations
import SymbolicDex.Proofs.Analysis.FlowReach
import SymbolicDex.Proofs.Analysis.HintedAccesses
import SymbolicDex.Proofs.Analysis.KeptForms
import SymbolicDex.Proofs.Analysis.Moves
import SymbolicDex.Proofs.Analysis.NullAccesses
import SymbolicDex.Proofs.Analysis.Provenance
import SymbolicDex.Proofs.Analysis.RecoveryNotes
import SymbolicDex.Proofs.Analysis.Recurrence
import SymbolicDex.Proofs.Analysis.RegisterPairs
import SymbolicDex.Proofs.Analysis.RestoredCode
import SymbolicDex.Proofs.Analysis.Rules
import SymbolicDex.Proofs.Analysis.SteadyRules
import SymbolicDex.Proofs.Analysis.Termination
import SymbolicDex.Proofs.Analysis.TypeRange
import SymbolicDex.Proofs.Analysis.UsedMemos
import SymbolicDex.Proofs.Analysis.WaitingForNull
import SymbolicDex.Proofs.Analysis.WidePairs
import SymbolicDex.Proofs.Hierarchy.AccessWalks
import SymbolicDex.Proofs.Hierarchy.AccessibleMembers
import SymbolicDex.Proofs.Hierarchy.ClassesAbove
import SymbolicDex.Proofs.Hierarchy.CommonSupertypes
import SymbolicDex.Proofs.Hierarchy.DalvikPadding
import SymbolicDex.Proofs.Hierarchy.DeclarationOrder
import SymbolicDex.Proofs.Hierarchy.DefaultMethods
import SymbolicDex.Proofs.Hierarchy.FieldAlignment
import SymbolicDex.Proofs.Hierarchy.FieldOrder
import SymbolicDex.Proofs.Hierarchy.FieldPacking
import SymbolicDex.Proofs.Hierarchy.HandedDownTables
import SymbolicDex.Proofs.Hierarchy.InheritedTables
import SymbolicDex.Proofs.Hierarchy.InstanceSize
import SymbolicDex.Proofs.Hierarchy.InterfaceClosure
import SymbolicDex.Proofs.Hierarchy.InterfaceHistory
import SymbolicDex.Proofs.Hierarchy.InterfaceMembership
import SymbolicDex.Proofs.Hierarchy.LayoutStability
import SymbolicDex.Proofs.Hierarchy.MemberOrder
import SymbolicDex.Proofs.Hierarchy.MemoGrowth
import SymbolicDex.Proofs.Hierarchy.MemoTransparency
import SymbolicDex.Proofs.Hierarchy.Questions
import SymbolicDex.Proofs.Hierarchy.SlotFilling
import SymbolicDex.Proofs.Hierarchy.SlotStability
import SymbolicDex.Proofs.Hierarchy.SuperclassChains
import SymbolicDex.Proofs.Hierarchy.SupertypeRange
import SymbolicDex.Proofs.Hierarchy.TableFlags
import SymbolicDex.Proofs.Hierarchy.TableHistory
import SymbolicDex.Proofs.Hierarchy.TableOrigins
import SymbolicDex.Proofs.Hierarchy.Termination
import SymbolicDex.Proofs.Hierarchy.TypeOrder
import SymbolicDex.Proofs.InlineListing
import SymbolicDex.Proofs.Instruction.BranchTargets
import SymbolicDex.Proofs.Instruction.Lookahead
import SymbolicDex.Proofs.Instruction.Reading
import SymbolicDex.Proofs.Instruction.Tiling
import SymbolicDex.Proofs.Opcode.OneToOne
import SymbolicDex.Proofs.Partition.GreedyShards
import SymbolicDex.Proofs.Partition.ReferenceSets
import SymbolicDex.Proofs.Partition.ShardFiles
import SymbolicDex.Proofs.PrototypeGrammar
import SymbolicDex.Proofs.Quickening.CodeAddresses
import SymbolicDex.Proofs.Quickening.RoundTrip
import SymbolicDex.Proofs.Quickening.TableBytes
import SymbolicDex.Proofs.RegisterType.CategoryLattice
import SymbolicDex.Proofs.RegisterType.LiteralJoin
import SymbolicDex.Proofs.RegisterType.LiteralShift
import SymbolicDex.Proofs.RegisterType.MergeOrder
import SymbolicDex.Proofs.RegisterType.MergeSymmetry
import SymbolicDex.Prototype
import SymbolicDex.Quickening
import SymbolicDex.RegisterType.Basic
import SymbolicDex.RegisterType.Category
import SymbolicDex.RegisterType.Merge
import SymbolicDex.Resolver
import SymbolicDex.RuntimeVersion
import SymbolicDex.Text.Blank
import SymbolicDex.Text.Hidden
import SymbolicDex.Text.Number
import SymbolicDex.Text.Quoted
import SymbolicDex.Uleb128
