import Caju.OsText
import Caju.Ty
import Caju.Tree
import Caju.Json.Binary64
import Caju.Json.Decimal
import Caju.Json.Value
import Caju.Json.Flaw
import Caju.Json.Lexeme
import Caju.Json.Document
import Caju.Json.Skim
import Caju.Json.Writer
import Caju.Text.Unprintable
import Caju.Text.Quoted
import Caju.Tree.Mismatch
import Caju.Tree.Decode
import Caju.Tree.Reader
import Caju.Tree.Encode
import Caju.Diagnostic
import Caju.Fault
import Caju.Scope
import Caju.Check.Event
import Caju.Check.Expr
import Caju.Check.Stmt
import Caju.Check.Program
import Caju.C.Name
import Caju.C.Type
import Caju.C.Expr
import Caju.C.Emitter
import Caju.C.Program
import Caju.Compile
import Caju.Association
import Caju.Report
import Caju.Session
import Caju.Path
import Caju.FileTree
import Caju.CommandLine.Args
import Caju.CommandLine.Dialogue
import Caju.Main
import Caju.Proofs.CheckPlans
import Caju.Proofs.Scoping
import Caju.Proofs.StaticSemantics
import Caju.Proofs.Acceptance
import Caju.Proofs.CTokens
import Caju.Proofs.CGrammar
import Caju.Proofs.ExprText
import Caju.Proofs.BlockStructure
import Caju.Proofs.Replay
import Caju.Proofs.TypeNames
import Caju.Proofs.Declarations
import Caju.Proofs.JsonNesting
import Caju.Proofs.JsonRoundTrip
import Caju.Proofs.TreeCodec
import Caju.Proofs.ProgramText
import Caju.Proofs.ProgramRereading
import Caju.Proofs.Initialisation
import Caju.Proofs.Runs
import Caju.Proofs.Visits
import Caju.Proofs.EarlyReads
import Caju.Proofs.AssignmentTargets
import Caju.Proofs.ReturnLines
import Caju.Proofs.Renaming
import Caju.Proofs.Mismatches
import Caju.Proofs.Characters
import Caju.Proofs.JsonWords
import Caju.Proofs.JsonGrammar
import Caju.Proofs.JsonFlaws
import Caju.Proofs.JsonSkimming
import Caju.Proofs.JsonTracking
import Caju.Proofs.JsonStretches
import Caju.Proofs.ReaderAgreement
import Caju.Proofs.ItemAgreement
import Caju.Proofs.ProgramAgreement
import Caju.Proofs.ReaderStretches
import Caju.Proofs.FaultCategories
import Caju.Proofs.Isolation
import Caju.Proofs.FileNames
import Caju.Proofs.ShownText
import Caju.Proofs.SourcePaths
import Caju.Proofs.FileWays
import Caju.Proofs.CommandLines
import Caju.Proofs.FileFrame
import Caju.Proofs.ForwardReferences
import Caju.Proofs.MemberOrder
import Caju.Proofs.NameClashes
import Caju.Proofs.CDeclarations
import Caju.Proofs.DeclaratorText
import Caju.Proofs.CLines
import Caju.Proofs.LoopIndices
import Caju.Proofs.SpelledStructures
import Caju.Proofs.StructureOrder
import Caju.Proofs.MissingReturns
import Caju.Proofs.ReportText
import Caju.Proofs.ScopeHistory
import Caju.Proofs.CScopes
import Caju.Proofs.LoopContainers
import Caju.Proofs.SymbolTable
import Caju.Proofs.OutputPaths
