import Stopwatch.Command.Arguments
import Stopwatch.Command.Execute
import Stopwatch.Disk.Change
import Stopwatch.Disk.Entry
import Stopwatch.Disk.Fault
import Stopwatch.Disk.Lookup
import Stopwatch.Disk.Path
import Stopwatch.Disk.Replace
import Stopwatch.Grammar.Go
import Stopwatch.Grammar.Lexer
import Stopwatch.Grammar.Numeral
import Stopwatch.Grammar.Parse
import Stopwatch.Grammar.Rule
import Stopwatch.Grammar.Token
import Stopwatch.Json
import Stopwatch.Main
import Stopwatch.Proofs.AtomicWrites
import Stopwatch.Proofs.Batches
import Stopwatch.Proofs.BoundNames
import Stopwatch.Proofs.Brackets
import Stopwatch.Proofs.Characters
import Stopwatch.Proofs.Comments
import Stopwatch.Proofs.Cuts
import Stopwatch.Proofs.Depths
import Stopwatch.Proofs.DirectoryRuns
import Stopwatch.Proofs.DocumentFaults
import Stopwatch.Proofs.EnsuredImports
import Stopwatch.Proofs.Fallbacks
import Stopwatch.Proofs.FixedPoint
import Stopwatch.Proofs.FreshNames
import Stopwatch.Proofs.Growth
import Stopwatch.Proofs.Imports
import Stopwatch.Proofs.Indentation
import Stopwatch.Proofs.InsertedLines
import Stopwatch.Proofs.Items
import Stopwatch.Proofs.KeptRows
import Stopwatch.Proofs.Leading
import Stopwatch.Proofs.Leaves
import Stopwatch.Proofs.Lines
import Stopwatch.Proofs.Literals
import Stopwatch.Proofs.Loaded
import Stopwatch.Proofs.LoadedRows
import Stopwatch.Proofs.Locations
import Stopwatch.Proofs.MovedRows
import Stopwatch.Proofs.NewDirectories
import Stopwatch.Proofs.NormalForm
import Stopwatch.Proofs.Numerals
import Stopwatch.Proofs.PairLines
import Stopwatch.Proofs.ParsedTrees
import Stopwatch.Proofs.Pieces
import Stopwatch.Proofs.Placement
import Stopwatch.Proofs.Printable
import Stopwatch.Proofs.PrintedFiles
import Stopwatch.Proofs.PrintedImports
import Stopwatch.Proofs.PrintedRows
import Stopwatch.Proofs.ProgramText
import Stopwatch.Proofs.Programs
import Stopwatch.Proofs.ReadSettings
import Stopwatch.Proofs.Readable
import Stopwatch.Proofs.Refusals
import Stopwatch.Proofs.Relaying
import Stopwatch.Proofs.Replacing
import Stopwatch.Proofs.RereadDecls
import Stopwatch.Proofs.RereadItems
import Stopwatch.Proofs.Rereading
import Stopwatch.Proofs.ReservedWords
import Stopwatch.Proofs.Respacing
import Stopwatch.Proofs.Rounds
import Stopwatch.Proofs.Rows
import Stopwatch.Proofs.RunFailures
import Stopwatch.Proofs.ScannedTokens
import Stopwatch.Proofs.Scans
import Stopwatch.Proofs.Sessions
import Stopwatch.Proofs.Shapes
import Stopwatch.Proofs.Sites
import Stopwatch.Proofs.SolidRows
import Stopwatch.Proofs.SoundParsers
import Stopwatch.Proofs.SourceOrder
import Stopwatch.Proofs.StartVariables
import Stopwatch.Proofs.Stretches
import Stopwatch.Proofs.SupportPackage
import Stopwatch.Proofs.SupportUpkeep
import Stopwatch.Proofs.TidyRows
import Stopwatch.Proofs.TimedLines
import Stopwatch.Proofs.TrailingComments
import Stopwatch.Proofs.Transformation
import Stopwatch.Proofs.TreeErrors
import Stopwatch.Proofs.Visits
import Stopwatch.Proofs.WalkOrder
import Stopwatch.Proofs.Weaving
import Stopwatch.Proofs.WholeTokens
import Stopwatch.Run.Batch
import Stopwatch.Run.Failure
import Stopwatch.Run.File
import Stopwatch.Run.Host
import Stopwatch.Run.Report
import Stopwatch.Run.Support
import Stopwatch.Run.Walk
import Stopwatch.Settings
import Stopwatch.Settings.Normal
import Stopwatch.Settings.Read
import Stopwatch.Syntax.Concrete
import Stopwatch.Syntax.Fragment
import Stopwatch.Syntax.Layout
import Stopwatch.Syntax.Load
import Stopwatch.Syntax.Node
import Stopwatch.Syntax.Print
import Stopwatch.Syntax.Source
import Stopwatch.Syntax.Stroke
import Stopwatch.Syntax.Visit
import Stopwatch.Syntax.Walk
import Stopwatch.Text
import Stopwatch.Text.Blank
import Stopwatch.Text.Digit
import Stopwatch.Text.Letter
import Stopwatch.Text.Printable
import Stopwatch.Text.Quoted
import Stopwatch.Text.Range
import Stopwatch.Text.Scalar
import Stopwatch.Timing.Candidates
import Stopwatch.Timing.Imports
import Stopwatch.Timing.Instrument
import Stopwatch.Timing.Names
import Stopwatch.Timing.Pair
import Stopwatch.Timing.Scan
import Stopwatch.Timing.Transform
import Stopwatch.Toml.Document
import Stopwatch.Toml.Scalar
import Stopwatch.Toml.Value
