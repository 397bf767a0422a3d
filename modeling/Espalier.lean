import Espalier.Json
import Espalier.Syntax.Tree
import Espalier.Diagnostic
import Espalier.Text.Blank
import Espalier.Text.Escape
import Espalier.Syntax.LogicalLine
import Espalier.Peg.Match
import Espalier.Syntax.Grammar
import Espalier.Syntax.Reader
import Espalier.Syntax.Parse
import Espalier.Syntax.Encoding
import Espalier.Syntax.Printer
import Espalier.Syntax.Walk
import Espalier.Macro.Basic
import Espalier.Macro.Collect
import Espalier.ModuleName
import Espalier.Number.Binary64
import Espalier.Phase
import Espalier.Splice
import Espalier.Config
import Espalier.Config.File
import Espalier.Yaml.Basic
import Espalier.Yaml.Scanner.State
import Espalier.Yaml.Scanner.Scalar
import Espalier.Yaml.Scanner.Property
import Espalier.Yaml.Scanner
import Espalier.Yaml.Event
import Espalier.Yaml.Document
import Espalier.Config.Scalar
import Espalier.Builtins
import Espalier.Cli.Execute
import Espalier.Cli.Grammar
import Espalier.Cli.Parse
import Espalier.Engine.Api
import Espalier.Engine.Core
import Espalier.Engine.Macro
import Espalier.FileSystem
import Espalier.Import.Deps
import Espalier.Import.Lines
import Espalier.Import.Locate
import Espalier.Macro.Expander
import Espalier.Main
import Espalier.Path
import Espalier.Peg.Basic
import Espalier.Session
import Espalier.Text.Similarity
import Espalier.Text.Utf8
import Espalier.Value.Arith
import Espalier.Value.Basic
import Espalier.Value.Show
import Espalier.Value.Store
import Espalier.Proofs.Syntax.Walk
import Espalier.Proofs.Macro.Inventory
import Espalier.Proofs.Macro.Agreement
import Espalier.Proofs.Macro.Fixpoint
import Espalier.Proofs.Peg.Yields
import Espalier.Proofs.Syntax.Tokens
import Espalier.Proofs.Syntax.StringLiterals
import Espalier.Proofs.Import.DependencyTime
import Espalier.Proofs.Macro.Monotone
import Espalier.Proofs.Macro.Stepwise
import Espalier.Proofs.Syntax.Clean
import Espalier.Proofs.Syntax.LineLocations
import Espalier.Proofs.Engine.MacroFree
import Espalier.Proofs.Macro.Bounded
import Espalier.Proofs.Peg.Forest
import Espalier.Proofs.Syntax.StatementOrder
import Espalier.Proofs.Engine.ImportReentry
import Espalier.Proofs.Syntax.Ancestry
import Espalier.Proofs.Phase.Split
import Espalier.Proofs.Value.Division
import Espalier.Proofs.Engine.FailedImport
import Espalier.Proofs.Splice.Layout
import Espalier.Proofs.Macro.Decorators
import Espalier.Proofs.Engine.DialectPasses
import Espalier.Proofs.Engine.Respects
import Espalier.Proofs.Engine.Tracks
import Espalier.Proofs.Engine.FreshNames
import Espalier.Proofs.Engine.Host
import Espalier.Proofs.Engine.CodeCache
import Espalier.Proofs.Readback.Normal
import Espalier.Proofs.Readback.Shape
