import ScriptKit.Assembly.Disassembly
import ScriptKit.Assembly.Encode
import ScriptKit.Assembly.Error
import ScriptKit.Assembly.Listing
import ScriptKit.Binary64.Basic
import ScriptKit.Binary64.Shortest
import ScriptKit.Binary64.Text
import ScriptKit.Builtin
import ScriptKit.Bytecode.Basic
import ScriptKit.Bytecode.Container
import ScriptKit.Bytecode.Opcode
import ScriptKit.Command.Assembler
import ScriptKit.Command.Basic
import ScriptKit.Command.Runner
import ScriptKit.Command.Script
import ScriptKit.Command.Tool
import ScriptKit.Diagnostic
import ScriptKit.Error
import ScriptKit.Eval.Basic
import ScriptKit.Eval.Builtins
import ScriptKit.Eval.Error
import ScriptKit.Eval.Operators
import ScriptKit.Eval.World
import ScriptKit.Machine.Basic
import ScriptKit.Machine.Registers
import ScriptKit.Main
import ScriptKit.Proofs.Assembly.Encoding
import ScriptKit.Proofs.Assembly.Items
import ScriptKit.Proofs.Assembly.RoundTrip
import ScriptKit.Proofs.Eval.Bounds
import ScriptKit.Proofs.Eval.Builtins
import ScriptKit.Proofs.Eval.Simulation
import ScriptKit.Proofs.Eval.Stepwise
import ScriptKit.Proofs.Machine.Decoding
import ScriptKit.Proofs.Machine.Reference
import ScriptKit.Proofs.Machine.Registers
import ScriptKit.Proofs.Scope.Correspondence
import ScriptKit.Proofs.Scope.FiniteMap
import ScriptKit.Proofs.Scope.Reaching
import ScriptKit.Proofs.Scope.Release
import ScriptKit.Proofs.Scope.Renaming
import ScriptKit.Proofs.Scope.Sound
import ScriptKit.Proofs.Scope.Spelling
import ScriptKit.Proofs.Scope.Table
import ScriptKit.Proofs.Session.Reclaim
import ScriptKit.Proofs.Text.Fields
import ScriptKit.Proofs.Text.Numeral
import ScriptKit.Proofs.Tree.Catalogue
import ScriptKit.Proofs.Tree.Parsing
import ScriptKit.Proofs.Value.Closures
import ScriptKit.Proofs.Value.Renaming
import ScriptKit.Scope.Basic
import ScriptKit.Scope.Release
import ScriptKit.Scope.Table
import ScriptKit.Session
import ScriptKit.Source.Place
import ScriptKit.Source.Span
import ScriptKit.Stream
import ScriptKit.Text.Fields
import ScriptKit.Text.Grapheme
import ScriptKit.Text.GraphemeBreak
import ScriptKit.Text.Identifier
import ScriptKit.Text.Lines
import ScriptKit.Text.Numeral
import ScriptKit.Text.WhiteSpace
import ScriptKit.Token.Basic
import ScriptKit.Token.Lexeme
import ScriptKit.Token.Scanner
import ScriptKit.Tree.Basic
import ScriptKit.Tree.Parser
import ScriptKit.Tree.Printer
import ScriptKit.Value.Basic
import ScriptKit.Value.Printer
import ScriptKit.Proofs.Eval.Agreement
import ScriptKit.Proofs.Session.Stepwise
import ScriptKit.Proofs.Eval.Hygiene
import ScriptKit.Proofs.Session.Hygiene
import ScriptKit.Proofs.Tree.Derivation
import ScriptKit.Proofs.Tree.Steps
import ScriptKit.Proofs.Tree.Parallel
import ScriptKit.Proofs.Tree.Elsewhere
import ScriptKit.Proofs.Tree.Reading
import ScriptKit.Proofs.Session.Sources
import ScriptKit.Proofs.Session.Joining
import ScriptKit.Proofs.Scope.Relinking
import ScriptKit.Proofs.Eval.Lockstep
import ScriptKit.Proofs.Session.Images
import ScriptKit.Proofs.Session.SyntaxErrors
import ScriptKit.Proofs.Token.Places
import ScriptKit.Proofs.Token.Tiling
import ScriptKit.Proofs.Tree.Layout
import ScriptKit.Proofs.Session.Forest
import ScriptKit.Proofs.Eval.Blame
import ScriptKit.Proofs.Session.ErrorSpans
import ScriptKit.Proofs.Scope.Chain
import ScriptKit.Proofs.Machine.Budget
import ScriptKit.Proofs.Machine.Halting
import ScriptKit.Proofs.Machine.LoadAddress
import ScriptKit.Proofs.Eval.Coupling
import ScriptKit.Proofs.Tree.Spelling
import ScriptKit.Proofs.Session.DepthLimit
import ScriptKit.Proofs.Session.Spelling
import ScriptKit.Proofs.Session.Snippets
import ScriptKit.Proofs.Scope.Liveness
import ScriptKit.Proofs.Assembly.Grammar
import ScriptKit.Proofs.Assembly.Validity
import ScriptKit.Proofs.Assembly.Layout
import ScriptKit.Proofs.Assembly.Meaning
import ScriptKit.Proofs.Token.Words
import ScriptKit.Proofs.Tree.Printing
import ScriptKit.Proofs.Machine.Faults
import ScriptKit.Proofs.Assembly.Immediates
import ScriptKit.Proofs.Eval.Filter
import ScriptKit.Proofs.Tree.Viable
import ScriptKit.Proofs.Eval.Integers
import ScriptKit.Proofs.Tree.Cursor
import ScriptKit.Proofs.Session.PrintedData
import ScriptKit.Proofs.Assembly.Renderings
import ScriptKit.Proofs.Token.Blanks
import ScriptKit.Proofs.Token.Respacing
import ScriptKit.Proofs.Stream.Lines
import ScriptKit.Proofs.Session.Reads
import ScriptKit.Proofs.Bytecode.Buffer
