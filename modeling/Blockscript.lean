import Blockscript.Block.Basic
import Blockscript.Block.Item
import Blockscript.Block.Lowering
import Blockscript.Block.Template
import Blockscript.Fault
import Blockscript.Json.Basic
import Blockscript.Json.Reader
import Blockscript.Json.Writer
import Blockscript.Lr.Automaton
import Blockscript.Lr.Grammar
import Blockscript.Lr.Machine
import Blockscript.Lr.Progress
import Blockscript.Lr.Table
import Blockscript.Number.Double
import Blockscript.Number.Shortest
import Blockscript.Number.Style
import Blockscript.Program
import Blockscript.Proofs.Block.Checks
import Blockscript.Proofs.Block.Essence
import Blockscript.Proofs.Block.Independence
import Blockscript.Proofs.Block.Nesting
import Blockscript.Proofs.Block.Shown
import Blockscript.Proofs.Block.Slots
import Blockscript.Proofs.Compiling
import Blockscript.Proofs.Concatenating
import Blockscript.Proofs.Dumping
import Blockscript.Proofs.Faithful
import Blockscript.Proofs.Json.Printing
import Blockscript.Proofs.Json.Rereading
import Blockscript.Proofs.Loading
import Blockscript.Proofs.Lr.Automaton
import Blockscript.Proofs.Lr.Completeness
import Blockscript.Proofs.Lr.Derivation
import Blockscript.Proofs.Lr.Halting
import Blockscript.Proofs.Lr.OpenItems
import Blockscript.Proofs.Lr.Outline
import Blockscript.Proofs.Lr.Progress
import Blockscript.Proofs.Lr.Rejection
import Blockscript.Proofs.Lr.Run
import Blockscript.Proofs.Lr.Tree
import Blockscript.Proofs.Lr.Viability
import Blockscript.Proofs.Lr.Worklist
import Blockscript.Proofs.Script.Admission
import Blockscript.Proofs.Script.Beside
import Blockscript.Proofs.Script.Composing
import Blockscript.Proofs.Script.Continuing
import Blockscript.Proofs.Script.Correctness
import Blockscript.Proofs.Script.Deriving
import Blockscript.Proofs.Script.Escaping
import Blockscript.Proofs.Script.Expecting
import Blockscript.Proofs.Script.Failing
import Blockscript.Proofs.Script.Grounding
import Blockscript.Proofs.Script.Halting
import Blockscript.Proofs.Script.Joining
import Blockscript.Proofs.Script.Labelling
import Blockscript.Proofs.Script.Layout
import Blockscript.Proofs.Script.Lexeme
import Blockscript.Proofs.Script.Lookaheads
import Blockscript.Proofs.Script.Matching
import Blockscript.Proofs.Script.Naming
import Blockscript.Proofs.Script.Numeral
import Blockscript.Proofs.Script.Parsing
import Blockscript.Proofs.Script.Quoting
import Blockscript.Proofs.Script.Reading
import Blockscript.Proofs.Script.Resuming
import Blockscript.Proofs.Script.Rows
import Blockscript.Proofs.Script.Scanning
import Blockscript.Proofs.Script.Spelling
import Blockscript.Proofs.Script.Sweeping
import Blockscript.Proofs.Script.Unfinished
import Blockscript.Proofs.Script.Writable
import Blockscript.Proofs.Session.Keeping
import Blockscript.Proofs.Session.Stepping
import Blockscript.Proofs.Text.Places
import Blockscript.Proofs.Text.Units
import Blockscript.Script.Braces
import Blockscript.Script.Cursor
import Blockscript.Script.Diagnosis
import Blockscript.Script.Grammar
import Blockscript.Script.Meaning
import Blockscript.Script.Parse
import Blockscript.Script.Statement
import Blockscript.Script.SyntaxError
import Blockscript.Script.Terminal
import Blockscript.Script.Value
import Blockscript.Session
import Blockscript.Settings.Basic
import Blockscript.Settings.EnvFile
import Blockscript.Text.Excerpt
import Blockscript.Text.Place
import Blockscript.Text.Printable
import Blockscript.Text.Quoted
import Blockscript.Text.Units
import Blockscript.Text.Upper
