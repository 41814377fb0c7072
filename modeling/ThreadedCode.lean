import ThreadedCode.Console.Completion
import ThreadedCode.Lexer.Reader
import ThreadedCode.Machine.Fuel
import ThreadedCode.Main
import ThreadedCode.Proofs.Dictionary.Stack
import ThreadedCode.Proofs.Dictionary.History
import ThreadedCode.Proofs.Dictionary.Ordered
import ThreadedCode.Proofs.Dictionary.Coherence
import ThreadedCode.Proofs.Lexer.Descent
import ThreadedCode.Proofs.Machine.Focus
import ThreadedCode.Proofs.Machine.Lifting
import ThreadedCode.Proofs.Machine.Control
import ThreadedCode.Proofs.Machine.Frame
import ThreadedCode.Proofs.Machine.Counter
import ThreadedCode.Proofs.Machine.Steering
import ThreadedCode.Proofs.Machine.Boundary
import ThreadedCode.Proofs.Dictionary.Expansion
import ThreadedCode.Proofs.Machine.Flatten
import ThreadedCode.Proofs.Machine.Restoration
import ThreadedCode.Proofs.Dictionary.Reclassified
import ThreadedCode.Proofs.Machine.Abreast
import ThreadedCode.Proofs.Machine.Way
import ThreadedCode.Proofs.Machine.Dispatch
import ThreadedCode.Proofs.Machine.CallStack
import ThreadedCode.Proofs.Dictionary.Authored
import ThreadedCode.Proofs.Machine.Termination
import ThreadedCode.Proofs.Dictionary.Numbering
import ThreadedCode.Proofs.Dictionary.Forgetting
import ThreadedCode.Proofs.Dictionary.Revision
import ThreadedCode.Proofs.Dictionary.Visibility
import ThreadedCode.Proofs.Dictionary.Lineage
import ThreadedCode.Proofs.Dictionary.Parentage
import ThreadedCode.Proofs.Dictionary.Isolation
import ThreadedCode.Proofs.Machine.EarlyBinding
import ThreadedCode.Proofs.Lexer.OnDemand
import ThreadedCode.Proofs.Lexer.Closing
import ThreadedCode.Proofs.Lexer.Rendering
import ThreadedCode.Proofs.Machine.Visits
import ThreadedCode.Proofs.Machine.Advisory
import ThreadedCode.Proofs.Machine.Messages
import ThreadedCode.Proofs.Machine.Diagnostics
import ThreadedCode.Proofs.Console.Joining
import ThreadedCode.Proofs.Console.Multiline
import ThreadedCode.Proofs.Text.Utf8
import ThreadedCode.Proofs.Lexer.Breaks
import ThreadedCode.Proofs.Machine.Residue
import ThreadedCode.Proofs.Console.OneByOne
import ThreadedCode.Proofs.Machine.Registry
import ThreadedCode.Proofs.Machine.Holdings
import ThreadedCode.Proofs.Machine.Footprint
import ThreadedCode.Proofs.Machine.Commuting
import ThreadedCode.Proofs.Text.Numeral
import ThreadedCode.Proofs.Console.Sturdy
import ThreadedCode.Proofs.Console.Commands
import ThreadedCode.Proofs.Console.Session
import ThreadedCode.Proofs.Machine.Variables
import ThreadedCode.Proofs.Console.Recognition
import ThreadedCode.Proofs.Dictionary.Compilation
import ThreadedCode.Proofs.Dictionary.Stepwise
import ThreadedCode.Proofs.Machine.Undivided
import ThreadedCode.Proofs.Dictionary.Placement
import ThreadedCode.Proofs.Machine.Steadiness
import ThreadedCode.Proofs.Machine.Legality
import ThreadedCode.Proofs.Console.SingleLine
import ThreadedCode.Proofs.Console.Handover
import ThreadedCode.Proofs.Text.Decimal
import ThreadedCode.Proofs.Console.Printed
import ThreadedCode.Proofs.Lexer.Registers
import ThreadedCode.Proofs.Lexer.Rounds
import ThreadedCode.Proofs.Dictionary.Named
import ThreadedCode.Proofs.Console.Listed
