import Interception.Store
import Interception.Value
import Interception.Error
import Interception.Method
import Interception.Class
import Interception.SwapMode
import Interception.Row
import Interception.Registry
import Interception.World
import Interception.Lookup
import Interception.Linking
import Interception.Patching
import Interception.Handlers
import Interception.Access
import Interception.Windows
import Interception.Allocation
import Interception.Definition
import Interception.Program
import Interception.Dispatch
import Interception.Decimal.Shortest
import Interception.Decimal.Reading
import Interception.Text.Unprintable
import Interception.Text.Quoted
import Interception.Text.Blank
import Interception.Text.Alphanumeric
import Interception.Text.Pattern.Item
import Interception.Text.Pattern.Bracket
import Interception.Text.Pattern.Grammar
import Interception.Stats
import Interception.Demo
import Interception.Text.Json
import Interception.Text.Styled
import Interception.CommandLine.Arguments
import Interception.CommandLine.Report
import Interception.CommandLine.LogFilter
import Interception.CommandLine.Run
import Interception.Main
import Interception.Session.Statement
import Interception.Session.Answer
import Interception.Session.View
import Interception.Session.Bench
import Interception.Session.Perform
import Interception.Session.Run
import Interception.Proofs.Trail
import Interception.Proofs.Induction
import Interception.Proofs.Growth
import Interception.Proofs.Operations
import Interception.Proofs.WindowSteps
import Interception.Proofs.Answers
import Interception.Proofs.Entries
import Interception.Proofs.Restoration
import Interception.Proofs.Reentry
import Interception.Proofs.Layouts
import Interception.Proofs.Lineages
import Interception.Proofs.Homes
import Interception.Proofs.Tables
import Interception.Proofs.NewTables
import Interception.Proofs.Soundness
import Interception.Proofs.Originals
import Interception.Proofs.Slots
import Interception.Proofs.CallThrough
import Interception.Proofs.Outlines
import Interception.Proofs.Binding
import Interception.Proofs.Recipes
import Interception.Proofs.Loading
import Interception.Proofs.Stillness
import Interception.Proofs.Routes
import Interception.Proofs.Wrapping
import Interception.Proofs.Twins
import Interception.Proofs.Mirroring
import Interception.Proofs.Transparency
import Interception.Proofs.Chains
import Interception.Proofs.Dispatching
import Interception.Proofs.Directs
import Interception.Proofs.Identity
import Interception.Proofs.Sealing
import Interception.Proofs.Nearest
import Interception.Proofs.Resting
import Interception.Proofs.Stacking
import Interception.Proofs.Naming
import Interception.Proofs.Coherence
import Interception.Proofs.Confinement
import Interception.Proofs.Ownership
import Interception.Proofs.Inheritance
import Interception.Proofs.Returns
import Interception.Proofs.Latecomers
import Interception.Proofs.Accounting
import Interception.Proofs.Agreement
import Interception.Proofs.Proxies
import Interception.Proofs.Tallies
import Interception.Proofs.Exactness
import Interception.Proofs.Catalogues
import Interception.Proofs.Levels
import Interception.Proofs.Depths
import Interception.Proofs.Endings
import Interception.Proofs.Openings
import Interception.Proofs.Lending
import Interception.Proofs.Replacements
import Interception.Proofs.Admission
import Interception.Proofs.Rebuilding
import Interception.Proofs.ByHand
import Interception.Proofs.Attempts
import Interception.Proofs.Juggling
import Interception.Proofs.Overlaps
import Interception.Proofs.Unattended
import Interception.Proofs.Succession
import Interception.Proofs.Shadowing
