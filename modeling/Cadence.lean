import Cadence.CommandLine.Session
import Cadence.Document.Basic
import Cadence.Main
import Cadence.Proofs.Nesting.Counting
import Cadence.Proofs.Running.Driving
import Cadence.Tree.Builder
import Cadence.World.Run
import Cadence.World.Traceback
import Cadence.Proofs.Running.Suspension
import Cadence.Proofs.Nesting.WellNested
import Cadence.Proofs.Running.Chain
import Cadence.Proofs.Running.Standing
import Cadence.Proofs.Running.Statements
import Cadence.Proofs.Running.Trip
import Cadence.Proofs.Meaning.Program
import Cadence.Proofs.Meaning.Layout
import Cadence.Proofs.Meaning.Ticking
import Cadence.Proofs.Meaning.Lines
import Cadence.Proofs.Meaning.Simulation
import Cadence.Proofs.Documents.Decimals
import Cadence.Proofs.Documents.Words
import Cadence.Proofs.Documents.Nesting
import Cadence.Proofs.Documents.Checking
import Cadence.Proofs.Documents.RoundTrip
import Cadence.Proofs.Expressions.Attaching
import Cadence.Proofs.Numbers.Durations
import Cadence.Proofs.Running.Resting
import Cadence.Proofs.Running.Waiting
import Cadence.Proofs.Running.Returning
import Cadence.Proofs.Running.Jumping
import Cadence.Proofs.Running.Failing
import Cadence.Proofs.Running.Ending
import Cadence.Proofs.Running.Replacing
import Cadence.Proofs.Running.Belonging
import Cadence.Proofs.Running.Apart
import Cadence.Proofs.Running.Hearing
import Cadence.Proofs.Running.Grammar
import Cadence.Proofs.Running.Journey
import Cadence.Proofs.Meaning.Ceasing
import Cadence.Proofs.Meaning.Termination
import Cadence.Proofs.Numbers.Literals
import Cadence.Proofs.Arguments.Chains
import Cadence.Proofs.Running.Raising
import Cadence.Proofs.Locating.Reports
import Cadence.Proofs.Expressions.Leaves
import Cadence.Proofs.Numbers.Escapes
import Cadence.Proofs.Arguments.Objects
import Cadence.Proofs.Running.Looping
import Cadence.Proofs.Arguments.Circles
import Cadence.Proofs.Stores.Timers
import Cadence.Proofs.Stores.Resolving
import Cadence.Proofs.Stores.Atomic
import Cadence.Proofs.Stores.Forced
import Cadence.Proofs.Stores.Entries
import Cadence.Proofs.Stores.Lists
import Cadence.Proofs.Expressions.Consuming
import Cadence.Proofs.Expressions.Turning
import Cadence.Proofs.Stores.Finding
import Cadence.Proofs.Stores.Copying
import Cadence.Proofs.Scopes.Showing
import Cadence.Proofs.Expressions.Unfinished
import Cadence.Proofs.Running.Capped
import Cadence.Proofs.Logging.Recent
import Cadence.Proofs.Running.Notifying
import Cadence.Proofs.Trees.Growing
