import Wabbit.Label.Ledger
import Wabbit.Main
import Wabbit.Proofs.Flow.Graph
import Wabbit.Proofs.Flow.Linking
import Wabbit.Proofs.Grammar.Sound
import Wabbit.Proofs.Kinds.Scopes
import Wabbit.Proofs.Lowering.Progress
import Wabbit.Proofs.Meaning.Folding
import Wabbit.Proofs.Names.Distinct
import Wabbit.Proofs.Names.Initializers
import Wabbit.Proofs.Names.Scoping
import Wabbit.Proofs.Outline.Entrance
import Wabbit.Proofs.Outline.Rooms
import Wabbit.Proofs.Printing.Reread
import Wabbit.Proofs.References.Calls
import Wabbit.Proofs.References.Closed
import Wabbit.Proofs.Tac.Typing
import Wabbit.Proofs.Folding.Expressions
import Wabbit.Proofs.Folding.Statements
import Wabbit.Proofs.Lowering.Values
import Wabbit.Proofs.Meaning.Flooring
import Wabbit.Proofs.Typing.Calls
import Wabbit.Proofs.Typing.Erasure
import Wabbit.Proofs.Typing.Soundness
import Wabbit.Proofs.Folding.Commuting
import Wabbit.Proofs.Flow.Sources
import Wabbit.Proofs.Flow.Relabelling
import Wabbit.Proofs.Tac.Calling
import Wabbit.Proofs.Tac.Entering
import Wabbit.Proofs.Flow.Grouping
import Wabbit.Proofs.Reading.Errors
import Wabbit.Proofs.Reading.Nesting
import Wabbit.Proofs.Folding.Exact
import Wabbit.Proofs.Names.Search
import Wabbit.Proofs.Numbers.Rounding
import Wabbit.Proofs.Numbers.Constants
import Wabbit.Proofs.Negation.Expressions
import Wabbit.Proofs.Negation.Programs
import Wabbit.Proofs.Labels.History
import Wabbit.Proofs.Labels.Sharing
