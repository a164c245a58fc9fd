import PropStyling.Proofs.Acceptance
import PropStyling.Proofs.Selector.RoundTrip
import PropStyling.Proofs.Selector.Reprinting
import PropStyling.Proofs.Value.Reading
import PropStyling.Proofs.Value.Equality
import PropStyling.Proofs.DeadConditions
import PropStyling.Proofs.Declared
import PropStyling.Proofs.Validation.Append
import PropStyling.Proofs.Grouping.Append
import PropStyling.Proofs.Grouping.Runs
import PropStyling.Proofs.Resolution.Agreement
import PropStyling.Proofs.Resolution.Shorthand
import PropStyling.Proofs.Selector.Grammar
import PropStyling.Proofs.Selector.Order
import PropStyling.Proofs.Key.Brackets
import PropStyling.Proofs.Key.Joined
import PropStyling.Proofs.Value.Equivalence
import PropStyling.Proofs.Value.LastRun
import PropStyling.Proofs.Key.Separators
import PropStyling.Proofs.Resolution.Names
import PropStyling.Proofs.Value.Integers
import PropStyling.Proofs.Selector.Quoting
