import Metrology.Main
import Metrology.Proofs.Vocabulary.Resolution
import Metrology.Proofs.Vocabulary.RoundTrip
import Metrology.Proofs.Expression.Layout
import Metrology.Proofs.Vocabulary.HiddenReadings
import Metrology.Proofs.Quantity.StaticDimension
import Metrology.Proofs.Vocabulary.Extension
import Metrology.Proofs.Vocabulary.Appending
import Metrology.Proofs.Vocabulary.Agreement
import Metrology.Proofs.Configuration.Declaring
import Metrology.Proofs.Expression.Refusals
import Metrology.Proofs.Numeric.Numerals
import Metrology.Proofs.Vocabulary.Failures
import Metrology.Proofs.Configuration.Defaults
import Metrology.Proofs.Configuration.Loading
import Metrology.Proofs.Vocabulary.WritableUnits
import Metrology.Proofs.Vocabulary.Permanence
import Metrology.Proofs.Vocabulary.Seeding
import Metrology.Proofs.Vocabulary.Tolerance
import Metrology.Proofs.Configuration.BaseDimensions
import Metrology.Proofs.Configuration.BareNumbers
import Metrology.Proofs.Vocabulary.QuantityTexts
import Metrology.Proofs.Dimension.GroupLaws
import Metrology.Proofs.Quantity.Roots
import Metrology.Proofs.Expression.Separators
import Metrology.Proofs.Expression.Joining
import Metrology.Proofs.Expression.Spelling
import Metrology.Proofs.Expression.Rewriting
import Metrology.Proofs.Vocabulary.Spellings
import Metrology.Proofs.Expression.Encoding
import Metrology.Proofs.Expression.Places
import Metrology.Proofs.Expression.Adjoining
import Metrology.Proofs.Vocabulary.NumberedUnits
import Metrology.Proofs.Vocabulary.SignedSums
import Metrology.Proofs.Numeric.Nearest
import Metrology.Proofs.Expression.ExponentForms
import Metrology.Proofs.Vocabulary.Exponents
import Metrology.Proofs.Expression.Decoding
import Metrology.Proofs.Vocabulary.Rebuilding
import Metrology.Proofs.Vocabulary.Uniting
import Metrology.Proofs.Numeric.Longest
import Metrology.Proofs.Expression.LongestNumbers
import Metrology.Proofs.Text.Splitting
import Metrology.Proofs.Dimension.CanonicalText
import Metrology.Proofs.Configuration.Piecewise
import Metrology.Proofs.Configuration.Writing
import Metrology.Proofs.Configuration.Interchange
import Metrology.Proofs.Configuration.Comments
import Metrology.Proofs.Traced
import Metrology.Proofs.Expression.Walk
import Metrology.Proofs.Expression.WalkResult
import Metrology.Proofs.Expression.Sweep
import Metrology.Proofs.Expression.SweepTokens
