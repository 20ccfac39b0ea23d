import PullQuery.Main
import PullQuery.Proofs.Query.RoundTrip
import PullQuery.Proofs.Query.Injection
import PullQuery.Proofs.Query.Simultaneous
import PullQuery.Proofs.Query.WholeNames
import PullQuery.Proofs.Query.LiteralTokens
import PullQuery.Proofs.Query.Preservation
import PullQuery.Proofs.Query.SignedSeconds
import PullQuery.Proofs.Query.SteadyNames
import PullQuery.Proofs.Query.Overflow
import PullQuery.Proofs.Query.Composition
import PullQuery.Proofs.Filter.TextClauses
import PullQuery.Proofs.Query.Mentions
import PullQuery.Proofs.Filter.CanonicalNames
import PullQuery.Proofs.Filter.RelativeTimes
import PullQuery.Proofs.Json.Tokens
import PullQuery.Proofs.Json.Reading
import PullQuery.Proofs.Time.Calendar
import PullQuery.Proofs.Time.DocumentText
import PullQuery.Proofs.Json.Fields
import PullQuery.Proofs.Record.RoundTrip
import PullQuery.Proofs.Query.Moves
import PullQuery.Proofs.Query.SourceOrder
import PullQuery.Proofs.Query.Climbing
import PullQuery.Proofs.Query.Spellings
import PullQuery.Proofs.Query.Shapes
import PullQuery.Proofs.Query.Positions
import PullQuery.Proofs.Record.OpenRequests
import PullQuery.Proofs.Filter.RoundTrip
import PullQuery.Proofs.Filter.Comparators
import PullQuery.Proofs.Query.Memberships
import PullQuery.Proofs.Query.DurationParts
import PullQuery.Proofs.Query.IntegerSums
import PullQuery.Proofs.Filter.CountOrder
import PullQuery.Proofs.Query.Containment
import PullQuery.Proofs.Query.LetterCase
import PullQuery.Proofs.Query.Flattening
import PullQuery.Proofs.Query.Registrations
import PullQuery.Proofs.Query.Tiling
import PullQuery.Proofs.Query.Progress
import PullQuery.Proofs.Text.Exchange
import PullQuery.Proofs.Value.Equality
