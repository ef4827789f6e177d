import Waymark.Cursor
import Waymark.Document.Save
import Waymark.Proofs.ClockCapture
import Waymark.Proofs.DocumentText
import Waymark.Proofs.Format
import Waymark.Proofs.Frame
import Waymark.Proofs.Indentation
import Waymark.Proofs.Lookahead
import Waymark.Proofs.Nesting
import Waymark.Proofs.Noninterference
import Waymark.Proofs.NumberText
import Waymark.Proofs.OptionOrder
import Waymark.Proofs.Reachable
import Waymark.Proofs.Relayout
import Waymark.Proofs.RoundTrip
import Waymark.Proofs.Safety
import Waymark.Proofs.Saved
import Waymark.Proofs.SetThenShow
import Waymark.Proofs.Shown
import Waymark.Proofs.Splitting
import Waymark.Proofs.WellFormed
import Waymark.Session
import Waymark.Settings.Cache
import Waymark.Proofs.Significant
import Waymark.Proofs.ClockReading
import Waymark.Proofs.QuotingSuggestion
import Waymark.Proofs.NumberAsText
import Waymark.Proofs.Delimited
import Waymark.Proofs.Precedence
import Waymark.Proofs.Suggestion
