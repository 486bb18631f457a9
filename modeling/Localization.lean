import Localization.Resource.Parse
import Localization.Resource.TreeJson
import Localization.Report
import Localization.Bundle
import Localization.Proofs.Resource.Progress
import Localization.Proofs.Resource.Offsets
import Localization.Proofs.Resource.Answers
import Localization.Proofs.Resource.Mirrors.Entry
import Localization.Proofs.Resource.Mirrors.Comment
import Localization.Proofs.Resource.Recovery
import Localization.Proofs.Format.Alike
import Localization.Proofs.Format.Cycles
import Localization.Proofs.Format.Fallbacks
import Localization.Proofs.Format.Isolation
import Localization.Proofs.Format.Balance
import Localization.Proofs.Bundle.Additions
import Localization.Proofs.Resource.Concatenation
import Localization.Proofs.Resource.Languages
import Localization.Proofs.Resource.LineBreaks
import Localization.Proofs.Resource.Nodes
import Localization.Proofs.Resource.Placement
import Localization.Proofs.Resource.RoundTrip
import Localization.Proofs.Resource.Legality
import Localization.Proofs.Resource.NormalForm
import Localization.Proofs.Resource.Positions
import Localization.Proofs.Bundle.FirstDefinitions
import Localization.Proofs.Format.Frame
import Localization.Proofs.Resource.Advance
import Localization.Proofs.Resource.FirstEntry
import Localization.Proofs.Resource.Recursion
import Localization.Proofs.Bundle.Calls
import Localization.Proofs.Resource.SingleMessages
import Localization.Proofs.Resource.TextLines
import Localization.Proofs.Resource.Faithful
import Localization.Proofs.Resource.QuotedTexts
import Localization.Proofs.Format.NumberTexts
import Localization.Proofs.Resource.Promises
import Localization.Proofs.Resource.Attachment
import Localization.Proofs.Format.NumberKeys
import Localization.Proofs.Format.Padding
import Localization.Proofs.Format.SingleTexts
import Localization.Proofs.Format.Limits
import Localization.Proofs.Format.NumberShapes
import Localization.Proofs.Text.SourceLines
import Localization.Proofs.Bindings.Indexed
import Localization.Proofs.Number.Shortest
import Localization.Proofs.Resource.TreeJson
import Localization.Proofs.Value.Matching
import Localization.Proofs.Report.Carets
import Localization.Proofs.Resource.Stops
import Localization.Proofs.Resource.PeekPosition
