import Wayside.Main
import Wayside.Proofs.Query.Identity
import Wayside.Proofs.Query.Meaning
import Wayside.Proofs.Search.Found
import Wayside.Proofs.Search.Replay
import Wayside.Proofs.Classify.Tally
import Wayside.Proofs.Element.Order
import Wayside.Proofs.Poi.Rearranged
import Wayside.Proofs.Search.Rearranged
import Wayside.Proofs.Route.Outcomes
import Wayside.Proofs.Text.Spans
import Wayside.Proofs.Xml.Scan
import Wayside.Proofs.Xml.Check
import Wayside.Proofs.Xml.Markup
import Wayside.Proofs.Poi.Waypoints
import Wayside.Proofs.Xml.Tree
import Wayside.Proofs.Route.Track
import Wayside.Proofs.Rule.File
import Wayside.Proofs.Search.Posts
import Wayside.Proofs.Search.Counted
import Wayside.Proofs.Poi.Finite
import Wayside.Proofs.Search.Finite
import Wayside.Proofs.Search.Calls
import Wayside.Proofs.Storage.Writers
import Wayside.Proofs.Element.Format
import Wayside.Proofs.Poi.Description
import Wayside.Proofs.Cli.Output
import Wayside.Proofs.Poi.WellFormed
import Wayside.Proofs.Element.Consistent
import Wayside.Proofs.Route.Chunk
import Wayside.Proofs.Route.SingleTrack
import Wayside.Proofs.Numeric.Monotone
import Wayside.Proofs.Numeric.Value
import Wayside.Proofs.Numeric.Plain
import Wayside.Proofs.Poi.Coordinate
import Wayside.Proofs.Classify.Conserved
import Wayside.Proofs.Classify.Shadowing
import Wayside.Proofs.Poi.Listing
import Wayside.Proofs.Poi.NodeEdits
import Wayside.Proofs.Poi.DescriptionKeys
import Wayside.Proofs.Cli.Arguments
import Wayside.Proofs.Storage.Keys
