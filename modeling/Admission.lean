import Admission.Document.Json
import Admission.Limiter.Binding
import Admission.Limiter.Evaluator
import Admission.Main
import Admission.Meter.Checked
import Admission.Meter.Saved
import Admission.Meter.Stock
import Admission.Replay.Session
import Admission.Setup.Layers
import Admission.Setup.Limits
import Admission.Tree.Growth
import Admission.Tree.Rebuild
import Admission.Tree.Same
import Admission.Tree.Walk
import Admission.Proofs.WindowCount
import Admission.Proofs.Arena
import Admission.Proofs.PreOrder
import Admission.Proofs.StoreLaws
import Admission.Proofs.Visits
import Admission.Proofs.TraceLaw
import Admission.Proofs.Patience
import Admission.Proofs.Run
import Admission.Proofs.Creation
import Admission.Proofs.QuotaSafety
import Admission.Proofs.Members
import Admission.Proofs.Alike
import Admission.Proofs.PrivateMeters
import Admission.Proofs.AccountTexts
import Admission.Proofs.BurstBound
import Admission.Proofs.Separation
import Admission.Proofs.Queue
import Admission.Proofs.FirstMatch
import Admission.Proofs.Paths
import Admission.Proofs.OneChain
import Admission.Proofs.Building
import Admission.Proofs.History
import Admission.Proofs.Binary64
import Admission.Proofs.Written
import Admission.Proofs.ReadBack
import Admission.Proofs.SavedState
import Admission.Proofs.InOrder
import Admission.Proofs.Walks
import Admission.Proofs.Searches
import Admission.Proofs.Additions
import Admission.Proofs.Outlines
import Admission.Proofs.Selections
import Admission.Proofs.Images
import Admission.Proofs.Copies
import Admission.Proofs.Filters
import Admission.Proofs.DocumentTree
import Admission.Proofs.Faults
import Admission.Proofs.ResourceNames
import Admission.Proofs.Nearest
import Admission.Proofs.Rounding
import Admission.Proofs.Values
import Admission.Proofs.Arithmetic
import Admission.Proofs.PermitOrder
import Admission.Proofs.RealPermits
import Admission.Proofs.StoredPermits
import Admission.Proofs.EasierDemands
import Admission.Proofs.Rejections
import Admission.Proofs.WarmUp
import Admission.Proofs.SteadyPace
import Admission.Proofs.FreshMeters
import Admission.Proofs.RelativeError
import Admission.Proofs.SteadyGrants
import Admission.Proofs.ClosedQuota
import Admission.Proofs.Halts
import Admission.Proofs.NextPermit
import Admission.Proofs.Availability
import Admission.Proofs.Sameness
import Admission.Proofs.PathMatching
import Admission.Proofs.EmptyRequests
