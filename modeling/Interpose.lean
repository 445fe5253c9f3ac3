import Interpose.Main
import Interpose.Proofs.NetworkDecisions
import Interpose.Proofs.PassOnDisk
import Interpose.Proofs.SecondWeave
import Interpose.Proofs.StackShape
import Interpose.Proofs.Callbacks
import Interpose.Proofs.ForcedRebuild
import Interpose.Proofs.DirtyPaths
import Interpose.Proofs.Outline
import Interpose.Proofs.References
import Interpose.Proofs.PassSight
import Interpose.Proofs.PassOrder
import Interpose.Proofs.SecondPass
import Interpose.Proofs.Accounting
import Interpose.Proofs.KeptUnits
import Interpose.Proofs.RoundTrip
import Interpose.Proofs.ScopedWeaving
import Interpose.Proofs.Accessors
import Interpose.Proofs.LoadChain
import Interpose.Proofs.Assignability
import Interpose.Proofs.FlowVerdict
import Interpose.Proofs.MoreRelations
import Interpose.Proofs.CollectedTypes
import Interpose.Proofs.CallsSent
import Interpose.Proofs.StoppedWeaving
import Interpose.Proofs.Acceptance
import Interpose.Proofs.WovenFile
import Interpose.Proofs.NestedNames
import Interpose.Proofs.PreOrder
import Interpose.Proofs.ListedInstructions
import Interpose.Proofs.ListingLines
import Interpose.Proofs.WovenListing
import Interpose.Proofs.VerboseWeaving
import Interpose.Proofs.VerboseHost
