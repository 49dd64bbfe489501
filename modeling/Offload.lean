import Offload.Kernel.Named
import Offload.Proofs.Acceptance
import Offload.Proofs.Affairs
import Offload.Proofs.Aftermath
import Offload.Proofs.Assembly
import Offload.Proofs.Barrier
import Offload.Proofs.Batches
import Offload.Proofs.Canonical
import Offload.Proofs.Coherence
import Offload.Proofs.Cycles
import Offload.Proofs.Dumped
import Offload.Proofs.Exceptions
import Offload.Proofs.Extents
import Offload.Proofs.Failing
import Offload.Proofs.Filling
import Offload.Proofs.History
import Offload.Proofs.Landing
import Offload.Proofs.Lifecycle
import Offload.Proofs.Poison
import Offload.Proofs.Publishing
import Offload.Proofs.Remembered
import Offload.Proofs.Replay
import Offload.Proofs.Requests
import Offload.Proofs.Residue
import Offload.Proofs.Spelled
import Offload.Proofs.Synced
import Offload.Proofs.Totals
import Offload.Proofs.Undisturbed
import Offload.Proofs.Weaving
import Offload.Proofs.Windows
import Offload.View
