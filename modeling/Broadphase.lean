import Broadphase.AnyIndex
import Broadphase.Culler
import Broadphase.Journal.Console
import Broadphase.Proofs.Grid.Coverage
import Broadphase.Proofs.Tree.FrustumQuery
import Broadphase.Proofs.Tree.Pooling
import Broadphase.Proofs.Tree.Storage
import Broadphase.Proofs.Grid.Overlap
import Broadphase.Proofs.Forms
import Broadphase.Proofs.Tracking
import Broadphase.Proofs.Answers
import Broadphase.Proofs.Grid.Determinism
import Broadphase.Proofs.Tree.Ledger
import Broadphase.Proofs.Tree.Safety
import Broadphase.Proofs.Tree.Tightness
import Broadphase.Proofs.Tree.Recycling
import Broadphase.Proofs.Tree.Flattening
import Broadphase.Proofs.Tree.HeightErasure
import Broadphase.Proofs.Culler
import Broadphase.Proofs.BlockPool.Calls
import Broadphase.Proofs.Idempotence
import Broadphase.Proofs.Tree.Tiling
import Broadphase.Proofs.Tree.Replay
import Broadphase.Proofs.LinearScan.Exactness
import Broadphase.Proofs.BlockPool.Trimming
import Broadphase.Proofs.Box.Points
import Broadphase.Proofs.Frustum.Coherence
import Broadphase.Proofs.Grid.Enumeration
import Broadphase.Proofs.Handle.Digits
