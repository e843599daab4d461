import ProxySshMac.Basic
import ProxySshMac.Primitives
import ProxySshMac.Slot
import ProxySshMac.Kdf
import ProxySshMac.Direction
import ProxySshMac.Engine
import ProxySshMac.Session
import ProxySshMac.Steps
import ProxySshMac.Invariants
import ProxySshMac.Interleaving
import ProxySshMac.Peers
import ProxySshMac.Generation
import ProxySshMac.Refinement
import ProxySshMac.KdfFailure
import ProxySshMac.Tags
import ProxySshMac.Safety
import ProxySshMac.Compose
