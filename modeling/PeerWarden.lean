import PeerWarden.Main
import PeerWarden.Proofs.Directory.Entries
import PeerWarden.Proofs.Run.AddressRecord
import PeerWarden.Proofs.Threat.Flood
import PeerWarden.Proofs.Cycle.SecurityCycle
import PeerWarden.Proofs.Admission.FloodWindow
import PeerWarden.Proofs.Admission.BanTerm
import PeerWarden.Proofs.Cycle.AuditTrail
import PeerWarden.Proofs.Cycle.Penalties
import PeerWarden.Proofs.Peer.BlockTerm
import PeerWarden.Proofs.Run.PermanentBans
import PeerWarden.Proofs.Run.Isolation
import PeerWarden.Proofs.Cycle.Commutation
import PeerWarden.Proofs.Run.Clients
import PeerWarden.Proofs.Run.Ledger
import PeerWarden.Proofs.Run.Contacts
import PeerWarden.Proofs.Health.HostFigures
import PeerWarden.Proofs.Health.Hysteresis
import PeerWarden.Proofs.Health.Preference
import PeerWarden.Proofs.Audit.EventHistory
import PeerWarden.Proofs.Cycle.Upkeep
import PeerWarden.Proofs.Run.Refusals
import PeerWarden.Proofs.Health.Pruning
import PeerWarden.Proofs.Run.OutboundPeers
import PeerWarden.Proofs.Run.Loops
import PeerWarden.Proofs.Config.RoundTrip
import PeerWarden.Proofs.Admission.ArrivalOrder
import PeerWarden.Proofs.Cycle.TrustAccount
import PeerWarden.Proofs.Health.Ranking
import PeerWarden.Proofs.Threat.Clusters
import PeerWarden.Proofs.Peer.Merit
import PeerWarden.Proofs.Cycle.Sweeps
import PeerWarden.Proofs.Admission.Deadlines
import PeerWarden.Proofs.Threat.Interviews
