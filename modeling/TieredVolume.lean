import TieredVolume.Main
import TieredVolume.Inode.Recovery
import TieredVolume.Proofs.Client.ByteLists
import TieredVolume.Proofs.Client.Found
import TieredVolume.Proofs.Client.Orphans
import TieredVolume.Proofs.Client.Paths
import TieredVolume.Proofs.Client.Remount
import TieredVolume.Proofs.Client.Requests
import TieredVolume.Proofs.Client.Answers
import TieredVolume.Proofs.Client.WriteBack
import TieredVolume.Proofs.Space.Ledger
import TieredVolume.Proofs.Alike.Basic
import TieredVolume.Proofs.Alike.Index
import TieredVolume.Proofs.Alike.Files
import TieredVolume.Proofs.Alike.Lifetime
import TieredVolume.Proofs.Alike.Directory
import TieredVolume.Proofs.Alike.Namespace
import TieredVolume.Proofs.Alike.Calls
import TieredVolume.Proofs.Client.Unseen
import TieredVolume.Proofs.Cache.Parked
import TieredVolume.Proofs.Cache.Victim
import TieredVolume.Proofs.Cache.ReadingAhead
import TieredVolume.Proofs.Cache.PastEnd
import TieredVolume.Proofs.Packer.Runs
import TieredVolume.Proofs.Space.FirstFit
import TieredVolume.Proofs.Space.Numbers
import TieredVolume.Proofs.Inode.FiniteMap
import TieredVolume.Proofs.Inode.Raised
import TieredVolume.Proofs.Inode.Deferred
import TieredVolume.Proofs.Inode.Making
import TieredVolume.Proofs.Inode.Registry
import TieredVolume.Proofs.Namespace.Cursor
import TieredVolume.Proofs.Namespace.Splitting
import TieredVolume.Proofs.Nodes.Basic
import TieredVolume.Proofs.Nodes.Paths
import TieredVolume.Proofs.Device.Transfers
import TieredVolume.Proofs.Disk.Layout
import TieredVolume.Proofs.Disk.Spelling
import TieredVolume.Proofs.Nodes.Shared
import TieredVolume.Proofs.Namespace.Parting
import TieredVolume.Proofs.Client.Splits
