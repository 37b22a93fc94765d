import AmareleoChain.Accepting
import AmareleoChain.BatchLimits
import AmareleoChain.Blockchain
import AmareleoChain.CacheTransparency
import AmareleoChain.Concurrency
import AmareleoChain.DagHistory
import AmareleoChain.Decoding
import AmareleoChain.Dispatch
import AmareleoChain.Endorsements
import AmareleoChain.FaultFree
import AmareleoChain.History
import AmareleoChain.LedgerCleaning
import AmareleoChain.Linkage
import AmareleoChain.LocatorConsistency
import AmareleoChain.Mirror
import AmareleoChain.NextBlock
import AmareleoChain.Orphans
import AmareleoChain.PersistentStorage
import AmareleoChain.ProposalCache
import AmareleoChain.ReadyQueue
import AmareleoChain.Recorded
import AmareleoChain.Reloaded
import AmareleoChain.Reloading
import AmareleoChain.Restart
import AmareleoChain.Restored
import AmareleoChain.Rounds
import AmareleoChain.Signing
import AmareleoChain.StorageInvariant
import AmareleoChain.Tolerance
import AmareleoChain.Waking
