import AmareleoChain.Consensus
import AmareleoChain.Development
import AmareleoChain.Node

/-!
A node of the development network: the environments in which nothing fails, and the node over a
chain.
-/

namespace AmareleoChain

/-- The certification of the batch of an account in a round. -/
def certifies (round author : ℕ) : Certification where
  inserted := .done
  insertedAt := 10 * round
  sent := .done
  currentTimestamp := 10 * round
  header := .ok (⟨10 * round + author⟩, ⟨developmentAccount author, 0⟩)
  sign address := .ok ⟨address, 0⟩

/-- What a proposal meets at the time of a round. -/
def proposes (round : ℕ) : ProposeEnv where
  accounts := .ok fun i => developmentAccount i
  lite :=
    { checkedAt := 10 * round
      roundSent := .done
      roundSentAt := 10 * round
      checks := fun _ => ⟨.ok (), .ok (), .ok (), .ok 0⟩
      certification := certifies round 0 }
  fake i := certifies round i

/-- What the loading of a cached certificate meets. -/
def loads (round : ℕ) : LoadEnv where
  increment := ⟨.done, 10 * round, proposes round⟩
  receipt := ⟨.done, 10 * round, .done⟩

/-- The first block of the development chain. -/
def genesis : Block := ⟨0, 0, .beacon, [], [], [], []⟩

/-- A new node over a chain. -/
def newNode (l : CoreLedgerService Chain) : Primary BFTMemoryService Chain :=
  Primary.new (developmentAccount 0)
    (Storage.new developmentCommittee BFTMemoryService.empty developmentNetwork.maxGcRounds)
    true l

/-- The node started over a chain, with a proposal cache. -/
def startedNode (l : CoreLedgerService Chain) (cache : Option ProposalCache) (round : ℕ) :
    Except Stop Unit × Primary BFTMemoryService Chain :=
  let _ := developmentNetwork
  (newNode l).runBft (10 * round) (fun _ => loads round) cache processBftSubdag

/-- The parameters of the inbound queues of the development network. The first byte of a
transaction is its variant. -/
abbrev developmentConsensus : ConsensusNetwork where
  toNetwork := developmentNetwork
  maxSolutions := 4
  isFee transaction := transaction.bytes.head? = some 2
  isDeploy transaction := transaction.bytes.head? = some 0

/-- The checks of a transmission that passes them all. -/
def passing : Checks := ⟨.ok (), .ok (), .ok (), .ok 0⟩

/-- A batch proposed at the time of a round. -/
def proposedNode (round : ℕ) (p : Primary BFTMemoryService Chain) :
    Primary BFTMemoryService Chain :=
  let _ := developmentNetwork
  p.proposeTask (proposes round)

/-- The shutdown flag raised. -/
def shuttingDown {S V : Type} (p : Primary S V) : Primary S V :=
  { p with bft := { p.bft with ledger := { p.bft.ledger with shutdown := true } } }

end AmareleoChain
