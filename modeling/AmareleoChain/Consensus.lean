import AmareleoChain.Primary
import AmareleoChain.Library.LruCache

/-!
Consensus: it queues the transactions and solutions that come in, and hands them to the primary as
far as the worker has room for them.

Each call meets what the ledger answers when it is asked for the item, and each item that is
handed on meets the checks of the worker. No error of these ends the call. The clones of consensus
share all of this, but not what they know of the worker.
-/

namespace AmareleoChain

/-- The parameters of the inbound queues. -/
class ConsensusNetwork extends Network where
  /-- `N::MAX_SOLUTIONS`. -/
  maxSolutions : ℕ
  isFee : Transaction → Bool
  isDeploy : Transaction → Bool

def capacityForDeployments : ℕ := 2 ^ 10

def capacityForExecutions : ℕ := 2 ^ 10

def capacityForSolutions : ℕ := 2 ^ 10

/-- The capacity of `seen_solutions` and of `seen_transactions`. -/
def capacityForSeen : ℕ := 2 ^ 16

def maxDeploymentsPerInterval : ℕ := 1

/-- `Primary::MAX_TRANSMISSIONS_TOLERANCE`. -/
def maxTransmissionsTolerance [Network] : ℕ := Network.maxTransmissionsPerBatch * 2

/-! ### The worker -/

/-- The ID is that of a solution. -/
def TransmissionID.isSolution : TransmissionID → Bool
  | .solution _ _ => true
  | _ => false

def Ready.numSolutions (r : Ready) : ℕ := (r.transmissionIds.keys.filter (·.isSolution)).length

namespace Primary

variable {S V : Type} [StorageService S] [Ledger V] [Network]

/-- `Worker::process_unconfirmed_solution`. -/
def processUnconfirmedSolution (checks : Checks) (solutionId : SolutionID)
    (solution : Data Solution) (p : Primary S V) : Except Stop Unit × Primary S V :=
  attempt (orStop (Network.solutionChecksum solution)) p fun checksum =>
  let transmissionId := .solution solutionId checksum
  if p.containsTransmission transmissionId then
    (.error (.error s!"Solution '{solutionId}.{checksum}' already exists."), p)
  else
    attempt checks.checkSolutionBasic p fun _ =>
    (.ok (), { p with ready := (p.ready.insert transmissionId (.solution solution)).2 })

/-- `Worker::process_unconfirmed_transaction`. -/
def processUnconfirmedTransaction (checks : Checks) (transactionId : TransactionID)
    (transaction : Data Transaction) (p : Primary S V) : Except Stop Unit × Primary S V :=
  attempt (orStop (Network.transactionChecksum transaction)) p fun checksum =>
  let transmissionId := .transaction transactionId checksum
  if p.containsTransmission transmissionId then
    (.error (.error s!"Transaction '{transactionId}.{checksum}' already exists."), p)
  else
    attempt checks.deserialized p fun _ =>
    attempt (orStop (match transaction with
      | .object transaction => .ok transaction
      | .buffer bytes => Network.readTransaction bytes : Except String Transaction)) p fun _ =>
    attempt checks.checkTransactionBasic p fun _ =>
    (.ok (), { p with ready := (p.ready.insert transmissionId (.transaction transaction)).2 })

end Primary

/-! ### Consensus -/

structure TransactionsQueue where
  deployments : LruCache TransactionID Transaction
  executions : LruCache TransactionID Transaction

/-- A clone of `Consensus<N>`, by the workers that it has. `start_handlers` makes those of the
handlers before `Primary::run` sets the workers. -/
inductive Consensus.Clone where
  /-- A clone that a handler runs on: it has no workers. -/
  | handler
  /-- A clone made once the primary runs. -/
  | running
deriving DecidableEq

/-- `Consensus<N>`, with the primary that it sends to. -/
structure Consensus (S V : Type) where
  primary : Primary S V
  solutionsQueue : LruCache SolutionID Solution
  transactionsQueue : TransactionsQueue
  seenSolutions : LruCache SolutionID Unit
  seenTransactions : LruCache TransactionID Unit
  /-- A history variable: the solutions handed to the primary so far. -/
  sentSolutions : List SolutionID
  /-- A history variable: the transactions handed to the primary so far. -/
  sentTransactions : List TransactionID

/-- `Itertools::interleave`. -/
def interleave {α : Type} : List α → List α → List α
  | [], bs => bs
  | a :: as, bs => a :: interleave bs as
termination_by as bs => as.length + bs.length

namespace TransactionsQueue

/-- The transactions that are drained, for a selection of deployments and executions. -/
def drain : List Bool → TransactionsQueue → List Transaction × TransactionsQueue
  | [], q => ([], q)
  | selectDeployment :: selector, q =>
    let (popped, q) :=
      if selectDeployment then
        let (popped, deployments) := q.deployments.popLru
        (popped, { q with deployments })
      else
        let (popped, executions) := q.executions.popLru
        (popped, { q with executions })
    let (transactions, q) := drain selector q
    (popped.toList.map Prod.snd ++ transactions, q)

end TransactionsQueue

namespace Consensus

variable {S V : Type}

def new (primary : Primary S V) : Consensus S V where
  primary
  solutionsQueue := ⟨capacityForSolutions, []⟩
  transactionsQueue := ⟨⟨capacityForDeployments, []⟩, ⟨capacityForExecutions, []⟩⟩
  seenSolutions := ⟨capacityForSeen, []⟩
  seenTransactions := ⟨capacityForSeen, []⟩
  sentSolutions := []
  sentTransactions := []

/-- `num_unconfirmed_transmissions`, a sum over the workers of the clone. -/
def numUnconfirmedTransmissions (c : Consensus S V) : Clone → ℕ
  | .handler => 0
  | .running => c.primary.ready.numTransmissions

def numUnconfirmedSolutions (c : Consensus S V) : Clone → ℕ
  | .handler => 0
  | .running => c.primary.ready.numSolutions

variable [StorageService S] [Ledger V] [ConsensusNetwork]

/-- A solution sent to the primary. -/
def sendSolution (checks : SolutionID → Checks) (c : Consensus S V) (solution : Solution) :
    Consensus S V :=
  { c with
    primary := (c.primary.processUnconfirmedSolution (checks solution.id) solution.id
      (.object solution)).2
    sentSolutions := c.sentSolutions ++ [solution.id] }

/-- A transaction sent to the primary. -/
def sendTransaction (checks : TransactionID → Checks) (c : Consensus S V)
    (transaction : Transaction) : Consensus S V :=
  { c with
    primary := (c.primary.processUnconfirmedTransaction (checks transaction.id) transaction.id
      (.object transaction)).2
    sentTransactions := c.sentTransactions ++ [transaction.id] }

def processUnconfirmedSolutions (clone : Clone) (checks : SolutionID → Checks)
    (c : Consensus S V) : Except String Unit × Consensus S V :=
  let numUnconfirmedSolutions := c.numUnconfirmedSolutions clone
  let numUnconfirmedTransmissions := c.numUnconfirmedTransmissions clone
  if numUnconfirmedSolutions ≥ ConsensusNetwork.maxSolutions ∨
      numUnconfirmedTransmissions ≥ maxTransmissionsTolerance then (.ok (), c)
  else
    let capacity := ConsensusNetwork.maxSolutions - numUnconfirmedSolutions
    let numSolutions := min c.solutionsQueue.len capacity
    let (popped, solutionsQueue) := c.solutionsQueue.popLrus numSolutions
    (.ok (), (popped.map Prod.snd).foldl (sendSolution checks) { c with solutionsQueue })

def processUnconfirmedTransactions (clone : Clone) (checks : TransactionID → Checks)
    (c : Consensus S V) : Except String Unit × Consensus S V :=
  let numUnconfirmedTransmissions := c.numUnconfirmedTransmissions clone
  if numUnconfirmedTransmissions ≥ maxTransmissionsTolerance then (.ok (), c)
  else
    let capacity := maxTransmissionsTolerance - numUnconfirmedTransmissions
    let numDeployments :=
      min (min c.transactionsQueue.deployments.len capacity) maxDeploymentsPerInterval
    let numExecutions := min c.transactionsQueue.executions.len (capacity - numDeployments)
    let selector := interleave (List.replicate numDeployments true)
      (List.replicate numExecutions false)
    let (transactions, transactionsQueue) := c.transactionsQueue.drain selector
    (.ok (), transactions.foldl (sendTransaction checks) { c with transactionsQueue })

def addUnconfirmedSolution (clone : Clone) (contains : Except String Bool)
    (checks : SolutionID → Checks) (solution : Solution) (c : Consensus S V) :
    Except String Unit × Consensus S V :=
  match Network.solutionChecksum (.buffer solution.bytes) with
  | .error e => (.error e, c)
  | .ok _ =>
    let solutionId := solution.id
    let recentlySeen := (c.seenSolutions.peek solutionId).isSome
    let c := { c with seenSolutions := c.seenSolutions.put solutionId () }
    if recentlySeen then (.ok (), c)
    else
      match contains with
      | .error e => (.error e, c)
      | .ok true => (.error s!"Solution '{solutionId}' exists in the ledger (skipping)", c)
      | .ok false =>
        let inPool := (c.solutionsQueue.peek solutionId).isSome
        let c := { c with solutionsQueue := c.solutionsQueue.put solutionId solution }
        if inPool then (.error s!"Solution '{solutionId}' exists in the memory pool", c)
        else c.processUnconfirmedSolutions clone checks

def addUnconfirmedTransaction (clone : Clone) (contains : Except String Bool)
    (checks : TransactionID → Checks) (transaction : Transaction) (c : Consensus S V) :
    Except String Unit × Consensus S V :=
  match Network.transactionChecksum (.buffer transaction.bytes) with
  | .error e => (.error e, c)
  | .ok _ =>
    let transactionId := transaction.id
    if ConsensusNetwork.isFee transaction then
      (.error s!"Transaction '{transactionId}' is a fee transaction (skipping)", c)
    else
      let recentlySeen := (c.seenTransactions.peek transactionId).isSome
      let c := { c with seenTransactions := c.seenTransactions.put transactionId () }
      if recentlySeen then (.ok (), c)
      else
        match contains with
        | .error e => (.error e, c)
        | .ok true =>
          (.error s!"Transaction '{transactionId}' exists in the ledger (skipping)", c)
        | .ok false =>
          let q := c.transactionsQueue
          if ConsensusNetwork.isDeploy transaction then
            let inPool := (q.deployments.peek transactionId).isSome
            let c := { c with transactionsQueue :=
              { q with deployments := q.deployments.put transactionId transaction } }
            if inPool then (.error s!"Transaction '{transactionId}' exists in the memory pool", c)
            else c.processUnconfirmedTransactions clone checks
          else
            let inPool := (q.executions.peek transactionId).isSome
            let c := { c with transactionsQueue :=
              { q with executions := q.executions.put transactionId transaction } }
            if inPool then (.error s!"Transaction '{transactionId}' exists in the memory pool", c)
            else c.processUnconfirmedTransactions clone checks

end Consensus

end AmareleoChain
