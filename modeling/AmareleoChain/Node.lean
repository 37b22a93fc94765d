import AmareleoChain.Primary
import AmareleoChain.Sync

/-!
The node: how the primary starts over the ledger and the proposal cache, the two tasks that it
repeats, and how it shuts down.
-/

namespace AmareleoChain

open Std

/-- What `try_increment_to_the_next_round` meets. -/
structure IncrementEnv where
  roundSent : Await
  roundSentAt : ℤ
  propose : ProposeEnv

/-- What the loading of one cached certificate meets. -/
structure LoadEnv where
  increment : IncrementEnv
  receipt : Receipt

def BFT.new {S V : Type} (account : Address) (storage : Storage S)
    (ledger : CoreLedgerService V) : BFT S V where
  account
  storage
  ledger
  dag := DAG.new
  leaderCertificate := none
  leaderCertificateTimer := 0
  consensusSender := none
  committed := []

namespace Primary

variable {S V : Type}

/-- `Primary::new`, in the BFT. -/
def new (account : Address) (storage : Storage S) (keepState : Bool)
    (ledger : CoreLedgerService V) : Primary S V where
  bft := BFT.new account storage ledger
  bftSender := false
  keepState
  savePending := false
  ready := Ready.new
  proposedBatch := none
  latestProposedBatchTimestamp := 0
  signedProposals := ∅
  proposeLock := 0
  headers := []

variable [StorageService S] [Network] [Ledger V]

/-! ### Increments -/

/-- `try_increment_to_the_next_round`: when the next round is ready, a batch is proposed. -/
def tryIncrementToTheNextRound (env : IncrementEnv) (nextRound : ℕ) (p : Primary S V) :
    Except Stop Unit × Primary S V :=
  andThen (p.tryIncrementToTheNextRoundLite env.roundSent env.roundSentAt nextRound)
    fun isReady p => if isReady then p.proposeBatch env.propose true else (.ok (), p)

/-- The task that periodically tries to increment to the next round. An error is logged. -/
def incrementTask (env : IncrementEnv) (p : Primary S V) : Primary S V :=
  let nextRound := p.currentRound + 1
  let authors := p.storage.getCertificateAuthorsForRound nextRound
  if authors = ∅ then p
  else
    match p.ledger.getCommitteeLookbackForRound nextRound with
    | .error _ => p
    | .ok committeeLookback =>
      if committeeLookback.isQuorumThresholdReached authors then
        (p.tryIncrementToTheNextRound env nextRound).2
      else p

/-- The batch proposer. An error is logged. -/
def proposeTask (env : ProposeEnv) (p : Primary S V) : Primary S V :=
  (p.proposeBatch env true).2

/-! ### Loading the proposal cache -/

/-- `fetch_missing_transmissions`: those that storage lacks, from the worker. -/
def fetchMissingTransmissions (p : Primary S V) (batchHeader : BatchHeader) :
    Except String (IndexMap TransmissionID Transmission) :=
  if batchHeader.round ≤ p.storage.gcRound then .ok ∅
  else if p.storage.containsBatch batchHeader.batchId then .ok ∅
  else
    batchHeader.transmissionIds.toList.foldlM (fun transmissions id =>
      if p.storage.containsTransmission id then .ok transmissions
      else
        match p.getTransmission id with
        | some transmission => .ok (transmissions.insert id transmission)
        | none => .error "Unable to fetch transmission") ∅

/-- `sync_with_batch_header_from_peer::<true>`. -/
def syncWithBatchHeaderFromPeer (env : LoadEnv) (batchHeader : BatchHeader)
    (p : Primary S V) : Except Stop (IndexMap TransmissionID Transmission) × Primary S V :=
  let batchRound := batchHeader.round
  if batchRound ≤ p.storage.gcRound then
    (.error (.error s!"Round {batchRound} is too far in the past"), p)
  else
    attempt (orStop (p.ledger.getCommitteeLookbackForRound batchRound)) p fun committeeLookback =>
    let isQuorumThresholdReached := committeeLookback.isQuorumThresholdReached
      (p.storage.getCertificateAuthorsForRound batchRound)
    let isBehindSchedule := isQuorumThresholdReached && decide (batchRound > p.currentRound)
    let isPeerFarInFuture := decide (batchRound > p.currentRound + p.storage.maxGcRounds)
    andThen
      (if isBehindSchedule || isPeerFarInFuture then
        p.tryIncrementToTheNextRound env.increment batchRound
      else (.ok (), p)) fun _ p =>
    match p.fetchMissingTransmissions batchHeader with
    | .error e => (.error (.error
        s!"Failed to fetch missing transmissions for round {batchRound} - {e}"), p)
    | .ok missingTransmissions => (.ok missingTransmissions, p)

/-- `sync_with_certificate_from_peer::<true>`. -/
def syncWithCertificateFromPeer (env : LoadEnv) (certificate : BatchCertificate)
    (p : Primary S V) : Except Stop Unit × Primary S V :=
  if certificate.round ≤ p.storage.gcRound then (.ok (), p)
  else if p.storage.containsCertificate certificate.id then (.ok (), p)
  else
    andThen (p.syncWithBatchHeaderFromPeer env certificate.batchHeader)
      fun missingTransmissions p =>
    if p.storage.containsCertificate certificate.id then (.ok (), p)
    else
      andThen (p.insertCertificate env.receipt certificate missingTransmissions) fun _ p =>
      p.updateBft env.receipt certificate

/-- The cached certificates loaded one after the other. One that fails is skipped. -/
def loadCertificates (envs : ℕ → LoadEnv) : ℕ → List BatchCertificate → Primary S V →
    Except Stop Unit × Primary S V
  | _, [], p => (.ok (), p)
  | i, certificate :: certificates, p =>
    match p.syncWithCertificateFromPeer (envs i) certificate with
    | (.ok (), p) => p.loadCertificates envs (i + 1) certificates
    | (.error (.error _), p) => p.loadCertificates envs (i + 1) certificates
    | (.error stop, p) => (.error stop, p)

/-- `load_proposal_cache`, of the cache file when there is one. -/
def loadProposalCache (envs : ℕ → LoadEnv) (cache : Option ProposalCache) (p : Primary S V) :
    Except Stop Unit × Primary S V :=
  match cache with
  | none => (.ok (), p)
  | some cache =>
    if cache.isValid p.account then
      { p with
        proposedBatch := cache.proposal
        signedProposals := cache.signedProposals
        proposeLock := cache.latestRound }.loadCertificates envs 0 cache.pendingCertificates
    else
      (.error (.error ("Failed to read the signed proposals from the file system - The proposal " ++
        s!"cache is invalid for the given address {p.account.val}.")), p)

/-! ### Starting and stopping -/

/-- `Primary::run`: the storage and the DAG are synced with the ledger, then the proposal cache
is loaded, and then the tasks can start. -/
def run (now : ℤ) (envs : ℕ → LoadEnv) (cache : Option ProposalCache) (p : Primary S V) :
    Except Stop Unit × Primary S V :=
  let p := { p with bftSender := true }
  attempt (orStop (p.bft.bootup now)) p fun bft =>
  andThen ({ p with bft }.loadProposalCache envs cache) fun _ p =>
    (.ok (), { p with savePending := p.keepState })

/-- `BFT::run`: lastly the consensus sender is set. -/
def runBft (now : ℤ) (envs : ℕ → LoadEnv) (cache : Option ProposalCache)
    (consensusSender : ConsensusSender V) (p : Primary S V) :
    Except Stop Unit × Primary S V :=
  andThen (p.run now envs cache) fun _ p =>
    (.ok (), { p with bft := { p.bft with consensusSender := some consensusSender } })

/-- **A start** whose bootup succeeds: the proposal cache is loaded, and when this succeeds as
well, the state can be saved and consensus listens. -/
theorem runBft_cases {now : ℤ} {p : Primary S V} {b : BFT S V} (hboot : p.bft.bootup now = .ok b)
    (envs : ℕ → LoadEnv) (cache : Option ProposalCache) (consensusSender : ConsensusSender V) :
    ∃ r q, ({ p with bftSender := true, bft := b } : Primary S V).loadProposalCache envs cache
        = (r, q) ∧
      ((∃ stop, r = .error stop ∧ p.runBft now envs cache consensusSender = (.error stop, q)) ∨
        (r = .ok () ∧ p.runBft now envs cache consensusSender = (.ok (), { q with
          savePending := q.keepState
          bft := { q.bft with consensusSender := some consensusSender } }))) := by
  unfold runBft run
  dsimp only
  rw [hboot]
  dsimp only [attempt, orStop, Except.mapError]
  rcases ({ p with bftSender := true, bft := b } : Primary S V).loadProposalCache envs cache
    with ⟨stop | ⟨⟩, q⟩
  · exact ⟨_, q, rfl, .inl ⟨stop, rfl, rfl⟩⟩
  · exact ⟨_, q, rfl, .inr ⟨rfl, rfl⟩⟩

/-- `Primary::shut_down`: the proposal cache, when it is to be saved. -/
def shutDown (p : Primary S V) : Option ProposalCache × Primary S V :=
  if p.savePending then
    (some
      { latestRound := (p.proposedBatch.map Proposal.round).getD p.proposeLock
        proposal := p.proposedBatch
        signedProposals := p.signedProposals
        pendingCertificates := p.storage.getPendingCertificates p.ledger },
      { p with savePending := false, proposedBatch := none })
  else (none, p)

end Primary

end AmareleoChain
