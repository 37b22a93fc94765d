import AmareleoChain.Advance
import AmareleoChain.Proposal
import AmareleoChain.Ready

/-!
The primary: it builds the batches of the node, certifies them with the keys of the other
validators, has these propose empty batches, and moves from round to round.

The steps of other code that it waits for are answered by an environment, one for each call. An
awaited step can fail, and the task can be aborted there, before or after the step took effect.
-/

namespace AmareleoChain

def minBatchDelayInSecs : ℤ := 1

def maxWorkers : ℕ := 1

/-- `Worker::MAX_TRANSMISSIONS_PER_WORKER`. -/
def maxTransmissionsPerWorker [Network] : ℕ := Network.maxTransmissionsPerBatch / maxWorkers

/-! ### Awaited steps -/

/-- How a task ends before its end. -/
inductive Stop where
  | error (e : String)
  | aborted
  /-- A loop that never ends. -/
  | diverged
  deriving DecidableEq

/-- How an awaited step goes: it is done, or the task stops there. -/
inductive Await where
  | done
  | stopped (stop : Stop) (effect : Bool)

def Await.run {σ α : Type} (a : Await) (step : σ → Except Stop α × σ) (s : σ) :
    Except Stop α × σ :=
  match a with
  | .done => step s
  | .stopped stop true => (.error stop, (step s).2)
  | .stopped stop false => (.error stop, s)

/-- What follows an awaited step, unless the task stopped there. -/
def andThen {σ α β : Type} (r : Except Stop α × σ) (next : α → σ → Except Stop β × σ) :
    Except Stop β × σ :=
  match r with
  | (.error stop, s) => (.error stop, s)
  | (.ok a, s) => next a s

/-- What follows a computation that leaves the state alone. -/
def attempt {σ α β : Type} (r : Except Stop α) (s : σ) (next : α → Except Stop β × σ) :
    Except Stop β × σ :=
  match r with
  | .error stop => (.error stop, s)
  | .ok a => next a

/-- An error that ends the task. -/
def orStop {α : Type} (r : Except String α) : Except Stop α := r.mapError Stop.error

/-- What the ledger service answers about a transmission that is to be proposed. -/
structure Checks where
  checkSolutionBasic : Except Stop Unit
  /-- The task that deserializes a transaction. -/
  deserialized : Except Stop Unit
  checkTransactionBasic : Except Stop Unit
  transactionSpentCost : Except String ℕ

/-- What a certificate meets on its way to storage and to the BFT. -/
structure Receipt where
  inserted : Await
  insertedAt : ℤ
  sent : Await

/-- What the certification of a batch meets. -/
structure Certification extends Receipt where
  currentTimestamp : ℤ
  /-- `BatchHeader::new`, by the batch ID and the signature. -/
  header : Except Stop (Field × Signature)
  sign : Address → Except Stop Signature

/-- What `propose_batch_lite` meets. -/
structure LiteEnv where
  checkedAt : ℤ
  roundSent : Await
  roundSentAt : ℤ
  checks : TransmissionID → Checks
  certification : Certification

/-- What `propose_batch` meets. -/
structure ProposeEnv where
  accounts : Except String (Fin 4 → Address)
  lite : LiteEnv
  fake : Fin 4 → Certification

/-! ### The primary -/

/-- A header that `BatchHeader::new` is asked for. -/
structure HeaderRequest where
  author : Address
  round : ℕ
  deriving DecidableEq

/-- `Primary<N>`, with the BFT it sends to, which has its storage and ledger. There is one
worker, of which it has the ready queue. -/
structure Primary (S V : Type) where
  bft : BFT S V
  bftSender : Bool
  keepState : Bool
  savePending : Bool
  ready : Ready
  proposedBatch : Option Proposal
  latestProposedBatchTimestamp : ℤ
  signedProposals : SignedProposals
  proposeLock : ℕ
  /-- A history variable: the headers asked for so far. -/
  headers : List HeaderRequest

namespace Primary

variable {S V : Type}

abbrev account (p : Primary S V) : Address := p.bft.account
abbrev storage (p : Primary S V) : Storage S := p.bft.storage
abbrev ledger (p : Primary S V) : CoreLedgerService V := p.bft.ledger

/-- The storage replaced. -/
def withStorage (p : Primary S V) (storage : Storage S) : Primary S V :=
  { p with bft := { p.bft with storage } }

/-- A header asked for. -/
def askHeader (p : Primary S V) (author : Address) (round : ℕ) : Primary S V :=
  { p with headers := p.headers ++ [⟨author, round⟩] }

def currentRound (p : Primary S V) : ℕ := p.storage.currentRound

def checkProposalTimestamp (p : Primary S V) (previousRound : ℕ) (author : Address)
    (timestamp : ℤ) : Except String Unit :=
  let previousTimestamp :=
    match p.storage.getCertificateForRoundWithAuthor previousRound author with
    | some certificate => certificate.timestamp
    | none => p.latestProposedBatchTimestamp
  let elapsed := timestamp - previousTimestamp
  if elapsed < -2 ^ 63 ∨ 2 ^ 63 ≤ elapsed then
    .error s!"Timestamp cannot be before the previous certificate at round {previousRound}"
  else if elapsed < minBatchDelayInSecs then
    .error s!"Timestamp is too soon after the previous certificate at round {previousRound}"
  else .ok ()

/-! #### Sending to the BFT -/

section Sending

variable [Ledger V] [Network]

def sendPrimaryRoundToBft (sent : Await) (now : ℤ) (round : ℕ) (p : Primary S V) :
    Except Stop Bool × Primary S V :=
  sent.run (fun p =>
    let (isReady, bft) := p.bft.updateToNextRound now round
    (.ok isReady, { p with bft })) p

def sendPrimaryCertificateToBft [StorageService S] (sent : Await)
    (certificate : BatchCertificate) (p : Primary S V) : Except Stop Unit × Primary S V :=
  sent.run (fun p =>
    match p.bft.updateDag true false certificate with
    | (.ok (), bft) => (.ok (), { p with bft })
    | (.error e, bft) => (.error (.error e), { p with bft })) p

end Sending

/-! #### The worker -/

section Worker

variable [StorageService S] [Ledger V]

/-- `Worker::contains_transmission`. -/
def containsTransmission (p : Primary S V) (id : TransmissionID) : Bool :=
  p.ready.contains id ||
    (p.proposedBatch.map fun proposal => proposal.containsTransmission id).getD false ||
    p.storage.containsTransmission id ||
    (p.ledger.containsTransmission id matches .ok true)

/-- `Worker::get_transmission`; a transmission is never read from the ledger. -/
def getTransmission (p : Primary S V) (id : TransmissionID) : Option Transmission :=
  match p.ready.get id with
  | some transmission => some transmission
  | none =>
    match p.storage.getTransmission id with
    | some transmission => some transmission
    | none => p.proposedBatch.bind fun proposal => proposal.getTransmission id

/-- `Worker::reinsert`: at the back of the queue. -/
def reinsert (p : Primary S V) (id : TransmissionID) (transmission : Transmission) :
    Primary S V :=
  if p.containsTransmission id then p
  else { p with ready := (p.ready.insert id transmission).2 }

/-- `reinsert_transmissions_into_workers`. With one worker no assignment fails. -/
def reinsertTransmissions (p : Primary S V)
    (transmissions : IndexMap TransmissionID Transmission) : Primary S V :=
  transmissions.entries.foldl (fun p e => p.reinsert e.1 e.2) p

end Worker

/-! #### Draining the worker -/

/-- The state of the drain loop. -/
structure Draining where
  ready : Ready
  transmissions : IndexMap TransmissionID Transmission
  proposalCost : ℕ
  numWorkerTransmissions : ℕ

/-- What the drain loop does with the transmission it took from the front. -/
inductive Choice where
  | insert (proposalCost : ℕ)
  | skip
  /-- The spend limit is reached: back to the front, and the loop ends. -/
  | reinsert
  | stop (stop : Stop)

section Drain

variable [StorageService S] [Ledger V] [Network]

/-- Whether a checksum could be computed, and is the expected one. -/
def checksumMatches (computed : Except String Checksum) (checksum : Checksum) : Bool :=
  match computed with
  | .ok computed => computed == checksum
  | .error _ => false

/-- The checks of a transaction: the checksum, the transaction itself, and its cost. -/
def chooseTransaction (checks : Checks) (proposalCost : ℕ) (checksum : Checksum)
    (transaction : Data Transaction) : Choice :=
  if checksumMatches (Network.transactionChecksum transaction) checksum then
    match checks.deserialized with
    | .error stop => .stop stop
    | .ok () =>
      match (match transaction with
        | .object transaction => .ok transaction
        | .buffer bytes => Network.readTransaction bytes : Except String Transaction) with
      | .error e => .stop (.error e)
      | .ok _ =>
        match checks.checkTransactionBasic with
        | .error (.error _) => .skip
        | .error stop => .stop stop
        | .ok () =>
          match checks.transactionSpentCost with
          | .error _ => .skip
          | .ok cost =>
            let nextProposalCost := proposalCost + cost
            if 2 ^ 64 ≤ nextProposalCost then .skip
            else if nextProposalCost > Network.batchSpendLimit then .reinsert
            else .insert nextProposalCost
  else .skip

/-- The checks of a solution. -/
def chooseSolution (checks : Checks) (proposalCost : ℕ) (checksum : Checksum)
    (solution : Data Solution) : Choice :=
  if checksumMatches (Network.solutionChecksum solution) checksum then
    match checks.checkSolutionBasic with
    | .error (.error _) => .skip
    | .error stop => .stop stop
    | .ok () => .insert proposalCost
  else .skip

/-- The body of the drain loop, below the limits on the number of transmissions. -/
def choose (p : Primary S V) (checks : Checks) (d : Draining) (id : TransmissionID)
    (transmission : Transmission) : Choice :=
  if ¬ (p.ledger.containsTransmission id matches .ok false) then .skip
  -- the first transmission of the proposal is not skipped
  else if ¬ d.transmissions.entries.isEmpty ∧ p.storage.containsTransmission id then .skip
  else
    match id, transmission with
    | .solution _ checksum, .solution solution =>
      chooseSolution checks d.proposalCost checksum solution
    | .transaction _ checksum, .transaction transaction =>
      chooseTransaction checks d.proposalCost checksum transaction
    | _, _ => .skip

/-- The drain loop. As each turn takes one transmission from the queue, it needs no more turns
than there are transmissions. -/
def drain (p : Primary S V) (checks : TransmissionID → Checks) :
    ℕ → Draining → Except Stop Unit × Draining
  | 0, d => (.ok (), d)
  | n + 1, d =>
    match d.ready.removeFront with
    | (none, _) => (.ok (), d)
    | (some (id, transmission), ready) =>
      let d := { d with ready }
      if d.transmissions.len ≥ Network.maxTransmissionsPerBatch then (.ok (), d)
      -- there is no other worker to continue with
      else if d.numWorkerTransmissions ≥ maxTransmissionsPerWorker then (.ok (), d)
      else
        match p.choose (checks id) d id transmission with
        | .skip => p.drain checks n d
        | .insert proposalCost =>
          p.drain checks n { d with
            transmissions := d.transmissions.insert id transmission
            proposalCost
            numWorkerTransmissions := d.numWorkerTransmissions + 1 }
        | .reinsert => (.ok (), { d with ready := (d.ready.insertFront id transmission).2 })
        | .stop stop => (.error stop, d)

end Drain

/-! #### Certifying a batch -/

section Certify

/-- The batch header of an account, and its proposal. -/
def newProposal (env : Certification) (author : Address) (round : ℕ)
    (committeeLookback : Committee) (previousCertificates : List BatchCertificate)
    (transmissions : IndexMap TransmissionID Transmission) : Except Stop Proposal :=
  match env.header with
  | .error stop => .error stop
  | .ok (batchId, signature) =>
    let batchHeader : BatchHeader :=
      { batchId, author, round
        timestamp := env.currentTimestamp
        committeeId := committeeLookback.id
        transmissionIds := transmissions.keySet
        previousCertificateIds :=
          IndexSet.ofList (previousCertificates.map BatchCertificate.id)
        signature }
    orStop (Proposal.new committeeLookback batchHeader transmissions)

variable [Ledger V] [Network]

/-- The forged signatures of other validators. -/
def addSignatures (env : Certification) (committeeLookback : Committee) :
    List Address → Proposal → Except Stop Proposal
  | [], proposal => .ok proposal
  | signer :: signers, proposal =>
    match env.sign signer with
    | .error stop => .error stop
    | .ok signature =>
      match proposal.addSignature signer signature committeeLookback with
      | .error e => .error (.error e)
      | .ok proposal => addSignatures env committeeLookback signers proposal

def incrementToNextRound (round : ℕ) (p : Primary S V) : Except Stop ℕ × Primary S V :=
  let (result, storage) := p.storage.incrementToNextRound p.ledger round
  (orStop result, p.withStorage storage)

/-- The loop of `try_increment_to_the_next_round_lite`. Each turn but one brings the round
further, or the loop never ends. -/
def fastForward (nextRound : ℕ) : ℕ → ℕ → Primary S V → Except Stop Unit × Primary S V
  | 0, _, p => (.error .diverged, p)
  | n + 1, fastForwardRound, p =>
    if fastForwardRound < nextRound - 1 then
      andThen (p.incrementToNextRound fastForwardRound) fun fastForwardRound p =>
        fastForward nextRound n fastForwardRound { p with proposedBatch := none }
    else (.ok (), p)

/-- `try_increment_to_the_next_round_lite`, with whether the next round is ready. -/
def tryIncrementToTheNextRoundLite (roundSent : Await) (now : ℤ) (nextRound : ℕ)
    (p : Primary S V) : Except Stop Bool × Primary S V :=
  andThen
    (if p.currentRound + p.storage.maxGcRounds ≥ nextRound then
      p.fastForward nextRound (2 * nextRound + 2) p.currentRound
    else (.ok (), p)) fun _ p =>
  let currentRound := p.currentRound
  if currentRound < nextRound then
    if p.bftSender then p.sendPrimaryRoundToBft roundSent now currentRound
    else andThen (p.incrementToNextRound currentRound) fun _ p => (.ok true, p)
  else (.ok false, p)

variable [StorageService S]

/-- A certificate stored with its transmissions. -/
def insertCertificate (env : Receipt) (certificate : BatchCertificate)
    (transmissions : IndexMap TransmissionID Transmission) (p : Primary S V) :
    Except Stop Unit × Primary S V :=
  env.inserted.run (fun p =>
    let (result, storage) :=
      p.storage.insertCertificate p.ledger env.insertedAt certificate transmissions ∅
    (orStop result, p.withStorage storage)) p

/-- A certificate sent to the BFT, when there is one. -/
def updateBft (env : Receipt) (certificate : BatchCertificate) (p : Primary S V) :
    Except Stop Unit × Primary S V :=
  if p.bftSender then p.sendPrimaryCertificateToBft env.sent certificate else (.ok (), p)

def storeAndBroadcastCertificateLite (env : LiteEnv) (proposal : Proposal)
    (committee : Committee) (p : Primary S V) : Except Stop Unit × Primary S V :=
  attempt (orStop (proposal.toCertificate committee)) p fun (certificate, transmissions) =>
  andThen (p.insertCertificate env.certification.toReceipt certificate transmissions) fun _ p =>
  andThen (p.updateBft env.certification.toReceipt certificate) fun _ p =>
  andThen (p.tryIncrementToTheNextRoundLite env.roundSent env.roundSentAt
    (certificate.round + 1)) fun _ p => (.ok (), p)

/-- `complete_batch_lite`. An aborted task reinserts nothing. -/
def completeBatchLite (env : LiteEnv) (otherAcc : List Address) (proposal : Proposal)
    (committeeLookback : Committee) (p : Primary S V) : Except Stop Unit × Primary S V :=
  attempt (addSignatures env.certification committeeLookback otherAcc proposal) p fun proposal =>
  match p.storeAndBroadcastCertificateLite env proposal committeeLookback with
  | (.error (.error e), p) =>
    (.error (.error e), p.reinsertTransmissions proposal.transmissions)
  | r => r

/-! #### Proposing a batch -/

/-- The end of `propose_batch_lite`: the proposal signed, and completed when asked for. -/
def signAndComplete (env : LiteEnv) (otherAcc : List Address) (complete : Bool) (round : ℕ)
    (committeeLookback : Committee) (previousCertificates : List BatchCertificate)
    (transmissions : IndexMap TransmissionID Transmission) (p : Primary S V) :
    Except Stop ℕ × Primary S V :=
  let author := p.account
  let p := { p with proposeLock := round }.askHeader author round
  match newProposal env.certification author round committeeLookback previousCertificates
      transmissions with
  | .error (.error e) => (.error (.error e), p.reinsertTransmissions transmissions)
  | .error stop => (.error stop, p)
  | .ok proposal =>
    let p := { p with latestProposedBatchTimestamp := proposal.timestamp }
    if complete then
      andThen (p.completeBatchLite env otherAcc proposal committeeLookback) fun _ p =>
        (.ok round, p)
    else (.ok round, p)

/-- The part of `propose_batch_lite` that builds a batch. -/
def buildBatch (env : LiteEnv) (otherAcc : List Address) (complete : Bool) (round : ℕ)
    (committeeLookback : Committee) (previousCertificates : List BatchCertificate)
    (p : Primary S V) : Except Stop ℕ × Primary S V :=
  let (result, d) := p.drain env.checks p.ready.numTransmissions ⟨p.ready, ∅, 0, 0⟩
  let p := { p with ready := d.ready }
  attempt result p fun _ =>
    p.signAndComplete env otherAcc complete round committeeLookback previousCertificates
      d.transmissions

/-- Whether the certificates of the previous round reach the quorum. -/
def isReady (p : Primary S V) (round : ℕ) : Except String Bool :=
  let previousRound := round - 1
  if previousRound > 0 then
    match p.ledger.getCommitteeLookbackForRound previousRound with
    | .error _ => .error (s!"Cannot propose a batch for round {round}: " ++
        "the committee lookback is not known yet")
    | .ok previousCommitteeLookback =>
      .ok (previousCommitteeLookback.isQuorumThresholdReached
        (authorsOf (p.storage.getCertificatesForRound previousRound)))
  else .ok true

def proposeBatchLite (env : LiteEnv) (otherAcc : List Address) (complete : Bool)
    (p : Primary S V) : Except Stop ℕ × Primary S V :=
  let round := p.currentRound
  let previousRound := round - 1
  if round = 0 then (.error (.error "Round 0 cannot have transaction batches"), p)
  else if round < p.proposeLock then (.ok 0, p)
  else
    match p.checkProposalTimestamp previousRound p.account env.checkedAt with
    | .error _ => (.ok 0, p)
    | .ok () =>
      if p.storage.containsCertificateInRoundFrom round p.account then
        -- the round was already certified
        if p.bftSender then
          andThen (p.sendPrimaryRoundToBft env.roundSent env.roundSentAt round) fun _ p =>
            (.ok 0, p)
        else (.ok 0, p)
      else if round = p.proposeLock then (.ok 0, p)
      else
        attempt (orStop (p.ledger.getCommitteeLookbackForRound round)) p fun committeeLookback =>
        if ¬ committeeLookback.isQuorumThresholdReached (insert p.account otherAcc.toFinset) then
          (.ok 0, p)
        else
          attempt (orStop (p.isReady round)) p fun isReady =>
          if ¬ isReady then (.ok 0, p)
          else
            p.buildBatch env otherAcc complete round committeeLookback
              (p.storage.getCertificatesForRound previousRound)

/-- The signature of the node's own account among the forged ones. -/
def ourSign (env : Certification) (otherAcc : List Address) (account : Address) :
    Except String Signature :=
  if account ∈ otherAcc then
    match env.sign account with
    | .ok signature => .ok signature
    | .error _ => .error "Fake Proposal generation failed. Validator 0 signature missing."
  else .error "Fake Proposal generation failed. Validator 0 signature missing."

/-- The end of `fake_proposal`. A validator that has already signed a batch for this round is
left as it is, and nothing is sent. -/
def signProposal (env : Certification) (primaryAcc : Address) (round : ℕ) (batchId : Field)
    (ourSign : Signature) (certificate : BatchCertificate) (p : Primary S V) :
    Except Stop Unit × Primary S V :=
  if (p.signedProposals.get? primaryAcc).any fun signed => signed.1 == round then (.ok (), p)
  else
    { p with signedProposals := p.signedProposals.insert primaryAcc (round, batchId, ourSign)
      }.updateBft env.toReceipt certificate

def fakeProposal (env : Certification) (primaryAcc : Address) (otherAcc : List Address)
    (round : ℕ) (p : Primary S V) : Except Stop Unit × Primary S V :=
  attempt (orStop (p.ledger.getCommitteeLookbackForRound round)) p fun committeeLookback =>
  let previousCertificates := p.storage.getCertificatesForRound (round - 1)
  let p := p.askHeader primaryAcc round
  attempt (newProposal env primaryAcc round committeeLookback previousCertificates ∅) p
    fun proposal =>
  attempt (addSignatures env committeeLookback otherAcc proposal) p fun proposal =>
  attempt (orStop (ourSign env otherAcc p.account)) p fun ourSign =>
  attempt (orStop (proposal.toCertificate committeeLookback)) p
    fun (certificate, transmissions) =>
  andThen (p.insertCertificate env.toReceipt certificate transmissions) fun _ p =>
  p.signProposal env primaryAcc round proposal.batchId ourSign certificate

/-- The empty proposals of the other validators. -/
def fakeProposals (env : ProposeEnv) (allAcc : Fin 4 → Address) (round : ℕ) :
    List (Fin 4) → Primary S V → Except Stop Unit × Primary S V
  | [], p => (.ok (), p)
  | vid :: vids, p =>
    let primaryAcc := allAcc vid
    let otherAcc := (List.ofFn allAcc).filter (· ≠ primaryAcc)
    andThen (p.fakeProposal (env.fake vid) primaryAcc otherAcc round) fun _ p =>
      fakeProposals env allAcc round vids p

def proposeBatch (env : ProposeEnv) (complete : Bool) (p : Primary S V) :
    Except Stop Unit × Primary S V :=
  attempt (orStop env.accounts) p fun allAcc =>
  andThen (p.proposeBatchLite env.lite [allAcc 1, allAcc 2, allAcc 3] complete) fun round p =>
  if ¬ complete ∨ round = 0 then (.ok (), p)
  else p.fakeProposals env allAcc round [1, 2, 3]

end Certify

end Primary

end AmareleoChain
