import AmareleoChain.Dag
import AmareleoChain.Library.StackDfs
import AmareleoChain.Storage

/-!
The BFT: certificates enter the DAG, and once enough of a round refer to the leader of the
round before, this leader is committed, and the leaders linked from it first, each with the
certificates of its history that are not committed yet.
-/

namespace AmareleoChain

open Std

/-- `BFT<N>`, with what it uses of its primary. -/
structure BFT (S V : Type) where
  account : Address
  storage : Storage S
  ledger : CoreLedgerService V
  dag : DAG
  leaderCertificate : Option BatchCertificate
  leaderCertificateTimer : ℤ
  consensusSender : Option (ConsensusSender V)
  /-- A history variable: the leaders committed so far, each with its subdag. -/
  committed : List (BatchCertificate × Subdag)

namespace DAG

/-- The loop of `is_linked`: the certificates of each round that those of the round above
refer to. -/
def traverse (d : DAG) : List ℕ → List BatchCertificate → Except String (List BatchCertificate)
  | [], traversal => .ok traversal
  | round :: rounds, traversal =>
    match d.getCertificatesForRound round with
    | none => .error s!"BFT failed to retrieve the certificates for past round {round}"
    | some certificates =>
      traverse d rounds ((mapValues certificates).filter fun p =>
        traversal.any fun c => decide (p.id ∈ c.previousCertificateIds))

def isLinked (d : DAG) (previousCertificate currentCertificate : BatchCertificate) :
    Except String Bool :=
  match d.traverse (List.range' previousCertificate.round
      (currentCertificate.round - previousCertificate.round)).reverse [currentCertificate] with
  | .error e => .error e
  | .ok traversal => .ok (decide (previousCertificate ∈ traversal))

end DAG

namespace Subdag

/-- `commit.entry(round).or_default().insert(certificate)`. -/
def file (s : Subdag) (c : BatchCertificate) : Subdag :=
  s.insert c.round ((s[c.round]?.getD ∅).insert c)

end Subdag

/-- The transmissions of a subdag, and the IDs met among them. -/
structure Deduped where
  transmissions : IndexMap TransmissionID Transmission
  seenSolutionIds : IndexSet SolutionID
  seenTransactionIds : IndexSet TransactionID

/-- What becomes of a leader that is to be committed. -/
inductive CommitResult where
  | committed
  /-- Consensus did not advance: the function returns early, without an error. -/
  | stopped
  | failed (e : String)

namespace BFT

variable {S V : Type}

/-! ### Leaders -/

/-- Either retrieve the cached leader of a round or compute it; the computed leader is the
node's own account. -/
def electLeader (b : BFT S V) (round : ℕ) : Address × BFT S V :=
  match b.ledger.latestLeader with
  | some (cachedRound, cachedLeader) =>
    if cachedRound = round then (cachedLeader, b)
    else (b.account, { b with ledger := b.ledger.updateLatestLeader round b.account })
  | none => (b.account, { b with ledger := b.ledger.updateLatestLeader round b.account })

/-- `(last_committed_round + 2..=leader_round.saturating_sub(2)).rev().step_by(2)`. -/
def leaderRounds (lastCommittedRound leaderRound : ℕ) : List ℕ :=
  let low := lastCommittedRound + 2
  let high := leaderRound - 2
  if low ≤ high then (List.range ((high - low) / 2 + 1)).map fun i => high - 2 * i else []

/-- The loop of `commit_leader_certificate` that collects the previous leaders, from the
newest to the oldest. -/
def previousLeaders (b : BFT S V) (current : BatchCertificate) :
    List ℕ → Except String (List BatchCertificate) × BFT S V
  | [] => (.ok [], b)
  | round :: rounds =>
    let (leader, b) := b.electLeader round
    match b.dag.getCertificateForRoundWithAuthor round leader with
    | none => b.previousLeaders current rounds
    | some previous =>
      match b.dag.isLinked previous current with
      | .error e => (.error e, b)
      | .ok false => b.previousLeaders current rounds
      | .ok true =>
        let (leaders, b) := b.previousLeaders previous rounds
        (leaders.map (previous :: ·), b)

variable [Ledger V]

/-! ### Ordering a subdag -/

/-- How `order_dag_with_dfs` reads the certificates. The identifiers are taken in reverse, as
the buffer is a stack. -/
def search (allowLedgerAccess : Bool) (b : BFT S V) : Search Field BatchCertificate String where
  key := BatchCertificate.id
  children certificate :=
    let previousRound := certificate.round - 1
    if previousRound + b.storage.maxGcRounds ≤ b.dag.lastCommittedRound then []
    else certificate.previousCertificateIds.toList.reverse
  skip certificate id :=
    b.dag.isRecentlyCommitted (certificate.round - 1) id ||
      (allowLedgerAccess && (b.ledger.containsCertificate id matches .ok true))
  lookup certificate id :=
    let previousRound := certificate.round - 1
    match b.dag.getCertificateForRoundWithId previousRound id with
    | some previous => .ok previous
    | none =>
      match b.storage.getCertificate id with
      | some previous => .ok previous
      | none => .error s!"Missing previous certificate {fmtId id} for round {previousRound}"

/-- The identifiers of the certificates a search can find. -/
def knownIds (b : BFT S V) : List Field :=
  ((mapValues b.dag.graph).flatMap fun m => (mapValues m).map BatchCertificate.id) ++
    (mapValues b.storage.certificates).map BatchCertificate.id

/-- `order_dag_with_dfs`. The search never runs out of this fuel. -/
def orderDagWithDfs (allowLedgerAccess : Bool) (b : BFT S V) (leader : BatchCertificate) :
    Except String Subdag :=
  match (b.search allowLedgerAccess).run (b.knownIds.length + 2) [] [leader] with
  | none => .error "out of fuel"
  | some (.error e) => .error e
  | some (.ok certificates) =>
    .ok ((certificates.foldl Subdag.file ∅).filter fun round _ =>
      round + b.storage.maxGcRounds > b.dag.lastCommittedRound)

/-! ### Committing a leader -/

section Commit

variable [StorageService S]

/-- One transmission that has not been seen is read and recorded. -/
def retrieveTransmission (b : BFT S V) (round : ℕ) (acc : Deduped) (id : TransmissionID)
    (record : Deduped → Deduped) : Except String Deduped :=
  if acc.transmissions.containsKey id then .ok acc
  -- on a failure to read from the ledger the transmission is left out, out of safety
  else if !(b.ledger.containsTransmission id matches .ok false) then .ok acc
  else
    match b.storage.getTransmission id with
    | none => .error
        s!"BFT failed to retrieve transmission '{fmtTransmissionId id}' from round {round}"
    | some transmission =>
      .ok (record { acc with transmissions := acc.transmissions.insert id transmission })

/-- One turn of the deduplication loop. -/
def collectTransmission (b : BFT S V) (round : ℕ) (acc : Deduped) (id : TransmissionID) :
    Except String Deduped :=
  match id with
  | .ratification => .error "Ratifications are currently not supported in the BFT."
  | .solution solutionId _ =>
    if solutionId ∈ acc.seenSolutionIds then .ok acc
    else b.retrieveTransmission round acc id fun acc =>
      { acc with seenSolutionIds := acc.seenSolutionIds.insert solutionId }
  | .transaction transactionId _ =>
    if transactionId ∈ acc.seenTransactionIds then .ok acc
    else b.retrieveTransmission round acc id fun acc =>
      { acc with seenTransactionIds := acc.seenTransactionIds.insert transactionId }

/-- The deduped transmissions of the certificates of a subdag. -/
def collectTransmissions (b : BFT S V) (certificates : List BatchCertificate) :
    Except String (IndexMap TransmissionID Transmission) :=
  let collected := certificates.foldlM
    (fun acc (certificate : BatchCertificate) =>
      certificate.transmissionIds.toList.foldlM (b.collectTransmission certificate.round) acc)
    (⟨∅, ∅, ∅⟩ : Deduped)
  collected.map Deduped.transmissions

/-- The DAG updated, as the subdag was successfully included into a block. -/
def commitSubdag (b : BFT S V) (leader : BatchCertificate) (subdag : Subdag) : BFT S V :=
  { b with
    dag := b.dag.commitAll subdag.certificates b.storage.maxGcRounds
    committed := b.committed ++ [(leader, subdag)] }

/-- The subdag sent to consensus, when the sender is set, and the callback awaited. -/
def triggerConsensus (b : BFT S V) (subdag : Subdag)
    (transmissions : IndexMap TransmissionID Transmission) : CommitResult × BFT S V :=
  match b.consensusSender with
  | none => (.committed, b)
  | some send =>
    let (reply, ledger) := send b.ledger subdag transmissions
    let b := { b with ledger }
    match reply with
    | .callback (.ok ()) => (.committed, b)
    | .callback (.error _) => (.stopped, b)
    | .dropped => (.stopped, b)
    | .unsent => (.failed "channel closed", b)

variable [Network]

/-- The part of `commit_leader_certificate` that builds a block, when the node is not
syncing. -/
def buildBlock (b : BFT S V) (leaderRound : ℕ) (commitSubdag : Subdag) :
    CommitResult × BFT S V :=
  match b.collectTransmissions commitSubdag.certificates with
  | .error e => (.failed e, b)
  | .ok transmissions =>
    match Network.subdagFrom commitSubdag with
    | .error e => (.failed e, b)
    | .ok () =>
      let anchorRound := commitSubdag.anchorRound
      if anchorRound ≠ leaderRound then
        (.failed (s!"BFT failed to commit - the subdag anchor round {anchorRound} does not " ++
          s!"match the leader round {leaderRound}"), b)
      else b.triggerConsensus commitSubdag transmissions

/-- One turn of the loop of `commit_leader_certificate` over the leaders to commit. -/
def commitLeader (allowLedgerAccess isSyncing : Bool) (b : BFT S V) (leader : BatchCertificate) :
    CommitResult × BFT S V :=
  match b.orderDagWithDfs allowLedgerAccess leader with
  | .error e => (.failed s!"BFT failed to order the DAG with DFS - {e}", b)
  | .ok subdag =>
    if isSyncing then (.committed, b.commitSubdag leader subdag)
    else
      match b.buildBlock leader.round subdag with
      | (.committed, b) => (.committed, b.commitSubdag leader subdag)
      | (r, b) => (r, b)

/-- The loop, from the oldest leader to the newest. -/
def commitLeaders (allowLedgerAccess isSyncing : Bool) (b : BFT S V) :
    List BatchCertificate → CommitResult × BFT S V
  | [] => (.committed, b)
  | leader :: leaders =>
    match b.commitLeader allowLedgerAccess isSyncing leader with
    | (.committed, b) => b.commitLeaders allowLedgerAccess isSyncing leaders
    | (r, b) => (r, b)

/-- `commit_leader_certificate`. Storage is garbage collected once, at the end. -/
def commitLeaderCertificate (allowLedgerAccess isSyncing : Bool) (b : BFT S V)
    (leaderCertificate : BatchCertificate) : Except String Unit × BFT S V :=
  match b.previousLeaders leaderCertificate
      (leaderRounds b.dag.lastCommittedRound leaderCertificate.round) with
  | (.error e, b) => (.error e, b)
  | (.ok previous, b) =>
    match b.commitLeaders allowLedgerAccess isSyncing (leaderCertificate :: previous).reverse with
    | (.failed e, b) => (.error e, b)
    | (.stopped, b) => (.ok (), b)
    | (.committed, b) =>
      (.ok (), { b with
        storage := b.storage.garbageCollectCertificates leaderCertificate.round })

/-! ### The entry point -/

/-- The authors of the certificates of a round that include the leader's certificate. -/
def supporters (certificates : ExtTreeMap Address BatchCertificate) (leader : BatchCertificate) :
    Finset Address :=
  authorsOf ((mapValues certificates).filter fun c =>
    decide (leader.id ∈ c.previousCertificateIds))

def updateDag (allowLedgerAccess isSyncing : Bool) (b : BFT S V)
    (certificate : BatchCertificate) : Except String Unit × BFT S V :=
  let certificateRound := certificate.round
  let b := { b with dag := b.dag.insert certificate }
  let commitRound := certificateRound - 1
  if commitRound % 2 ≠ 0 ∨ commitRound < 2 then (.ok (), b)
  else if commitRound ≤ b.dag.lastCommittedRound then (.ok (), b)
  else
    match b.ledger.getCommitteeLookbackForRound commitRound with
    | .error _ => (.error
        s!"BFT failed to retrieve the committee with lag for commit round {commitRound}", b)
    | .ok _ =>
      let (leader, b) := b.electLeader commitRound
      match b.dag.getCertificateForRoundWithAuthor commitRound leader with
      | none => (.ok (), b)
      | some leaderCertificate =>
        match b.dag.getCertificatesForRound certificateRound with
        | none => (.error (s!"BFT failed to retrieve the certificates for certificate round " ++
            s!"{certificateRound}"), b)
        | some certificates =>
          match b.ledger.getCommitteeLookbackForRound certificateRound with
          | .error _ => (.error (s!"BFT failed to retrieve the committee lookback for " ++
              s!"certificate round {certificateRound}"), b)
          | .ok committee =>
            if ¬ committee.isAvailabilityThresholdReached
                (supporters certificates leaderCertificate) then (.ok (), b)
            else b.commitLeaderCertificate allowLedgerAccess isSyncing leaderCertificate

end Commit

def syncBftDagAtBootup (b : BFT S V) (certificates : List BatchCertificate) : BFT S V :=
  { b with dag := b.dag.commitAll certificates b.storage.maxGcRounds }

end BFT

end AmareleoChain
