import AmareleoChain.Commit

/-!
The BFT moves to the next round: from an even round when there is a quorum with the leader,
from an odd one when there is a quorum in which enough refer to the leader or enough do not, and
from either when the timer for the leader has expired.
-/

namespace AmareleoChain

def maxLeaderCertificateDelayInSecs : ℤ := 4

namespace BFT

variable {S V : Type}

def isTimerExpired (b : BFT S V) (now : ℤ) : Bool :=
  decide (b.leaderCertificateTimer + maxLeaderCertificateDelayInSecs ≤ now)

def isEvenRoundReadyForNextRound (b : BFT S V) (now : ℤ) (certificates : List BatchCertificate)
    (committee : Committee) (currentRound : ℕ) : Bool :=
  if ¬ committee.isQuorumThresholdReached (authorsOf certificates) then false
  else
    match b.leaderCertificate with
    | some leaderCertificate =>
      if leaderCertificate.round = currentRound then true else b.isTimerExpired now
    | none => b.isTimerExpired now

variable [Network] [Ledger V]

def updateLeaderCertificateToEvenRound (b : BFT S V) (now : ℤ) (evenRound : ℕ) :
    Bool × BFT S V :=
  let currentRound := b.storage.currentRound
  if currentRound ≠ evenRound then (false, b)
  else if currentRound % 2 ≠ 0 ∨ currentRound < 2 then (false, b)
  else
    let currentCertificates := b.storage.getCertificatesForRound currentRound
    if currentCertificates.isEmpty then (false, { b with leaderCertificate := none })
    else
      match b.ledger.getCommitteeLookbackForRound currentRound with
      | .error _ => (false, b)
      | .ok committeeLookback =>
        let (leader, b) := b.electLeader currentRound
        let leaderCertificate := currentCertificates.find? fun certificate =>
          certificate.author == leader
        let b := { b with leaderCertificate }
        (b.isEvenRoundReadyForNextRound now currentCertificates committeeLookback currentRound, b)

/-- `saturating_add` of `u64`. -/
def saturatingAdd (a b : ℕ) : ℕ := min (a + b) (2 ^ 64 - 1)

def computeStakeForLeaderCertificate (leaderCertificateId : Field)
    (currentCertificates : List BatchCertificate) (currentCommittee : Committee) : ℕ × ℕ :=
  currentCertificates.foldl (fun (stakes : ℕ × ℕ) certificate =>
    let stake := currentCommittee.getStake certificate.author
    if leaderCertificateId ∈ certificate.previousCertificateIds then
      (saturatingAdd stakes.1 stake, stakes.2)
    else (stakes.1, saturatingAdd stakes.2 stake)) (0, 0)

def isLeaderQuorumOrNonleadersAvailable (b : BFT S V) (now : ℤ) (oddRound : ℕ) : Bool :=
  let currentRound := b.storage.currentRound
  if currentRound ≠ oddRound then false
  else if currentRound % 2 ≠ 1 then false
  else
    let currentCertificates := b.storage.getCertificatesForRound currentRound
    match b.ledger.getCommitteeLookbackForRound currentRound with
    | .error _ => false
    | .ok committeeLookback =>
      if ¬ committeeLookback.isQuorumThresholdReached (authorsOf currentCertificates) then false
      else
        match b.leaderCertificate with
        | none => true
        | some leaderCertificate =>
          let (stakeWithLeader, stakeWithoutLeader) := computeStakeForLeaderCertificate
            leaderCertificate.id currentCertificates committeeLookback
          decide (committeeLookback.availabilityThreshold ≤ stakeWithLeader) ||
            decide (committeeLookback.quorumThreshold ≤ stakeWithoutLeader) ||
            b.isTimerExpired now

def updateToNextRound (b : BFT S V) (now : ℤ) (currentRound : ℕ) : Bool × BFT S V :=
  if currentRound < b.storage.currentRound then (false, b)
  else
    let (isReady, b) :=
      if currentRound % 2 = 0 then b.updateLeaderCertificateToEvenRound now currentRound
      else (b.isLeaderQuorumOrNonleadersAvailable now currentRound, b)
    if isReady then
      match b.storage.incrementToNextRound b.ledger currentRound with
      | (.error _, storage) => (false, { b with storage })
      | (.ok _, storage) => (true, { b with storage, leaderCertificateTimer := now })
    else (false, b)

lemma readiness_keeps (b : BFT S V) (now : ℤ) (currentRound : ℕ) :
    ∃ x leaderCertificate, (if currentRound % 2 = 0 then
        b.updateLeaderCertificateToEvenRound now currentRound
      else (b.isLeaderQuorumOrNonleadersAvailable now currentRound, b)).2
        = { b.withLeader x with leaderCertificate } := by
  split
  · unfold updateLeaderCertificateToEvenRound
    dsimp only
    split
    · exact ⟨b.ledger.latestLeader, _, rfl⟩
    split
    · exact ⟨b.ledger.latestLeader, _, rfl⟩
    split
    · exact ⟨b.ledger.latestLeader, _, rfl⟩
    split
    · exact ⟨b.ledger.latestLeader, _, rfl⟩
    · obtain ⟨x, hx, -⟩ := electLeader_spec b b.storage.currentRound
      rw [hx]
      exact ⟨x, _, rfl⟩
  · exact ⟨b.ledger.latestLeader, _, rfl⟩

/-- What the increment leaves alone: all but the storage, the cached leader, and what is noted
of the leader of the round. -/
theorem updateToNextRound_keeps (b : BFT S V) (now : ℤ) (currentRound : ℕ) :
    ∃ x leaderCertificate leaderCertificateTimer storage,
      (storage = b.storage ∨ storage = (b.storage.incrementToNextRound b.ledger currentRound).2) ∧
      (b.updateToNextRound now currentRound).2
        = { b.withLeader x with leaderCertificate, leaderCertificateTimer, storage } := by
  obtain ⟨x, leaderCertificate, hx⟩ := b.readiness_keeps now currentRound
  unfold updateToNextRound
  split
  · exact ⟨b.ledger.latestLeader, _, _, _, .inl rfl, rfl⟩
  dsimp only
  generalize (if currentRound % 2 = 0 then b.updateLeaderCertificateToEvenRound now currentRound
    else (b.isLeaderQuorumOrNonleadersAvailable now currentRound, b)) = r at hx ⊢
  obtain ⟨isReady, b'⟩ := r
  subst hx
  -- the cached leader does not matter to the increment
  have hsame : (b.withLeader x).storage.incrementToNextRound (b.withLeader x).ledger currentRound
      = b.storage.incrementToNextRound b.ledger currentRound := rfl
  cases isReady
  · exact ⟨x, leaderCertificate, _, _, .inl rfl, rfl⟩
  · dsimp only
    rw [if_pos rfl, hsame]
    rcases b.storage.incrementToNextRound b.ledger currentRound with ⟨_ | _, storage⟩ <;>
      exact ⟨x, leaderCertificate, _, _, .inr rfl, rfl⟩

lemma ownLeader_updateToNextRound {b : BFT S V} (h : OwnLeader b.account b.ledger) (now : ℤ)
    (currentRound : ℕ) : OwnLeader b.account (b.updateToNextRound now currentRound).2.ledger := by
  have heven : OwnLeader b.account
      (b.updateLeaderCertificateToEvenRound now currentRound).2.ledger := by
    unfold updateLeaderCertificateToEvenRound
    dsimp only
    split
    · exact h
    split
    · exact h
    split
    · exact h
    split
    · exact h
    · obtain ⟨x, hx, hown⟩ := electLeader_spec b b.storage.currentRound
      rw [hx]
      exact (hown h).2
  unfold updateToNextRound
  split
  · exact h
  have hready : OwnLeader b.account (if currentRound % 2 = 0 then
      b.updateLeaderCertificateToEvenRound now currentRound
    else (b.isLeaderQuorumOrNonleadersAvailable now currentRound, b)).2.ledger := by
    split
    · exact heven
    · exact h
  dsimp only
  generalize (if currentRound % 2 = 0 then b.updateLeaderCertificateToEvenRound now currentRound
    else (b.isLeaderQuorumOrNonleadersAvailable now currentRound, b)) = r at hready ⊢
  split
  · split <;> exact hready
  · exact hready

end BFT

end AmareleoChain
