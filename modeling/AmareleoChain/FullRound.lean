import AmareleoChain.Mirror

/-!
A full round always advances.

When the storage holds a certificate of each member of the committee, the leader is among the
authors of an even round. In an odd round the stake of the committee splits between those who
refer to the leader certificate and those who do not, and one of the two parts is large enough.
-/

namespace AmareleoChain

/-! ### The split of the stake -/

section Stake

variable {committee : Committee} {certificates : List BatchCertificate} {id : Field}

/-- The stake of the certificates that satisfy a predicate. -/
def stakeWhere (committee : Committee) (pred : BatchCertificate → Bool)
    (certificates : List BatchCertificate) : ℕ :=
  ((certificates.filter pred).map fun c => committee.getStake c.author).sum

/-- The two stakes are saturated sums, over the certificates that refer to the leader and over the
others. -/
lemma computeStakeForLeaderCertificate_eq :
    BFT.computeStakeForLeaderCertificate id certificates committee =
      (min (stakeWhere committee (fun c => id ∈ c.previousCertificateIds) certificates)
        (2 ^ 64 - 1),
      min (stakeWhere committee (fun c => id ∉ c.previousCertificateIds) certificates)
        (2 ^ 64 - 1)) := by
  -- the sums so far are saturated sums as well
  have hfold : ∀ m n : ℕ,
      certificates.foldl (fun (stakes : ℕ × ℕ) certificate =>
        let stake := committee.getStake certificate.author
        if id ∈ certificate.previousCertificateIds then
          (BFT.saturatingAdd stakes.1 stake, stakes.2)
        else (stakes.1, BFT.saturatingAdd stakes.2 stake))
        (min m (2 ^ 64 - 1), min n (2 ^ 64 - 1)) =
      (min (m + stakeWhere committee (fun c => id ∈ c.previousCertificateIds) certificates)
        (2 ^ 64 - 1),
      min (n + stakeWhere committee (fun c => id ∉ c.previousCertificateIds) certificates)
        (2 ^ 64 - 1)) := by
    induction certificates with
    | nil =>
      intro m n
      rfl
    | cons c certificates ih =>
      intro m n
      have hadd : ∀ k : ℕ, BFT.saturatingAdd (min k (2 ^ 64 - 1)) (committee.getStake c.author)
          = min (k + committee.getStake c.author) (2 ^ 64 - 1) := by
        intro k
        rw [BFT.saturatingAdd]
        omega
      rw [List.foldl_cons]
      dsimp only
      by_cases hid : id ∈ c.previousCertificateIds
      · rw [if_pos hid, hadd, ih]
        simp [stakeWhere, hid, Nat.add_assoc]
      · rw [if_neg hid, hadd, ih]
        simp [stakeWhere, hid, Nat.add_assoc]
  have hstart := hfold 0 0
  rw [Nat.zero_add, Nat.zero_add] at hstart
  exact hstart

lemma stakeWhere_add_stakeWhere (pred : BatchCertificate → Bool) :
    stakeWhere committee pred certificates + stakeWhere committee (fun c => !pred c) certificates
      = (certificates.map fun c => committee.getStake c.author).sum := by
  induction certificates with
  | nil => rfl
  | cons c certificates ih =>
    rw [List.map_cons, List.sum_cons, ← ih]
    cases h : pred c with
    | true => simp [stakeWhere, h, Nat.add_assoc]
    | false => simp [stakeWhere, h, Nat.add_left_comm]

lemma stakeOf_of_members (h : committee.members ⊆ authorsOf certificates) :
    committee.stakeOf (authorsOf certificates) = committee.totalStake := by
  apply Nat.le_antisymm (committee.stakeOf_le_totalStake _)
  have hmembers : committee.stakeOf committee.members = committee.totalStake :=
    Finset.sum_congr rfl fun a ha => if_pos ha
  rw [← hmembers]
  exact committee.stakeOf_mono h

/-- **Some part of a full round is large enough**: those who refer to a certificate reach the
availability threshold, or those who do not reach the quorum threshold. -/
lemma availability_or_quorum_of_full
    (hquorum : committee.quorumThreshold
      = committee.totalStake - committee.availabilityThreshold + 1)
    (hstake : committee.totalStake < 2 ^ 64)
    (hfull : committee.members ⊆ authorsOf certificates)
    (hnd : (certificates.map BatchCertificate.author).Nodup) (id : Field) :
    committee.availabilityThreshold
        ≤ (BFT.computeStakeForLeaderCertificate id certificates committee).1 ∨
      committee.quorumThreshold
        ≤ (BFT.computeStakeForLeaderCertificate id certificates committee).2 := by
  have hsum : (certificates.map fun c => committee.getStake c.author).sum
      = committee.totalStake := by
    have hauthors : committee.stakeOf (authorsOf certificates)
        = ((certificates.map BatchCertificate.author).map committee.getStake).sum :=
      List.sum_toFinset committee.getStake hnd
    rw [← stakeOf_of_members hfull, hauthors, List.map_map]
    rfl
  have hsplit : stakeWhere committee (fun c => decide (id ∈ c.previousCertificateIds)) certificates
      + stakeWhere committee (fun c => !decide (id ∈ c.previousCertificateIds)) certificates
      = (certificates.map fun c => committee.getStake c.author).sum :=
    stakeWhere_add_stakeWhere _
  have hnot : (fun c : BatchCertificate => !decide (id ∈ c.previousCertificateIds))
      = fun c => decide (id ∉ c.previousCertificateIds) := by
    ext c
    rw [decide_not]
  rw [hsum, hnot] at hsplit
  have hle : committee.availabilityThreshold ≤ committee.totalStake := committee.availability_le
  have hpos := committee.availability_pos
  rw [computeStakeForLeaderCertificate_eq, hquorum]
  omega

end Stake

/-! ### The round -/

namespace BFT

variable {S V : Type} [Network] [Ledger V] {b : BFT S V} {r : ℕ} {committee : Committee}

omit [Network] [Ledger V] in
lemma electLeader_own (h : ∀ leader, b.ledger.latestLeader = some (r, leader) →
    leader = b.account) : (b.electLeader r).1 = b.account := by
  rw [electLeader]
  split
  · next r' a hcache =>
    split
    · next hround =>
      subst hround
      exact h a hcache
    · rfl
  · rfl

/-- The storage holds a certificate of the round of each member of the committee. -/
structure Full (b : BFT S V) (r : ℕ) (committee : Committee) : Prop where
  indexed : b.storage.Indexed
  round : b.storage.currentRound = r
  pos : 1 ≤ r
  lookback : b.ledger.getCommitteeLookbackForRound r = .ok committee
  quorum : committee.quorumThreshold
    = committee.totalStake - committee.availabilityThreshold + 1
  stake : committee.totalStake < 2 ^ 64
  held : ∀ a ∈ committee.members, ∃ c : BatchCertificate,
    b.storage.certificates[c.id]? = some c ∧ c.round = r ∧ c.author = a

namespace Full

lemma members_subset (h : b.Full r committee) :
    committee.members ⊆ authorsOf (b.storage.getCertificatesForRound r) := by
  have hpos := h.pos
  intro a ha
  obtain ⟨c, hc, hround, hauthor⟩ := h.held a ha
  rw [mem_authorsOf]
  exact ⟨c, (Storage.mem_getCertificatesForRound h.indexed (by omega)).mpr ⟨hc, hround⟩, hauthor⟩

lemma isQuorumThresholdReached (h : b.Full r committee) :
    committee.isQuorumThresholdReached (authorsOf (b.storage.getCertificatesForRound r))
      = true := by
  have hle : committee.availabilityThreshold ≤ committee.totalStake := committee.availability_le
  have hpos := committee.availability_pos
  rw [Committee.isQuorumThresholdReached, decide_eq_true_eq, stakeOf_of_members h.members_subset,
    h.quorum]
  omega

/-- **An odd round is ready**, whatever the leader certificate, and the timer. -/
lemma ready_odd (h : b.Full r committee) (hodd : r % 2 = 1) (now : ℤ) :
    b.isLeaderQuorumOrNonleadersAvailable now r = true := by
  have hpos := h.pos
  rw [isLeaderQuorumOrNonleadersAvailable]
  dsimp only
  rw [h.round, if_neg (not_not.mpr rfl), if_neg (not_not.mpr hodd), h.lookback]
  dsimp only
  rw [if_neg (not_not.mpr h.isQuorumThresholdReached)]
  split
  · rfl
  · next leaderCertificate hleader =>
    have hnd := Storage.nodup_map_author h.indexed (r := r) (by omega)
    have hsplit := availability_or_quorum_of_full h.quorum h.stake h.members_subset hnd
      leaderCertificate.id
    rw [Bool.or_eq_true, Bool.or_eq_true, decide_eq_true_eq, decide_eq_true_eq]
    exact .inl hsplit

/-- **An even round is ready**: the own certificate is the leader certificate of the round. -/
lemma ready_even (h : b.Full r committee) (hown : b.account ∈ committee.members)
    (hleader : ∀ leader, b.ledger.latestLeader = some (r, leader) → leader = b.account)
    (heven : r % 2 = 0) (now : ℤ) :
    ∃ x leaderCertificate, b.updateLeaderCertificateToEvenRound now r
      = (true, { b.withLeader x with leaderCertificate }) := by
  have hpos := h.pos
  obtain ⟨c, hc, hround, hauthor⟩ := h.held b.account hown
  have hmem : c ∈ b.storage.getCertificatesForRound r :=
    (Storage.mem_getCertificatesForRound h.indexed (by omega)).mpr ⟨hc, hround⟩
  have hnonempty : ¬ (b.storage.getCertificatesForRound r).isEmpty = true := by
    intro hempty
    rw [List.isEmpty_iff.mp hempty] at hmem
    cases hmem
  obtain ⟨x, hx, -⟩ := electLeader_spec b r
  have helected := electLeader_own hleader
  -- the search for the leader's certificate succeeds
  obtain ⟨d, hd⟩ : ∃ d, (b.storage.getCertificatesForRound r).find?
      (fun certificate => certificate.author == b.account) = some d := by
    rw [← Option.isSome_iff_exists, List.find?_isSome]
    exact ⟨c, hmem, beq_iff_eq.mpr hauthor⟩
  have hdround : d.round = r := ((Storage.mem_getCertificatesForRound h.indexed (by omega)).mp
    (List.mem_of_find?_eq_some hd)).2
  refine ⟨x, some d, ?_⟩
  rw [updateLeaderCertificateToEvenRound]
  dsimp only
  rw [h.round, if_neg (not_not.mpr rfl), if_neg (by omega), if_neg hnonempty, h.lookback]
  dsimp only
  rw [helected, hx, hd, isEvenRoundReadyForNextRound,
    if_neg (not_not.mpr h.isQuorumThresholdReached)]
  dsimp only
  rw [if_pos hdround]

end Full

/-- **A full round advances**: with a certificate of each member of the committee in storage, the
BFT updates to the next round, for either parity, whatever leader certificate is cached and
whether the timer has expired. -/
theorem updateToNextRound_of_full {b : BFT S V} {r : ℕ} {committee current : Committee}
    (h : b.Full r committee) (hown : b.account ∈ committee.members)
    (hleader : ∀ leader, b.ledger.latestLeader = some (r, leader) → leader = b.account)
    (hcurrent : b.ledger.currentCommittee = .ok current)
    (hstarting : current.startingRound ≤ r + 1) (hgc : b.storage.gcRound ≤ r + 1) (now : ℤ) :
    (b.updateToNextRound now r).1 = true ∧
      (b.updateToNextRound now r).2.storage.currentRound = r + 1 := by
  have hincrement : b.storage.incrementToNextRound b.ledger r
      = (.ok (r + 1), b.storage.updateCurrentRound (r + 1)) := by
    have hround := h.round
    rw [Storage.incrementToNextRound]
    dsimp only
    rw [if_neg (by omega), hcurrent]
    dsimp only
    rw [if_neg (Nat.not_lt.mpr hstarting), if_neg fun hne => hne rfl]
    exact if_neg (Nat.not_lt.mpr hgc)
  have hready : ∃ x leaderCertificate, (if r % 2 = 0 then
        b.updateLeaderCertificateToEvenRound now r
      else (b.isLeaderQuorumOrNonleadersAvailable now r, b))
      = (true, { b.withLeader x with leaderCertificate }) := by
    rcases Nat.mod_two_eq_zero_or_one r with heven | hodd
    · rw [if_pos heven]
      exact h.ready_even hown hleader heven now
    · rw [if_neg (by omega), h.ready_odd hodd]
      exact ⟨b.ledger.latestLeader, b.leaderCertificate, rfl⟩
  obtain ⟨x, leaderCertificate, hx⟩ := hready
  have hround := h.round
  have hsame : (b.withLeader x).storage.incrementToNextRound (b.withLeader x).ledger r
      = (.ok (r + 1), b.storage.updateCurrentRound (r + 1)) := hincrement
  rw [updateToNextRound, if_neg (by omega), hx]
  dsimp only
  rw [if_pos rfl, hsame]
  exact ⟨rfl, rfl⟩

end BFT

section Example

/-- The node with the certificates of its first round, before it moves on. The leader certificate
is an old one, that no certificate of the round refers to. -/
def fullRoundBft : BFT BFTMemoryService Chain :=
  { firstRoundNode.bft with
    storage := firstRoundNode.bft.storage.updateCurrentRound 1
    leaderCertificate := some (developmentCertificate 99 0 0 []) }

theorem updateToNextRound_of_full_example :
    let _ := developmentNetwork
    (fullRoundBft.updateToNextRound 0 1).1 = true ∧
      (fullRoundBft.updateToNextRound 0 1).2.storage.currentRound = 2 := by
  let _ := developmentNetwork
  intro _
  have hload : deliveringSurroundings.load (loads 1) :=
    ⟨proposes_delivering 1, .inr ⟨rfl, fun _ h => (by cases h)⟩⟩
  have hlived : Primary.Lived deliveringSurroundings none firstRoundNode :=
    lived_proposedNode (proposes_delivering 1)
      (.start (startedNode_starts hload trivial (by decide +kernel) none))
  have hindexed : firstRoundNode.bft.storage.Indexed :=
    (hlived.mirrored ⟨fun _ h => h, fun _ h => h, fun _ h => h⟩).1.tidy.indexed
  have hauthors : developmentCommittee.members
      ⊆ authorsOf (firstRoundNode.bft.storage.getCertificatesForRound 1) := by decide +kernel
  have hnone : fullRoundBft.ledger.latestLeader.isNone = true := by decide +kernel
  have haccount : fullRoundBft.account ∈ developmentCommittee.members := by decide +kernel
  have hgc : fullRoundBft.storage.gcRound ≤ 2 := by decide +kernel
  have hfull : fullRoundBft.Full 1 developmentCommittee := by
    refine ⟨⟨hindexed.keyed, hindexed.batchIds, hindexed.nonempty, hindexed.entries,
      hindexed.unique⟩, rfl, Nat.le_refl 1, rfl, by decide, by decide, fun a ha => ?_⟩
    obtain ⟨c, hc, hauthor⟩ := mem_authorsOf.mp (hauthors ha)
    obtain ⟨hstored, hround⟩ :=
      (Storage.mem_getCertificatesForRound hindexed Nat.one_ne_zero).mp hc
    exact ⟨c, hstored, hround, hauthor⟩
  refine BFT.updateToNextRound_of_full hfull haccount (fun leader h => ?_) rfl (by decide) hgc 0
  rw [h] at hnone
  cases hnone

end Example

end AmareleoChain
