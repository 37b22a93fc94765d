import AmareleoChain.Restoring

/-!
The pending certificates of a proposal cache are loaded.

After bootup the DAG is at the latest round of the ledger, and consensus does not listen yet. When
no leader among the pending certificates is due, loading them commits nothing. The rounds go up
with them, but nothing is proposed, as the round of the cache is locked.
-/

namespace AmareleoChain

open Std

variable {S V : Type} [Ledger V] {U : Universe} {g : ℕ}

lemma Storage.incrementToNextRound_keeps (l : CoreLedgerService V) (s : Storage S) (round : ℕ) :
    ∃ currentRound, s.currentRound ≤ currentRound ∧
      (s.incrementToNextRound l round).2 = { s with currentRound } := by
  have honward : Storage.Onward (fun _ => False) 0 s (s.incrementToNextRound l round).2 :=
    incrementToNextRound_onward l s round
  refine ⟨_, honward.currentRound, ?_⟩
  unfold incrementToNextRound syncRoundWithBlock updateCurrentRound
  dsimp only
  split
  · rfl
  split
  · rfl
  split
  · split <;> rfl
  · split
    · rfl
    · split <;> rfl

variable [Network]

/-- No leader above the latest round of the ledger has reached the availability threshold among
the certificates. -/
def Finished (account : Address) (l : CoreLedgerService V) (pending : List BatchCertificate) :
    Prop :=
  ∀ leader ∈ pending, leader.author = account → leader.round % 2 = 0 →
    l.latestRound < leader.round → ∀ committee : Committee,
    l.getCommitteeLookbackForRound (leader.round + 1) = .ok committee →
    committee.isAvailabilityThresholdReached (authorsOf (pending.filter fun c =>
      decide (c.round = leader.round + 1 ∧ leader.id ∈ c.previousCertificateIds))) = false

/-- What is loaded: a cache, by a node over a ledger and transmissions that are kept. -/
structure Reload (V : Type) where
  account : Address
  ledger : CoreLedgerService V
  cache : ProposalCache
  kept : TransmissionID → Prop

/-- The pending certificates are of the universe, are of a locked round or in a block, and leave no
leader due. -/
structure Reload.Sound (R : Reload V) (U : Universe) : Prop where
  has : ∀ c ∈ R.cache.pendingCertificates, U.Has c
  locked : ∀ c ∈ R.cache.pendingCertificates,
    c.round ≤ R.cache.latestRound ∨ c ∈ chainCertificates R.ledger.blocks
  finished : Finished R.account R.ledger R.cache.pendingCertificates
  committee : ∃ committee, R.ledger.currentCommittee = .ok committee

namespace Primary

variable [StorageService S] {R : Reload V} {D E : BatchCertificate → Prop} {p q : Primary S V}
  {c : BatchCertificate}

/-- A primary that loads pending certificates, with those with `D` loaded already. -/
structure Loading (R : Reload V) (U : Universe) (g : ℕ) (D : BatchCertificate → Prop)
    (p : Primary S V) : Prop where
  whole : p.bft.Whole U g
  deaf : p.bft.consensusSender = none
  connected : p.bftSender = true
  account : p.account = R.account
  lock : p.proposeLock = R.cache.latestRound
  ledger : p.ledger.ledger = R.ledger.ledger
  own : BFT.OwnLeader p.account p.ledger
  committed : p.bft.dag.lastCommittedRound = R.ledger.latestRound
  graph : ∀ {r : ℕ} {a : Address} {c : BatchCertificate},
    p.bft.dag.getCertificateForRoundWithAuthor r a = some c → c ∈ R.cache.pendingCertificates
  gcRound : p.storage.gcRound = max R.ledger.latestRound 1 - g
  stored : ∀ {c : BatchCertificate}, p.bft.Stored c →
    c ∈ chainCertificates R.ledger.blocks ∨ c ∈ R.cache.pendingCertificates
  done : ∀ {c : BatchCertificate}, D c → p.storage.gcRound < c.round → p.bft.Stored c
  round : max R.ledger.latestRound 1 ≤ p.currentRound
  kept : ∀ t, R.kept t → p.storage.containsTransmission t = true

/-! ### Rounds -/

lemma Loading.same (h : p.Loading R U g D) {x : Option (ℕ × Address)}
    {leaderCertificate : Option BatchCertificate} {leaderCertificateTimer : ℤ} {currentRound : ℕ}
    (hround : p.currentRound ≤ currentRound)
    (hown : BFT.OwnLeader p.account (p.bft.withLeader x).ledger)
    (hbft : q.bft = { p.bft.withLeader x with
      leaderCertificate, leaderCertificateTimer, storage := { p.storage with currentRound } })
    (hsender : q.bftSender = p.bftSender) (hlock : q.proposeLock = p.proposeLock) :
    q.Loading R U g D where
  whole := by
    have hsame : Storage.SameCertificates p.storage { p.storage with currentRound } :=
      ⟨rfl, rfl, rfl, rfl⟩
    rw [hbft]
    exact h.whole.same hsame rfl ⟨x, leaderCertificate, leaderCertificateTimer, rfl⟩
  deaf := by rw [hbft]; exact h.deaf
  connected := hsender.trans h.connected
  account := (congrArg BFT.account hbft).trans h.account
  lock := hlock.trans h.lock
  ledger := (congrArg (fun b => b.ledger.ledger) hbft).trans h.ledger
  own := by
    change BFT.OwnLeader q.bft.account q.bft.ledger
    rw [hbft]
    exact hown
  committed := by rw [hbft]; exact h.committed
  graph := by rw [hbft]; exact h.graph
  gcRound := (congrArg (fun b => b.storage.gcRound) hbft).trans h.gcRound
  stored := by rw [hbft]; exact h.stored
  done := by
    dsimp only [storage]
    rw [hbft]
    exact h.done
  round := h.round.trans (hround.trans (congrArg (fun b => b.storage.currentRound) hbft).ge)
  kept t ht := by
    have hkept := h.kept t ht
    dsimp only [storage] at hkept ⊢
    rw [hbft]
    exact hkept

lemma Loading.increments (hV : ChainInOrder V) (hR : R.Sound U) (h : p.Loading R U g D) :
    p.storage.incrementToNextRound p.ledger p.currentRound
      = (.ok (p.currentRound + 1), { p.storage with currentRound := p.currentRound + 1 }) := by
  obtain ⟨committee, hcommittee⟩ := hR.committee
  have hcommittee' : p.ledger.currentCommittee = .ok committee := by
    unfold CoreLedgerService.currentCommittee at hcommittee ⊢
    rwa [h.ledger]
  have hstarting := hV.committee _ _ hcommittee
  have hround := h.round
  have hgc := h.gcRound
  have hcurrent : p.storage.currentRound = p.currentRound := rfl
  unfold Storage.incrementToNextRound
  rw [if_neg (by omega), hcommittee']
  dsimp only
  rw [if_neg (by omega)]
  unfold Storage.updateCurrentRound
  dsimp only
  rw [if_neg (not_not_intro rfl), if_neg (by omega)]

/-- **The BFT is asked for the next round.** -/
lemma Loading.sendPrimaryRoundToBft (hV : ChainInOrder V) (hR : R.Sound U)
    (h : p.Loading R U g D) (sent : Await) (now : ℤ) :
    (p.sendPrimaryRoundToBft sent now p.currentRound).2.Loading R U g D ∧
      (p.sendPrimaryRoundToBft sent now p.currentRound).2.currentRound ≤ p.currentRound + 1 ∧
      (sent = .done → ∃ isReady, (p.sendPrimaryRoundToBft sent now p.currentRound).1
        = .ok isReady) := by
  have hown := BFT.ownLeader_updateToNextRound h.own now p.currentRound
  have hstep : Loading R U g D { p with bft := (p.bft.updateToNextRound now p.currentRound).2 } ∧
      (p.bft.updateToNextRound now p.currentRound).2.storage.currentRound
        ≤ p.currentRound + 1 := by
    obtain ⟨x, leader, timer, storage, hstorage, hres⟩ :=
      p.bft.updateToNextRound_keeps now p.currentRound
    have hcurrent : ∃ currentRound, p.currentRound ≤ currentRound ∧
        currentRound ≤ p.currentRound + 1 ∧ storage = { p.storage with currentRound } := by
      rcases hstorage with hstorage | hstorage
      · exact ⟨p.currentRound, le_rfl, Nat.le_succ _, hstorage⟩
      · refine ⟨p.currentRound + 1, Nat.le_succ _, le_rfl, ?_⟩
        rw [hstorage]
        exact congrArg Prod.snd (h.increments hV hR)
    obtain ⟨currentRound, hle, hle', rfl⟩ := hcurrent
    rw [hres] at hown ⊢
    exact ⟨h.same hle hown rfl rfl rfl, hle'⟩
  have hidle : p.Loading R U g D ∧ p.currentRound ≤ p.currentRound + 1 := ⟨h, Nat.le_succ _⟩
  cases sent with
  | done => exact ⟨hstep.1, hstep.2, fun _ => ⟨_, rfl⟩⟩
  | stopped stop effect =>
    cases effect
    · exact ⟨hidle.1, hidle.2, fun hdone => by cases hdone⟩
    · exact ⟨hstep.1, hstep.2, fun hdone => by cases hdone⟩

omit [StorageService S] [Network] in
lemma incrementToNextRound_eq {round : ℕ} {p : Primary S V} {currentRound : ℕ} {storage : Storage S}
    (h : p.storage.incrementToNextRound p.ledger round = (.ok currentRound, storage)) :
    p.incrementToNextRound round = (.ok currentRound, p.withStorage storage) := by
  unfold incrementToNextRound
  rw [h]
  rfl

/-- **The fast forward** ends below the next round. -/
lemma Loading.fastForward (hV : ChainInOrder V) (hR : R.Sound U) (h : p.Loading R U g D)
    {nextRound n : ℕ} (hn : nextRound ≤ n + p.currentRound) (hpos : 0 < n) :
    ∃ q, p.fastForward nextRound n p.currentRound = (.ok (), q) ∧ q.Loading R U g D ∧
      q.currentRound ≤ max p.currentRound (nextRound - 1) := by
  induction n generalizing p with
  | zero => omega
  | succ n ih =>
    rw [Primary.fastForward]
    split
    swap
    · exact ⟨p, rfl, h, le_max_left _ _⟩
    next hlt =>
    rw [incrementToNextRound_eq (h.increments hV hR)]
    dsimp only [andThen]
    have hnext : Loading R U g D { p.withStorage { p.storage with
        currentRound := p.currentRound + 1 } with proposedBatch := none } :=
      h.same (x := p.ledger.latestLeader) (Nat.le_succ _) h.own rfl rfl rfl
    have hcurrent : Primary.currentRound { p.withStorage { p.storage with
        currentRound := p.currentRound + 1 } with proposedBatch := none }
          = p.currentRound + 1 := rfl
    obtain ⟨q, hq, hloading, hle⟩ := ih hnext (by rw [hcurrent]; omega) (by omega)
    rw [hcurrent] at hq hle
    exact ⟨q, hq, hloading, by omega⟩

/-- **The increments to the next round**: it is not passed. -/
lemma Loading.tryIncrementToTheNextRoundLite (hV : ChainInOrder V) (hR : R.Sound U)
    (h : p.Loading R U g D) (sent : Await) (now : ℤ) (nextRound : ℕ) :
    (p.tryIncrementToTheNextRoundLite sent now nextRound).2.Loading R U g D ∧
      (∀ q, p.tryIncrementToTheNextRoundLite sent now nextRound = (.ok true, q) →
        q.currentRound ≤ nextRound) ∧
      (sent = .done → ∃ isReady,
        (p.tryIncrementToTheNextRoundLite sent now nextRound).1 = .ok isReady) := by
  have hforward : ∃ q, (if p.currentRound + p.storage.maxGcRounds ≥ nextRound then
        p.fastForward nextRound (2 * nextRound + 2) p.currentRound
      else (.ok (), p)) = (.ok (), q) ∧ q.Loading R U g D := by
    split
    · have hn : nextRound ≤ 2 * nextRound + 2 + p.currentRound := by omega
      obtain ⟨q, hq, hloading, -⟩ := h.fastForward hV hR hn (Nat.succ_pos _)
      exact ⟨q, hq, hloading⟩
    · exact ⟨p, rfl, h⟩
  obtain ⟨q, hq, hloading⟩ := hforward
  unfold Primary.tryIncrementToTheNextRoundLite
  rw [hq]
  dsimp only [andThen]
  rw [if_pos hloading.connected]
  split
  swap
  · exact ⟨hloading, fun r hr => (by cases hr), fun _ => ⟨_, rfl⟩⟩
  next hlt =>
  obtain ⟨hsent, hle, hok⟩ := hloading.sendPrimaryRoundToBft hV hR sent now
  refine ⟨hsent, fun r hr => ?_, hok⟩
  rw [hr] at hle
  exact hle.trans hlt

end Primary

end AmareleoChain
