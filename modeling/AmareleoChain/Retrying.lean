import AmareleoChain.Persisting
import AmareleoChain.Rounds

/-!
Whether a proposal that failed can be retried.

A call of `propose_batch` locks its round before it certifies its batch. From then on the node does
not propose for this round again, and the empty batches of the other validators only follow its own
one. So the round advances afterwards when it was not locked yet, or when the certificates that
were stored reach the quorum, and never otherwise.
-/

namespace AmareleoChain

namespace Primary

variable {S V : Type} [StorageService S] [Ledger V] [Network] {p q : Primary S V}

/-! ### The calls -/

/-- The node after some calls of the batch proposer. -/
def afterProposals (envs : ℕ → ProposeEnv) (p : Primary S V) : ℕ → Primary S V
  | 0 => p
  | n + 1 => (p.afterProposals envs n).proposeTask (envs n)

/-- No step of a call fails, and the increment of the round would not. -/
structure Succeeds (allAcc : Fin 4 → Address) (committee : Committee) (env : ProposeEnv)
    (p : Primary S V) : Prop where
  accounts : env.accounts = .ok allAcc
  result : (p.proposeBatch env true).1 = .ok ()
  lookback : p.ledger.getCommitteeLookbackForRound p.currentRound = .ok committee
  increments : (p.storage.incrementToNextRound p.ledger p.currentRound).1.isOk = true
  started : p.ledger.CommitteeStarted

/-- A call is late enough to propose, and to advance without the leader. -/
structure Timely (env : ProposeEnv) (p : Primary S V) : Prop where
  proposal : p.checkProposalTimestamp (p.currentRound - 1) p.account env.lite.checkedAt = .ok ()
  expired : p.bft.isTimerExpired env.lite.roundSentAt = true

/-- As long as the round is not raised, every step succeeds, and the clock advances until two calls
in a row are late enough. -/
structure Retries (allAcc : Fin 4 → Address) (committee : Committee) (envs : ℕ → ProposeEnv)
    (p : Primary S V) : Prop where
  succeeds : ∀ n, (p.afterProposals envs n).currentRound = p.currentRound →
    (p.afterProposals envs n).Succeeds allAcc committee (envs n)
  advances : ∃ N, ∀ n, n = N ∨ n = N + 1 → (p.afterProposals envs n).currentRound = p.currentRound →
    (p.afterProposals envs n).Timely (envs n)

/-- The own certificate of the round is stored, and the certificates of the round reach the
quorum. -/
structure Ripe (committee : Committee) (p : Primary S V) : Prop where
  certified : p.storage.containsCertificateInRoundFrom p.currentRound p.account = true
  lock : p.proposeLock ≤ p.currentRound
  quorum : committee.isQuorumThresholdReached
    (authorsOf (p.storage.getCertificatesForRound p.currentRound)) = true

/-- The own certificate is not stored, the round is not locked, the validators reach the quorum,
and so do the certificates of the previous round. -/
structure Open (allAcc : Fin 4 → Address) (committee : Committee) (p : Primary S V) : Prop where
  fresh : p.storage.containsCertificateInRoundFrom p.currentRound p.account = false
  ahead : p.proposeLock < p.currentRound
  connected : committee.isQuorumThresholdReached
    (insert p.account [allAcc 1, allAcc 2, allAcc 3].toFinset) = true
  ready : p.isReady p.currentRound = .ok true

/-- **A proposal can be retried.** -/
def Retriable (allAcc : Fin 4 → Address) (committee : Committee) (p : Primary S V) : Prop :=
  p.Ripe committee ∨ p.Open allAcc committee

/-! ### A call in a round that is certified, or that waits -/

section Calls

variable {env : ProposeEnv} {allAcc : Fin 4 → Address} {committee : Committee}

lemma proposeBatch_of_accounts (haccounts : env.accounts = .ok allAcc) (p : Primary S V) :
    p.proposeBatch env true
      = andThen (p.proposeBatchLite env.lite [allAcc 1, allAcc 2, allAcc 3] true) fun round p =>
        if ¬ true = true ∨ round = 0 then (.ok (), p)
        else p.fakeProposals env allAcc round [1, 2, 3] := by
  unfold proposeBatch
  rw [haccounts]
  rfl

lemma Succeeds.round_ne (h : p.Succeeds allAcc committee env) : p.currentRound ≠ 0 := by
  intro hzero
  have hresult := h.result
  rw [proposeBatch_of_accounts h.accounts] at hresult
  unfold proposeBatchLite at hresult
  dsimp only at hresult
  rw [if_pos hzero] at hresult
  cases hresult

lemma proposeTask_of_zero (haccounts : env.accounts = .ok allAcc)
    {result : Except Stop ℕ}
    (hlite : p.proposeBatchLite env.lite [allAcc 1, allAcc 2, allAcc 3] true = (result, q))
    (hzero : ∀ round, result = .ok round → round = 0) : p.proposeTask env = q := by
  rw [proposeTask, proposeBatch_of_accounts haccounts, hlite]
  cases result with
  | error stop => rfl
  | ok round =>
    dsimp only [andThen]
    rw [if_pos (.inr (hzero round rfl))]

lemma proposeBatch_of_locked (haccounts : env.accounts = .ok allAcc)
    (hround : p.currentRound ≠ 0)
    (hlocked : p.currentRound = p.proposeLock)
    (hfresh : p.storage.containsCertificateInRoundFrom p.currentRound p.account = false) :
    p.proposeBatch env true = (.ok (), p) := by
  have hlite : p.proposeBatchLite env.lite [allAcc 1, allAcc 2, allAcc 3] true = (.ok 0, p) := by
    unfold proposeBatchLite
    dsimp only
    rw [if_neg hround, if_neg hlocked.not_lt]
    split
    · rfl
    · rw [if_neg (by rw [hfresh]; exact Bool.false_ne_true), if_pos hlocked]
  rw [proposeBatch_of_accounts haccounts, hlite]
  dsimp only [andThen]
  rw [if_pos (.inr rfl)]

/-- **The node waits** when it builds no batch, and has not certified the round. -/
lemma proposeTask_of_waiting (haccounts : env.accounts = .ok allAcc)
    (hcertified : ¬ (p.proposeLock ≤ p.currentRound ∧
      p.storage.containsCertificateInRoundFrom p.currentRound p.account = true))
    (hbuilds : ∀ committee, ¬ p.Builds env.lite [allAcc 1, allAcc 2, allAcc 3] committee) :
    p.proposeTask env = p := by
  have hlite : ∃ result, p.proposeBatchLite env.lite [allAcc 1, allAcc 2, allAcc 3] true
      = (result, p) ∧ ∀ round, result = .ok round → round = 0 := by
    unfold proposeBatchLite
    dsimp only
    split
    · exact ⟨_, rfl, fun _ h => by cases h⟩
    next hround =>
    split
    · exact ⟨_, rfl, fun _ h => by cases h; rfl⟩
    next hlock =>
    split
    · exact ⟨_, rfl, fun _ h => by cases h; rfl⟩
    next htimely =>
    split
    · next hown => exact absurd ⟨Nat.not_lt.mp hlock, hown⟩ hcertified
    next hown =>
    split
    · exact ⟨_, rfl, fun _ h => by cases h; rfl⟩
    next hne =>
    rcases hlookback : p.ledger.getCommitteeLookbackForRound p.currentRound with e | committee
    · exact ⟨_, rfl, fun _ h => by cases h⟩
    dsimp only [attempt, orStop, Except.mapError]
    split
    · exact ⟨_, rfl, fun _ h => by cases h; rfl⟩
    next hconnected =>
    rcases hready : p.isReady p.currentRound with e | _ | _
    · exact ⟨_, rfl, fun _ h => by cases h⟩
    · exact ⟨_, rfl, fun _ h => by cases h; rfl⟩
    · exact absurd ⟨hround, Nat.lt_of_le_of_ne (Nat.not_lt.mp hlock) (Ne.symm hne), htimely,
        Bool.eq_false_iff.mpr hown, hlookback, not_not.mp hconnected, hready⟩ (hbuilds committee)
  obtain ⟨result, hlite, hzero⟩ := hlite
  exact proposeTask_of_zero haccounts hlite hzero

/-- **In a certified round** a call sends the round to the BFT, when it is late enough. -/
lemma proposeTask_of_certified (h : p.Succeeds allAcc committee env) (hsender : p.bftSender = true)
    (hlock : p.proposeLock ≤ p.currentRound)
    (hown : p.storage.containsCertificateInRoundFrom p.currentRound p.account = true) :
    (p.proposeTask env = p ∨ p.proposeTask env = { p with
      bft := (p.bft.updateToNextRound env.lite.roundSentAt p.currentRound).2 }) ∧
    (p.Timely env → p.proposeTask env = { p with
      bft := (p.bft.updateToNextRound env.lite.roundSentAt p.currentRound).2 }) := by
  cases htimely : p.checkProposalTimestamp (p.currentRound - 1) p.account env.lite.checkedAt with
  | error e =>
    have hlite : p.proposeBatchLite env.lite [allAcc 1, allAcc 2, allAcc 3] true = (.ok 0, p) := by
      unfold proposeBatchLite
      dsimp only
      rw [if_neg h.round_ne, if_neg (Nat.not_lt.mpr hlock), htimely]
    refine ⟨.inl (proposeTask_of_zero h.accounts hlite fun _ hzero => ?_), fun ht => ?_⟩
    · cases hzero
      rfl
    · have hproposal := ht.proposal
      rw [htimely] at hproposal
      cases hproposal
  | ok =>
    have hlite : p.proposeBatchLite env.lite [allAcc 1, allAcc 2, allAcc 3] true
        = andThen (p.sendPrimaryRoundToBft env.lite.roundSent env.lite.roundSentAt
            p.currentRound) fun _ p => (.ok 0, p) := by
      unfold proposeBatchLite
      dsimp only
      rw [if_neg h.round_ne, if_neg (Nat.not_lt.mpr hlock), htimely]
      dsimp only
      rw [if_pos hown, if_pos hsender]
    -- the call was not stopped
    have hdone : env.lite.roundSent = .done := by
      cases hsent : env.lite.roundSent with
      | done => rfl
      | stopped stop effect =>
        have hresult := h.result
        rw [proposeBatch_of_accounts h.accounts, hlite, hsent] at hresult
        cases effect <;> cases hresult
    rw [hdone] at hlite
    have hsent : p.proposeTask env = { p with
        bft := (p.bft.updateToNextRound env.lite.roundSentAt p.currentRound).2 } :=
      proposeTask_of_zero h.accounts hlite fun _ hzero => by
        cases hzero
        rfl
    exact ⟨.inr hsent, fun _ => hsent⟩

/-! ### A call that builds a batch -/

/-- **A call that builds a batch** stores a certificate of the node and of each of the others. -/
lemma proposeTask_of_open (h : p.Sound) (hs : p.Succeeds allAcc committee env)
    (ht : p.checkProposalTimestamp (p.currentRound - 1) p.account env.lite.checkedAt = .ok ())
    (hopen : p.Open allAcc committee) :
    (p.proposeTask env).proposeLock = p.currentRound ∧
      (p.proposeTask env).storage.containsCertificateInRoundFrom p.currentRound
        (p.proposeTask env).account = true ∧
      committee.isQuorumThresholdReached (authorsOf
        ((p.proposeTask env).storage.getCertificatesForRound p.currentRound)) = true := by
  rcases proposeBatchLite_builds env.lite [allAcc 1, allAcc 2, allAcc 3] p with
    ⟨committee', hbuilds, hcall⟩ | ⟨hnot, -⟩
  swap
  · exact absurd ⟨hs.round_ne, hopen.ahead, ht, hopen.fresh, hs.lookback, hopen.connected,
      hopen.ready⟩ (hnot committee)
  have hresult := hs.result
  rw [proposeBatch_of_accounts hs.accounts, hcall] at hresult
  rw [proposeTask, proposeBatch_of_accounts hs.accounts, hcall]
  rcases buildBatch_cases env.lite [allAcc 1, allAcc 2, allAcc 3] p.currentRound committee'
    (p.storage.getCertificatesForRound (p.currentRound - 1)) p with
    ⟨stop, herror⟩ | ⟨given, c, t, ready, stamp, hcertifies, hlite⟩
  · rcases hr : p.buildBatch env.lite [allAcc 1, allAcc 2, allAcc 3] true p.currentRound committee'
      (p.storage.getCertificatesForRound (p.currentRound - 1)) with ⟨result, q⟩
    rw [hr] at herror hresult
    cases herror
    cases hresult
  obtain ⟨hcertified, -⟩ := hcertifies.certified
  have hlocked : ({ p with
      ready, proposeLock := p.currentRound, latestProposedBatchTimestamp := stamp
      headers := p.headers ++ [⟨p.account, p.currentRound⟩] } :
      Primary S V).Sound := ⟨h.tidy, h.wellFormed, h.idle⟩
  have hown := persists_afterLite (m := p.currentRound) hlocked env.lite p.currentRound c t
  rw [hlite] at hresult ⊢
  rcases hafter : afterLite env.lite p.currentRound c t (({ p with
      ready, proposeLock := p.currentRound, latestProposedBatchTimestamp := stamp
      headers := p.headers ++ [⟨p.account, p.currentRound⟩] } :
      Primary S V).insertCertificate env.lite.certification.toReceipt c t) with ⟨stop | m, q⟩ <;>
    rw [hafter] at hresult hown
  · cases hresult
  obtain rfl := afterLite_eq_ok hafter
  obtain ⟨hpersists, hheld⟩ := hown rfl
  dsimp only [andThen] at hresult ⊢
  rw [hcertified.round] at hpersists hheld
  rw [hcertified.author] at hheld
  rw [if_neg (by simp [hs.round_ne])] at hresult ⊢
  obtain ⟨hrest, hall⟩ := persists_fakeProposals hpersists.sound hresult
  generalize q.fakeProposals env allAcc p.currentRound [1, 2, 3] = x at hrest hall ⊢
  have hkept := hpersists.trans hrest
  have hindexed := hkept.sound.tidy.indexed
  have hholds : ∀ a ∈ insert p.account [allAcc 1, allAcc 2, allAcc 3].toFinset,
      x.2.Holds p.currentRound a := by
    intro a ha
    simp only [List.toFinset_cons, List.toFinset_nil, Finset.mem_insert, Finset.notMem_empty,
      or_false] at ha
    rcases ha with rfl | rfl | rfl | rfl
    · exact hrest.holds hheld
    · exact hall 1 (by decide)
    · exact hall 2 (by decide)
    · exact hall 3 (by decide)
  refine ⟨hkept.lock, ?_, committee.quorum_mono (fun a ha => ?_) hopen.connected⟩
  · rw [Storage.containsCertificateInRoundFrom_iff hindexed, hkept.account]
    exact hrest.holds hheld
  · obtain ⟨d, hd, hround, hauthor⟩ := hholds a ha
    rw [mem_authorsOf]
    exact ⟨d, (Storage.mem_getCertificatesForRound hindexed hs.round_ne).mpr ⟨hd, hround⟩, hauthor⟩

end Calls

/-! ### What is noted of the leader -/

/-- Only what is noted of the leader differs. -/
def LeaderOnly (p q : Primary S V) : Prop :=
  ∃ x leaderCertificate, q = { p with bft := { p.bft.withLeader x with leaderCertificate } }

omit [StorageService S] [Ledger V] [Network] in
lemma LeaderOnly.refl (p : Primary S V) : p.LeaderOnly p :=
  ⟨p.ledger.latestLeader, p.bft.leaderCertificate, rfl⟩

omit [StorageService S] [Ledger V] [Network] in
lemma LeaderOnly.trans {p' : Primary S V} (h : p.LeaderOnly q) (h' : q.LeaderOnly p') :
    p.LeaderOnly p' := by
  obtain ⟨x, leader, rfl⟩ := h
  obtain ⟨y, leader', rfl⟩ := h'
  exact ⟨y, leader', rfl⟩

omit [StorageService S] [Ledger V] [Network] in
lemma LeaderOnly.currentRound (h : p.LeaderOnly q) : q.currentRound = p.currentRound := by
  obtain ⟨x, leader, rfl⟩ := h
  rfl

/-! ### One more call -/

section Call

variable {env : ProposeEnv} {allAcc : Fin 4 → Address} {committee : Committee}

omit [StorageService S] [Ledger V] [Network] in
lemma LeaderOnly.ripe_iff (h : p.LeaderOnly q) : q.Ripe committee ↔ p.Ripe committee := by
  obtain ⟨x, leader, rfl⟩ := h
  exact ⟨fun h => ⟨h.certified, h.lock, h.quorum⟩, fun h => ⟨h.certified, h.lock, h.quorum⟩⟩

omit [StorageService S] in
lemma LeaderOnly.open_iff (h : p.LeaderOnly q) :
    q.Open allAcc committee ↔ p.Open allAcc committee := by
  obtain ⟨x, leader, rfl⟩ := h
  exact ⟨fun h => ⟨h.fresh, h.ahead, h.connected, h.ready⟩,
    fun h => ⟨h.fresh, h.ahead, h.connected, h.ready⟩⟩

lemma Sound.proposeTask (h : p.Sound) (env : ProposeEnv) : (p.proposeTask env).Sound :=
  h.moves (moves_proposeBatch env p) (keepsIdle_walk.proposeBatch env.meets_any p)

lemma Sound.le_proposeTask (h : p.Sound) (env : ProposeEnv) :
    p.currentRound ≤ (p.proposeTask env).currentRound :=
  h.le_currentRound (moves_proposeBatch env p)

lemma bftSender_proposeTask (env : ProposeEnv) (p : Primary S V) :
    (p.proposeTask env).bftSender = p.bftSender :=
  bftSender_walk.proposeBatch env.meets_any p

omit [StorageService S] [Network] in
lemma lt_increment
    (hincrements : (p.storage.incrementToNextRound p.ledger p.currentRound).1.isOk = true)
    (hstarted : p.ledger.CommitteeStarted) : p.currentRound
      < (p.storage.incrementToNextRound p.ledger p.currentRound).2.currentRound := by
  obtain ⟨r, hr⟩ := exists_of_isOk hincrements
  obtain ⟨hround, hlt⟩ := (Storage.incrementToNextRound_rounds hstarted p.storage
    p.currentRound).2 r hr
  exact hround ▸ hlt

/-- **A ripe round is raised**, or stays ripe. -/
lemma Ripe.proposeTask (hripe : p.Ripe committee) (h : p.Succeeds allAcc committee env)
    (hsender : p.bftSender = true) :
    (p.currentRound < (p.proposeTask env).currentRound ∨ (p.proposeTask env).Ripe committee) ∧
      (p.Timely env → p.currentRound < (p.proposeTask env).currentRound) := by
  obtain ⟨hcall, htimely⟩ := proposeTask_of_certified h hsender hripe.lock hripe.certified
  refine ⟨?_, fun ht => ?_⟩
  · rcases hcall with hcall | hcall <;> rw [hcall]
    · exact .inr hripe
    obtain ⟨x, leader, timer, storage, hstorage, hres⟩ :=
      p.bft.updateToNextRound_keeps env.lite.roundSentAt p.currentRound
    rw [hres]
    rcases hstorage with rfl | rfl
    · exact .inr ⟨hripe.certified, hripe.lock, hripe.quorum⟩
    · exact .inl (lt_increment h.increments h.started)
  · rw [htimely ht]
    have hupdated := BFT.updateToNextRound_of_quorum h.round_ne h.lookback hripe.quorum ht.expired
    exact (lt_increment h.increments h.started).trans_eq
      (congrArg Storage.currentRound hupdated.symm)

omit [StorageService S] in
lemma Builds.isOpen {env : LiteEnv} {committee' : Committee}
    (h : p.Builds env [allAcc 1, allAcc 2, allAcc 3] committee')
    (hlookback : p.ledger.getCommitteeLookbackForRound p.currentRound = .ok committee) :
    p.Open allAcc committee := by
  obtain rfl : committee' = committee := Except.ok.inj (h.lookback.symm.trans hlookback)
  exact ⟨h.fresh, h.ahead, h.connected, h.ready⟩

/-- **A call that is not certified for a quorum** changes only what is noted of the leader, unless
it builds a batch. -/
lemma leaderOnly_proposeTask (h : p.Succeeds allAcc committee env) (hsender : p.bftSender = true)
    (hripe : ¬ p.Ripe committee)
    (hbuilds : ∀ committee', ¬ p.Builds env.lite [allAcc 1, allAcc 2, allAcc 3] committee') :
    p.LeaderOnly (p.proposeTask env) := by
  by_cases hcertified : p.proposeLock ≤ p.currentRound ∧
    p.storage.containsCertificateInRoundFrom p.currentRound p.account = true
  · obtain ⟨hcall | hcall, -⟩ := proposeTask_of_certified h hsender hcertified.1 hcertified.2 <;>
      rw [hcall]
    · exact .refl p
    · have hnot : ¬ committee.isQuorumThresholdReached
          (authorsOf (p.storage.getCertificatesForRound p.currentRound)) = true :=
        fun hquorum => hripe ⟨hcertified.2, hcertified.1, hquorum⟩
      obtain ⟨x, leader, hres⟩ := BFT.updateToNextRound_of_not_quorum h.lookback hnot
        env.lite.roundSentAt
      have hround : p.currentRound = p.bft.storage.currentRound := rfl
      rw [hround, hres]
      exact ⟨x, leader, rfl⟩
  · rw [proposeTask_of_waiting h.accounts hcertified hbuilds]
    exact .refl p

end Call

/-! ### All the calls -/

section Retrying

variable {envs : ℕ → ProposeEnv} {allAcc : Fin 4 → Address} {committee : Committee}

lemma Sound.afterProposals (h : p.Sound) (envs : ℕ → ProposeEnv) (n : ℕ) :
    (p.afterProposals envs n).Sound := by
  induction n with
  | zero => exact h
  | succ n ih => exact ih.proposeTask (envs n)

lemma bftSender_afterProposals (envs : ℕ → ProposeEnv) (p : Primary S V) (n : ℕ) :
    (p.afterProposals envs n).bftSender = p.bftSender := by
  induction n with
  | zero => rfl
  | succ n ih => exact (bftSender_proposeTask (envs n) _).trans ih

lemma Sound.monotone_afterProposals (h : p.Sound) (envs : ℕ → ProposeEnv) :
    Monotone fun n => (p.afterProposals envs n).currentRound :=
  monotone_nat_of_le_succ fun n => (h.afterProposals envs n).le_proposeTask (envs n)

/-- **A round that can be retried** is raised. -/
theorem Retriable.raises (hretriable : p.Retriable allAcc committee) (h : p.Sound)
    (hsender : p.bftSender = true) (hretries : p.Retries allAcc committee envs) :
    ∃ n, p.currentRound < (p.afterProposals envs n).currentRound := by
  by_contra hnever
  have hsame : ∀ n, (p.afterProposals envs n).currentRound = p.currentRound := by
    intro n
    have hle := h.monotone_afterProposals envs (Nat.zero_le n)
    have hnot := fun hlt => hnever ⟨n, hlt⟩
    exact Nat.le_antisymm (Nat.not_lt.mp hnot) hle
  have hsucceeds := fun n => hretries.succeeds n (hsame n)
  have hsent := fun n => (bftSender_afterProposals envs p n).trans hsender
  have hopened : ∀ n, p.afterProposals envs n = p → p.Open allAcc committee →
      p.checkProposalTimestamp (p.currentRound - 1) p.account (envs n).lite.checkedAt = .ok () →
      (p.afterProposals envs (n + 1)).Ripe committee := by
    intro n hn hopen ht
    have hs := hsucceeds n
    have hround := hsame (n + 1)
    rw [afterProposals, hn] at hround ⊢
    rw [hn] at hs
    obtain ⟨hlock, hown, hquorum⟩ := proposeTask_of_open h hs ht hopen
    exact ⟨by rw [hround]; exact hown, by rw [hround]; exact hlock.le,
      by rw [hround]; exact hquorum⟩
  -- the node waits for its time, and then has a ripe round
  have hstage : ∀ n, (p.afterProposals envs n).Ripe committee ∨
      p.afterProposals envs n = p ∧ p.Open allAcc committee := by
    intro n
    induction n with
    | zero => exact hretriable.imp_right fun hopen => ⟨rfl, hopen⟩
    | succ n ih =>
      rcases ih with hripe | ⟨hn, hopen⟩
      · refine .inl (((hripe.proposeTask (hsucceeds n) (hsent n)).1).resolve_left ?_)
        have hle := (hsame (n + 1)).trans (hsame n).symm
        exact hle.le.not_gt
      · by_cases ht : p.checkProposalTimestamp (p.currentRound - 1) p.account
          (envs n).lite.checkedAt = .ok ()
        · exact .inl (hopened n hn hopen ht)
        · refine .inr ⟨?_, hopen⟩
          rw [afterProposals, hn]
          refine proposeTask_of_waiting (hsucceeds n).accounts ?_ fun _ hbuilds =>
            ht hbuilds.timely
          rw [hopen.fresh]
          exact fun hown => Bool.false_ne_true hown.2
  obtain ⟨N, hN⟩ := hretries.advances
  have hripe : ∃ n, (n = N ∨ n = N + 1) ∧ (p.afterProposals envs n).Ripe committee := by
    rcases hstage N with hripe | ⟨hn, hopen⟩
    · exact ⟨N, .inl rfl, hripe⟩
    · have ht := (hN N (.inl rfl) (hsame N)).proposal
      rw [hn] at ht
      exact ⟨N + 1, .inr rfl, hopened N hn hopen ht⟩
  obtain ⟨n, hn, hripe⟩ := hripe
  have hlt := (hripe.proposeTask (hsucceeds n) (hsent n)).2 (hN n hn (hsame n))
  exact (((hsame (n + 1)).trans (hsame n).symm).le.not_gt) hlt

/-- **A round that cannot be retried** stays for good. -/
theorem currentRound_of_not_retriable (hnot : ¬ p.Retriable allAcc committee)
    (hsender : p.bftSender = true) (hretries : p.Retries allAcc committee envs) (n : ℕ) :
    (p.afterProposals envs n).currentRound = p.currentRound := by
  obtain ⟨hripe, hopen⟩ := not_or.mp hnot
  have hleader : p.LeaderOnly (p.afterProposals envs n) := by
    induction n with
    | zero => exact .refl p
    | succ n ih =>
      have hs := hretries.succeeds n ih.currentRound
      refine ih.trans (leaderOnly_proposeTask hs
        ((bftSender_afterProposals envs p n).trans hsender) (ih.ripe_iff.not.mpr hripe) ?_)
      exact fun _ hbuilds => hopen (ih.open_iff.mp (hbuilds.isOpen hs.lookback))
  exact hleader.currentRound

/-- **After a call that failed**, when no step fails any more and the clock advances, further calls
raise the round if and only if the call left a round that can be retried. -/
theorem retries_raise {E : Surroundings V} {cache : Option ProposalCache} (h : Lived E cache p)
    (hsender : p.bftSender = true) {env : ProposeEnv} {e : String}
    (hfailed : p.proposeBatch env true = (.error (.error e), q))
    (hretries : q.Retries allAcc committee envs) :
    (∃ n, q.currentRound < (q.afterProposals envs n).currentRound) ↔
      q.Retriable allAcc committee := by
  have hq : q = p.proposeTask env := (congrArg Prod.snd hfailed).symm
  have hsound : q.Sound := by
    rw [hq]
    exact h.sound.1.proposeTask env
  have hsent : q.bftSender = true := by
    rw [hq]
    exact (bftSender_proposeTask env p).trans hsender
  refine ⟨fun ⟨n, hlt⟩ => ?_, fun hretriable => hretriable.raises hsound hsent hretries⟩
  by_contra hnot
  exact (currentRound_of_not_retriable hnot hsent hretries n).not_gt hlt

end Retrying

end Primary

section Example

/-- No signature can be made. -/
def unsigned (env : Certification) : Certification :=
  { env with sign := fun _ => .error (.error "Failed to sign") }

/-- The node cannot get its own batch signed. -/
def unsignedCall : ProposeEnv :=
  { proposes 1 with lite := { (proposes 1).lite with certification := unsigned (certifies 1 0) } }

/-- The batch of the last validator cannot be signed. -/
def lastUnsignedCall : ProposeEnv :=
  { proposes 1 with fake := fun i => if i.val = 3 then unsigned (certifies 1 3) else certifies 1 i }

/-- The development node that started. -/
def firstNode : Primary BFTMemoryService Chain :=
  (startedNode (developmentLedger [genesis]) none 1).2

/-- The node after a call. -/
def failedNode (env : ProposeEnv) : Primary BFTMemoryService Chain :=
  let _ := developmentNetwork
  firstNode.proposeTask env

/-- The calls that follow, at later and later times. -/
def laterCalls (n : ℕ) : ProposeEnv := proposes (n + 2)

lemma committeeStarted_chain (l : CoreLedgerService Chain) : l.CommitteeStarted := by
  intro committee h
  cases h
  exact Nat.zero_le _

lemma firstNode_lived :
    let _ := developmentNetwork
    Primary.Lived (Primary.anySurroundings Chain) none firstNode := by
  let _ := developmentNetwork
  have hsender : (Primary.anySurroundings Chain).sender processBftSubdag :=
    processBftSubdag_faithful
  exact .start (startedNode_starts trivial hsender (by decide +kernel) none)

/-- Three signed batches are enough: the next call raises the round. -/
theorem retries_raise_example :
    let _ := developmentNetwork
    ∃ n, (failedNode lastUnsignedCall).currentRound
      < ((failedNode lastUnsignedCall).afterProposals laterCalls n).currentRound := by
  let _ := developmentNetwork
  have hfailed : (firstNode.proposeBatch lastUnsignedCall true).1
      = .error (.error "Failed to sign") := by decide +kernel
  have hsound := firstNode_lived.sound.1.proposeTask lastUnsignedCall
  have hraised : (failedNode lastUnsignedCall).currentRound
      < ((failedNode lastUnsignedCall).afterProposals laterCalls 1).currentRound := by
    decide +kernel
  have hfirst : ∀ n, ((failedNode lastUnsignedCall).afterProposals laterCalls n).currentRound
      = (failedNode lastUnsignedCall).currentRound → n = 0 := by
    intro n hn
    by_contra hne
    have hle : 1 ≤ n := Nat.one_le_iff_ne_zero.mpr hne
    have hgrows := hsound.monotone_afterProposals laterCalls hle
    exact (hraised.trans_le hgrows).ne' hn
  have hretries : (failedNode lastUnsignedCall).Retries (fun i => developmentAccount i)
      developmentCommittee laterCalls := by
    refine ⟨fun n hn => ?_, 0, fun n _ hn => ?_⟩ <;> obtain rfl := hfirst n hn
    · exact ⟨rfl, by decide +kernel, rfl, by decide +kernel, committeeStarted_chain _⟩
    · exact ⟨by decide +kernel, by decide +kernel⟩
  refine (Primary.retries_raise firstNode_lived (by decide +kernel)
    (Prod.ext hfailed rfl) hretries).mpr (.inl ?_)
  exact ⟨by decide +kernel, by decide +kernel, by decide +kernel⟩

/-- **A round that is locked, and not certified**, is not proposed for again. -/
theorem retries_never_raise :
    let _ := developmentNetwork
    Primary.Lived (Primary.anySurroundings Chain) none firstNode ∧
      firstNode.bftSender = true ∧
      firstNode.proposeBatch unsignedCall true
        = (.error (.error "Failed to sign"), failedNode unsignedCall) ∧
      (failedNode unsignedCall).Retries (fun i => developmentAccount i) developmentCommittee
        laterCalls ∧
      ¬ ∃ n, (failedNode unsignedCall).currentRound
        < ((failedNode unsignedCall).afterProposals laterCalls n).currentRound := by
  let _ := developmentNetwork
  have hfailed : (firstNode.proposeBatch unsignedCall true).1
      = .error (.error "Failed to sign") := by decide +kernel
  have haccounts : ∀ n, (laterCalls n).accounts = .ok fun i => developmentAccount i :=
    fun _ => rfl
  have hcall : ∀ n, (failedNode unsignedCall).proposeBatch (laterCalls n) true
      = (.ok (), failedNode unsignedCall) := fun n =>
    Primary.proposeBatch_of_locked (haccounts n) (by decide +kernel) (by decide +kernel)
      (by decide +kernel)
  have hstays : ∀ n, (failedNode unsignedCall).afterProposals laterCalls n
      = failedNode unsignedCall := by
    intro n
    induction n with
    | zero => rfl
    | succ n ih =>
      have hnext : ((failedNode unsignedCall).proposeBatch (laterCalls n) true).2
          = failedNode unsignedCall := by rw [hcall]
      rw [Primary.afterProposals, ih]
      exact hnext
  refine ⟨firstNode_lived, by decide +kernel, Prod.ext hfailed rfl, ⟨fun n _ => ?_, 0, ?_⟩, ?_⟩
  · rw [hstays]
    exact ⟨haccounts n, congrArg Prod.fst (hcall n), rfl, by decide +kernel,
      committeeStarted_chain _⟩
  · rintro n (rfl | rfl) - <;> rw [hstays] <;> exact ⟨by decide +kernel, by decide +kernel⟩
  · rintro ⟨n, hlt⟩
    rw [hstays] at hlt
    exact hlt.false

end Example

end AmareleoChain
