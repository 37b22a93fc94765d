import AmareleoChain.Retrying

/-!
Whether a node that was shut down wakes up.

The saved lock is that of the last round the node proposed for, whether or not its certificate was
stored. After the proposal cache is loaded, the two periodic tasks raise the round when a proposal
can be retried, or when the certificates of this round and of the next one reach the quorum, and
never otherwise.
-/

namespace AmareleoChain

namespace Primary

variable {S V : Type} [StorageService S] [Ledger V] [Network] {p q : Primary S V}

/-! ### The periodic tasks -/

/-- A run of a periodic task. -/
inductive Task where
  | propose (env : ProposeEnv)
  | increment (env : IncrementEnv)

def runTask (p : Primary S V) : Task → Primary S V
  | .propose env => p.proposeTask env
  | .increment env => p.incrementTask env

/-- The node after some runs. -/
def afterTasks (tasks : ℕ → Task) (p : Primary S V) : ℕ → Primary S V
  | 0 => p
  | n + 1 => (p.afterTasks tasks n).runTask (tasks n)

/-- No step of the increment task fails, and the increment of the round would not. -/
structure IncrementSucceeds (committee next : Committee) (env : IncrementEnv)
    (p : Primary S V) : Prop where
  result : next.isQuorumThresholdReached
    (p.storage.getCertificateAuthorsForRound (p.currentRound + 1)) = true →
    (p.tryIncrementToTheNextRound env (p.currentRound + 1)).1 = .ok ()
  lookback : p.ledger.getCommitteeLookbackForRound p.currentRound = .ok committee
  nextLookback : p.ledger.getCommitteeLookbackForRound (p.currentRound + 1) = .ok next
  increments : (p.storage.incrementToNextRound p.ledger p.currentRound).1.isOk = true
  started : p.ledger.CommitteeStarted

/-- No step of a task fails. -/
def TaskSucceeds (allAcc : Fin 4 → Address) (committee next : Committee) (p : Primary S V) :
    Task → Prop
  | .propose env => p.Succeeds allAcc committee env
  | .increment env => p.IncrementSucceeds committee next env

/-- As long as the round is not raised, every step succeeds, and the clock advances until two
proposals and an increment are late enough. -/
structure Attends (allAcc : Fin 4 → Address) (committee next : Committee) (tasks : ℕ → Task)
    (p : Primary S V) : Prop where
  succeeds : ∀ n, (p.afterTasks tasks n).currentRound = p.currentRound →
    (p.afterTasks tasks n).TaskSucceeds allAcc committee next (tasks n)
  proposals : ∃ m n, m < n ∧ ∀ i, i = m ∨ i = n →
    (p.afterTasks tasks i).currentRound = p.currentRound →
    ∃ env, tasks i = .propose env ∧ (p.afterTasks tasks i).Timely env
  increments : ∃ i, (p.afterTasks tasks i).currentRound = p.currentRound →
    ∃ env, tasks i = .increment env ∧
      (p.afterTasks tasks i).bft.isTimerExpired env.roundSentAt = true

/-- The certificates of the round, and those of the next one, reach the quorum. -/
structure Overtaken (committee next : Committee) (p : Primary S V) : Prop where
  quorum : committee.isQuorumThresholdReached
    (authorsOf (p.storage.getCertificatesForRound p.currentRound)) = true
  next : next.isQuorumThresholdReached
    (p.storage.getCertificateAuthorsForRound (p.currentRound + 1)) = true

/-- **The node wakes up.** -/
def Wakes (allAcc : Fin 4 → Address) (committee next : Committee) (p : Primary S V) : Prop :=
  p.Retriable allAcc committee ∨ p.Overtaken committee next

section Running

variable {allAcc : Fin 4 → Address} {committee next : Committee}

omit [StorageService S] in
lemma LeaderOnly.retriable_iff (h : p.LeaderOnly q) :
    q.Retriable allAcc committee ↔ p.Retriable allAcc committee :=
  or_congr h.ripe_iff h.open_iff

omit [StorageService S] [Network] [Ledger V] in
lemma LeaderOnly.overtaken_iff (h : p.LeaderOnly q) :
    q.Overtaken committee next ↔ p.Overtaken committee next := by
  obtain ⟨x, leader, rfl⟩ := h
  exact ⟨fun h => ⟨h.quorum, h.next⟩, fun h => ⟨h.quorum, h.next⟩⟩

/-! ### One run -/

omit [StorageService S] in
lemma tryIncrementToTheNextRoundLite_succ (hsender : p.bftSender = true) (sent : Await)
    (now : ℤ) : p.tryIncrementToTheNextRoundLite sent now (p.currentRound + 1)
      = p.sendPrimaryRoundToBft sent now p.currentRound := by
  have hforward : p.fastForward (p.currentRound + 1) (2 * (p.currentRound + 1) + 2)
      p.currentRound = (.ok (), p) := by
    rw [fastForward]
    exact if_neg (by omega)
  unfold tryIncrementToTheNextRoundLite
  rw [hforward, ite_self]
  dsimp only [andThen]
  rw [if_pos (Nat.lt_succ_self _), if_pos hsender]

variable {env : IncrementEnv}

lemma incrementTask_of_not_next (hnext : p.ledger.getCommitteeLookbackForRound
      (p.currentRound + 1) = .ok next)
    (hnot : ¬ next.isQuorumThresholdReached
      (p.storage.getCertificateAuthorsForRound (p.currentRound + 1)) = true) :
    p.incrementTask env = p := by
  unfold incrementTask
  dsimp only
  rw [hnext]
  dsimp only
  rw [if_neg hnot, ite_self]

/-- With one it asks the BFT for the next round, and proposes a batch when this is ready. -/
lemma incrementTask_of_next (h : p.IncrementSucceeds committee next env)
    (hsender : p.bftSender = true) (hnext : next.isQuorumThresholdReached
      (p.storage.getCertificateAuthorsForRound (p.currentRound + 1)) = true) :
    ∃ isReady b, p.bft.updateToNextRound env.roundSentAt p.currentRound = (isReady, b) ∧
      p.incrementTask env
        = if isReady then ({ p with bft := b } : Primary S V).proposeTask env.propose
          else { p with bft := b } := by
  have hauthors : p.storage.getCertificateAuthorsForRound (p.currentRound + 1) ≠ ∅ :=
    (next.nonempty_of_quorum hnext).ne_empty
  have htask : p.incrementTask env
      = (p.tryIncrementToTheNextRound env (p.currentRound + 1)).2 := by
    unfold incrementTask
    dsimp only
    rw [if_neg hauthors, h.nextLookback]
    dsimp only
    rw [if_pos hnext]
  have hresult := h.result hnext
  unfold tryIncrementToTheNextRound at htask hresult
  rw [tryIncrementToTheNextRoundLite_succ hsender] at htask hresult
  unfold sendPrimaryRoundToBft at htask hresult
  rcases hsent : env.roundSent with _ | ⟨stop, _ | _⟩ <;> rw [hsent] at htask hresult
  · rcases hupdated : p.bft.updateToNextRound env.roundSentAt p.currentRound with ⟨isReady, b⟩
    refine ⟨isReady, b, rfl, ?_⟩
    rw [htask]
    dsimp only [Await.run]
    rw [hupdated]
    cases isReady <;> rfl
  · cases hresult
  · cases hresult

lemma lt_incrementTask (hsound : p.Sound) (h : p.IncrementSucceeds committee next env)
    (hsender : p.bftSender = true) (hnext : next.isQuorumThresholdReached
      (p.storage.getCertificateAuthorsForRound (p.currentRound + 1)) = true)
    (hstorage : (p.bft.updateToNextRound env.roundSentAt p.currentRound).2.storage
      = (p.storage.incrementToNextRound p.ledger p.currentRound).2) :
    p.currentRound < (p.incrementTask env).currentRound := by
  obtain ⟨isReady, b, hupdated, htask⟩ := incrementTask_of_next h hsender hnext
  have hlt := lt_increment h.increments h.started
  have hmoves : p.Moves { p with bft := b } := by
    have hstep := BFT.Step.updateToNextRound (G := fun _ _ => True) p.bft env.roundSentAt
      p.currentRound
    rw [hupdated] at hstep
    exact .step hstep
  have hmoved : ({ p with bft := b } : Primary S V).Sound := hsound.moves hmoves id
  rw [hupdated] at hstorage
  rw [← hstorage] at hlt
  rw [htask]
  cases isReady with
  | false => exact hlt
  | true => exact hlt.trans_le (hmoved.le_proposeTask env.propose)

/-- **A run of the increment task** raises the round, or changes only what is noted of the leader.
When the round is overtaken, and the timer for the leader has expired, it raises the round, and
when it is not, it does not. -/
lemma incrementTask_cases (hsound : p.Sound) (h : p.IncrementSucceeds committee next env)
    (hsender : p.bftSender = true) :
    (p.currentRound < (p.incrementTask env).currentRound ∨ p.LeaderOnly (p.incrementTask env)) ∧
      (¬ p.Overtaken committee next → p.LeaderOnly (p.incrementTask env)) ∧
      (p.Overtaken committee next → p.currentRound ≠ 0 →
        p.bft.isTimerExpired env.roundSentAt = true →
        p.currentRound < (p.incrementTask env).currentRound) := by
  by_cases hnext : next.isQuorumThresholdReached
    (p.storage.getCertificateAuthorsForRound (p.currentRound + 1)) = true
  swap
  · rw [incrementTask_of_not_next h.nextLookback hnext]
    exact ⟨.inr (.refl p), fun _ => .refl p, fun hovertaken => absurd hovertaken.next hnext⟩
  have hleader : (∃ x leaderCertificate, p.bft.updateToNextRound env.roundSentAt p.currentRound
      = (false, { p.bft.withLeader x with leaderCertificate })) →
      p.LeaderOnly (p.incrementTask env) := by
    rintro ⟨x, leader, hres⟩
    obtain ⟨isReady, b, hupdated, htask⟩ := incrementTask_of_next h hsender hnext
    rw [hres] at hupdated
    cases hupdated
    rw [htask]
    exact ⟨x, leader, rfl⟩
  refine ⟨?_, fun hovertaken => ?_, fun hovertaken hround hexpired => ?_⟩
  · rcases p.bft.updateToNextRound_cases env.roundSentAt p.currentRound with hres | hstorage
    · exact .inr (hleader hres)
    · exact .inl (lt_incrementTask hsound h hsender hnext hstorage)
  · refine hleader (BFT.updateToNextRound_of_not_quorum h.lookback ?_ env.roundSentAt)
    exact fun hquorum => hovertaken ⟨hquorum, hnext⟩
  · exact lt_incrementTask hsound h hsender hnext
      (BFT.updateToNextRound_of_quorum hround h.lookback hovertaken.quorum hexpired)

/-! ### All the runs -/

lemma Sound.runTask (h : p.Sound) (t : Task) : (p.runTask t).Sound := by
  cases t with
  | propose env => exact h.proposeTask env
  | increment env =>
    exact h.moves (moves_incrementTask env p)
      (keepsIdle_walk.incrementTask env.propose.meets_any p)

lemma Sound.le_runTask (h : p.Sound) (t : Task) : p.currentRound ≤ (p.runTask t).currentRound := by
  cases t with
  | propose env => exact h.le_proposeTask env
  | increment env => exact h.le_currentRound (moves_incrementTask env p)

lemma bftSender_runTask (t : Task) (p : Primary S V) : (p.runTask t).bftSender = p.bftSender := by
  cases t with
  | propose env => exact bftSender_proposeTask env p
  | increment env => exact bftSender_walk.incrementTask env.propose.meets_any p

variable {tasks : ℕ → Task}

lemma Sound.afterTasks (h : p.Sound) (tasks : ℕ → Task) (n : ℕ) :
    (p.afterTasks tasks n).Sound := by
  induction n with
  | zero => exact h
  | succ n ih => exact ih.runTask (tasks n)

lemma bftSender_afterTasks (tasks : ℕ → Task) (p : Primary S V) (n : ℕ) :
    (p.afterTasks tasks n).bftSender = p.bftSender := by
  induction n with
  | zero => rfl
  | succ n ih => exact (bftSender_runTask (tasks n) _).trans ih

lemma Sound.monotone_afterTasks (h : p.Sound) (tasks : ℕ → Task) :
    Monotone fun n => (p.afterTasks tasks n).currentRound :=
  monotone_nat_of_le_succ fun n => (h.afterTasks tasks n).le_runTask (tasks n)

/-- A run in a round that cannot be retried changes only what is noted of the leader, or the round
is overtaken, and raised. -/
lemma leaderOnly_runTask (hnot : ¬ p.Retriable allAcc committee) (hsound : p.Sound) {t : Task}
    (h : p.TaskSucceeds allAcc committee next t) (hsender : p.bftSender = true) :
    p.LeaderOnly (p.runTask t) ∨
      p.Overtaken committee next ∧ p.currentRound < (p.runTask t).currentRound := by
  obtain ⟨hripe, hopen⟩ := not_or.mp hnot
  cases t with
  | propose env =>
    exact .inl (leaderOnly_proposeTask h hsender hripe fun _ hbuilds =>
      hopen (hbuilds.isOpen h.lookback))
  | increment env =>
    obtain ⟨hcases, hnever, -⟩ := incrementTask_cases hsound h hsender
    by_cases hovertaken : p.Overtaken committee next
    · exact hcases.symm.imp_right fun hlt => ⟨hovertaken, hlt⟩
    · exact .inl (hnever hovertaken)

/-- **A node that does not wake up** stays in its round for good. -/
theorem currentRound_of_not_wakes (hnot : ¬ p.Wakes allAcc committee next) (h : p.Sound)
    (hsender : p.bftSender = true) (hattends : p.Attends allAcc committee next tasks) (n : ℕ) :
    (p.afterTasks tasks n).currentRound = p.currentRound := by
  obtain ⟨hretriable, hovertaken⟩ := not_or.mp hnot
  have hleader : p.LeaderOnly (p.afterTasks tasks n) := by
    induction n with
    | zero => exact .refl p
    | succ n ih =>
      have hrun := leaderOnly_runTask (ih.retriable_iff.not.mpr hretriable) (h.afterTasks tasks n)
        (hattends.succeeds n ih.currentRound) ((bftSender_afterTasks tasks p n).trans hsender)
      exact ih.trans (hrun.resolve_right fun hraised =>
        hovertaken (ih.overtaken_iff.mp hraised.1))
  exact hleader.currentRound

/-- A run in a ripe round raises it, or leaves it ripe. -/
lemma Ripe.runTask (hripe : p.Ripe committee) (hsound : p.Sound) {t : Task}
    (h : p.TaskSucceeds allAcc committee next t) (hsender : p.bftSender = true) :
    p.currentRound < (p.runTask t).currentRound ∨ (p.runTask t).Ripe committee := by
  cases t with
  | propose env => exact (hripe.proposeTask h hsender).1
  | increment env =>
    exact (incrementTask_cases hsound h hsender).1.imp_right fun hleader =>
      hleader.ripe_iff.mpr hripe

/-- A run in an open round raises it, leaves it open, or makes it ripe. -/
lemma Open.runTask (hopen : p.Open allAcc committee) (hsound : p.Sound) {t : Task}
    (h : p.TaskSucceeds allAcc committee next t) (hsender : p.bftSender = true) :
    (p.currentRound < (p.runTask t).currentRound ∨ (p.runTask t).Ripe committee ∨
      (p.runTask t).Open allAcc committee) ∧
    ∀ env, t = .propose env → p.Timely env →
      p.currentRound < (p.runTask t).currentRound ∨ (p.runTask t).Ripe committee := by
  have hbuilt : ∀ env, t = .propose env →
      p.checkProposalTimestamp (p.currentRound - 1) p.account env.lite.checkedAt = .ok () →
      p.currentRound < (p.runTask t).currentRound ∨ (p.runTask t).Ripe committee := by
    rintro env rfl ht
    obtain ⟨hlock, hown, hquorum⟩ := proposeTask_of_open hsound h ht hopen
    rcases (hsound.le_proposeTask env).lt_or_eq with hlt | hround
    · exact .inl hlt
    · rw [hround] at hown hquorum hlock
      exact .inr ⟨hown, hlock.le, hquorum⟩
  refine ⟨?_, fun env ht hlate => hbuilt env ht hlate.proposal⟩
  cases t with
  | propose env =>
    by_cases ht : p.checkProposalTimestamp (p.currentRound - 1) p.account env.lite.checkedAt
      = .ok ()
    · exact (hbuilt env rfl ht).imp_right .inl
    · have hripe : ¬ p.Ripe committee := fun hripe => by
        have hown := hripe.certified
        rw [hopen.fresh] at hown
        cases hown
      have hleader := leaderOnly_proposeTask h hsender hripe fun _ hbuilds => ht hbuilds.timely
      exact .inr (.inr (hleader.open_iff.mpr hopen))
  | increment env =>
    exact (incrementTask_cases hsound h hsender).1.imp_right fun hleader =>
      .inr (hleader.open_iff.mpr hopen)

/-- **A node that wakes up** raises its round. -/
theorem Wakes.raises (hwakes : p.Wakes allAcc committee next) (h : p.Sound)
    (hsender : p.bftSender = true) (hattends : p.Attends allAcc committee next tasks) :
    ∃ n, p.currentRound < (p.afterTasks tasks n).currentRound := by
  by_contra hnever
  have hsame : ∀ n, (p.afterTasks tasks n).currentRound = p.currentRound := by
    intro n
    have hle := h.monotone_afterTasks tasks (Nat.zero_le n)
    have hnot := fun hlt => hnever ⟨n, hlt⟩
    exact Nat.le_antisymm (Nat.not_lt.mp hnot) hle
  have hsucceeds := fun n => hattends.succeeds n (hsame n)
  have hsent := fun n => (bftSender_afterTasks tasks p n).trans hsender
  have hsound := h.afterTasks tasks
  have hstays : ∀ n, ¬ (p.afterTasks tasks n).currentRound
      < ((p.afterTasks tasks n).runTask (tasks n)).currentRound := fun n =>
    ((hsame (n + 1)).trans (hsame n).symm).le.not_gt
  obtain ⟨m, n, hmn, hlate⟩ := hattends.proposals
  have hround : p.currentRound ≠ 0 := by
    obtain ⟨env, htask, -⟩ := hlate m (.inl rfl) (hsame m)
    have hs := hsucceeds m
    rw [htask] at hs
    exact hsame m ▸ Succeeds.round_ne hs
  by_cases hretriable : p.Retriable allAcc committee
  · have hripe : ∀ i, (p.afterTasks tasks i).Ripe committee →
        (p.afterTasks tasks (i + 1)).Ripe committee := fun i hripe =>
      (hripe.runTask (hsound i) (hsucceeds i) (hsent i)).resolve_left (hstays i)
    have hstage : ∀ i, (p.afterTasks tasks i).Ripe committee ∨
        (p.afterTasks tasks i).Open allAcc committee := by
      intro i
      induction i with
      | zero => exact hretriable
      | succ i ih =>
        rcases ih with hi | hopen
        · exact .inl (hripe i hi)
        · exact ((hopen.runTask (hsound i) (hsucceeds i) (hsent i)).1).resolve_left (hstays i)
    -- the first proposal makes the round ripe, and the second one raises it
    have hfirst : (p.afterTasks tasks (m + 1)).Ripe committee := by
      obtain ⟨env, htask, ht⟩ := hlate m (.inl rfl) (hsame m)
      rcases hstage m with hi | hopen
      · exact hripe m hi
      · exact ((hopen.runTask (hsound m) (hsucceeds m) (hsent m)).2 env htask ht).resolve_left
          (hstays m)
    have hsecond : (p.afterTasks tasks n).Ripe committee :=
      Nat.le_induction hfirst (fun i _ hi => hripe i hi) n hmn
    obtain ⟨env, htask, ht⟩ := hlate n (.inr rfl) (hsame n)
    have hs := hsucceeds n
    have hnot := hstays n
    rw [htask] at hs hnot
    exact hnot ((hsecond.proposeTask hs (hsent n)).2 ht)
  · have hovertaken := hwakes.resolve_left hretriable
    have hleader : ∀ i, p.LeaderOnly (p.afterTasks tasks i) := by
      intro i
      induction i with
      | zero => exact .refl p
      | succ i ih =>
        have hrun := leaderOnly_runTask (ih.retriable_iff.not.mpr hretriable) (hsound i)
          (hsucceeds i) (hsent i)
        exact ih.trans (hrun.resolve_right fun hraised => hstays i hraised.2)
    obtain ⟨i, hi⟩ := hattends.increments
    obtain ⟨env, htask, hexpired⟩ := hi (hsame i)
    have hs := hsucceeds i
    have hnot := hstays i
    rw [htask] at hs hnot
    exact hnot ((incrementTask_cases (hsound i) hs (hsent i)).2.2
      ((hleader i).overtaken_iff.mpr hovertaken) (by rw [hsame]; exact hround) hexpired)

end Running

/-! ### Waking up -/

lemma Starts.bftSender {E : Surroundings V} {account : Address} {transmissions : S}
    {l : CoreLedgerService V} {cache : Option ProposalCache} {r : Except Stop Unit}
    (h : Starts E account transmissions l cache r p) : p.bftSender = true := by
  obtain ⟨committee, g, keepState, now, envs, send, b, -, hboot, -, -, hrun⟩ := h
  obtain ⟨result, q, hload, hcases⟩ := runBft_cases
    (p := new account (Storage.new committee transmissions g) keepState l) hboot envs cache send
  have hq : q.bftSender = true := by
    unfold loadProposalCache at hload
    cases cache with
    | none =>
      cases hload
      rfl
    | some c =>
      dsimp only at hload
      split at hload
      · have hpending : ∀ d ∈ c.pendingCertificates, True := fun _ _ => trivial
        have hloaded := bftSender_walk.loadCertificates (fun i => (envs i).meets_any) 0 hpending
          ({ new account (Storage.new committee transmissions g) keepState l with
            bft := b, bftSender := true, proposedBatch := c.proposal
            signedProposals := c.signedProposals, proposeLock := c.latestRound } : Primary S V)
        rwa [hload] at hloaded
      · cases hload
        rfl
  rcases hcases with ⟨stop, -, hcases⟩ | ⟨-, hcases⟩ <;> rw [hrun] at hcases <;> cases hcases
  · exact hq
  · exact hq

lemma Lived.woken {E : Surroundings V} {cache : Option ProposalCache} (h : Lived E cache p)
    {saved : ProposalCache} (hsaved : p.shutDown.1 = some saved) {transmissions : S}
    {l : CoreLedgerService V} (hblocks : l.blocks = p.ledger.blocks) {r : Except Stop Unit}
    (hstarts : Starts E p.account transmissions l (some saved) r q) : Lived E (some saved) q := by
  have hshut : p.shutDown.2.account = p.account ∧ p.shutDown.2.ledger = p.ledger := by
    unfold Primary.shutDown
    split <;> exact ⟨rfl, rfl⟩
  have hshutDown := h.shutDown
  rw [hsaved] at hshutDown
  rw [← hshut.1] at hstarts
  exact hshutDown.reboot (hblocks.trans (by rw [hshut.2])) hstarts

/-- **After a shutdown that saved the state, and a restart over the same ledger**, when no step
fails and the clock advances, the periodic tasks raise the round just when the node wakes up. -/
theorem wakes_up {E : Surroundings V} {cache : Option ProposalCache} (h : Lived E cache p)
    {saved : ProposalCache} (hsaved : p.shutDown.1 = some saved) {transmissions : S}
    {l : CoreLedgerService V} (hblocks : l.blocks = p.ledger.blocks)
    (hstarts : Starts E p.account transmissions l (some saved) (.ok ()) q)
    {allAcc : Fin 4 → Address} {committee next : Committee} {tasks : ℕ → Task}
    (hattends : q.Attends allAcc committee next tasks) :
    (∃ n, q.currentRound < (q.afterTasks tasks n).currentRound) ↔
      q.Wakes allAcc committee next := by
  have hsound := (h.woken hsaved hblocks hstarts).sound.1
  have hsender := hstarts.bftSender
  refine ⟨fun ⟨n, hlt⟩ => ?_, fun hwakes => hwakes.raises hsound hsender hattends⟩
  by_contra hnot
  exact (currentRound_of_not_wakes hnot hsound hsender hattends n).not_gt hlt

end Primary

section Example

/-- The task is aborted while the header of the batch is signed. -/
def abortedCall : ProposeEnv :=
  { proposes 1 with
    lite := { (proposes 1).lite with
      certification := { certifies 1 0 with header := .error .aborted } } }

/-- The first node after a call, shut down and started again. -/
def wokenNode (env : ProposeEnv) : Primary BFTMemoryService Chain :=
  let _ := developmentNetwork
  (startedNode ⟨(failedNode env).ledger.ledger, none, false⟩ (failedNode env).shutDown.1 2).2

/-- The two tasks, in turn. -/
def inTurn (n : ℕ) : Primary.Task :=
  if n % 2 = 0 then .propose (laterCalls (n + 1))
  else .increment ⟨.done, 10 * (n + 3), laterCalls (n + 1)⟩

lemma wokenNode_starts (env : ProposeEnv) (hsaves : (failedNode env).savePending = true)
    (haccount : (failedNode env).account = developmentAccount 0)
    (hboot : let _ := developmentNetwork
      ((newNode ⟨(failedNode env).ledger.ledger, none, false⟩).bft.bootup (10 * (2 : ℕ))).isOk
        = true)
    (hstarted : let _ := developmentNetwork
      (startedNode ⟨(failedNode env).ledger.ledger, none, false⟩ (failedNode env).shutDown.1 2).1
        = .ok ()) :
    let _ := developmentNetwork
    Primary.Lived (Primary.anySurroundings Chain) none (failedNode env) ∧
      ∃ saved, (failedNode env).shutDown.1 = some saved ∧
        Primary.Starts (Primary.anySurroundings Chain) (failedNode env).account
          BFTMemoryService.empty ⟨(failedNode env).ledger.ledger, none, false⟩ (some saved)
          (.ok ()) (wokenNode env) := by
  let _ := developmentNetwork
  have hsender : (Primary.anySurroundings Chain).sender processBftSubdag :=
    processBftSubdag_faithful
  obtain ⟨saved, hsaved⟩ : ∃ saved, (failedNode env).shutDown.1 = some saved := by
    unfold Primary.shutDown
    rw [if_pos hsaves]
    exact ⟨_, rfl⟩
  have hstarts : Primary.Starts (Primary.anySurroundings Chain) (developmentAccount 0)
      BFTMemoryService.empty ⟨(failedNode env).ledger.ledger, none, false⟩
      (failedNode env).shutDown.1 (startedNode ⟨(failedNode env).ledger.ledger, none, false⟩
        (failedNode env).shutDown.1 2).1 (wokenNode env) :=
    startedNode_starts trivial hsender hboot _
  refine ⟨firstNode_lived.propose env trivial, saved, hsaved, ?_⟩
  rw [hstarted, hsaved, ← haccount] at hstarts
  exact hstarts

/-- Three certificates are loaded, and they are enough. -/
theorem wakes_up_example :
    let _ := developmentNetwork
    ∃ n, (wokenNode lastUnsignedCall).currentRound
      < ((wokenNode lastUnsignedCall).afterTasks inTurn n).currentRound := by
  let _ := developmentNetwork
  obtain ⟨hlived, saved, hsaved, hstarts⟩ := wokenNode_starts lastUnsignedCall
    (by decide +kernel) (by decide +kernel) (by decide +kernel) (by decide +kernel)
  have hsound := (hlived.woken hsaved rfl hstarts).sound.1
  have hraised : (wokenNode lastUnsignedCall).currentRound
      < ((wokenNode lastUnsignedCall).afterTasks inTurn 1).currentRound := by
    decide +kernel
  have hfirst : ∀ n, ((wokenNode lastUnsignedCall).afterTasks inTurn n).currentRound
      = (wokenNode lastUnsignedCall).currentRound → n = 0 := by
    intro n hn
    by_contra hne
    have hle : 1 ≤ n := Nat.one_le_iff_ne_zero.mpr hne
    have hgrows := hsound.monotone_afterTasks inTurn hle
    exact (hraised.trans_le hgrows).ne' hn
  have hattends : (wokenNode lastUnsignedCall).Attends (fun i => developmentAccount i)
      developmentCommittee developmentCommittee inTurn := by
    refine ⟨fun n hn => ?_, ⟨0, 2, by decide, fun i _ hi => ?_⟩, 1, fun hi => ?_⟩
    · obtain rfl := hfirst n hn
      exact ⟨rfl, by decide +kernel, rfl, by decide +kernel, committeeStarted_chain _⟩
    · obtain rfl := hfirst i hi
      exact ⟨laterCalls 1, rfl, by decide +kernel, by decide +kernel⟩
    · cases hfirst 1 hi
  refine (Primary.wakes_up hlived hsaved rfl hstarts hattends).mpr (.inl (.inl ?_))
  exact ⟨by decide +kernel, by decide +kernel, by decide +kernel⟩

/-- **A saved lock without a certificate** keeps the node in its round. -/
theorem never_wakes_up :
    let _ := developmentNetwork
    Primary.Lived (Primary.anySurroundings Chain) none (failedNode abortedCall) ∧
      (∃ saved, (failedNode abortedCall).shutDown.1 = some saved ∧
        Primary.Starts (Primary.anySurroundings Chain) (failedNode abortedCall).account
          BFTMemoryService.empty ⟨(failedNode abortedCall).ledger.ledger, none, false⟩ (some saved)
          (.ok ()) (wokenNode abortedCall)) ∧
      (wokenNode abortedCall).Attends (fun i => developmentAccount i) developmentCommittee
        developmentCommittee inTurn ∧
      ¬ ∃ n, (wokenNode abortedCall).currentRound
        < ((wokenNode abortedCall).afterTasks inTurn n).currentRound := by
  let _ := developmentNetwork
  obtain ⟨hlived, hstarts⟩ := wokenNode_starts abortedCall
    (by decide +kernel) (by decide +kernel) (by decide +kernel) (by decide +kernel)
  have haccounts : ∀ n, (laterCalls n).accounts = .ok fun i => developmentAccount i :=
    fun _ => rfl
  have hcall : ∀ n, (wokenNode abortedCall).proposeBatch (laterCalls n) true
      = (.ok (), wokenNode abortedCall) := fun n =>
    Primary.proposeBatch_of_locked (haccounts n) (by decide +kernel) (by decide +kernel)
      (by decide +kernel)
  have hnext : ¬ developmentCommittee.isQuorumThresholdReached
      ((wokenNode abortedCall).storage.getCertificateAuthorsForRound
        ((wokenNode abortedCall).currentRound + 1)) = true := by decide +kernel
  have hincrement : ∀ env, (wokenNode abortedCall).incrementTask env = wokenNode abortedCall :=
    fun _ => Primary.incrementTask_of_not_next rfl hnext
  have hstays : ∀ n, (wokenNode abortedCall).afterTasks inTurn n = wokenNode abortedCall := by
    intro n
    induction n with
    | zero => rfl
    | succ n ih =>
      have hproposed : ((wokenNode abortedCall).proposeBatch (laterCalls (n + 1)) true).2
          = wokenNode abortedCall := by rw [hcall]
      rw [Primary.afterTasks, ih]
      unfold inTurn
      split
      · exact hproposed
      · exact hincrement ⟨.done, 10 * (n + 3), laterCalls (n + 1)⟩
  refine ⟨hlived, hstarts, ⟨fun n _ => ?_, ⟨0, 2, by decide, ?_⟩, 1, fun _ => ?_⟩, ?_⟩
  · rw [hstays]
    unfold inTurn
    split
    · exact ⟨haccounts _, congrArg Prod.fst (hcall (n + 1)), rfl, by decide +kernel,
        committeeStarted_chain _⟩
    · exact ⟨fun hquorum => absurd hquorum hnext, rfl, rfl, by decide +kernel,
        committeeStarted_chain _⟩
  · rintro i (rfl | rfl) - <;> rw [hstays]
    · exact ⟨laterCalls 1, rfl, by decide +kernel, by decide +kernel⟩
    · exact ⟨laterCalls 3, rfl, by decide +kernel, by decide +kernel⟩
  · rw [hstays]
    exact ⟨⟨.done, 10 * (1 + 3), laterCalls 2⟩, rfl, by decide +kernel⟩
  · rintro ⟨n, hlt⟩
    rw [hstays] at hlt
    exact hlt.false

end Example

end AmareleoChain
