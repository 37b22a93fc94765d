import AmareleoChain.Mirror
import AmareleoChain.Whole

/-!
The tasks of the primary keep its storage, its DAG and its ledger together.

As long as consensus listens, and the certificates that a call of `propose_batch` gets to storing
are of the universe.
-/

namespace AmareleoChain

namespace Primary

variable {S V : Type} [Ledger V] [Network] {U : Universe} {g : ℕ} {p q : Primary S V}

/-- The BFT of the primary is whole, and consensus listens. -/
structure Kept (U : Universe) (g : ℕ) (p : Primary S V) : Prop where
  whole : p.bft.Whole U g
  listens : p.bft.consensusSender ≠ none

lemma Kept.of_bft (h : p.Kept U g) (hbft : q.bft = p.bft) : q.Kept U g :=
  ⟨hbft ▸ h.whole, hbft ▸ h.listens⟩

/-! ### Rounds -/

lemma whole_sendPrimaryRoundToBft (h : p.bft.Whole U g) (sent : Await) (now : ℤ) (round : ℕ) :
    (p.sendPrimaryRoundToBft sent now round).2.bft.Whole U g := by
  have hstep : (p.bft.updateToNextRound now round).2.Whole U g := by
    obtain ⟨x, leader, timer, storage, hstorage, hres⟩ := p.bft.updateToNextRound_keeps now round
    have hsame : Storage.SameCertificates p.storage storage ∧
        storage.maxGcRounds = p.storage.maxGcRounds := by
      rcases hstorage with rfl | rfl
      · exact ⟨⟨rfl, rfl, rfl, rfl⟩, rfl⟩
      · have honward : p.storage.Onward (fun _ => False) 0
            (p.storage.incrementToNextRound p.ledger round).2 :=
          Storage.incrementToNextRound_onward p.ledger p.storage round
        exact ⟨Storage.incrementToNextRound_same p.ledger p.storage round, honward.maxGcRounds⟩
    rw [hres]
    exact h.same hsame.1 hsame.2 ⟨x, leader, timer, rfl⟩
  cases sent with
  | done => exact hstep
  | stopped stop effect =>
    cases effect
    · exact h
    · exact hstep

lemma whole_incrementToNextRound (h : p.bft.Whole U g) (round : ℕ) :
    (p.incrementToNextRound round).2.bft.Whole U g := by
  have honward : p.storage.Onward (fun _ => False) 0
      (p.storage.incrementToNextRound p.ledger round).2 :=
    Storage.incrementToNextRound_onward p.ledger p.storage round
  have hwhole : BFT.Whole U g { p.bft with
      storage := (p.storage.incrementToNextRound p.ledger round).2 } :=
    h.same (Storage.incrementToNextRound_same p.ledger p.storage round) honward.maxGcRounds
      ⟨p.ledger.latestLeader, p.bft.leaderCertificate, p.bft.leaderCertificateTimer, rfl⟩
  exact hwhole

lemma sender_sendPrimaryRoundToBft (sent : Await) (now : ℤ) (round : ℕ) (p : Primary S V) :
    (p.sendPrimaryRoundToBft sent now round).2.bft.consensusSender = p.bft.consensusSender := by
  have hstep : (p.bft.updateToNextRound now round).2.consensusSender = p.bft.consensusSender := by
    obtain ⟨x, leader, timer, storage, -, hres⟩ := p.bft.updateToNextRound_keeps now round
    rw [hres]
    rfl
  cases sent with
  | done => exact hstep
  | stopped stop effect =>
    cases effect
    · rfl
    · exact hstep

/-- **What moves the rounds** keeps them together. -/
theorem kept_roundWalk : RoundWalk (S := S) (V := V) fun p q => p.Kept U g → q.Kept U g where
  refl _ := id
  trans h h' := h' ∘ h
  round sent now round p h := ⟨whole_sendPrimaryRoundToBft h.whole sent now round,
    (sender_sendPrimaryRoundToBft sent now round p).symm ▸ h.listens⟩
  increment round _ h := ⟨whole_incrementToNextRound h.whole round, h.listens⟩
  clear _ h := h.of_bft rfl

/-! ### Certificates -/

variable [StorageService S] {env : Receipt} {c : BatchCertificate}
  {transmissions : IndexMap TransmissionID Transmission}

lemma whole_insertCertificate (h : p.bft.Whole U g) (hc : U.Has c) (env : Receipt)
    (transmissions : IndexMap TransmissionID Transmission) :
    (p.insertCertificate env c transmissions).2.bft.Whole U g ∧
      ∀ q, p.insertCertificate env c transmissions = (.ok (), q) → q.bft.Stored c ∧
        ∃ storage, q = p.withStorage storage := by
  have hstep := h.insertCertificate hc env.insertedAt transmissions ∅
  unfold insertCertificate
  cases env.inserted with
  | done =>
    refine ⟨hstep, fun q hq => ?_⟩
    rcases h.tidy.gains p.ledger env.insertedAt c transmissions ∅ with
      ⟨e, hres⟩ | ⟨t, hres, hgains⟩ <;> simp only [Await.run, hres] at hq <;> cases hq
    exact ⟨(hgains.mem c).mpr (.inr rfl), t, rfl⟩
  | stopped stop effect =>
    cases effect
    · exact ⟨h, fun q hq => (by cases hq)⟩
    · exact ⟨hstep, fun q hq => (by cases hq)⟩

lemma updateBft_cases (env : Receipt) (c : BatchCertificate) (p : Primary S V) :
    (p.updateBft env c).2 = p ∨
      (p.updateBft env c).2 = { p with bft := (p.bft.updateDag true false c).2 } := by
  unfold updateBft sendPrimaryCertificateToBft
  split
  swap
  · exact .inl rfl
  rcases hcall : p.bft.updateDag true false c with ⟨_ | _, b⟩ <;>
    rcases env.sent with _ | ⟨stop, _ | _⟩ <;> simp [Await.run, hcall]

lemma sender_updateBft (env : Receipt) (c : BatchCertificate) (p : Primary S V) :
    (p.updateBft env c).2.bft.consensusSender = p.bft.consensusSender := by
  obtain ⟨dag, ledger, committed, storage, -, hkeeps⟩ := p.bft.updateDag_keeps true false c
  have hsender := congrArg BFT.consensusSender hkeeps
  rcases updateBft_cases env c p with hres | hres <;> rw [hres]
  exact hsender

lemma whole_updateBft [LawfulLedger V] (horder : RoundsInOrder V)
    (hattained : RoundsAttained V) (h : p.bft.Whole U g) (hc : U.Has c)
    (hstored : p.bft.Stored c) (hattended : p.bft.Attended c) (env : Receipt) :
    (p.updateBft env c).2.bft.Whole U g := by
  obtain ⟨hstep, -⟩ := h.updateDag horder hattained hc (fun _ => hstored) hattended
  rcases updateBft_cases env c p with hres | hres <;> rw [hres]
  · exact h
  · exact hstep

lemma Kept.insertCertificate {α : Type} (h : p.Kept U g) (hc : U.Has c)
    {next : Unit → Primary S V → Except Stop α × Primary S V}
    (hnext : ∀ q : Primary S V, q.Kept U g → q.bft.Stored c → (next () q).2.Kept U g) :
    (andThen (p.insertCertificate env c transmissions) next).2.Kept U g := by
  obtain ⟨hwhole, hok⟩ := whole_insertCertificate h.whole hc env transmissions
  have hsender : (p.insertCertificate env c transmissions).2.bft.consensusSender ≠ none := by
    unfold Primary.insertCertificate
    cases env.inserted with
    | done => exact h.listens
    | stopped stop effect => cases effect <;> exact h.listens
  rcases hres : p.insertCertificate env c transmissions with ⟨_ | ⟨⟩, q⟩ <;>
    rw [hres] at hwhole hsender
  · exact ⟨hwhole, hsender⟩
  · exact hnext q ⟨hwhole, hsender⟩ (hok q hres).1

/-! ### Batches -/

lemma fakeProposals_append (env : ProposeEnv) (allAcc : Fin 4 → Address) (round : ℕ)
    (vids vids' : List (Fin 4)) (p : Primary S V) :
    p.fakeProposals env allAcc round (vids ++ vids')
      = andThen (p.fakeProposals env allAcc round vids) fun _ p =>
        p.fakeProposals env allAcc round vids' := by
  induction vids generalizing p with
  | nil => rfl
  | cons vid vids ih =>
    simp only [List.cons_append, fakeProposals, ih]
    rw [andThen_assoc]

/-- The certificates that a call of `propose_batch` gets to storing are of the universe. -/
structure MakesIn (U : Universe) (env : ProposeEnv) (p : Primary S V) : Prop where
  lite : ∀ {allAcc : Fin 4 → Address} {c : BatchCertificate}
    {transmissions : IndexMap TransmissionID Transmission} {q : Primary S V},
    env.accounts = .ok allAcc →
    LiteBuilds env.lite [allAcc 1, allAcc 2, allAcc 3] p c transmissions q → U.Has c
  fakes : ∀ {allAcc : Fin 4 → Address} {round : ℕ} {q₀ q : Primary S V} {pre post : List (Fin 4)}
    {vid : Fin 4} {c : BatchCertificate} {transmissions : IndexMap TransmissionID Transmission},
    env.accounts = .ok allAcc →
    p.proposeBatchLite env.lite [allAcc 1, allAcc 2, allAcc 3] true = (.ok round, q₀) →
    round ≠ 0 → [1, 2, 3] = pre ++ vid :: post →
    q₀.fakeProposals env allAcc round pre = (.ok (), q) →
    FakeStores (env.fake vid) (allAcc vid) ((List.ofFn allAcc).filter (· ≠ allAcc vid)) round q c
      transmissions → U.Has c

section Listening

variable [LawfulLedger V] (horder : RoundsInOrder V) (hattained : RoundsAttained V)

include horder hattained

lemma Kept.updateBft (h : p.Kept U g) (hc : U.Has c) (hstored : p.bft.Stored c)
    (env : Receipt) : (p.updateBft env c).2.Kept U g :=
  ⟨whole_updateBft horder hattained h.whole hc hstored (fun hnone => absurd hnone h.listens) env,
    (sender_updateBft env c p).symm ▸ h.listens⟩

/-- **The batch of the node.** -/
lemma Kept.proposeBatchLite (h : p.Kept U g) {env : LiteEnv} {otherAcc : List Address}
    (hmakes : ∀ c transmissions q, LiteBuilds env otherAcc p c transmissions q → U.Has c) :
    (p.proposeBatchLite env otherAcc true).2.Kept U g := by
  rcases proposeBatchLite_cases env otherAcc p with
    ⟨-, hbft | hsent⟩ | ⟨c, transmissions, q, hstores, hres⟩
  · exact h.of_bft hbft
  · rw [hsent]
    exact kept_roundWalk.round _ _ _ p h
  have hc := hmakes c transmissions q hstores
  have hq : q.Kept U g := by
    obtain ⟨ready, stamp, rfl⟩ := hstores.state
    exact h.of_bft rfl
  rw [hres]
  unfold afterLite
  -- the certificate is stored and sent, and the round is incremented
  have hrest : (andThen (q.insertCertificate env.certification.toReceipt c transmissions)
      fun _ p => andThen (p.updateBft env.certification.toReceipt c) fun _ p =>
        andThen (p.tryIncrementToTheNextRoundLite env.roundSent env.roundSentAt (c.round + 1))
          fun _ p => ((.ok (), p) : Except Stop Unit × Primary S V)).2.Kept U g := by
    refine hq.insertCertificate hc fun r hr hstored => ?_
    refine kept_roundWalk.andThen
      (fun _ => hr.updateBft horder hattained hc hstored env.certification.toReceipt)
      (fun _ q hq => ?_) hr
    exact kept_roundWalk.andThen
      (kept_roundWalk.tryIncrementToTheNextRoundLite _ _ _ q) (fun _ _ => id) hq
  refine kept_roundWalk.andThen (fun _ => ?_) (fun _ _ => id) hq
  split
  · next e r hr =>
    rw [hr] at hrest
    exact hrest.of_bft (bft_reinsertTransmissions r transmissions)
  · exact hrest

/-- **An empty batch.** -/
lemma Kept.fakeProposal (h : p.Kept U g) {env : Certification} {primaryAcc : Address}
    {otherAcc : List Address} {round : ℕ}
    (hmakes : ∀ c transmissions, FakeStores env primaryAcc otherAcc round p c transmissions →
      U.Has c) : (p.fakeProposal env primaryAcc otherAcc round).2.Kept U g := by
  rcases fakeProposal_cases env primaryAcc otherAcc round p with
    ⟨stop, q, hres, rfl | rfl⟩ | ⟨c, transmissions, signature, hstores, hres⟩ <;> rw [hres]
  · exact h
  · exact h.of_bft rfl
  have hc := hmakes c transmissions hstores
  have hasked : (p.askHeader primaryAcc round).Kept U g := h.of_bft rfl
  refine hasked.insertCertificate hc fun q hq hstored => ?_
  unfold signProposal
  split
  · exact hq
  · have hsigned : Kept U g { q with
        signedProposals := q.signedProposals.insert primaryAcc (round, c.id, signature) } :=
      hq.of_bft rfl
    exact hsigned.updateBft horder hattained hc hstored env.toReceipt

/-- **The batches of all validators.** -/
theorem Kept.proposeBatch (h : p.Kept U g) {env : ProposeEnv} (hmakes : MakesIn U env p) :
    (p.proposeBatch env true).2.Kept U g := by
  unfold Primary.proposeBatch
  refine attempt_rel (R := fun p q : Primary S V => p.Kept U g → q.Kept U g) id
    (fun allAcc haccounts h => ?_) h
  rw [orStop_eq_ok] at haccounts
  have hlite : (p.proposeBatchLite env.lite [allAcc 1, allAcc 2, allAcc 3] true).2.Kept U g :=
    h.proposeBatchLite horder hattained fun c t q hbuilds => hmakes.lite haccounts hbuilds
  rcases hres : p.proposeBatchLite env.lite [allAcc 1, allAcc 2, allAcc 3] true with
    ⟨_ | round, q₀⟩ <;> rw [hres] at hlite
  · exact hlite
  dsimp only [AmareleoChain.andThen]
  split
  · exact hlite
  next hround =>
  have hround : round ≠ 0 := fun hzero => hround (.inr hzero)
  -- the empty batches before a validator's own have succeeded
  suffices hall : ∀ (vids pre : List (Fin 4)) (q : Primary S V), [1, 2, 3] = pre ++ vids →
      q₀.fakeProposals env allAcc round pre = (.ok (), q) → q.Kept U g →
      (q.fakeProposals env allAcc round vids).2.Kept U g from hall [1, 2, 3] [] q₀ rfl rfl hlite
  intro vids
  induction vids with
  | nil => exact fun _ _ _ _ hq => hq
  | cons vid vids ih =>
    intro pre q hsplit hpre hq
    have hone : (q.fakeProposal (env.fake vid) (allAcc vid)
        ((List.ofFn allAcc).filter (· ≠ allAcc vid)) round).2.Kept U g :=
      hq.fakeProposal horder hattained
        fun c t hstores => hmakes.fakes haccounts hres hround hsplit hpre hstores
    rw [fakeProposals]
    rcases hfake : q.fakeProposal (env.fake vid) (allAcc vid)
      ((List.ofFn allAcc).filter (· ≠ allAcc vid)) round with ⟨_ | ⟨⟩, r⟩ <;> rw [hfake] at hone
    · exact hone
    · refine ih (pre ++ [vid]) r (by rw [hsplit, List.append_assoc]; rfl) ?_ hone
      rw [fakeProposals_append, hpre]
      dsimp only [AmareleoChain.andThen, fakeProposals]
      rw [hfake]

/-- **The task that increments the round.** -/
theorem Kept.incrementTask (h : p.Kept U g) {env : IncrementEnv}
    (hmakes : ∀ q, p.tryIncrementToTheNextRoundLite env.roundSent env.roundSentAt
      (p.currentRound + 1) = (.ok true, q) → MakesIn U env.propose q) :
    (p.incrementTask env).Kept U g := by
  unfold Primary.incrementTask
  dsimp only
  split
  · exact h
  split
  · exact h
  split
  swap
  · exact h
  have hlite := kept_roundWalk.tryIncrementToTheNextRoundLite env.roundSent env.roundSentAt
    (p.currentRound + 1) p h
  unfold tryIncrementToTheNextRound
  rcases hres : p.tryIncrementToTheNextRoundLite env.roundSent env.roundSentAt (p.currentRound + 1)
    with ⟨_ | isReady, q⟩ <;> rw [hres] at hlite
  · exact hlite
  dsimp only [AmareleoChain.andThen]
  split
  · next hready =>
    subst hready
    exact hlite.proposeBatch horder hattained (hmakes q hres)
  · exact hlite

end Listening

end Primary

end AmareleoChain
