import AmareleoChain.Conservation

/-!
What a call that succeeds leaves in the storage.

The round does not decrease, and the certificates of the round stay while the batches of the
validators are stored and sent to the BFT. The BFT moves to the next round once the certificates of
this one reach the quorum, when the timer for the leader has expired.
-/

namespace AmareleoChain

open Std

namespace BFT

variable {S V : Type} [Network] [Ledger V]

/-! ### The round of the storage -/

lemma Step.le_currentRound [StorageService S] {G : BFT S V → BatchCertificate → Prop}
    {b b' : BFT S V} (hstep : Step G b b') (h : b.storage.Tidy ∧ b.dag.WellFormed) :
    b.storage.currentRound ≤ b'.storage.currentRound := by
  cases hstep with
  | insertCertificate now c transmissions =>
    exact (h.1.insertCertificate (m := 0) b.ledger now c transmissions ∅).2.currentRound
  | incrementToNextRound round =>
    exact (Storage.incrementToNextRound_onward (X := fun _ => False) (m := 0) b.ledger b.storage
      round).currentRound
  | updateToNextRound now round =>
    obtain ⟨x, leader, timer, storage, rfl | rfl, hres⟩ := b.updateToNextRound_keeps now round <;>
      rw [hres]
    exact (Storage.incrementToNextRound_onward (X := fun _ => False) (m := 0) b.ledger b.storage
      round).currentRound
  | updateDag c =>
    have hupdated := updateDag_updated (evolves_any b.consensusSender) h.2 true false c
    rcases hupdated.storage with hstorage | ⟨-, -, hstorage⟩ <;> rw [hstorage]
    rw [Storage.currentRound_garbageCollectCertificates]

/-! ### The update to the next round -/

lemma updateToNextRound_cases (b : BFT S V) (now : ℤ) (round : ℕ) :
    (∃ x leaderCertificate, b.updateToNextRound now round
      = (false, { b.withLeader x with leaderCertificate })) ∨
    (b.updateToNextRound now round).2.storage
      = (b.storage.incrementToNextRound b.ledger round).2 := by
  obtain ⟨x, leaderCertificate, hx⟩ := b.readiness_keeps now round
  have hsame : (b.withLeader x).storage.incrementToNextRound (b.withLeader x).ledger round
      = b.storage.incrementToNextRound b.ledger round := rfl
  unfold updateToNextRound
  split
  · exact .inl ⟨b.ledger.latestLeader, _, rfl⟩
  dsimp only
  generalize (if round % 2 = 0 then b.updateLeaderCertificateToEvenRound now round
    else (b.isLeaderQuorumOrNonleadersAvailable now round, b)) = r at hx ⊢
  obtain ⟨isReady, b'⟩ := r
  subst hx
  cases isReady with
  | false => exact .inl ⟨x, leaderCertificate, rfl⟩
  | true =>
    right
    dsimp only
    rw [if_pos rfl, hsame]
    rcases b.storage.incrementToNextRound b.ledger round with ⟨_ | _, storage⟩ <;> rfl

/-- Without a quorum of certificates the round is not ready, and only what is noted of the leader
changes. -/
lemma updateToNextRound_of_not_quorum {b : BFT S V} {committee : Committee}
    (hlookback : b.ledger.getCommitteeLookbackForRound b.storage.currentRound = .ok committee)
    (hnot : ¬ committee.isQuorumThresholdReached
      (authorsOf (b.storage.getCertificatesForRound b.storage.currentRound)) = true) (now : ℤ) :
    ∃ x leaderCertificate, b.updateToNextRound now b.storage.currentRound
      = (false, { b.withLeader x with leaderCertificate }) := by
  have hready : ∃ x leaderCertificate, (if b.storage.currentRound % 2 = 0 then
        b.updateLeaderCertificateToEvenRound now b.storage.currentRound
      else (b.isLeaderQuorumOrNonleadersAvailable now b.storage.currentRound, b))
      = (false, { b.withLeader x with leaderCertificate }) := by
    split
    · unfold updateLeaderCertificateToEvenRound
      dsimp only
      rw [if_neg (not_not.mpr rfl), hlookback]
      split
      · exact ⟨b.ledger.latestLeader, _, rfl⟩
      split
      · exact ⟨b.ledger.latestLeader, _, rfl⟩
      · obtain ⟨x, hx, -⟩ := electLeader_spec b b.storage.currentRound
        rw [hx]
        refine ⟨x, _, congrArg (·, _) ?_⟩
        rw [isEvenRoundReadyForNextRound, if_pos hnot]
    · refine ⟨b.ledger.latestLeader, b.leaderCertificate, congrArg (·, b) ?_⟩
      unfold isLeaderQuorumOrNonleadersAvailable
      dsimp only
      rw [if_neg (not_not.mpr rfl), hlookback]
      split
      · rfl
      · exact if_pos hnot
  obtain ⟨x, leaderCertificate, hx⟩ := hready
  refine ⟨x, leaderCertificate, ?_⟩
  rw [updateToNextRound, if_neg (lt_irrefl _), hx]
  rfl

lemma updateToNextRound_of_quorum {b : BFT S V} {committee : Committee} {now : ℤ}
    (hround : b.storage.currentRound ≠ 0)
    (hlookback : b.ledger.getCommitteeLookbackForRound b.storage.currentRound = .ok committee)
    (hquorum : committee.isQuorumThresholdReached
      (authorsOf (b.storage.getCertificatesForRound b.storage.currentRound)) = true)
    (hexpired : b.isTimerExpired now = true) :
    (b.updateToNextRound now b.storage.currentRound).2.storage
      = (b.storage.incrementToNextRound b.ledger b.storage.currentRound).2 := by
  have hready : ∃ x leaderCertificate, (if b.storage.currentRound % 2 = 0 then
        b.updateLeaderCertificateToEvenRound now b.storage.currentRound
      else (b.isLeaderQuorumOrNonleadersAvailable now b.storage.currentRound, b))
      = (true, { b.withLeader x with leaderCertificate }) := by
    split
    · next heven =>
      have hnonempty : ¬ (b.storage.getCertificatesForRound b.storage.currentRound).isEmpty := by
        intro hempty
        rw [List.isEmpty_iff.mp hempty] at hquorum
        obtain ⟨a, ha⟩ := committee.nonempty_of_quorum hquorum
        cases (Finset.notMem_empty a) ha
      unfold updateLeaderCertificateToEvenRound
      dsimp only
      rw [if_neg (not_not.mpr rfl), if_neg (by omega), if_neg hnonempty, hlookback]
      obtain ⟨x, hx, -⟩ := electLeader_spec b b.storage.currentRound
      rw [hx]
      refine ⟨x, _, congrArg (·, _) ?_⟩
      rw [isEvenRoundReadyForNextRound, if_neg (not_not.mpr hquorum)]
      split
      · split
        · rfl
        · exact hexpired
      · exact hexpired
    · refine ⟨b.ledger.latestLeader, b.leaderCertificate, congrArg (·, b) ?_⟩
      unfold isLeaderQuorumOrNonleadersAvailable
      dsimp only
      rw [if_neg (not_not.mpr rfl), if_neg (by omega), hlookback]
      dsimp only
      rw [if_neg (not_not.mpr hquorum)]
      split
      · rfl
      · rw [hexpired, Bool.or_true]
  obtain ⟨x, leaderCertificate, hx⟩ := hready
  have hsame : (b.withLeader x).storage.incrementToNextRound (b.withLeader x).ledger
      b.storage.currentRound = b.storage.incrementToNextRound b.ledger b.storage.currentRound := rfl
  rw [updateToNextRound, if_neg (lt_irrefl _), hx]
  dsimp only
  rw [if_pos rfl, hsame]
  rcases b.storage.incrementToNextRound b.ledger b.storage.currentRound with
    ⟨_ | _, storage⟩ <;> rfl

end BFT

namespace Primary

variable {S V : Type} [StorageService S] [Ledger V] [Network] {p q : Primary S V}

/-! ### Rounds, and the BFT -/

lemma bftSender_walk : BatchWalk (S := S) (V := V) .any (fun _ => True)
    fun p q => q.bftSender = p.bftSender where
  refl _ := rfl
  trans h h' := h'.trans h
  round sent now round p := by
    obtain ⟨bft, hbft, -⟩ := sameWork_round sent now round p
    rw [hbft]
  increment _ _ := rfl
  clear _ := rfl
  work _ _ _ := rfl
  lock _ _ _ := rfl
  store env c t p _ _ := by
    obtain ⟨bft, hbft, -⟩ := sameWork_store env c t p
    rw [hbft]
  fakes _ _ _ _ h := by
    refine (fakeProposals_rel (R := fun p q : Primary S V => q.bftSender = p.bftSender)
      (fun h h' => h'.trans h) (fun hwork => ?_) (fun _ _ _ => rfl) _ _ _ _ _).trans h
    obtain ⟨bft, rfl, -⟩ := hwork
    rfl

lemma Sound.le_currentRound (h : p.Sound) (hmoves : p.Moves q) :
    p.currentRound ≤ q.currentRound := by
  have hbft : (q.bft.storage.Tidy ∧ q.bft.dag.WellFormed) ∧
      p.bft.storage.currentRound ≤ q.bft.storage.currentRound := by
    have hp : p.bft.storage.Tidy ∧ p.bft.dag.WellFormed := ⟨h.tidy, h.wellFormed⟩
    unfold Moves at hmoves
    generalize p.bft = b at hmoves hp
    generalize q.bft = b' at hmoves ⊢
    induction hmoves with
    | refl => exact ⟨hp, le_rfl⟩
    | tail _ hstep ih =>
      exact ⟨hstep.sound ih.1, ih.2.trans (hstep.le_currentRound ih.1)⟩
  exact hbft.2

/-! ### Certificates that persist -/

/-- The storage has a certificate of a round and an account. -/
def Holds (r : ℕ) (a : Address) (p : Primary S V) : Prop :=
  ∃ c : BatchCertificate, p.storage.certificates[c.id]? = some c ∧ c.round = r ∧ c.author = a

/-- The certificates of a round stay, and so does the lock. -/
structure Persists (r : ℕ) (p q : Primary S V) : Prop where
  sound : q.Sound
  kept : ∀ {c : BatchCertificate}, c.round = r → p.storage.certificates[c.id]? = some c →
    q.storage.certificates[c.id]? = some c
  account : q.account = p.account
  lock : q.proposeLock = p.proposeLock

section Building

variable {r : ℕ} {a : Address} {c : BatchCertificate}
  {given : IndexMap TransmissionID Transmission}

omit [StorageService S] [Ledger V] [Network] in
lemma Persists.refl (h : p.Sound) : Persists r p p := ⟨h, fun _ => id, rfl, rfl⟩

omit [StorageService S] [Ledger V] [Network] in
lemma Persists.trans {p' : Primary S V} (h : Persists r p q) (h' : Persists r q p') :
    Persists r p p' :=
  ⟨h'.sound, fun hc hstored => h'.kept hc (h.kept hc hstored), h'.account.trans h.account,
    h'.lock.trans h.lock⟩

omit [StorageService S] [Ledger V] [Network] in
lemma Persists.holds (h : Persists r p q) (hholds : p.Holds r a) : q.Holds r a := by
  obtain ⟨c, hc, hround, hauthor⟩ := hholds
  exact ⟨c, h.kept hround hc, hround, hauthor⟩

omit [StorageService S] in
lemma lock_walk : RoundWalk (S := S) (V := V) fun p q => q.proposeLock = p.proposeLock where
  refl _ := rfl
  trans h h' := h'.trans h
  round sent now round p := by
    obtain ⟨bft, hbft, -⟩ := sameWork_round sent now round p
    rw [hbft]
  increment _ _ := rfl
  clear _ := rfl

lemma persists_updateBft (h : p.Sound) (env : Receipt) (c : BatchCertificate) :
    Persists c.round p (p.updateBft env c).2 := by
  have hsound := h.moves (moves_updateBft env c p) (sameWork_updateBft env c p).keepsIdle
  refine ⟨hsound, fun hd => (certificates_updateBft h env hd).mpr, ?_, ?_⟩
  all_goals
    obtain ⟨bft, hbft, haccount⟩ := sameWork_updateBft env c p
    rw [hbft]
  exact haccount

lemma persists_insertCertificate (h : p.Sound) (env : Receipt) (c : BatchCertificate)
    (given : IndexMap TransmissionID Transmission)
    (hok : (p.insertCertificate env c given).1 = .ok ()) :
    Persists r p (p.insertCertificate env c given).2 ∧
      (p.insertCertificate env c given).2.Holds c.round c.author := by
  have hsound := h.moves (moves_insertCertificate env c given p)
    (sameWork_insertCertificate env c given p).keepsIdle
  rcases insertCertificate_fate h.tidy.indexed env c given with
    ⟨stop, hres, -⟩ | ⟨result, missing, haccepts, -, hres, -⟩
  · rw [hres] at hok
    cases hok
  rw [hres] at hsound ⊢
  have hstored := fun d : BatchCertificate =>
    Storage.getElem?_insertCertificateAtomic haccepts.fresh ∅ missing d.id d
  exact ⟨⟨hsound, fun {d} _ hd => (hstored d).mpr (.inl hd), rfl, rfl⟩,
    c, (hstored c).mpr (.inr ⟨rfl, rfl⟩), rfl, rfl⟩

/-- **The own batch**, once it is completed. -/
lemma persists_afterLite (h : p.Sound) (env : LiteEnv) (round : ℕ) (c : BatchCertificate)
    (given : IndexMap TransmissionID Transmission) {m : ℕ}
    (hok : (afterLite env round c given (p.insertCertificate env.certification.toReceipt c given)).1
      = .ok m) :
    Persists c.round p (afterLite env round c given
      (p.insertCertificate env.certification.toReceipt c given)).2 ∧
      (afterLite env round c given
        (p.insertCertificate env.certification.toReceipt c given)).2.Holds c.round c.author := by
  cases hinsert : p.insertCertificate env.certification.toReceipt c given with
  | mk result q =>
  rw [hinsert] at hok
  cases result with
  | error stop =>
    cases stop <;> cases hok
  | ok =>
  have hstored := persists_insertCertificate (r := c.round) h env.certification.toReceipt c given
    (by rw [hinsert])
  rw [hinsert] at hstored
  have hupdated := persists_updateBft hstored.1.sound env.certification.toReceipt c
  have hmoved : Persists c.round q (andThen (q.updateBft env.certification.toReceipt c) fun _ p =>
      andThen (p.tryIncrementToTheNextRoundLite env.roundSent env.roundSentAt (c.round + 1))
        fun _ p => ((.ok (), p) : Except Stop Unit × Primary S V)).2 := by
    refine andThen_rel (R := fun p q : Primary S V => p.Sound → Persists c.round p q)
      (fun h h' hp => (h hp).trans (h' (h hp).sound)) (fun _ => hupdated) (fun _ q _ hq => ?_)
      hstored.1.sound
    have hsettles : Settles c.round q (andThen (q.tryIncrementToTheNextRoundLite env.roundSent
        env.roundSentAt (c.round + 1)) fun _ p =>
        ((.ok (), p) : Except Stop Unit × Primary S V)).2 :=
      (settles_walk c.round).andThen ((settles_walk c.round).tryIncrementToTheNextRoundLite _ _ _ q)
        (fun _ q => (settles_walk c.round).refl q) hq
    have hlock : (andThen (q.tryIncrementToTheNextRoundLite env.roundSent
        env.roundSentAt (c.round + 1)) fun _ p =>
        ((.ok (), p) : Except Stop Unit × Primary S V)).2.proposeLock = q.proposeLock :=
      lock_walk.andThen (lock_walk.tryIncrementToTheNextRoundLite _ _ _ q) fun _ q =>
        lock_walk.refl q
    exact ⟨hsettles.sound, fun hc => (hsettles.certificates hc).mpr, hsettles.account, hlock⟩
  have hall := hstored.1.trans hmoved
  have hheld := hmoved.holds hstored.2
  have hdone : ∀ next : Unit → Primary S V → Except Stop Unit × Primary S V,
      andThen (.ok (), q) next = next () q := fun _ => rfl
  unfold afterLite at hok ⊢
  rw [hdone] at hok ⊢
  rcases hr : andThen (q.updateBft env.certification.toReceipt c) fun _ p =>
      andThen (p.tryIncrementToTheNextRoundLite env.roundSent env.roundSentAt (c.round + 1))
        fun _ p => ((.ok (), p) : Except Stop Unit × Primary S V) with ⟨(e | _ | _) | _, q'⟩ <;>
    rw [hr] at hok hall hheld
  · cases hok
  · cases hok
  · cases hok
  · exact ⟨hall, hheld⟩

/-- **The empty batch** of another validator. -/
lemma persists_fakeProposal (h : p.Sound) (env : Certification) (others : List Address)
    (hok : (p.fakeProposal env a others r).1 = .ok ()) :
    Persists r p (p.fakeProposal env a others r).2 ∧
      (p.fakeProposal env a others r).2.Holds r a := by
  rcases fakeProposal_cases env a others r p with
    ⟨stop, q, hres, -⟩ | ⟨c, t, signature, ⟨⟨committee, -, hcertifies⟩, -⟩, hres⟩
  · rw [hres] at hok
    cases hok
  obtain ⟨hcertified, -⟩ := hcertifies.certified
  obtain rfl := hcertified.round
  obtain rfl := hcertified.author
  have hasked : (p.askHeader c.author c.round).Sound := ⟨h.tidy, h.wellFormed, h.idle⟩
  rw [hres] at hok ⊢
  cases hinsert : (p.askHeader c.author c.round).insertCertificate env.toReceipt c t with
  | mk result q =>
  rw [hinsert] at hok
  cases result with
  | error stop => cases hok
  | ok =>
    have hstored := persists_insertCertificate (r := c.round) hasked env.toReceipt c t
      (by rw [hinsert])
    rw [hinsert] at hstored
    have hsigned : Persists c.round q
        (q.signProposal env c.author c.round c.id signature c).2 := by
      have hq : ∀ signedProposals, ({ q with signedProposals } : Primary S V).Sound := fun _ =>
        ⟨hstored.1.sound.tidy, hstored.1.sound.wellFormed, hstored.1.sound.idle⟩
      unfold signProposal
      split
      · exact .refl hstored.1.sound
      · have hupdated := persists_updateBft (hq (q.signedProposals.insert c.author
          (c.round, c.id, signature))) env.toReceipt c
        exact ⟨hupdated.sound, hupdated.kept, hupdated.account, hupdated.lock⟩
    have hall := hstored.1.trans hsigned
    exact ⟨⟨hall.sound, hall.kept, hall.account, hall.lock⟩, hsigned.holds hstored.2⟩

lemma persists_fakeProposals (h : p.Sound) {env : ProposeEnv} {allAcc : Fin 4 → Address}
    {vids : List (Fin 4)} (hok : (p.fakeProposals env allAcc r vids).1 = .ok ()) :
    Persists r p (p.fakeProposals env allAcc r vids).2 ∧
      ∀ vid ∈ vids, (p.fakeProposals env allAcc r vids).2.Holds r (allAcc vid) := by
  induction vids generalizing p with
  | nil => exact ⟨.refl h, fun vid hvid => absurd hvid List.not_mem_nil⟩
  | cons vid vids ih =>
    unfold fakeProposals at hok ⊢
    dsimp only at hok ⊢
    cases hfake : p.fakeProposal (env.fake vid) (allAcc vid)
        ((List.ofFn allAcc).filter (· ≠ allAcc vid)) r with
    | mk result q =>
    rw [hfake] at hok
    cases result with
    | error stop => cases hok
    | ok =>
      have hone := persists_fakeProposal (a := allAcc vid) (r := r) h (env.fake vid)
        ((List.ofFn allAcc).filter (· ≠ allAcc vid)) (by rw [hfake])
      rw [hfake] at hone
      obtain ⟨hrest, hall⟩ := ih hone.1.sound hok
      refine ⟨hone.1.trans hrest, fun vid' hvid => ?_⟩
      rcases List.mem_cons.mp hvid with rfl | hvid
      · exact hrest.holds hone.2
      · exact hall vid' hvid

lemma buildBatch_cases (env : LiteEnv) (otherAcc : List Address) (round : ℕ)
    (committee : Committee) (previous : List BatchCertificate) (p : Primary S V) :
    (∃ stop, (p.buildBatch env otherAcc true round committee previous).1 = .error stop) ∨
    ∃ given c transmissions ready stamp,
      Certifies env.certification p.account otherAcc round committee previous given c
        transmissions ∧
      p.buildBatch env otherAcc true round committee previous = afterLite env round c transmissions
        (({ p with
            ready, proposeLock := round, latestProposedBatchTimestamp := stamp
            headers := p.headers ++ [⟨p.account, round⟩] } :
          Primary S V).insertCertificate env.certification.toReceipt c transmissions) := by
  unfold buildBatch
  cases p.drain env.checks p.ready.numTransmissions ⟨p.ready, ∅, 0, 0⟩ with
  | mk result d =>
  cases result with
  | error stop => exact .inl ⟨stop, rfl⟩
  | ok =>
    rcases signAndComplete_cases env otherAcc round committee previous d.transmissions
      { p with ready := d.ready } with ⟨herror, -⟩ | ⟨c, t, stamp, hcertifies, hlite⟩
    · exact .inl herror
    · exact .inr ⟨d.transmissions, c, t, d.ready, stamp, hcertifies, hlite⟩

lemma afterLite_eq_ok {env : LiteEnv} {round m : ℕ} {x : Except Stop Unit × Primary S V}
    (h : afterLite env round c given x = (.ok m, q)) : m = round := andThen_eq_ok h

end Building

end Primary

end AmareleoChain
