import AmareleoChain.Acceptance
import AmareleoChain.Lives
import AmareleoChain.Updating

/-!
What the primary builds, the storage accepts.

A call of `propose_batch` stores the certificate of the node, and then those of the other
validators. Each is made of the certificates of the round before that the storage has then, and
the storage checks it again when it is stored.
-/

namespace AmareleoChain

open Std Relation

namespace Primary

variable {S V : Type}

/-! ### The certificates of a call -/

section Certified

variable [Network]

/-- The certificate of a batch of an account, and its transmissions, as the primary makes it. -/
def Certifies (env : Certification) (author : Address) (signers : List Address) (round : ℕ)
    (committee : Committee) (previous : List BatchCertificate)
    (given : IndexMap TransmissionID Transmission) (c : BatchCertificate)
    (transmissions : IndexMap TransmissionID Transmission) : Prop :=
  ∃ proposal signed, newProposal env author round committee previous given = .ok proposal ∧
    addSignatures env committee signers proposal = .ok signed ∧
    signed.toCertificate committee = .ok (c, transmissions)

/-- What such a certificate carries. -/
structure Certified (env : Certification) (a : Address) (r : ℕ) (committee : Committee)
    (previous : List BatchCertificate) (given : IndexMap TransmissionID Transmission)
    (c : BatchCertificate) : Prop where
  header : ∃ signature, env.header = .ok (c.id, signature) ∧
    committee.isQuorumThresholdReached
      (insert signature.toAddress (c.signatures.toList.map Signature.toAddress).toFinset) = true
  author : c.author = a
  member : a ∈ committee.members
  round : c.round = r
  timestamp : c.timestamp = env.currentTimestamp
  transmissionIds : c.transmissionIds = given.keySet
  previousCertificateIds :
    c.previousCertificateIds = IndexSet.ofList (previous.map BatchCertificate.id)
  signatures : ∀ x ∈ c.signatures,
    ∃ signer ∈ committee.members, Network.verify x signer c.id = true

variable {env : Certification} {author : Address} {signers : List Address} {round : ℕ}
  {committee : Committee} {previous : List BatchCertificate}
  {given transmissions : IndexMap TransmissionID Transmission} {c : BatchCertificate}

lemma Certifies.certified
    (h : Certifies env author signers round committee previous given c transmissions) :
    Certified env author round committee previous given c ∧ transmissions = given := by
  obtain ⟨proposal, signed, hproposal, hsigned, hcertificate⟩ := h
  obtain ⟨batchId, signature, hheader, hmember, rfl⟩ := newProposal_spec hproposal
  obtain ⟨hbatch, hgiven, hsignatures⟩ := addSignatures_spec hsigned
  obtain ⟨hquorum, rfl, rfl⟩ := Proposal.toCertificate_spec hcertificate
  refine ⟨⟨⟨signature, ?_, ?_⟩, ?_, hmember, ?_, ?_, ?_, ?_, fun x hx => ?_⟩, hgiven⟩
  · rw [hheader]
    exact congrArg (fun h => Except.ok (BatchHeader.batchId h, signature)) hbatch.symm
  · rw [Proposal.isQuorumThresholdReached, Proposal.signers, hbatch] at hquorum
    exact hquorum
  · exact congrArg BatchHeader.author hbatch
  · exact congrArg BatchHeader.round hbatch
  · exact congrArg BatchHeader.timestamp hbatch
  · exact congrArg BatchHeader.transmissionIds hbatch
  · exact congrArg BatchHeader.previousCertificateIds hbatch
  · obtain ⟨signer, hsigner, hverify⟩ :=
      (hsignatures x hx).resolve_left (IndexSet.not_mem_empty x)
    refine ⟨signer, hsigner, ?_⟩
    rw [BatchCertificate.id, hbatch]
    exact hverify

end Certified

variable [StorageService S] [Network] [Ledger V]

/-- A call of `propose_batch_lite` gets to storing the certificate of the node. -/
structure LiteStores (env : LiteEnv) (otherAcc : List Address) (p : Primary S V)
    (c : BatchCertificate) (transmissions : IndexMap TransmissionID Transmission)
    (q : Primary S V) : Prop where
  round_ne : p.currentRound ≠ 0
  ahead : p.proposeLock < p.currentRound
  fresh : p.storage.containsCertificateInRoundFrom p.currentRound p.account = false
  ready : p.isReady p.currentRound = .ok true
  certifies : ∃ committee given,
    p.ledger.getCommitteeLookbackForRound p.currentRound = .ok committee ∧
    Certifies env.certification p.account otherAcc p.currentRound committee
      (p.storage.getCertificatesForRound (p.currentRound - 1)) given c transmissions
  state : ∃ ready latestProposedBatchTimestamp, q =
    { p with
      ready, latestProposedBatchTimestamp, proposeLock := p.currentRound
      headers := p.headers ++ [⟨p.account, p.currentRound⟩] }

/-- Its transmissions are those drained from the ready queue. -/
structure LiteBuilds (env : LiteEnv) (otherAcc : List Address) (p : Primary S V)
    (c : BatchCertificate) (transmissions : IndexMap TransmissionID Transmission)
    (q : Primary S V) : Prop extends LiteStores env otherAcc p c transmissions q where
  drained : ∃ committee d,
    p.ledger.getCommitteeLookbackForRound p.currentRound = .ok committee ∧
    p.drain env.checks p.ready.numTransmissions ⟨p.ready, ∅, 0, 0⟩ = (.ok (), d) ∧
    Certifies env.certification p.account otherAcc p.currentRound committee
      (p.storage.getCertificatesForRound (p.currentRound - 1)) d.transmissions c transmissions

/-- What `propose_batch_lite` does after it stored the certificate, or failed to. -/
def afterLite (env : LiteEnv) (round : ℕ) (c : BatchCertificate)
    (transmissions : IndexMap TransmissionID Transmission)
    (r : Except Stop Unit × Primary S V) : Except Stop ℕ × Primary S V :=
  andThen
    (match
      andThen r fun _ p =>
      andThen (p.updateBft env.certification.toReceipt c) fun _ p =>
      andThen (p.tryIncrementToTheNextRoundLite env.roundSent env.roundSentAt (c.round + 1))
        fun _ p => (.ok (), p)
      with
    | (.error (.error e), p) => (.error (.error e), p.reinsertTransmissions transmissions)
    | r => r) fun _ p => (.ok round, p)

/-- A call of `fake_proposal` gets to storing the certificate of a validator. -/
def FakeStores (env : Certification) (primaryAcc : Address) (otherAcc : List Address) (round : ℕ)
    (p : Primary S V) (c : BatchCertificate)
    (transmissions : IndexMap TransmissionID Transmission) : Prop :=
  (∃ committee, p.ledger.getCommitteeLookbackForRound round = .ok committee ∧
    Certifies env primaryAcc otherAcc round committee
      (p.storage.getCertificatesForRound (round - 1)) ∅ c transmissions) ∧
  ∃ signature, ourSign env otherAcc p.account = .ok signature

omit [Network] in
lemma bft_reinsertTransmissions (p : Primary S V)
    (transmissions : IndexMap TransmissionID Transmission) :
    (p.reinsertTransmissions transmissions).bft = p.bft := by
  refine List.foldlRecOn (motive := fun q : Primary S V => q.bft = p.bft) _ _ rfl ?_
  intro q hq e _
  unfold reinsert
  split
  · exact hq
  · exact hq

lemma signAndComplete_cases (env : LiteEnv) (otherAcc : List Address) (round : ℕ)
    (committee : Committee) (previous : List BatchCertificate)
    (given : IndexMap TransmissionID Transmission) (p : Primary S V) :
    ((∃ stop, (p.signAndComplete env otherAcc true round committee previous given).1
        = .error stop) ∧
      (p.signAndComplete env otherAcc true round committee previous given).2.bft = p.bft) ∨
    ∃ c transmissions stamp,
      Certifies env.certification p.account otherAcc round committee previous given c
        transmissions ∧
      p.signAndComplete env otherAcc true round committee previous given
        = afterLite env round c transmissions
          (({ p with
              proposeLock := round, latestProposedBatchTimestamp := stamp
              headers := p.headers ++ [⟨p.account, round⟩] } :
            Primary S V).insertCertificate env.certification.toReceipt c transmissions) := by
  unfold signAndComplete
  dsimp only
  split
  · exact .inl ⟨⟨_, rfl⟩, bft_reinsertTransmissions _ _⟩
  · exact .inl ⟨⟨_, rfl⟩, rfl⟩
  next proposal hproposal =>
  rw [if_pos rfl]
  unfold completeBatchLite
  cases hsigned : addSignatures env.certification committee otherAcc proposal with
  | error stop => exact .inl ⟨⟨stop, rfl⟩, rfl⟩
  | ok signed =>
    dsimp only [attempt]
    unfold storeAndBroadcastCertificateLite
    cases hcertificate : signed.toCertificate committee with
    | error e => exact .inl ⟨⟨.error e, rfl⟩, bft_reinsertTransmissions _ _⟩
    | ok r =>
      obtain ⟨c, transmissions⟩ := r
      have htransmissions : transmissions = signed.transmissions :=
        (Proposal.toCertificate_spec hcertificate).2.2
      refine .inr ⟨c, transmissions, proposal.timestamp,
        ⟨proposal, signed, hproposal, hsigned, hcertificate⟩, ?_⟩
      rw [htransmissions]
      rfl

/-- **A call of `propose_batch_lite`** leaves the BFT alone, or sends it the round, or gets to
storing a certificate. -/
theorem proposeBatchLite_cases (env : LiteEnv) (otherAcc : List Address) (p : Primary S V) :
    ((∀ round, (p.proposeBatchLite env otherAcc true).1 = .ok round → round = 0) ∧
      ((p.proposeBatchLite env otherAcc true).2.bft = p.bft ∨
        (p.proposeBatchLite env otherAcc true).2
          = (p.sendPrimaryRoundToBft env.roundSent env.roundSentAt p.currentRound).2)) ∨
    ∃ c transmissions q, LiteBuilds env otherAcc p c transmissions q ∧
      p.proposeBatchLite env otherAcc true = afterLite env p.currentRound c transmissions
        (q.insertCertificate env.certification.toReceipt c transmissions) := by
  unfold proposeBatchLite
  dsimp only
  split
  · exact .inl ⟨fun _ h => (by cases h), .inl rfl⟩
  next hround =>
  split
  · exact .inl ⟨fun _ h => (by cases h; rfl), .inl rfl⟩
  next hlock =>
  split
  · exact .inl ⟨fun _ h => (by cases h; rfl), .inl rfl⟩
  split
  · split
    · left
      rcases p.sendPrimaryRoundToBft env.roundSent env.roundSentAt p.currentRound with ⟨_ | _, q⟩
      · exact ⟨fun _ h => (by cases h), .inr rfl⟩
      · exact ⟨fun _ h => (by cases h; rfl), .inr rfl⟩
    · exact .inl ⟨fun _ h => (by cases h; rfl), .inl rfl⟩
  next hfresh =>
  split
  · exact .inl ⟨fun _ h => (by cases h; rfl), .inl rfl⟩
  next hne =>
  cases hlookback : p.ledger.getCommitteeLookbackForRound p.currentRound with
  | error e => exact .inl ⟨fun _ h => (by cases h), .inl rfl⟩
  | ok committee =>
    dsimp only [attempt, orStop, Except.mapError]
    split
    · exact .inl ⟨fun _ h => (by cases h; rfl), .inl rfl⟩
    cases hready : p.isReady p.currentRound with
    | error e => exact .inl ⟨fun _ h => (by cases h), .inl rfl⟩
    | ok isReady =>
      dsimp only
      split
      · exact .inl ⟨fun _ h => (by cases h; rfl), .inl rfl⟩
      next htrue =>
      obtain rfl : isReady = true := by simpa using htrue
      unfold buildBatch
      rcases hdrain : p.drain env.checks p.ready.numTransmissions ⟨p.ready, ∅, 0, 0⟩
        with ⟨_ | _, d⟩
      · exact .inl ⟨fun _ h => (by cases h), .inl rfl⟩
      dsimp only [attempt]
      rcases signAndComplete_cases env otherAcc p.currentRound committee
        (p.storage.getCertificatesForRound (p.currentRound - 1)) d.transmissions
        { p with ready := d.ready } with ⟨⟨stop, hstop⟩, hbft⟩ | ⟨c, transmissions, stamp, hc, hres⟩
      · refine .inl ⟨fun _ h => ?_, .inl hbft⟩
        rw [hstop] at h
        cases h
      · exact .inr ⟨c, transmissions, _, ⟨⟨hround, by omega, Bool.eq_false_iff.mpr hfresh, hready,
          ⟨committee, _, hlookback, hc⟩, ⟨_, _, rfl⟩⟩, committee, d, hlookback, hdrain, hc⟩, hres⟩

/-- **A call of `fake_proposal`** stops, without asking for a header or after it, or gets to
storing a certificate. -/
theorem fakeProposal_cases (env : Certification) (primaryAcc : Address) (otherAcc : List Address)
    (round : ℕ) (p : Primary S V) :
    (∃ stop q, p.fakeProposal env primaryAcc otherAcc round = (.error stop, q) ∧
      (q = p ∨ q = p.askHeader primaryAcc round)) ∨
    ∃ c transmissions signature, FakeStores env primaryAcc otherAcc round p c transmissions ∧
      p.fakeProposal env primaryAcc otherAcc round
        = andThen ((p.askHeader primaryAcc round).insertCertificate env.toReceipt c transmissions)
          fun _ p => p.signProposal env primaryAcc round c.id signature c := by
  unfold fakeProposal
  cases hlookback : p.ledger.getCommitteeLookbackForRound round with
  | error e => exact .inl ⟨_, _, rfl, .inl rfl⟩
  | ok committee =>
  dsimp only [attempt, orStop, Except.mapError]
  cases hproposal : newProposal env primaryAcc round committee
      (p.storage.getCertificatesForRound (round - 1)) ∅ with
  | error stop => exact .inl ⟨_, _, rfl, .inr rfl⟩
  | ok proposal =>
  dsimp only
  cases hsigned : addSignatures env committee otherAcc proposal with
  | error stop => exact .inl ⟨_, _, rfl, .inr rfl⟩
  | ok signed =>
  dsimp only
  cases hsign : ourSign env otherAcc (p.askHeader primaryAcc round).account with
  | error e => exact .inl ⟨_, _, rfl, .inr rfl⟩
  | ok signature =>
  dsimp only
  cases hcertificate : signed.toCertificate committee with
  | error e => exact .inl ⟨_, _, rfl, .inr rfl⟩
  | ok r =>
    obtain ⟨c, transmissions⟩ := r
    have hid : signed.batchId = c.id := by
      obtain ⟨-, rfl, -⟩ := Proposal.toCertificate_spec hcertificate
      rfl
    refine .inr ⟨c, transmissions, signature,
      ⟨⟨committee, hlookback, proposal, signed, hproposal, hsigned, hcertificate⟩, _, hsign⟩, ?_⟩
    dsimp only
    rw [hid]

/-- A preorder that ignores the BFT, the signed proposals and the headers contains the empty
batches. -/
lemma fakeProposals_rel {R : Primary S V → Primary S V → Prop}
    (htrans : ∀ {p q r}, R p q → R q r → R p r) (hwork : ∀ {p q}, p.SameWork q → R p q)
    (hmarks : ∀ (p : Primary S V) signedProposals headers, R p { p with signedProposals, headers })
    (env : ProposeEnv) (allAcc : Fin 4 → Address) (round : ℕ) (vids : List (Fin 4))
    (p : Primary S V) : R p (p.fakeProposals env allAcc round vids).2 := by
  have hrefl : ∀ p, R p p := fun p => hwork (.refl p)
  refine fakes_of_fake hrefl htrans (fun env a others round p _ => ?_) env.meets_any _ _ _ _
  have hasked : R p (p.askHeader a round) := hmarks p p.signedProposals _
  rcases fakeProposal_cases env a others round p with
    ⟨stop, q, hres, rfl | rfl⟩ | ⟨c, t, signature, -, hres⟩ <;> rw [hres]
  · exact hrefl _
  · exact hasked
  refine htrans hasked (andThen_rel (R := R) htrans
    (hwork (sameWork_insertCertificate env.toReceipt c t _)) fun _ q _ => ?_)
  unfold signProposal
  split
  · exact hrefl q
  · exact htrans (hmarks q _ q.headers) (hwork (sameWork_updateBft env.toReceipt c _))

/-! ### What is left alone -/

/-- No batch is signed, and no header is asked for. -/
structure SameBatches (p q : Primary S V) : Prop where
  lock : q.proposeLock = p.proposeLock
  signed : q.signedProposals = p.signedProposals
  account : q.account = p.account
  headers : q.headers = p.headers

omit [StorageService S] [Network] [Ledger V] in
lemma SameBatches.refl (p : Primary S V) : p.SameBatches p := ⟨rfl, rfl, rfl, rfl⟩

omit [StorageService S] [Network] [Ledger V] in
lemma SameWork.sameBatches {p q : Primary S V} (h : p.SameWork q) : p.SameBatches q := by
  obtain ⟨bft, rfl, hbft⟩ := h
  exact ⟨rfl, rfl, hbft, rfl⟩

omit [StorageService S] [Network] [Ledger V] in
lemma SameBatches.trans {p q r : Primary S V} (h : p.SameBatches q) (h' : q.SameBatches r) :
    p.SameBatches r :=
  ⟨h'.lock.trans h.lock, h'.signed.trans h.signed, h'.account.trans h.account,
    h'.headers.trans h.headers⟩

omit [StorageService S] in
lemma sameBatches_walk : RoundWalk (S := S) (V := V) SameBatches where
  refl := .refl
  trans := .trans
  round sent now round p := (sameWork_round sent now round p).sameBatches
  increment _ _ := ⟨rfl, rfl, rfl, rfl⟩
  clear _ := ⟨rfl, rfl, rfl, rfl⟩

omit [Network] in
lemma sameBatches_reinsertTransmissions (p : Primary S V)
    (transmissions : IndexMap TransmissionID Transmission) :
    p.SameBatches (p.reinsertTransmissions transmissions) := by
  refine List.foldlRecOn (motive := fun q : Primary S V => p.SameBatches q) _ _ (.refl p) ?_
  intro q hq e _
  unfold reinsert
  split
  · exact hq
  · exact ⟨hq.lock, hq.signed, hq.account, hq.headers⟩

lemma sameBatches_afterLite (env : LiteEnv) (round : ℕ) (c : BatchCertificate)
    (transmissions : IndexMap TransmissionID Transmission)
    (r : Except Stop Unit × Primary S V) :
    r.2.SameBatches (afterLite env round c transmissions r).2 := by
  have hrest : r.2.SameBatches (andThen r fun _ p =>
      andThen (p.updateBft env.certification.toReceipt c) fun _ p =>
      andThen (p.tryIncrementToTheNextRoundLite env.roundSent env.roundSentAt (c.round + 1))
        fun _ p => (.ok (), p)).2 := by
    refine sameBatches_walk.andThen (.refl r.2) fun _ p => ?_
    refine sameBatches_walk.andThen (sameWork_updateBft _ c p).sameBatches fun _ q => ?_
    exact sameBatches_walk.andThen (sameBatches_walk.tryIncrementToTheNextRoundLite _ _ _ q)
      fun _ q => .refl q
  unfold afterLite
  refine sameBatches_walk.andThen ?_ fun _ q => .refl q
  split
  · next e q h =>
    rw [h] at hrest
    exact hrest.trans (sameBatches_reinsertTransmissions q transmissions)
  · exact hrest

/-- **A batch of the node that was proposed** is of the round that is locked then. It signs
nothing, and asks for one header. -/
theorem proposeBatchLite_ok {env : LiteEnv} {otherAcc : List Address} {p q : Primary S V}
    {round : ℕ} (hround : round ≠ 0)
    (h : p.proposeBatchLite env otherAcc true = (.ok round, q)) :
    round = p.currentRound ∧ p.proposeLock < round ∧ q.proposeLock = round ∧
      q.signedProposals = p.signedProposals ∧ q.account = p.account ∧
      q.headers = p.headers ++ [⟨p.account, round⟩] ∧
      ∃ c transmissions q₀, LiteStores env otherAcc p c transmissions q₀ := by
  rcases proposeBatchLite_cases env otherAcc p with ⟨hzero, -⟩ | ⟨c, transmissions, q₀, hq₀, hres⟩
  · rw [h] at hzero
    exact absurd (hzero round rfl) hround
  · have hsame := sameBatches_afterLite env p.currentRound c transmissions
      (q₀.insertCertificate env.certification.toReceipt c transmissions)
    rw [← hres, h] at hsame
    have hstored := (sameWork_insertCertificate env.certification.toReceipt c transmissions
      q₀).sameBatches
    obtain ⟨hlock, hsigned, haccount, hheaders⟩ := hstored.trans hsame
    obtain ⟨ready, stamp, hstate⟩ := hq₀.state
    have hvalue : round = p.currentRound := andThen_eq_ok (hres.symm.trans h)
    subst hstate
    rw [hvalue]
    exact ⟨rfl, hq₀.ahead, hlock, hsigned, haccount, hheaders, c, transmissions, _,
      hq₀.toLiteStores⟩

/-! ### The batch in flight -/

/-- No batch is in flight afterwards when none was before. -/
def KeepsIdle (p q : Primary S V) : Prop := p.proposedBatch = none → q.proposedBatch = none

omit [StorageService S] [Network] [Ledger V] in
lemma SameWork.keepsIdle {p q : Primary S V} (h : p.SameWork q) : p.KeepsIdle q := by
  obtain ⟨bft, rfl, -⟩ := h
  exact id

/-- **No task** leaves a batch in flight. -/
theorem keepsIdle_walk : BatchWalk (S := S) (V := V) .any (fun _ => True) KeepsIdle where
  refl _ := id
  trans h h' := h' ∘ h
  round sent now round p := (sameWork_round sent now round p).keepsIdle
  increment _ _ := id
  clear _ _ := rfl
  work _ _ _ := id
  lock _ _ _ := id
  store env c t p _ _ := (sameWork_store env c t p).keepsIdle
  fakes _ _ _ _ h := (fakeProposals_rel (R := KeepsIdle) (fun h h' => h' ∘ h)
    SameWork.keepsIdle (fun _ _ _ => id) _ _ _ _ _) ∘ h

end Primary

end AmareleoChain
