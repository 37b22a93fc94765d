import AmareleoChain.Node

/-!
What the primary does, in steps: rounds are incremented, the BFT is asked for the next round,
certificates are stored and sent to the BFT, and the validators' empty batches are proposed.

Whatever the primary meets, and wherever its tasks are aborted, its functions are sequences of
these steps, so a relation that contains the steps contains the functions. `Moves` is such a
relation, of the BFTs of two primaries.
-/

namespace AmareleoChain

open Relation

/-! ### What the primary meets -/

/-- What is asked of the receipts that certificates meet, of the signatures by an account, and of
the accounts of the validators. -/
structure Manner where
  receipt : Receipt → Prop
  sign : Address → Signature → Prop
  accounts : (Fin 4 → Address) → Prop

/-- Nothing is asked. -/
def Manner.any : Manner := ⟨fun _ => True, fun _ _ => True, fun _ => True⟩

/-- The certification meets what is asked. -/
structure Certification.Meets (env : Certification) (M : Manner) : Prop where
  receipt : M.receipt env.toReceipt
  sign : ∀ a s, env.sign a = .ok s → M.sign a s

structure ProposeEnv.Meets (env : ProposeEnv) (M : Manner) : Prop where
  accounts : ∀ allAcc, env.accounts = .ok allAcc → M.accounts allAcc
  lite : env.lite.certification.Meets M
  fake : ∀ i, (env.fake i).Meets M

structure LoadEnv.Meets (env : LoadEnv) (M : Manner) : Prop where
  propose : env.increment.propose.Meets M
  receipt : M.receipt env.receipt

lemma Certification.meets_any (env : Certification) : env.Meets .any :=
  ⟨trivial, fun _ _ _ => trivial⟩

lemma ProposeEnv.meets_any (env : ProposeEnv) : env.Meets .any :=
  ⟨fun _ _ => trivial, env.lite.certification.meets_any, fun i => (env.fake i).meets_any⟩

lemma LoadEnv.meets_any (env : LoadEnv) : env.Meets .any :=
  ⟨env.increment.propose.meets_any, trivial⟩

lemma andThen_assoc {σ α β γ : Type} (r : Except Stop α × σ)
    (next : α → σ → Except Stop β × σ) (next' : β → σ → Except Stop γ × σ) :
    andThen (andThen r next) next' = andThen r fun a s => andThen (next a s) next' := by
  obtain ⟨_ | _, s⟩ := r <;> rfl

lemma andThen_eq_ok {σ α β : Type} {r : Except Stop α × σ} {n m : β} {s : σ}
    (h : andThen r (fun _ s => (.ok n, s)) = (.ok m, s)) : m = n := by
  rcases r with ⟨_ | _, t⟩ <;> cases h
  rfl

@[simp] lemma orStop_eq_ok {α : Type} {r : Except String α} {a : α} :
    orStop r = .ok a ↔ r = .ok a := by
  cases r <;> simp [orStop, Except.mapError]

lemma attempt_rel {σ α β : Type} {R : σ → σ → Prop} {p : σ}
    (hrefl : R p p) {r : Except Stop α} {next : α → Except Stop β × σ}
    (hnext : ∀ a, r = .ok a → R p (next a).2) : R p (attempt r p next).2 := by
  cases r with
  | error stop => exact hrefl
  | ok a => exact hnext a rfl

lemma andThen_rel {σ α β : Type} {R : σ → σ → Prop}
    (htrans : ∀ {p q r}, R p q → R q r → R p r) {p : σ} {r : Except Stop α × σ}
    {next : α → σ → Except Stop β × σ}
    (h : R p r.2) (hnext : ∀ a q, r = (.ok a, q) → R q (next a q).2) :
    R p (andThen r next).2 := by
  obtain ⟨result, q⟩ := r
  cases result with
  | error stop => exact h
  | ok a => exact htrans h (hnext a q rfl)

/-! ### Certified batches -/

namespace Proposal

variable [Network] {proposal proposal' : Proposal} {committee : Committee}

lemma toCertificate_spec {c : BatchCertificate}
    {transmissions : IndexMap TransmissionID Transmission}
    (h : proposal.toCertificate committee = .ok (c, transmissions)) :
    proposal.isQuorumThresholdReached committee = true ∧
      c = ⟨proposal.batchHeader, proposal.signatures⟩ ∧ transmissions = proposal.transmissions := by
  unfold toCertificate at h
  split at h
  · cases h
  · next hquorum =>
    split at h
    · cases h
    · cases h
      exact ⟨not_not.mp hquorum, rfl, rfl⟩

lemma addSignature_spec {signer : Address} {signature : Signature}
    (h : proposal.addSignature signer signature committee = .ok proposal') :
    signer ∈ committee.members ∧ signer ∉ proposal.signers ∧
      Network.verify signature signer proposal.batchId = true ∧
      proposal' = { proposal with signatures := proposal.signatures.insert signature } := by
  unfold addSignature at h
  split at h
  · cases h
  · next hmember =>
    split at h
    · cases h
    · next hfresh =>
      split at h
      · cases h
      · next hverify =>
        cases h
        exact ⟨of_decide_eq_true (not_not.mp hmember), hfresh, not_not.mp hverify, rfl⟩

end Proposal

namespace Primary

section Certified

variable {env : Certification} {author : Address} {round : ℕ} {committee : Committee}
  {previous : List BatchCertificate} {transmissions : IndexMap TransmissionID Transmission}
  {proposal proposal' : Proposal}

lemma newProposal_spec
    (h : newProposal env author round committee previous transmissions = .ok proposal) :
    ∃ batchId signature, env.header = .ok (batchId, signature) ∧ author ∈ committee.members ∧
      proposal =
        { batchHeader :=
            { batchId, author, round
              timestamp := env.currentTimestamp
              committeeId := committee.id
              transmissionIds := transmissions.keySet
              previousCertificateIds := IndexSet.ofList (previous.map BatchCertificate.id)
              signature }
          transmissions
          signatures := ∅ } := by
  unfold newProposal at h
  split at h
  · cases h
  · next batchId signature hheader =>
    refine ⟨batchId, signature, hheader, ?_⟩
    dsimp only [Proposal.new] at h
    split at h
    · cases h
    · split at h
      · cases h
      · next hmember =>
        split at h
        · cases h
        · cases h
          exact ⟨of_decide_eq_true (not_not.mp hmember), rfl⟩

variable [Network]

lemma addSignatures_spec {signers : List Address}
    (h : addSignatures env committee signers proposal = .ok proposal') :
    proposal'.batchHeader = proposal.batchHeader ∧
      proposal'.transmissions = proposal.transmissions ∧
      ∀ x ∈ proposal'.signatures, x ∈ proposal.signatures ∨
        ∃ signer ∈ committee.members, Network.verify x signer proposal.batchId = true := by
  induction signers generalizing proposal with
  | nil =>
    cases h
    exact ⟨rfl, rfl, fun x hx => .inl hx⟩
  | cons signer signers ih =>
    rw [addSignatures] at h
    split at h
    · cases h
    · split at h
      · cases h
      · next signed hsigned =>
        obtain ⟨hmember, -, hverify, rfl⟩ := Proposal.addSignature_spec hsigned
        obtain ⟨hheader, htransmissions, hall⟩ := ih h
        refine ⟨hheader, htransmissions, fun x hx => ?_⟩
        rcases hall x hx with hx | hx
        · rcases IndexSet.mem_insert.mp hx with hx | rfl
          · exact .inl hx
          · exact .inr ⟨signer, hmember, hverify⟩
        · exact .inr hx

end Certified

end Primary

variable {S V : Type} [Network] [Ledger V]

namespace Primary

/-! ### Relations that contain the steps -/

/-- A preorder on primaries that contains what moves the rounds. -/
structure RoundWalk (R : Primary S V → Primary S V → Prop) : Prop where
  refl : ∀ p, R p p
  trans : ∀ {p q r}, R p q → R q r → R p r
  round : ∀ sent now round p, R p (p.sendPrimaryRoundToBft sent now round).2
  increment : ∀ round p, R p (p.incrementToNextRound round).2
  clear : ∀ p, R p { p with proposedBatch := none }

namespace RoundWalk

variable {R : Primary S V → Primary S V → Prop} {p : Primary S V}

lemma andThen {α β : Type} (W : RoundWalk R) {r : Except Stop α × Primary S V}
    {next : α → Primary S V → Except Stop β × Primary S V} (h : R p r.2)
    (hnext : ∀ (a : α) (q : Primary S V), R q (next a q).2) : R p (andThen r next).2 :=
  andThen_rel (R := R) W.trans h fun a q _ => hnext a q

lemma attempt {α β : Type} (W : RoundWalk R) {r : Except Stop α}
    {next : α → Except Stop β × Primary S V} (hnext : ∀ a, R p (next a).2) :
    R p (attempt r p next).2 :=
  attempt_rel (R := R) (W.refl p) fun a _ => hnext a

/-! #### Rounds and certificates -/

lemma fastForward (W : RoundWalk R) (nextRound n round : ℕ) (p : Primary S V) :
    R p (p.fastForward nextRound n round).2 := by
  induction n generalizing round p with
  | zero => exact W.refl p
  | succ n ih =>
    rw [Primary.fastForward]
    split
    · refine W.andThen (W.increment round p) fun round q => ?_
      exact W.trans (W.clear q) (ih round _)
    · exact W.refl p

lemma tryIncrementToTheNextRoundLite (W : RoundWalk R) (sent : Await) (now : ℤ) (nextRound : ℕ)
    (p : Primary S V) : R p (p.tryIncrementToTheNextRoundLite sent now nextRound).2 := by
  refine W.andThen ?_ fun _ q => ?_
  · split
    · exact W.fastForward _ _ _ _
    · exact W.refl p
  · dsimp only
    split
    · split
      · exact W.round _ _ _ _
      · exact W.andThen (W.increment _ _) fun _ q => W.refl q
    · exact W.refl q

end RoundWalk

variable [StorageService S]

/-- It also contains the steps of a batch of the node. The certificates that are stored are its
own, of the round that it locked, or satisfy `C`. -/
structure Walk (M : Manner) (C : BatchCertificate → Prop)
    (R : Primary S V → Primary S V → Prop) : Prop extends RoundWalk R where
  work : ∀ p ready latestProposedBatchTimestamp, R p { p with ready, latestProposedBatchTimestamp }
  lock : ∀ p round, p.proposeLock < round →
    R p ({ p with proposeLock := round }.askHeader p.account round)
  store : ∀ (env : Receipt) c transmissions p, M.receipt env →
    (c.author = p.account ∧ c.round = p.proposeLock) ∨ C c →
    R p (andThen (p.insertCertificate env c transmissions) fun _ p => p.updateBft env c).2

/-- It also contains the empty batches of the other validators, which follow a batch of the
node. -/
structure BatchWalk (M : Manner) (C : BatchCertificate → Prop)
    (R : Primary S V → Primary S V → Prop) : Prop extends Walk M C R where
  fakes : ∀ {env : ProposeEnv} {allAcc : Fin 4 → Address} {round : ℕ} {p q : Primary S V},
    env.Meets M → M.accounts allAcc → round ≠ 0 →
    p.proposeBatchLite env.lite [allAcc 1, allAcc 2, allAcc 3] true = (.ok round, q) →
    R p q → R p (q.fakeProposals env allAcc round [1, 2, 3]).2

namespace Walk

variable {M : Manner} {C : BatchCertificate → Prop} {R : Primary S V → Primary S V → Prop}
  {p : Primary S V}

/-! #### Batches -/

lemma reinsertTransmissions (W : Walk M C R) (p : Primary S V)
    (transmissions : IndexMap TransmissionID Transmission) :
    R p (p.reinsertTransmissions transmissions) := by
  refine List.foldlRecOn (motive := fun q : Primary S V => R p q) _ _ (W.refl p) ?_
  intro q hq e _
  unfold reinsert
  split
  · exact hq
  · exact W.trans hq (W.work q _ q.latestProposedBatchTimestamp)

lemma storeAndBroadcastCertificateLite (W : Walk M C R) {env : LiteEnv}
    (henv : env.certification.Meets M) {proposal : Proposal} (committee : Committee)
    (p : Primary S V) (hauthor : proposal.batchHeader.author = p.account)
    (hround : proposal.round = p.proposeLock) :
    R p (p.storeAndBroadcastCertificateLite env proposal committee).2 := by
  refine attempt_rel (R := R) (W.refl p) fun ⟨certificate, transmissions⟩ hcertificate => ?_
  have hown : certificate.author = p.account ∧ certificate.round = p.proposeLock := by
    rw [orStop_eq_ok] at hcertificate
    obtain ⟨-, rfl, -⟩ := Proposal.toCertificate_spec hcertificate
    exact ⟨hauthor, hround⟩
  have hstore := W.store env.certification.toReceipt certificate transmissions p henv.receipt
    (.inl hown)
  dsimp only
  rw [← andThen_assoc]
  refine W.andThen hstore fun _ q => ?_
  exact W.andThen (W.tryIncrementToTheNextRoundLite _ _ _ _) fun _ q => W.refl q

lemma completeBatchLite (W : Walk M C R) {env : LiteEnv} (henv : env.certification.Meets M)
    (otherAcc : List Address) {proposal : Proposal} (committee : Committee) (p : Primary S V)
    (hauthor : proposal.batchHeader.author = p.account) (hround : proposal.round = p.proposeLock) :
    R p (p.completeBatchLite env otherAcc proposal committee).2 := by
  refine attempt_rel (R := R) (W.refl p) fun signed hsigned => ?_
  obtain ⟨hheader, -, -⟩ := addSignatures_spec hsigned
  have hstored := W.storeAndBroadcastCertificateLite henv committee p
    ((congrArg BatchHeader.author hheader).trans hauthor)
    ((congrArg BatchHeader.round hheader).trans hround)
  split
  · next e q hq =>
    rw [hq] at hstored
    exact W.trans hstored (W.reinsertTransmissions _ _)
  · exact hstored

lemma signAndComplete (W : Walk M C R) {env : LiteEnv} (henv : env.certification.Meets M)
    (otherAcc : List Address) (complete : Bool) (round : ℕ) (committee : Committee)
    (previous : List BatchCertificate) (transmissions : IndexMap TransmissionID Transmission)
    (p : Primary S V) (hround : p.proposeLock < round) :
    R p (p.signAndComplete env otherAcc complete round committee previous transmissions).2 := by
  refine W.trans (W.lock p round hround) ?_
  unfold Primary.signAndComplete
  dsimp only
  split
  · exact W.reinsertTransmissions _ _
  · exact W.refl _
  · next proposal hproposal =>
    refine W.trans (W.work _ p.ready proposal.timestamp) ?_
    split
    · obtain ⟨batchId, signature, -, -, rfl⟩ := newProposal_spec hproposal
      refine W.andThen ?_ fun _ q => W.refl q
      exact W.completeBatchLite henv _ _ _ rfl rfl
    · exact W.refl _

/-- **A batch of the node** is proposed in steps. -/
theorem proposeBatchLite (W : Walk M C R) {env : LiteEnv} (henv : env.certification.Meets M)
    (otherAcc : List Address) (complete : Bool) (p : Primary S V) :
    R p (p.proposeBatchLite env otherAcc complete).2 := by
  unfold Primary.proposeBatchLite
  dsimp only
  split
  · exact W.refl p
  split
  · exact W.refl p
  next hlock =>
  split
  · exact W.refl p
  split
  · split
    · exact W.andThen (W.round _ _ _ _) fun _ q => W.refl q
    · exact W.refl p
  split
  · exact W.refl p
  next hne =>
  refine W.attempt fun _ => ?_
  split
  · exact W.refl p
  refine W.attempt fun _ => ?_
  split
  · exact W.refl p
  unfold buildBatch
  dsimp only
  refine W.trans (W.work p _ p.latestProposedBatchTimestamp) (W.attempt fun _ => ?_)
  exact W.signAndComplete henv _ _ _ _ _ _ _ (by dsimp only; omega)

end Walk

namespace BatchWalk

variable {M : Manner} {C : BatchCertificate → Prop} {R : Primary S V → Primary S V → Prop}

/-- **The batches of all validators** are proposed in steps. -/
theorem proposeBatch (W : BatchWalk M C R) {env : ProposeEnv} (henv : env.Meets M)
    (p : Primary S V) : R p (p.proposeBatch env true).2 := by
  refine attempt_rel (R := R) (W.refl p) fun allAcc haccounts => ?_
  have hlite := W.proposeBatchLite henv.lite [allAcc 1, allAcc 2, allAcc 3] true p
  cases hresult : p.proposeBatchLite env.lite [allAcc 1, allAcc 2, allAcc 3] true with
  | mk result q =>
    rw [hresult] at hlite
    cases result with
    | error stop => exact hlite
    | ok round =>
      dsimp only [andThen]
      split
      · exact hlite
      · next hround =>
        exact W.fakes henv (henv.accounts allAcc (orStop_eq_ok.mp haccounts))
          (fun h => hround (.inr h)) hresult hlite

/-! #### Tasks and the proposal cache -/

lemma tryIncrementToTheNextRound (W : BatchWalk M C R) {env : IncrementEnv}
    (henv : env.propose.Meets M) (nextRound : ℕ) (p : Primary S V) :
    R p (p.tryIncrementToTheNextRound env nextRound).2 := by
  refine W.andThen (W.tryIncrementToTheNextRoundLite _ _ _ _) fun isReady q => ?_
  split
  · exact W.proposeBatch henv q
  · exact W.refl q

/-- **The task that increments the round** moves in steps. -/
theorem incrementTask (W : BatchWalk M C R) {env : IncrementEnv} (henv : env.propose.Meets M)
    (p : Primary S V) : R p (p.incrementTask env) := by
  unfold Primary.incrementTask
  dsimp only
  split
  · exact W.refl p
  split
  · exact W.refl p
  split
  · exact W.tryIncrementToTheNextRound henv _ _
  · exact W.refl p

lemma syncWithBatchHeaderFromPeer (W : BatchWalk M C R) {env : LoadEnv} (henv : env.Meets M)
    (batchHeader : BatchHeader) (p : Primary S V) :
    R p (p.syncWithBatchHeaderFromPeer env batchHeader).2 := by
  unfold Primary.syncWithBatchHeaderFromPeer
  dsimp only
  split
  · exact W.refl p
  refine W.attempt fun _ => W.andThen ?_ fun _ q => ?_
  · split
    · exact W.tryIncrementToTheNextRound henv.propose _ _
    · exact W.refl p
  · split <;> exact W.refl q

lemma syncWithCertificateFromPeer (W : BatchWalk M C R) {env : LoadEnv} (henv : env.Meets M)
    {c : BatchCertificate} (hc : C c) (p : Primary S V) :
    R p (p.syncWithCertificateFromPeer env c).2 := by
  unfold Primary.syncWithCertificateFromPeer
  split
  · exact W.refl p
  split
  · exact W.refl p
  refine W.andThen (W.syncWithBatchHeaderFromPeer henv _ _) fun _ q => ?_
  split
  · exact W.refl q
  · exact W.store env.receipt c _ q henv.receipt (.inr hc)

/-- **The cached certificates** are loaded in steps. -/
theorem loadCertificates (W : BatchWalk M C R) {envs : ℕ → LoadEnv}
    (henvs : ∀ i, (envs i).Meets M) (i : ℕ) {cs : List BatchCertificate} (hcs : ∀ c ∈ cs, C c)
    (p : Primary S V) :
    R p (p.loadCertificates envs i cs).2 := by
  induction cs generalizing i p with
  | nil => exact W.refl p
  | cons c cs ih =>
    rw [List.forall_mem_cons] at hcs
    have hone := W.syncWithCertificateFromPeer (henvs i) hcs.1 p
    unfold Primary.loadCertificates
    split <;> next h => rw [h] at hone; first | exact W.trans hone (ih _ hcs.2 _) | exact hone

end BatchWalk

lemma fakes_of_fake {M : Manner} {R : Primary S V → Primary S V → Prop} (hrefl : ∀ p, R p p)
    (htrans : ∀ {p q r}, R p q → R q r → R p r)
    (hfake : ∀ (env : Certification) a others round p, env.Meets M →
      R p (p.fakeProposal env a others round).2) {env : ProposeEnv} (henv : env.Meets M)
    (allAcc : Fin 4 → Address) (round : ℕ) (vids : List (Fin 4)) (p : Primary S V) :
    R p (p.fakeProposals env allAcc round vids).2 := by
  induction vids generalizing p with
  | nil => exact hrefl p
  | cons vid vids ih =>
    have hone := hfake (env.fake vid) (allAcc vid)
      ((List.ofFn allAcc).filter (· ≠ allAcc vid)) round p (henv.fake vid)
    rw [fakeProposals]
    cases h : p.fakeProposal (env.fake vid) (allAcc vid)
        ((List.ofFn allAcc).filter (· ≠ allAcc vid)) round with
    | mk result q =>
      rw [h] at hone
      cases result with
      | error stop => exact hone
      | ok u => exact htrans hone (ih q)

end Primary

/-! ### The steps of the BFT -/

variable [StorageService S]

namespace BFT

/-- One step of the primary on the BFT; `G` holds of the calls of `update_dag`. -/
inductive Step (G : BFT S V → BatchCertificate → Prop) : BFT S V → BFT S V → Prop
  | insertCertificate (b : BFT S V) (now : ℤ) (c : BatchCertificate)
      (transmissions : IndexMap TransmissionID Transmission) :
      Step G b { b with
        storage := (b.storage.insertCertificate b.ledger now c transmissions ∅).2 }
  | incrementToNextRound (b : BFT S V) (round : ℕ) :
      Step G b { b with storage := (b.storage.incrementToNextRound b.ledger round).2 }
  | updateToNextRound (b : BFT S V) (now : ℤ) (round : ℕ) :
      Step G b (b.updateToNextRound now round).2
  | updateDag (b : BFT S V) (c : BatchCertificate) : G b c → Step G b (b.updateDag true false c).2

end BFT

namespace Primary

/-- The BFT of the second primary is reached from that of the first. -/
def Moves (p p' : Primary S V) : Prop :=
  ReflTransGen (BFT.Step fun _ _ => True) p.bft p'.bft

variable {p p' p'' : Primary S V}

lemma Moves.of_eq (h : p'.bft = p.bft) : p.Moves p' := by
  rw [Moves, h]

lemma Moves.trans (h : p.Moves p') (h' : p'.Moves p'') : p.Moves p'' := ReflTransGen.trans h h'

lemma Moves.of_bft (h : p.Moves p'') (hbft : p.bft = p'.bft) : p'.Moves p'' :=
  Moves.trans (.of_eq hbft) h

lemma Moves.step (h : BFT.Step (fun _ _ => True) p.bft p'.bft) : p.Moves p' := .single h

lemma moves_run {α : Type} (a : Await) {step : Primary S V → Except Stop α × Primary S V}
    (h : p.Moves (step p).2) : p.Moves (a.run step p).2 := by
  cases a with
  | done => exact h
  | stopped stop effect =>
    cases effect
    · exact .of_eq rfl
    · exact h

lemma moves_updateBft (env : Receipt) (c : BatchCertificate) (p : Primary S V) :
    p.Moves (p.updateBft env c).2 := by
  unfold updateBft
  split
  · refine moves_run env.sent ?_
    have hstep := BFT.Step.updateDag (G := fun _ _ => True) p.bft c trivial
    rcases h : p.bft.updateDag true false c with ⟨_ | _, bft⟩ <;>
      exact .step (by rw [h] at hstep; exact hstep)
  · exact .of_eq rfl

lemma moves_insertCertificate (env : Receipt) (c : BatchCertificate)
    (transmissions : IndexMap TransmissionID Transmission) (p : Primary S V) :
    p.Moves (p.insertCertificate env c transmissions).2 :=
  moves_run env.inserted (.step (.insertCertificate p.bft env.insertedAt c transmissions))

lemma moves_fakeProposal (env : Certification) (primaryAcc : Address) (otherAcc : List Address)
    (round : ℕ) (p : Primary S V) :
    p.Moves (p.fakeProposal env primaryAcc otherAcc round).2 := by
  unfold fakeProposal
  refine attempt_rel (R := Moves) (.of_eq rfl) fun _ _ => ?_
  dsimp only
  refine Moves.of_bft (p := p.askHeader primaryAcc round) ?_ rfl
  iterate 4 refine attempt_rel (R := Moves) (.of_eq rfl) fun _ _ => ?_
  refine andThen_rel (R := Moves) Moves.trans (moves_insertCertificate _ _ _ _) fun _ q _ => ?_
  unfold signProposal
  split
  · exact .of_eq rfl
  · exact .of_bft (moves_updateBft _ _ _) rfl

/-- **The primary moves its BFT in steps.** -/
theorem moves_walk : BatchWalk (S := S) (V := V) .any (fun _ => True) Moves where
  refl _ := .of_eq rfl
  trans := Moves.trans
  round sent now round p := moves_run sent (.step (.updateToNextRound p.bft now round))
  increment round p := .step (.incrementToNextRound p.bft round)
  clear _ := .of_eq rfl
  work _ _ _ := .of_eq rfl
  lock _ _ _ := .of_eq rfl
  store env c transmissions p _ _ :=
    andThen_rel (R := Moves) Moves.trans (moves_insertCertificate env c transmissions p)
      fun _ q _ => moves_updateBft env c q
  fakes henv _ _ _ h := h.trans <| fakes_of_fake (R := Moves) (fun _ => .of_eq rfl) Moves.trans
    (fun env a others round p _ => moves_fakeProposal env a others round p) henv _ _ _ _

lemma moves_proposeBatch (env : ProposeEnv) (p : Primary S V) :
    p.Moves (p.proposeBatch env true).2 := moves_walk.proposeBatch env.meets_any p

lemma moves_incrementTask (env : IncrementEnv) (p : Primary S V) :
    p.Moves (p.incrementTask env) := moves_walk.incrementTask env.propose.meets_any p

/-- **The proposal cache** is loaded in steps. -/
theorem moves_loadProposalCache (envs : ℕ → LoadEnv) (cache : Option ProposalCache)
    (p : Primary S V) : p.Moves (p.loadProposalCache envs cache).2 := by
  unfold loadProposalCache
  split
  · exact .of_eq rfl
  split
  · exact .of_bft (moves_walk.loadCertificates (fun i => (envs i).meets_any) 0
      (fun _ _ => trivial) _) rfl
  · exact .of_eq rfl

/-! ### What the steps leave alone -/

/-- Only the BFT changes, and not its account. -/
def SameWork (p p' : Primary S V) : Prop :=
  ∃ bft, p' = { p with bft } ∧ bft.account = p.account

omit [StorageService S] [Network] [Ledger V] in
lemma SameWork.refl (p : Primary S V) : p.SameWork p := ⟨p.bft, rfl, rfl⟩

omit [StorageService S] [Network] [Ledger V] in
lemma SameWork.trans (h : p.SameWork p') (h' : p'.SameWork p'') : p.SameWork p'' := by
  obtain ⟨bft, rfl, hbft⟩ := h
  obtain ⟨bft', rfl, hbft'⟩ := h'
  exact ⟨bft', rfl, hbft'.trans hbft⟩

omit [StorageService S] [Network] [Ledger V] in
lemma sameWork_run {α : Type} (a : Await) {step : Primary S V → Except Stop α × Primary S V}
    (h : p.SameWork (step p).2) : p.SameWork (a.run step p).2 := by
  cases a with
  | done => exact h
  | stopped stop effect =>
    cases effect
    · exact .refl p
    · exact h

omit [StorageService S] in
lemma sameWork_round (sent : Await) (now : ℤ) (round : ℕ) (p : Primary S V) :
    p.SameWork (p.sendPrimaryRoundToBft sent now round).2 := by
  refine sameWork_run sent ?_
  obtain ⟨x, leader, timer, storage, -, h⟩ := p.bft.updateToNextRound_keeps now round
  exact ⟨_, rfl, by rw [h]; rfl⟩

lemma sameWork_insertCertificate (env : Receipt) (c : BatchCertificate)
    (transmissions : IndexMap TransmissionID Transmission) (p : Primary S V) :
    p.SameWork (p.insertCertificate env c transmissions).2 :=
  sameWork_run env.inserted ⟨_, rfl, rfl⟩

lemma sameWork_updateBft (env : Receipt) (c : BatchCertificate) (p : Primary S V) :
    p.SameWork (p.updateBft env c).2 := by
  unfold updateBft
  split
  · refine sameWork_run env.sent ?_
    obtain ⟨dag, ledger, committed, storage, -, h⟩ := p.bft.updateDag_keeps true false c
    rcases hcall : p.bft.updateDag true false c with ⟨_ | _, bft⟩ <;>
      exact ⟨bft, rfl, by rw [show bft = _ from (congrArg Prod.snd hcall).symm.trans h]⟩
  · exact .refl p

lemma sameWork_store (env : Receipt) (c : BatchCertificate)
    (transmissions : IndexMap TransmissionID Transmission) (p : Primary S V) :
    p.SameWork
      (andThen (p.insertCertificate env c transmissions) fun _ p => p.updateBft env c).2 :=
  andThen_rel (R := SameWork) SameWork.trans (sameWork_insertCertificate env c transmissions p)
    fun _ q _ => sameWork_updateBft env c q

end Primary

end AmareleoChain
