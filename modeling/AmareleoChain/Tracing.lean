import AmareleoChain.Consensus
import AmareleoChain.Filing
import AmareleoChain.Lives

/-!
A node files what it holds.

The worker computes the checksums of what it is sent. From its queue the transmissions get into
batches, from there into the storage or back, and from the storage to consensus.
-/

namespace AmareleoChain

section Tracing

variable {S V : Type} [Ledger V] [Network] [StorageService S] [HoldingService S]

omit [Ledger V] [Network] [StorageService S] [HoldingService S] in
lemma of_andThen_ok {σ α β : Type} {r : Except Stop α × σ} {next : α → σ → Except Stop β × σ}
    {b : β} {s' : σ} (h : andThen r next = (.ok b, s')) :
    ∃ a s, r = (.ok a, s) ∧ next a s = (.ok b, s') := by
  obtain ⟨stop | a, s⟩ := r
  · cases h
  · exact ⟨a, s, rfl, h⟩

namespace Primary

variable {o : Origins V} {p q : Primary S V}

/-- What a node holds: traced transmissions in its storage, filed ones in its queue, and traced
blocks in its chain. No batch is in flight. -/
structure Filing (o : Origins V) (p : Primary S V) : Prop where
  traces : p.bft.Traces o
  ready : ∀ e ∈ p.ready.transmissions, Filed e
  valid : p.ready.Valid
  idle : p.proposedBatch = none

/-- What is kept from one primary to another. -/
def KeepsFiling (o : Origins V) (p q : Primary S V) : Prop := p.Filing o → q.Filing o

lemma KeepsFiling.trans {r : Primary S V} (h : KeepsFiling o p q) (h' : KeepsFiling o q r) :
    KeepsFiling o p r := h' ∘ h

lemma Filing.withBft (h : p.Filing o) {bft : BFT S V} (hbft : bft.Traces o) :
    ({ p with bft } : Primary S V).Filing o := ⟨hbft, h.ready, h.valid, h.idle⟩

lemma keepsFiling_run {α : Type} (a : Await) {step : Primary S V → Except Stop α × Primary S V}
    (h : KeepsFiling o p (step p).2) : KeepsFiling o p (a.run step p).2 := by
  cases a with
  | done => exact h
  | stopped stop effect =>
    cases effect
    · exact id
    · exact h

/-- **What moves the rounds.** -/
theorem keepsFiling_walk : RoundWalk (S := S) (V := V) (KeepsFiling o) where
  refl _ := id
  trans := KeepsFiling.trans
  round sent now round _ :=
    keepsFiling_run sent fun h => h.withBft (h.traces.updateToNextRound now round)
  increment round _ := fun h => h.withBft (h.traces.incrementToNextRound round)
  clear _ h := ⟨h.traces, h.ready, h.valid, rfl⟩

/-! #### Certificates -/

lemma keepsFiling_insertCertificate (env : Receipt) (certificate : BatchCertificate)
    {transmissions : IndexMap TransmissionID Transmission}
    (htraced : ∀ e ∈ transmissions.entries, o.Traced e) (p : Primary S V) :
    KeepsFiling o p (p.insertCertificate env certificate transmissions).2 :=
  keepsFiling_run env.inserted fun h =>
    h.withBft (h.traces.same (h.traces.storage.insertCertificate htraced ∅) rfl rfl)

/-! #### The queue -/

lemma Filing.insert (h : p.Filing o) {id : TransmissionID} {transmission : Transmission}
    (hfiled : Filed (id, transmission)) :
    ({ p with ready := (p.ready.insert id transmission).2 } : Primary S V).Filing o := by
  refine ⟨h.traces, fun e he => ?_, h.valid.insert id transmission, h.idle⟩
  cases hcontains : p.ready.contains id with
  | true =>
    rw [Ready.insert_of_contains hcontains] at he
    exact h.ready e he
  | false =>
    rw [Ready.transmissions_insert hcontains] at he
    rcases List.mem_append.mp he with hold | hnew
    · exact h.ready e hold
    · rw [List.mem_singleton.mp hnew]
      exact hfiled

lemma keepsFiling_reinsertTransmissions {transmissions : IndexMap TransmissionID Transmission}
    (hfiled : ∀ e ∈ transmissions.entries, Filed e) (p : Primary S V) :
    KeepsFiling o p (p.reinsertTransmissions transmissions) := by
  intro h
  refine List.foldlRecOn (motive := fun q : Primary S V => q.Filing o) _ _ h fun q hq e he => ?_
  unfold reinsert
  split
  · exact hq
  · exact hq.insert (hfiled e he)

/-- What the drain has taken, and what it leaves in the queue, are filed. -/
structure FiledDraining (d : Draining) : Prop where
  ready : ∀ e ∈ d.ready.transmissions, Filed e
  valid : d.ready.Valid
  transmissions : ∀ e ∈ d.transmissions.entries, Filed e

omit [HoldingService S] in
/-- **The drain.** -/
lemma FiledDraining.drain {d : Draining} (h : FiledDraining d) (p : Primary S V)
    (checks : TransmissionID → Checks) (n : ℕ) : FiledDraining (p.drain checks n d).2 := by
  induction n generalizing d with
  | zero => exact h
  | succ n ih =>
    rw [Primary.drain]
    cases hfront : d.ready.transmissions with
    | nil =>
      rw [Ready.removeFront_nil hfront]
      exact h
    | cons e rest =>
      obtain ⟨id, transmission⟩ := e
      obtain ⟨ready, hremove, rfl, hvalid⟩ := h.valid.removeFront_cons hfront
      have hready := h.ready
      rw [hfront, List.forall_mem_cons] at hready
      have htaken : FiledDraining { d with ready } := ⟨hready.2, hvalid, h.transmissions⟩
      rw [hremove]
      dsimp only
      split
      · exact htaken
      split
      · exact htaken
      split
      · exact ih htaken
      · refine ih ⟨hready.2, hvalid, fun e he => ?_⟩
        rcases IndexMap.mem_of_mem_insert he with hold | rfl
        · exact h.transmissions e hold
        · exact hready.1
      · -- back to the front
        refine ⟨fun e he => ?_, hvalid.insertFront id transmission, h.transmissions⟩
        cases hcontains : ready.contains id with
        | true =>
          dsimp only at he
          rw [Ready.insertFront, if_pos hcontains] at he
          exact hready.2 e he
        | false =>
          dsimp only at he
          rw [Ready.transmissions_insertFront hcontains] at he
          rcases List.mem_cons.mp he with rfl | hold
          · exact hready.1
          · exact hready.2 e hold
      · exact htaken

/-! #### Batches -/

variable [LawfulLedger V] (hV : ContainsAnswers V)

include hV

lemma keepsFiling_updateBft (env : Receipt) (certificate : BatchCertificate) (p : Primary S V) :
    KeepsFiling o p (p.updateBft env certificate).2 := by
  rcases updateBft_cases env certificate p with hres | hres <;> rw [hres]
  · exact id
  · exact fun h => h.withBft (h.traces.updateDag hV true certificate)

/-- **A certificate is stored** with traced transmissions, and sent to the BFT. -/
lemma keepsFiling_store (env : Receipt) (certificate : BatchCertificate)
    {transmissions : IndexMap TransmissionID Transmission}
    (htraced : ∀ e ∈ transmissions.entries, o.Traced e) (p : Primary S V) :
    KeepsFiling o p (andThen (p.insertCertificate env certificate transmissions) fun _ p =>
      p.updateBft env certificate).2 :=
  andThen_rel (R := KeepsFiling o) KeepsFiling.trans
    (keepsFiling_insertCertificate env certificate htraced p)
    fun _ q _ => keepsFiling_updateBft hV env certificate q

lemma keepsFiling_storeAndBroadcast (env : LiteEnv) {proposal : Proposal}
    (hfiled : ∀ e ∈ proposal.transmissions.entries, Filed e) (committee : Committee)
    (p : Primary S V) :
    KeepsFiling o p (p.storeAndBroadcastCertificateLite env proposal committee).2 := by
  refine attempt_rel (R := KeepsFiling o) id fun ⟨certificate, transmissions⟩ hcertificate => ?_
  rw [orStop_eq_ok] at hcertificate
  obtain ⟨-, -, rfl⟩ := Proposal.toCertificate_spec hcertificate
  dsimp only
  rw [← andThen_assoc]
  have htraced : ∀ e ∈ proposal.transmissions.entries, o.Traced e := fun e he =>
    .inl (hfiled e he)
  refine keepsFiling_walk.andThen
    (keepsFiling_store hV env.certification.toReceipt certificate htraced p) fun _ q => ?_
  exact keepsFiling_walk.andThen (keepsFiling_walk.tryIncrementToTheNextRoundLite _ _ _ _)
    fun _ q => keepsFiling_walk.refl q

lemma keepsFiling_completeBatchLite (env : LiteEnv) (otherAcc : List Address)
    {proposal : Proposal} (hfiled : ∀ e ∈ proposal.transmissions.entries, Filed e)
    (committee : Committee) (p : Primary S V) :
    KeepsFiling o p (p.completeBatchLite env otherAcc proposal committee).2 := by
  refine attempt_rel (R := KeepsFiling o) id fun signed hsigned => ?_
  obtain ⟨-, htransmissions, -⟩ := addSignatures_spec hsigned
  have hfiled' : ∀ e ∈ signed.transmissions.entries, Filed e := htransmissions ▸ hfiled
  have hstored := keepsFiling_storeAndBroadcast (o := o) hV env hfiled' committee p
  split
  · next e q hq =>
    rw [hq] at hstored
    exact hstored.trans (keepsFiling_reinsertTransmissions hfiled' q)
  · exact hstored

lemma keepsFiling_signAndComplete (env : LiteEnv) (otherAcc : List Address) (complete : Bool)
    (round : ℕ) (committee : Committee) (previous : List BatchCertificate)
    {transmissions : IndexMap TransmissionID Transmission}
    (hfiled : ∀ e ∈ transmissions.entries, Filed e) (p : Primary S V) :
    KeepsFiling o p (p.signAndComplete env otherAcc complete round committee previous
      transmissions).2 := by
  intro h
  have hlocked : ({ p with proposeLock := round }.askHeader p.account round).Filing o :=
    ⟨h.traces, h.ready, h.valid, h.idle⟩
  unfold signAndComplete
  dsimp only
  split
  · exact keepsFiling_reinsertTransmissions hfiled _ hlocked
  · exact hlocked
  · next proposal hproposal =>
    have hstamped : ({ p with
        proposeLock := round, latestProposedBatchTimestamp := proposal.timestamp
        headers := p.headers ++ [⟨p.account, round⟩] } :
          Primary S V).Filing o := ⟨h.traces, h.ready, h.valid, h.idle⟩
    obtain ⟨batchId, signature, -, -, rfl⟩ := newProposal_spec hproposal
    split
    · refine keepsFiling_walk.andThen ?_ (fun _ q => keepsFiling_walk.refl q) hstamped
      exact keepsFiling_completeBatchLite hV env otherAcc hfiled committee _
    · exact hstamped

/-- **A batch of the node.** -/
theorem keepsFiling_proposeBatchLite (env : LiteEnv) (otherAcc : List Address) (complete : Bool)
    (p : Primary S V) : KeepsFiling o p (p.proposeBatchLite env otherAcc complete).2 := by
  unfold proposeBatchLite
  dsimp only
  split
  · exact id
  split
  · exact id
  split
  · exact id
  split
  · split
    · exact keepsFiling_walk.andThen (keepsFiling_walk.round _ _ _ _)
        fun _ q => keepsFiling_walk.refl q
    · exact id
  split
  · exact id
  refine keepsFiling_walk.attempt fun _ => ?_
  split
  · exact id
  refine keepsFiling_walk.attempt fun _ => ?_
  split
  · exact id
  intro h
  have hdrained : FiledDraining (p.drain env.checks p.ready.numTransmissions
      ⟨p.ready, ∅, 0, 0⟩).2 :=
    FiledDraining.drain ⟨h.ready, h.valid, fun _ he => absurd he List.not_mem_nil⟩ p env.checks _
  unfold buildBatch
  dsimp only
  refine keepsFiling_walk.attempt (fun _ => ?_)
    ⟨h.traces, hdrained.ready, hdrained.valid, h.idle⟩
  exact keepsFiling_signAndComplete hV env otherAcc complete _ _ _ hdrained.transmissions _

lemma keepsFiling_fakeProposal (env : Certification) (primaryAcc : Address)
    (otherAcc : List Address) (round : ℕ) (p : Primary S V) :
    KeepsFiling o p (p.fakeProposal env primaryAcc otherAcc round).2 := by
  refine keepsFiling_walk.attempt fun committee => ?_
  dsimp only
  refine fun h => ?_
  have hasked : (p.askHeader primaryAcc round).Filing o := ⟨h.traces, h.ready, h.valid, h.idle⟩
  revert hasked
  refine attempt_rel (R := KeepsFiling o) id fun proposal hproposal => ?_
  refine attempt_rel (R := KeepsFiling o) id fun signed hsigned => ?_
  refine keepsFiling_walk.attempt fun signature => ?_
  refine attempt_rel (R := KeepsFiling o) id fun ⟨certificate, transmissions⟩ hcertificate => ?_
  obtain ⟨batchId, s, -, -, rfl⟩ := newProposal_spec hproposal
  obtain ⟨-, hsame, -⟩ := addSignatures_spec hsigned
  rw [orStop_eq_ok] at hcertificate
  obtain ⟨-, -, rfl⟩ := Proposal.toCertificate_spec hcertificate
  have hnone : ∀ e ∈ signed.transmissions.entries, o.Traced e := by
    rw [hsame]
    exact fun _ he => absurd he List.not_mem_nil
  refine keepsFiling_walk.andThen (keepsFiling_insertCertificate _ _ hnone _) fun _ q => ?_
  unfold signProposal
  split
  · exact id
  · exact fun h => keepsFiling_updateBft hV _ _ _ ⟨h.traces, h.ready, h.valid, h.idle⟩

/-- **The batches of all validators.** -/
theorem keepsFiling_proposeBatch (env : ProposeEnv) (complete : Bool) (p : Primary S V) :
    KeepsFiling o p (p.proposeBatch env complete).2 := by
  refine keepsFiling_walk.attempt fun allAcc => ?_
  refine keepsFiling_walk.andThen (keepsFiling_proposeBatchLite hV _ _ _ p) fun round q => ?_
  split
  · exact id
  · exact fakes_of_fake (M := .any) (R := KeepsFiling o) keepsFiling_walk.refl KeepsFiling.trans
      (fun env a others round p _ => keepsFiling_fakeProposal hV env a others round p) env.meets_any
      allAcc round [1, 2, 3] q

/-! #### Tasks and the proposal cache -/

lemma keepsFiling_tryIncrement (env : IncrementEnv) (nextRound : ℕ) (p : Primary S V) :
    KeepsFiling o p (p.tryIncrementToTheNextRound env nextRound).2 := by
  refine keepsFiling_walk.andThen (keepsFiling_walk.tryIncrementToTheNextRoundLite _ _ _ _)
    fun isReady q => ?_
  split
  · exact keepsFiling_proposeBatch hV env.propose true q
  · exact id

lemma keepsFiling_incrementTask (env : IncrementEnv) (p : Primary S V) :
    KeepsFiling o p (p.incrementTask env) := by
  unfold incrementTask
  dsimp only
  split
  · exact id
  split
  · exact id
  split
  · exact keepsFiling_tryIncrement hV env _ p
  · exact id

omit hV [LawfulLedger V] in
/-- **What is fetched** for a cached certificate is what the node holds. -/
lemma Filing.fetched (h : p.Filing o) {header : BatchHeader}
    {transmissions : IndexMap TransmissionID Transmission}
    (hfetched : p.fetchMissingTransmissions header = .ok transmissions) :
    ∀ e ∈ transmissions.entries, o.Traced e := by
  have hheld : ∀ {id transmission}, p.getTransmission id = some transmission →
      o.Traced (id, transmission) := by
    intro id transmission hget
    unfold getTransmission at hget
    split at hget
    · next found hready =>
      cases hget
      exact .inl (h.ready _ (h.valid.get_eq_some_iff.mp hready))
    split at hget
    · next found hstored =>
      cases hget
      exact h.traces.storage.get hstored
    · rw [h.idle] at hget
      cases hget
  unfold fetchMissingTransmissions at hfetched
  split at hfetched
  · cases hfetched
    exact fun _ he => absurd he List.not_mem_nil
  split at hfetched
  · cases hfetched
    exact fun _ he => absurd he List.not_mem_nil
  have hstart : ∀ e ∈ (∅ : IndexMap TransmissionID Transmission).entries, o.Traced e :=
    fun _ he => absurd he List.not_mem_nil
  generalize header.transmissionIds.toList = ids at hfetched
  generalize (∅ : IndexMap TransmissionID Transmission) = fetched at hfetched hstart
  induction ids generalizing fetched with
  | nil =>
    cases hfetched
    exact hstart
  | cons id ids ih =>
    rw [List.foldlM_cons] at hfetched
    split at hfetched
    · exact ih _ hfetched hstart
    split at hfetched
    · next transmission hget =>
      refine ih _ hfetched fun e he => ?_
      rcases IndexMap.mem_of_mem_insert he with hold | rfl
      · exact hstart e hold
      · exact hheld hget
    · cases hfetched

omit hV [HoldingService S] [LawfulLedger V] in
/-- What the sync of a header returns was fetched at its end. -/
lemma fetched_of_sync {env : LoadEnv} {header : BatchHeader}
    {transmissions : IndexMap TransmissionID Transmission}
    (h : p.syncWithBatchHeaderFromPeer env header = (.ok transmissions, q)) :
    q.fetchMissingTransmissions header = .ok transmissions := by
  unfold syncWithBatchHeaderFromPeer at h
  dsimp only at h
  split at h
  · cases h
  cases hlookback : p.ledger.getCommitteeLookbackForRound header.round with
  | error e =>
    rw [hlookback] at h
    cases h
  | ok committee =>
    rw [hlookback] at h
    obtain ⟨_, q', -, hrest⟩ := of_andThen_ok h
    split at hrest
    · cases hrest
    · next hfetched =>
      cases hrest
      exact hfetched

lemma keepsFiling_syncWithCertificate (env : LoadEnv) (certificate : BatchCertificate)
    (p : Primary S V) : KeepsFiling o p (p.syncWithCertificateFromPeer env certificate).2 := by
  unfold syncWithCertificateFromPeer
  split
  · exact id
  split
  · exact id
  intro h
  have hheader : KeepsFiling o p (p.syncWithBatchHeaderFromPeer env certificate.batchHeader).2 := by
    unfold syncWithBatchHeaderFromPeer
    dsimp only
    split
    · exact id
    refine keepsFiling_walk.attempt fun _ => keepsFiling_walk.andThen ?_ fun _ q => ?_
    · split
      · exact keepsFiling_tryIncrement hV env.increment _ p
      · exact id
    · split <;> exact id
  rcases hsynced : p.syncWithBatchHeaderFromPeer env certificate.batchHeader
    with ⟨stop | transmissions, q⟩ <;> rw [hsynced] at hheader
  · exact hheader h
  dsimp only [andThen]
  split
  · exact hheader h
  · exact keepsFiling_store hV env.receipt certificate
      ((hheader h).fetched (fetched_of_sync hsynced)) q (hheader h)

/-- **The cached certificates.** -/
lemma keepsFiling_loadCertificates (envs : ℕ → LoadEnv) (i : ℕ) (cs : List BatchCertificate)
    (p : Primary S V) : KeepsFiling o p (p.loadCertificates envs i cs).2 := by
  induction cs generalizing i p with
  | nil => exact id
  | cons c cs ih =>
    have hone := keepsFiling_syncWithCertificate (o := o) hV (envs i) c p
    rw [loadCertificates]
    split <;> next h => rw [h] at hone; first | exact hone.trans (ih _ _) | exact hone

/-- **A start**: the service holds traced transmissions, and what the ledger has is traced. -/
theorem Starts.filing {account : Address} {transmissions : S} {l : CoreLedgerService V}
    {cache : Option ProposalCache} {r : Except Stop Unit} {E : Surroundings V}
    (hE : ∀ send, E.sender send → send = processBftSubdag)
    (hcache : ∀ c, cache = some c → c.proposal = none)
    (hheld : ∀ e, HoldingService.Holds transmissions e → o.Traced e)
    (hanswers : ∀ e, l.Answers e → o.Traced e) (hblocks : ∀ block ∈ l.blocks, o.FiledBlock block)
    (hlater : ∀ l' ∈ o.ledgers, l'.blocks <+: l.blocks)
    (h : Starts E account transmissions l cache r p) : p.Filing o := by
  obtain ⟨committee, g, keepState, now, envs, send, b, -, hboot, -, hsend, hrun⟩ := h
  obtain ⟨result, q, hload, hcases⟩ := runBft_cases
    (p := new account (Storage.new committee transmissions g) keepState l) hboot envs cache send
  -- the storage and the DAG are synced with the ledger
  have hb : b.Traces o := by
    unfold BFT.bootup at hboot
    split at hboot
    · cases hboot
    next storage certificates hsync =>
    cases hboot
    have hnew : (Storage.new committee transmissions g).Holding o.Traced := by
      unfold Storage.Holding
      rw [Storage.transmissions_new]
      exact hheld
    exact ⟨hnew.bootup hanswers hsync, fun _ hnone => (by cases hnone), hblocks, hlater⟩
  have hbooted : ∀ signedProposals proposeLock, Filing o
      { new account (Storage.new committee transmissions g) keepState l with
        bft := b, bftSender := true, signedProposals, proposeLock, proposedBatch := none } :=
    fun _ _ => ⟨hb, fun _ he => absurd he List.not_mem_nil, Ready.valid_new, rfl⟩
  -- then the proposal cache is loaded
  have hq : q.Filing o := by
    unfold loadProposalCache at hload
    cases cache with
    | none =>
      cases hload
      exact hbooted ∅ 0
    | some c =>
      dsimp only at hload
      split at hload
      · rw [hcache c rfl] at hload
        have hloaded := keepsFiling_loadCertificates hV envs 0 c.pendingCertificates _
          (hbooted c.signedProposals c.latestRound)
        rwa [hload] at hloaded
      · cases hload
        exact hbooted ∅ 0
  rcases hcases with ⟨stop, -, hcases⟩ | ⟨-, hcases⟩ <;> rw [hrun] at hcases <;> cases hcases
  · exact hq
  · refine ⟨⟨hq.traces.storage, fun send' hsend' => ?_, hq.traces.blocks, hq.traces.later⟩,
      hq.ready, hq.valid, hq.idle⟩
    cases hsend'
    exact hE send hsend

omit hV [LawfulLedger V] in
/-- **The worker** computes the checksums of what it is sent. -/
lemma Filing.processUnconfirmedSolution (h : p.Filing o) (checks : Checks)
    (solutionId : SolutionID) (solution : Data Solution) :
    (p.processUnconfirmedSolution checks solutionId solution).2.Filing o := by
  unfold Primary.processUnconfirmedSolution
  refine attempt_rel (R := KeepsFiling o) id (fun checksum hchecksum => ?_) h
  rw [orStop_eq_ok] at hchecksum
  dsimp only
  split
  · exact id
  · exact keepsFiling_walk.attempt fun _ h => h.insert hchecksum

omit hV [LawfulLedger V] in
lemma Filing.processUnconfirmedTransaction (h : p.Filing o) (checks : Checks)
    (transactionId : TransactionID) (transaction : Data Transaction) :
    (p.processUnconfirmedTransaction checks transactionId transaction).2.Filing o := by
  unfold Primary.processUnconfirmedTransaction
  refine attempt_rel (R := KeepsFiling o) id (fun checksum hchecksum => ?_) h
  rw [orStop_eq_ok] at hchecksum
  dsimp only
  split
  · exact id
  · refine keepsFiling_walk.attempt fun _ => keepsFiling_walk.attempt fun _ => ?_
    exact keepsFiling_walk.attempt fun _ h => h.insert hchecksum

/-! ### Runs -/

/-- Consensus does what `process_bft_subdag` does. -/
def consensusSurroundings (V : Type) [Ledger V] : Surroundings V :=
  ⟨fun _ => True, fun _ => True, fun _ => True, fun send => send = processBftSubdag⟩

/-- A node that was first started with nothing in its storage service, what it was started with,
and the proposal cache on its disk. The service of a later start holds nothing that the node did
not hold when it was left. -/
inductive Pooled : Origins V → Option ProposalCache → Primary S V → Prop
  | start {account : Address} {transmissions : S} {l : CoreLedgerService V}
      {r : Except Stop Unit} {p : Primary S V} :
      (∀ e, ¬ HoldingService.Holds transmissions e) →
      Starts (consensusSurroundings V) account transmissions l none r p →
      Pooled ⟨l.blocks, [l]⟩ none p
  | propose {o : Origins V} {cache : Option ProposalCache} {p : Primary S V} (env : ProposeEnv) :
      Pooled o cache p → Pooled o cache (p.proposeTask env)
  | increment {o : Origins V} {cache : Option ProposalCache} {p : Primary S V}
      (env : IncrementEnv) : Pooled o cache p → Pooled o cache (p.incrementTask env)
  /-- The worker is sent a solution. -/
  | solution {o : Origins V} {cache : Option ProposalCache} {p : Primary S V} (checks : Checks)
      (solutionId : SolutionID) (solution : Data Solution) : Pooled o cache p →
      Pooled o cache (p.processUnconfirmedSolution checks solutionId solution).2
  /-- The worker is sent a transaction. -/
  | transaction {o : Origins V} {cache : Option ProposalCache} {p : Primary S V} (checks : Checks)
      (transactionId : TransactionID) (transaction : Data Transaction) : Pooled o cache p →
      Pooled o cache (p.processUnconfirmedTransaction checks transactionId transaction).2
  /-- The worker drops its solutions. -/
  | clearSolutions {o : Origins V} {cache : Option ProposalCache} {p : Primary S V} :
      Pooled o cache p → Pooled o cache { p with ready := p.ready.clearSolutions }
  | flag {o : Origins V} {cache : Option ProposalCache} {p : Primary S V} : Pooled o cache p →
      Pooled o cache { p with bft := { p.bft with ledger := { p.ledger with shutdown := true } } }
  | shutDown {o : Origins V} {cache : Option ProposalCache} {p : Primary S V} : Pooled o cache p →
      Pooled o (p.shutDown.1.or cache) p.shutDown.2
  /-- The node starts again over the chain it left, after a shutdown or a crash. -/
  | reboot {o : Origins V} {cache : Option ProposalCache} {p p' : Primary S V} {transmissions : S}
      {l : CoreLedgerService V} {r : Except Stop Unit} : Pooled o cache p →
      l.blocks = p.ledger.blocks →
      (∀ e, HoldingService.Holds transmissions e →
        HoldingService.Holds p.storage.transmissions e) →
      Starts (consensusSurroundings V) p.account transmissions l cache r p' →
      Pooled ⟨o.blocks, l :: o.ledgers⟩ cache p'

/-- **A node files what it holds**, at any time of its life. -/
theorem Pooled.filing {cache : Option ProposalCache} (h : Pooled o cache p) :
    p.Filing o ∧ ∀ c, cache = some c → c.proposal = none := by
  induction h with
  | @start account transmissions l r p hnone hstarts =>
    refine ⟨hstarts.filing hV (fun _ hsend => hsend) (fun _ hc => (by cases hc))
      (fun e he => absurd he (hnone e)) (fun e he => .inr ⟨l, List.mem_singleton_self l, he⟩)
      (fun block hblock => .inl hblock) fun l' hl' => ?_, fun _ hc => (by cases hc)⟩
    rw [List.mem_singleton.mp hl']
  | propose env _ ih => exact ⟨keepsFiling_proposeBatch hV env true _ ih.1, ih.2⟩
  | increment env _ ih => exact ⟨keepsFiling_incrementTask hV env _ ih.1, ih.2⟩
  | solution checks id solution _ ih =>
    exact ⟨ih.1.processUnconfirmedSolution checks id solution, ih.2⟩
  | transaction checks id transaction _ ih =>
    exact ⟨ih.1.processUnconfirmedTransaction checks id transaction, ih.2⟩
  | clearSolutions _ ih =>
    exact ⟨⟨ih.1.traces, fun e he => ih.1.ready e (List.mem_of_mem_filter he),
      ih.1.valid.clearSolutions, ih.1.idle⟩, ih.2⟩
  | flag _ ih => exact ⟨ih.1.withBft (ih.1.traces.same ih.1.traces.storage rfl rfl), ih.2⟩
  | @shutDown o cache p _ ih =>
    obtain ⟨h, hcache⟩ := ih
    unfold Primary.shutDown
    split
    · refine ⟨⟨h.traces, h.ready, h.valid, rfl⟩, fun c hc => ?_⟩
      cases hc
      exact h.idle
    · exact ⟨h, hcache⟩
  | @reboot o cache p p' transmissions l r _ hblocks hheld hstarts ih =>
    obtain ⟨h, hcache⟩ := ih
    refine ⟨hstarts.filing hV (fun _ hsend => hsend) hcache (fun e he => ?_) (fun e he => ?_)
      (fun block hblock => ?_) fun l' hl' => ?_, hcache⟩
    · exact (h.traces.storage e (hheld e he)).mono (List.subset_cons_self l o.ledgers)
    · exact .inr ⟨l, List.mem_cons_self, he⟩
    · exact h.traces.blocks block (hblocks ▸ hblock)
    · rcases List.mem_cons.mp hl' with rfl | hl'
      · exact List.prefix_rfl
      · rw [hblocks]
        exact h.traces.later l' hl'

/-- **Where a node's transmissions come from**, at any time of its life. What it reads from its
storage has the checksum of its ID, unless a ledger that the node was started with had it for that
ID; what waits in its queue has that checksum; and each block that was added to its chain was
prepared from a subdag and transmissions that its certificates declare, which have their
checksums. -/
theorem transmissions_filed {cache : Option ProposalCache} (h : Pooled o cache p) :
    (∀ id transmission, p.storage.getTransmission id = some transmission →
      o.Traced (id, transmission)) ∧
    (∀ e ∈ p.ready.transmissions, Filed e) ∧
    ∀ block ∈ p.ledger.blocks, o.FiledBlock block := by
  obtain ⟨hfiling, -⟩ := h.filing hV
  exact ⟨fun _ _ hget => hfiling.traces.storage.get hget, hfiling.ready, hfiling.traces.blocks⟩

end Primary

end Tracing

section Example

lemma containsAnswers_chain : ContainsAnswers Chain := by
  intro l l' e hprefix hanswers
  have hsolution : ∀ solution ∈ l.ledger.solutions, solution ∈ l'.ledger.solutions := by
    intro solution hin
    obtain ⟨block, hblock, hin⟩ := List.mem_flatMap.mp hin
    exact List.mem_flatMap.mpr ⟨block, hprefix.subset hblock, hin⟩
  have htransaction : ∀ transaction ∈ l.ledger.transactions,
      transaction ∈ l'.ledger.transactions := by
    intro transaction hin
    obtain ⟨block, hblock, hin⟩ := List.mem_flatMap.mp hin
    exact List.mem_flatMap.mpr ⟨block, hprefix.subset hblock, hin⟩
  obtain ⟨id, transmission⟩ := e
  -- the item is in a block, or was found in one
  cases id with
  | ratification => cases hanswers
  | solution id checksum =>
    rcases transmission with _ | ⟨solution | bytes⟩ | _
    · cases hanswers
    · have hfound : solution.id = id ∧ solution ∈ l.ledger.solutions := by
        rcases hanswers with ⟨hid, block, hblock, hin⟩ | hget
        · exact ⟨hid, List.mem_flatMap.mpr ⟨block, hblock, hin⟩⟩
        · dsimp only [Ledger.getSolution] at hget
          split at hget
          · next hfind =>
            cases hget
            exact ⟨by simpa using List.find?_some hfind, List.mem_of_find?_eq_some hfind⟩
          · cases hget
      have hany : (l'.ledger.solutions.any fun s => s.id == id) = true :=
        List.any_eq_true.mpr ⟨solution, hsolution solution hfound.2, by simp [hfound.1]⟩
      dsimp only [CoreLedgerService.containsTransmission, Ledger.containsSolutionId]
      rw [hany]
      exact fun h => (by cases h)
    · cases hanswers
    · cases hanswers
  | transaction id checksum =>
    rcases transmission with _ | _ | ⟨transaction | bytes⟩
    · cases hanswers
    · cases hanswers
    · have hfound : transaction.id = id ∧ transaction ∈ l.ledger.transactions := by
        rcases hanswers with ⟨hid, block, hblock, hin⟩ | hget
        · exact ⟨hid, List.mem_flatMap.mpr ⟨block, hblock, hin⟩⟩
        · dsimp only [Ledger.getUnconfirmedTransaction] at hget
          split at hget
          · next hfind =>
            cases hget
            exact ⟨by simpa using List.find?_some hfind, List.mem_of_find?_eq_some hfind⟩
          · cases hget
      have hany : (l'.ledger.transactions.any fun t => t.id == id) = true :=
        List.any_eq_true.mpr ⟨transaction, htransaction transaction hfound.2, by simp [hfound.1]⟩
      dsimp only [CoreLedgerService.containsTransmission, Ledger.containsTransactionId]
      rw [hany]
      exact fun h => (by cases h)
    · cases hanswers

/-- A node that proposes a transaction, after it was started over the first block. -/
def pooledNode : Primary BFTMemoryService Chain :=
  let _ := developmentNetwork
  proposedNode 1 ((startedNode (developmentLedger [genesis]) none 0).2.processUnconfirmedTransaction
    passing 7 (.object ⟨7, [1, 2]⟩)).2

/-- The node after the block of round 2, that has the transaction. -/
def advancedNode : Primary BFTMemoryService Chain :=
  proposedNode 5 (proposedNode 4 (proposedNode 3 (proposedNode 2 pooledNode)))

/-- It is stopped, and starts again over the chain. -/
def rebootedNode : Primary BFTMemoryService Chain :=
  (startedNode (developmentLedger advancedNode.ledger.blocks) advancedNode.shutDown.1 6).2

/-- The ledgers that it was started with. -/
def rebootedOrigins : Origins Chain :=
  ⟨[genesis], [developmentLedger advancedNode.ledger.blocks, developmentLedger [genesis]]⟩

lemma pooled_pooledNode :
    let _ := developmentNetwork
    Primary.Pooled ⟨[genesis], [developmentLedger [genesis]]⟩ none pooledNode := by
  let _ := developmentNetwork
  have hload : (Primary.consensusSurroundings Chain).load (loads 0) := trivial
  have hstarts := startedNode_starts (l := developmentLedger [genesis]) hload rfl
    (by decide +kernel) none
  have hempty : ∀ e, ¬ HoldingService.Holds BFTMemoryService.empty e := fun _ he => by cases he
  exact ((Primary.Pooled.start hempty hstarts).transaction passing 7
    (.object ⟨7, [1, 2]⟩)).propose (proposes 1)

lemma pooled_rebootedNode :
    let _ := developmentNetwork
    Primary.Pooled rebootedOrigins (advancedNode.shutDown.1.or none) rebootedNode := by
  let _ := developmentNetwork
  have hpooled : Primary.Pooled ⟨[genesis], [developmentLedger [genesis]]⟩ none advancedNode :=
    (((pooled_pooledNode.propose (proposes 2)).propose (proposes 3)).propose
      (proposes 4)).propose (proposes 5)
  have hshut : advancedNode.shutDown.2.account = advancedNode.account ∧
      advancedNode.shutDown.2.ledger = advancedNode.ledger := by
    unfold Primary.shutDown
    split <;> exact ⟨rfl, rfl⟩
  have haccount : advancedNode.account = developmentAccount 0 := by decide +kernel
  have hload : (Primary.consensusSurroundings Chain).load (loads 6) := trivial
  have hstarts := startedNode_starts (l := developmentLedger advancedNode.ledger.blocks) hload rfl
    (by decide +kernel) (advancedNode.shutDown.1.or none)
  have hnode : (startedNode (developmentLedger advancedNode.ledger.blocks)
      (advancedNode.shutDown.1.or none) 6).2 = rebootedNode := by
    rw [Option.or_none]
    rfl
  rw [← haccount, ← hshut.1, hnode] at hstarts
  exact hpooled.shutDown.reboot (by rw [hshut.2]; rfl) (fun _ he => by cases he) hstarts

theorem transmissions_filed_example :
    let _ := developmentNetwork
    rebootedNode.storage.getTransmission (.transaction 7 3)
        = some (.transaction (.object ⟨7, [1, 2]⟩)) ∧
      rebootedOrigins.Traced (.transaction 7 3, .transaction (.object ⟨7, [1, 2]⟩)) ∧
      rebootedNode.ledger.blocks.map Block.transactions = [[], [⟨7, [1, 2]⟩]] ∧
      ∀ block ∈ rebootedNode.ledger.blocks, rebootedOrigins.FiledBlock block := by
  let _ := developmentNetwork
  intro _
  obtain ⟨hstored, hblocks⟩ : rebootedNode.storage.getTransmission (.transaction 7 3)
        = some (.transaction (.object ⟨7, [1, 2]⟩)) ∧
      rebootedNode.ledger.blocks.map Block.transactions = [[], [⟨7, [1, 2]⟩]] := by
    decide +kernel
  obtain ⟨htraced, -, hfiled⟩ :=
    Primary.transmissions_filed containsAnswers_chain pooled_rebootedNode
  exact ⟨hstored, htraced _ _ hstored, hblocks, hfiled⟩

end Example

end AmareleoChain
