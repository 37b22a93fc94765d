import AmareleoChain.Tracing

/-!
What consensus does with a subdag.

When the next block cannot be added, the transmissions are handed to the primary again. At the
start of an epoch the queued solutions are dropped, as they were made for the epoch before; those
that the worker has stay with it, as the handler runs on a clone without workers.
-/

namespace AmareleoChain

/-- The length of an epoch. -/
class EpochNetwork extends ConsensusNetwork where
  /-- `N::NUM_BLOCKS_PER_EPOCH`. -/
  numBlocksPerEpoch : ℕ

def LruCache.clear {κ υ : Type} (c : LruCache κ υ) : LruCache κ υ := { c with entries := [] }

/-- `clear_worker_solutions`, of the workers that a clone has. -/
def Primary.clearWorkerSolutions {S V : Type} (p : Primary S V) : Consensus.Clone → Primary S V
  | .handler => p
  | .running => { p with ready := p.ready.clearSolutions }

/-- The ledger replaced. -/
def Primary.withLedger {S V : Type} (p : Primary S V) (ledger : CoreLedgerService V) :
    Primary S V :=
  { p with bft := { p.bft with ledger } }

namespace Consensus

variable {S V : Type} [StorageService S] [Ledger V] [EpochNetwork]

def tryAdvanceToNextBlock (clone : Clone) (subdag : Subdag)
    (transmissions : IndexMap TransmissionID Transmission) (c : Consensus S V) :
    Except String Unit × Consensus S V :=
  match Ledger.prepareAdvanceToNextQuorumBlock c.primary.ledger.ledger subdag transmissions with
  | .error e => (.error e, c)
  | .ok nextBlock =>
    let (result, ledger) := c.primary.ledger.advanceToNextBlock nextBlock
    let c := { c with primary := c.primary.withLedger ledger }
    match result with
    | .error e => (.error e, c)
    | .ok () =>
      if nextBlock.height % EpochNetwork.numBlocksPerEpoch = 0 then
        (.ok (), { c with
          solutionsQueue := c.solutionsQueue.clear
          primary := c.primary.clearWorkerSolutions clone })
      else (.ok (), c)

def reinsertTransmission (checks : Checks) (transmissionId : TransmissionID)
    (transmission : Transmission) (c : Consensus S V) : Except Stop Unit × Consensus S V :=
  match transmissionId, transmission with
  | .ratification, .ratification => (.ok (), c)
  | .solution solutionId _, .solution solution =>
    let (result, primary) := c.primary.processUnconfirmedSolution checks solutionId solution
    (result, { c with primary })
  | .transaction transactionId _, .transaction transaction =>
    let (result, primary) :=
      c.primary.processUnconfirmedTransaction checks transactionId transaction
    (result, { c with primary })
  | _, _ =>
    (.error (.error "Mismatching `(transmission_id, transmission)` pair in consensus"), c)

/-- `reinsert_transmissions`. An error is logged. -/
def reinsertTransmissions (checks : TransmissionID → Checks)
    (transmissions : IndexMap TransmissionID Transmission) (c : Consensus S V) : Consensus S V :=
  transmissions.entries.foldl (fun c e => (c.reinsertTransmission (checks e.1) e.1 e.2).2) c

/-- `process_bft_subdag`, with the result that the callback gets. It is called on the clone of a
handler. -/
def processBftSubdag (clone : Clone) (checks : TransmissionID → Checks) (subdag : Subdag)
    (transmissions : IndexMap TransmissionID Transmission) (c : Consensus S V) :
    Except String Unit × Consensus S V :=
  match c.tryAdvanceToNextBlock clone subdag transmissions with
  | (.error e, c) => (.error e, c.reinsertTransmissions checks transmissions)
  | (.ok (), c) => (.ok (), c)

/-! ### The next block -/

omit [StorageService S] in
/-- **One subdag**: nothing changes, or the ledger has the next block, and the solutions are
dropped when it starts an epoch. -/
lemma tryAdvanceToNextBlock_cases [LawfulLedger V] (clone : Clone) (subdag : Subdag)
    (transmissions : IndexMap TransmissionID Transmission) (c : Consensus S V) :
    (∃ e, c.tryAdvanceToNextBlock clone subdag transmissions = (.error e, c) ∧
      AmareleoChain.processBftSubdag c.primary.ledger subdag transmissions
        = (.callback (.error e), c.primary.ledger)) ∨
    ∃ block ledger, ledger.blocks = c.primary.ledger.blocks ++ [block] ∧
      Ledger.prepareAdvanceToNextQuorumBlock c.primary.ledger.ledger subdag transmissions
        = .ok block ∧
      AmareleoChain.processBftSubdag c.primary.ledger subdag transmissions
        = (.callback (.ok ()), ledger) ∧
      c.tryAdvanceToNextBlock clone subdag transmissions = (.ok (),
        if block.height % EpochNetwork.numBlocksPerEpoch = 0 then
          { c with
            solutionsQueue := c.solutionsQueue.clear
            primary := (c.primary.withLedger ledger).clearWorkerSolutions clone }
        else { c with primary := c.primary.withLedger ledger }) := by
  unfold tryAdvanceToNextBlock AmareleoChain.processBftSubdag AmareleoChain.tryAdvanceToNextBlock
  cases hprepared : Ledger.prepareAdvanceToNextQuorumBlock c.primary.ledger.ledger subdag
      transmissions with
  | error e => exact .inl ⟨e, rfl, rfl⟩
  | ok next =>
    dsimp only
    rcases advanceToNextBlock_cases c.primary.ledger next with ⟨e, he⟩ | ⟨-, w, -, hw, he⟩ <;>
      rw [he]
    · exact .inl ⟨e, rfl, rfl⟩
    · refine .inr ⟨next, { c.primary.ledger with ledger := w }, hw, rfl, rfl, ?_⟩
      dsimp only
      split <;> rfl

end Consensus

/-! ### Transmissions that are handed back -/

namespace Primary

variable {S V : Type} [StorageService S] [Ledger V] [Network]

/-- A primary as it is, or with a transmission in its queue that it did not contain. -/
def Takes (p : Primary S V) (e : TransmissionID × Transmission) (q : Primary S V) : Prop :=
  q = p ∨ (p.containsTransmission e.1 = false ∧
    q = { p with ready := (p.ready.insert e.1 e.2).2 })

lemma takes_solution (checks : Checks) {solutionId : SolutionID} {solution : Data Solution}
    {checksum : Checksum} (hchecksum : Network.solutionChecksum solution = .ok checksum)
    (p : Primary S V) : p.Takes (.solution solutionId checksum, .solution solution)
      (p.processUnconfirmedSolution checks solutionId solution).2 := by
  unfold processUnconfirmedSolution
  rw [hchecksum]
  dsimp only [attempt, orStop, Except.mapError]
  split
  · exact .inl rfl
  next hnew =>
  cases checks.checkSolutionBasic with
  | error stop => exact .inl rfl
  | ok u => exact .inr ⟨Bool.eq_false_iff.mpr hnew, rfl⟩

lemma takes_transaction (checks : Checks) {transactionId : TransactionID}
    {transaction : Data Transaction} {checksum : Checksum}
    (hchecksum : Network.transactionChecksum transaction = .ok checksum) (p : Primary S V) :
    p.Takes (.transaction transactionId checksum, .transaction transaction)
      (p.processUnconfirmedTransaction checks transactionId transaction).2 := by
  unfold processUnconfirmedTransaction
  rw [hchecksum]
  dsimp only [attempt, orStop, Except.mapError]
  split
  · exact .inl rfl
  next hnew =>
  cases checks.deserialized with
  | error stop => exact .inl rfl
  | ok u =>
  dsimp only
  split
  · exact .inl rfl
  · cases checks.checkTransactionBasic with
    | error stop => exact .inl rfl
    | ok u => exact .inr ⟨Bool.eq_false_iff.mpr hnew, rfl⟩

end Primary

namespace Consensus

variable {S V : Type} [StorageService S] [Ledger V] [EpochNetwork] {c : Consensus S V}
  {e : TransmissionID × Transmission}

/-- **A transmission that is filed** gets into the queue under its own ID, or not at all. -/
lemma reinsertTransmission_filed (checks : Checks) (hfiled : Filed e) (c : Consensus S V) :
    ∃ primary, (c.reinsertTransmission checks e.1 e.2).2 = { c with primary } ∧
      c.primary.Takes e primary := by
  obtain ⟨id, transmission⟩ := e
  rcases id with _ | ⟨id, checksum⟩ | ⟨id, checksum⟩ <;>
    rcases transmission with _ | solution | transaction <;> try exact hfiled.elim
  · exact ⟨c.primary, rfl, .inl rfl⟩
  · exact ⟨_, rfl, Primary.takes_solution checks hfiled c.primary⟩
  · exact ⟨_, rfl, Primary.takes_transaction checks hfiled c.primary⟩

/-- **All of them**: what gets to the back of the queue was not in the storage. -/
lemma reinserted_back (checks : TransmissionID → Checks)
    {l : List (TransmissionID × Transmission)} (hfiled : ∀ e ∈ l, Filed e) (c : Consensus S V) :
    ∃ ready back,
      l.foldl (fun c e => (c.reinsertTransmission (checks e.1) e.1 e.2).2) c
        = { c with primary := { c.primary with ready } } ∧
      ready.transmissions = c.primary.ready.transmissions ++ back ∧
      back.Sublist (l.filter fun e => !c.primary.storage.containsTransmission e.1) ∧
      (back = [] → ready = c.primary.ready) := by
  induction l generalizing c with
  | nil =>
    exact ⟨c.primary.ready, [], rfl, (List.append_nil _).symm, List.Sublist.refl _, fun _ => rfl⟩
  | cons e l ih =>
    rw [List.forall_mem_cons] at hfiled
    obtain ⟨primary, hone, htakes⟩ := reinsertTransmission_filed (checks e.1) hfiled.1 c
    obtain ⟨ready, back, hrest, hready, hback, hnone⟩ := ih hfiled.2 { c with primary }
    rw [List.foldl_cons, hone]
    rcases htakes with rfl | ⟨hnew, rfl⟩
    · refine ⟨ready, back, hrest, hready, hback.trans ?_, hnone⟩
      exact (List.sublist_cons_self e l).filter _
    · have hfresh : c.primary.ready.contains e.1 = false ∧
          c.primary.storage.containsTransmission e.1 = false := by
        simp only [Primary.containsTransmission, Bool.or_eq_false_iff] at hnew
        exact ⟨hnew.1.1.1, hnew.1.2⟩
      refine ⟨ready, e :: back, hrest, ?_, ?_, fun h => (by cases h)⟩
      · rw [hready, Ready.transmissions_insert hfresh.1, List.append_assoc]
        rfl
      · rw [List.filter_cons_of_pos (by simp [hfresh.2])]
        exact hback.cons_cons e

/-! ### The subdag of a node -/

variable [HoldingService S] {o : Origins V} {subdag : Subdag}
  {transmissions : IndexMap TransmissionID Transmission}

lemma filing_reinsertTransmissions (checks : TransmissionID → Checks)
    (hfiled : ∀ e ∈ transmissions.entries, Filed e) (h : c.primary.Filing o) :
    (c.reinsertTransmissions checks transmissions).primary.Filing o := by
  refine List.foldlRecOn (motive := fun c : Consensus S V => c.primary.Filing o) _ _ h
    fun c hc e he => ?_
  obtain ⟨primary, hone, htakes⟩ := reinsertTransmission_filed (checks e.1) (hfiled e he) c
  rw [hone]
  rcases htakes with rfl | ⟨-, rfl⟩
  · exact hc
  · exact hc.insert (hfiled e he)

variable [LawfulLedger V]

/-- **What the handler of consensus does with a subdag** of a node that files what it holds. To the
BFT it is the channel that adds a block to the ledger, and it leaves the rest of the BFT alone. When
the block cannot be added, nothing changes but that collected transmissions which are not in the
storage get to the back of the worker's queue, in their order; so nothing changes at all when the
storage contains what it returns. When the block is added, the queued solutions are dropped if it
starts an epoch, and all else stays, the worker's queue with its solutions too. The node files what
it holds afterwards. -/
theorem subdag_processed (hV : ContainsAnswers V) (h : c.primary.Filing o)
    (hcollected : c.primary.bft.collectTransmissions subdag.certificates = .ok transmissions)
    {checks : TransmissionID → Checks} {result : Except String Unit} {c' : Consensus S V}
    (hprocess : c.processBftSubdag .handler checks subdag transmissions = (result, c')) :
    AmareleoChain.processBftSubdag c.primary.ledger subdag transmissions
      = (.callback result, c'.primary.ledger) ∧
    c'.primary.Filing o ∧
    (∀ e, result = .error e → ∃ ready back,
      c' = { c with primary := { c.primary with ready } } ∧
      ready.transmissions = c.primary.ready.transmissions ++ back ∧
      back.Sublist (transmissions.entries.filter fun e =>
        !c.primary.storage.containsTransmission e.1) ∧
      (back = [] → c' = c)) ∧
    (result = .ok () → ∃ block ledger, ledger.blocks = c.primary.ledger.blocks ++ [block] ∧
      ((EpochNetwork.numBlocksPerEpoch ∣ block.height ∧
        c' = { c with
          solutionsQueue := c.solutionsQueue.clear
          primary := c.primary.withLedger ledger }) ∨
      (¬ EpochNetwork.numBlocksPerEpoch ∣ block.height ∧
        c' = { c with primary := c.primary.withLedger ledger }))) := by
  unfold processBftSubdag at hprocess
  rcases tryAdvanceToNextBlock_cases .handler subdag transmissions c with
    ⟨e, hadvance, hchannel⟩ | ⟨block, ledger, hblocks, hprepared, hchannel, hadvance⟩ <;>
    rw [hadvance] at hprocess
  · -- the block cannot be added
    cases hprocess
    have hfiled : ∀ e ∈ transmissions.entries, Filed e := fun e he =>
      (h.traces.collected hV hcollected e he).2.2.2
    have hfiling := filing_reinsertTransmissions checks hfiled h
    obtain ⟨ready, back, hres, hready, hback, hnone⟩ := reinserted_back checks hfiled c
    unfold reinsertTransmissions at hfiling ⊢
    rw [hres] at hfiling ⊢
    refine ⟨hchannel, hfiling, fun _ _ => ⟨ready, back, rfl, hready, hback, fun hempty => ?_⟩,
      fun hok => (by cases hok)⟩
    rw [hnone hempty]
  · -- the block is added
    have hadded := h.traces.added hV hcollected hprepared hblocks
    have hfiling : (c.primary.withLedger ledger).Filing o := h.withBft hadded
    cases hprocess
    split
    · next hepoch =>
      refine ⟨hchannel, hfiling, fun _ herror => (by cases herror), fun _ =>
        ⟨block, ledger, hblocks, .inl ⟨Nat.dvd_of_mod_eq_zero hepoch, rfl⟩⟩⟩
    · next hepoch =>
      refine ⟨hchannel, hfiling, fun _ herror => (by cases herror), fun _ =>
        ⟨block, ledger, hblocks, .inr ⟨fun hdvd => hepoch (Nat.mod_eq_zero_of_dvd hdvd), rfl⟩⟩⟩

end Consensus

section Example

/-- The parameters of the development network, with epochs of a length. -/
abbrev developmentEpochs (numBlocksPerEpoch : ℕ) : EpochNetwork where
  toConsensusNetwork := developmentConsensus
  numBlocksPerEpoch

/-- The consensus of the node that has proposed a transaction, with a solution in the queue and
another in the worker. -/
def solvingConsensus : Consensus BFTMemoryService Chain :=
  let _ := developmentConsensus
  { Consensus.new (pooledNode.processUnconfirmedSolution passing 5 (.object ⟨5, [1]⟩)).2 with
    solutionsQueue := LruCache.put ⟨capacityForSolutions, []⟩ 6 ⟨6, [1]⟩ }

/-- The node is shutting down. -/
def stoppingConsensus : Consensus BFTMemoryService Chain :=
  { solvingConsensus with primary := shuttingDown solvingConsensus.primary }

/-- The subdag of the certificate of the node. -/
def pooledSubdag : Subdag :=
  (pooledNode.storage.getCertificatesForRound 1).foldl Subdag.file ∅

/-- The transmissions that its certificates declare. -/
def pooledTransmissions : IndexMap TransmissionID Transmission :=
  (∅ : IndexMap TransmissionID Transmission).insert (.transaction 7 3)
    (.transaction (.object ⟨7, [1, 2]⟩))

lemma filing_solvingConsensus :
    let _ := developmentNetwork
    solvingConsensus.primary.Filing ⟨[genesis], [developmentLedger [genesis]]⟩ ∧
      stoppingConsensus.primary.Filing ⟨[genesis], [developmentLedger [genesis]]⟩ := by
  let _ := developmentNetwork
  have hpooled := pooled_pooledNode.solution passing 5 (.object ⟨5, [1]⟩)
  exact ⟨(hpooled.filing containsAnswers_chain).1, (hpooled.flag.filing containsAnswers_chain).1⟩

/-- What the handler does with it. -/
def handled (numBlocksPerEpoch : ℕ) (c : Consensus BFTMemoryService Chain) :
    Except String Unit × Consensus BFTMemoryService Chain :=
  let _ := developmentEpochs numBlocksPerEpoch
  c.processBftSubdag .handler (fun _ => passing) pooledSubdag pooledTransmissions

/-- A block that is refused, one that is added, and one that starts an epoch. -/
theorem subdag_processed_example :
    ((handled 360 stoppingConsensus).1.isOk = false ∧
      (handled 360 stoppingConsensus).2 = stoppingConsensus) ∧
    ((handled 360 solvingConsensus).1 = .ok () ∧
      (handled 360 solvingConsensus).2.solutionsQueue.len = 1 ∧
      (handled 360 solvingConsensus).2.primary.ready = solvingConsensus.primary.ready) ∧
    ((handled 1 solvingConsensus).1 = .ok () ∧
      (handled 1 solvingConsensus).2.solutionsQueue.len = 0 ∧
      (handled 1 solvingConsensus).2.primary.ready.numSolutions = 1) := by
  have hcollected : (let _ := developmentNetwork
      stoppingConsensus.primary.bft.collectTransmissions pooledSubdag.certificates)
        = .ok pooledTransmissions ∧
      (let _ := developmentNetwork
      solvingConsensus.primary.bft.collectTransmissions pooledSubdag.certificates)
        = .ok pooledTransmissions := by decide +kernel
  have hresults : (handled 360 stoppingConsensus).1.isOk = false ∧
      (handled 360 solvingConsensus).1.isOk = true ∧ (handled 1 solvingConsensus).1.isOk = true ∧
      (handled 360 solvingConsensus).2.primary.ledger.blocks.map Block.height = [0, 1] ∧
      solvingConsensus.primary.ready.numSolutions = 1 := by
    decide +kernel
  obtain ⟨hstopped, hadded, hepoch, hheights, hsolutions⟩ := hresults
  obtain ⟨hsolving, hstopping⟩ := filing_solvingConsensus
  refine ⟨⟨hstopped, ?_⟩, ?_, ?_⟩
  · let _ := developmentEpochs 360
    rcases hprocess : handled 360 stoppingConsensus with ⟨e | _, c'⟩ <;> rw [hprocess] at hstopped
    · obtain ⟨-, -, hfailed, -⟩ := Consensus.subdag_processed containsAnswers_chain hstopping
        hcollected.1 hprocess
      obtain ⟨ready, back, -, -, hback, hnone⟩ := hfailed e rfl
      have hstored : pooledTransmissions.entries.filter (fun e =>
          !stoppingConsensus.primary.storage.containsTransmission e.1) = [] := by decide +kernel
      rw [hstored, List.sublist_nil] at hback
      exact hnone hback
    · cases hstopped
  · let _ := developmentEpochs 360
    rcases hprocess : handled 360 solvingConsensus with ⟨_ | u, c'⟩ <;>
      rw [hprocess] at hadded hheights
    · cases hadded
    · have hprocess : solvingConsensus.processBftSubdag .handler (fun _ => passing) pooledSubdag
        pooledTransmissions = (.ok (), c') := hprocess
      obtain ⟨-, -, -, hok⟩ := Consensus.subdag_processed containsAnswers_chain hsolving
        hcollected.2 hprocess
      obtain ⟨block, ledger, hblocks, ⟨hdvd, rfl⟩ | ⟨-, rfl⟩⟩ := hok rfl
      · have hheights : ledger.blocks.map Block.height = [0, 1] := hheights
        rw [hblocks, List.map_append, List.map_singleton] at hheights
        have hheight : block.height = 1 := by simpa using congrArg List.getLast? hheights
        rw [hheight] at hdvd
        exact absurd (Nat.le_of_dvd Nat.one_pos hdvd) (by decide)
      · exact ⟨rfl, rfl, rfl⟩
  · let _ := developmentEpochs 1
    rcases hprocess : handled 1 solvingConsensus with ⟨_ | u, c'⟩ <;> rw [hprocess] at hepoch
    · cases hepoch
    · have hprocess : solvingConsensus.processBftSubdag .handler (fun _ => passing) pooledSubdag
        pooledTransmissions = (.ok (), c') := hprocess
      obtain ⟨-, -, -, hok⟩ := Consensus.subdag_processed containsAnswers_chain hsolving
        hcollected.2 hprocess
      obtain ⟨block, ledger, hblocks, ⟨-, rfl⟩ | ⟨hdvd, -⟩⟩ := hok rfl
      · exact ⟨rfl, rfl, hsolutions⟩
      · exact absurd (one_dvd block.height) hdvd

end Example

end AmareleoChain
