import AmareleoChain.DevelopmentNode

/-!
The limits of a batch.

The drain takes transmissions from the front of the queue. Whichever it takes, and wherever it
ends, those that it collects are in the order of the queue, they are not in the ledger, have passed
their checks, and only the first of them may be in storage; they are not more than a batch may
hold, and the running cost is the sum of their costs, below the spend limit.
-/

namespace AmareleoChain

namespace Primary

variable {S V : Type} [StorageService S] [Ledger V] [Network] {p : Primary S V}
  {checks : TransmissionID → Checks} {d : Draining} {id : TransmissionID} {t : Transmission}
  {queue : List (TransmissionID × Transmission)}

/-- The cost of a transmission: only transactions have one. -/
def spentCost (checks : TransmissionID → Checks) (id : TransmissionID) : ℕ :=
  match id with
  | .transaction _ _ => (checks id).transactionSpentCost.toOption.getD 0
  | _ => 0

/-- The transmission is of the kind that its ID names, it has the checksum of its ID, and the
ledger has found it valid. -/
def Passes (checks : TransmissionID → Checks) : TransmissionID × Transmission → Prop
  | (.solution id checksum, .solution solution) =>
    Network.solutionChecksum solution = .ok checksum ∧
      (checks (.solution id checksum)).checkSolutionBasic = .ok ()
  | (.transaction id checksum, .transaction transaction) =>
    Network.transactionChecksum transaction = .ok checksum ∧
      (checks (.transaction id checksum)).checkTransactionBasic = .ok () ∧
      ∃ cost, (checks (.transaction id checksum)).transactionSpentCost = .ok cost
  | _ => False

/-- What holds of the transmissions that the drain has collected from a queue. -/
structure Collected (p : Primary S V) (checks : TransmissionID → Checks)
    (queue : List (TransmissionID × Transmission)) (d : Draining) : Prop where
  count : d.transmissions.len ≤ Network.maxTransmissionsPerBatch
  cost : (d.transmissions.entries.map fun e => spentCost checks e.1).sum = d.proposalCost
  limit : d.proposalCost ≤ Network.batchSpendLimit
  noWrap : d.proposalCost < 2 ^ 64
  absent : ∀ e ∈ d.transmissions.entries, p.ledger.containsTransmission e.1 = .ok false
  passes : ∀ e ∈ d.transmissions.entries, Passes checks e
  fresh : ∀ e ∈ d.transmissions.entries.tail, p.storage.containsTransmission e.1 = false
  order : d.transmissions.entries.Sublist queue

/-- While the drain goes on: what it has taken is the front of the queue, and the rest is left. -/
structure Collecting (p : Primary S V) (checks : TransmissionID → Checks)
    (queue taken : List (TransmissionID × Transmission)) (d : Draining) : Prop
    extends Collected p checks taken d where
  rest : queue = taken ++ d.ready.transmissions
  nodup : (queue.map Prod.fst).Nodup
  valid : d.ready.Valid

omit [StorageService S] [Ledger V] [Network] in
lemma checksumMatches_iff {computed : Except String Checksum} {checksum : Checksum} :
    checksumMatches computed checksum = true ↔ computed = .ok checksum := by
  cases computed with
  | error e => exact ⟨fun h => (by cases h), fun h => (by cases h)⟩
  | ok c =>
    rw [checksumMatches, beq_iff_eq, Except.ok.injEq]

/-! ### What is chosen -/

omit [StorageService S] [Ledger V] in
lemma chooseTransaction_insert {transactionId : TransactionID} {checksum : Checksum}
    {transaction : Data Transaction} {proposalCost nextProposalCost : ℕ}
    (h : chooseTransaction (checks (.transaction transactionId checksum)) proposalCost checksum
      transaction = .insert nextProposalCost) :
    Passes checks (.transaction transactionId checksum, .transaction transaction) ∧
      nextProposalCost = proposalCost + spentCost checks (.transaction transactionId checksum) ∧
      nextProposalCost < 2 ^ 64 ∧ nextProposalCost ≤ Network.batchSpendLimit := by
  unfold chooseTransaction at h
  split at h
  swap
  · cases h
  next hchecksum =>
  split at h
  · cases h
  split at h
  · cases h
  split at h
  · cases h
  · cases h
  next hbasic =>
  split at h
  · cases h
  next cost hcost =>
  dsimp only at h
  split at h
  · cases h
  next hwrap =>
  split at h
  · cases h
  next hlimit =>
  cases h
  have hspent : spentCost checks (.transaction transactionId checksum) = cost := by
    rw [spentCost, hcost]
    rfl
  rw [hspent]
  exact ⟨⟨checksumMatches_iff.mp hchecksum, hbasic, cost, hcost⟩, rfl, by omega, by omega⟩

omit [StorageService S] [Ledger V] in
lemma chooseSolution_insert {solutionId : SolutionID} {checksum : Checksum}
    {solution : Data Solution} {proposalCost nextProposalCost : ℕ}
    (h : chooseSolution (checks (.solution solutionId checksum)) proposalCost checksum solution
      = .insert nextProposalCost) :
    Passes checks (.solution solutionId checksum, .solution solution) ∧
      nextProposalCost = proposalCost := by
  unfold chooseSolution at h
  split at h
  swap
  · cases h
  next hchecksum =>
  split at h
  · cases h
  · cases h
  next hbasic =>
  cases h
  exact ⟨⟨checksumMatches_iff.mp hchecksum, hbasic⟩, rfl⟩

/-- **What is chosen**: it is not in the ledger, it is not in storage unless it is the first, it
has passed its checks, and its cost fits. -/
lemma choose_insert {proposalCost : ℕ} (h : p.choose (checks id) d id t = .insert proposalCost)
    (hlimit : d.proposalCost ≤ Network.batchSpendLimit) (hwrap : d.proposalCost < 2 ^ 64) :
    p.ledger.containsTransmission id = .ok false ∧
      (d.transmissions.entries ≠ [] → p.storage.containsTransmission id = false) ∧
      Passes checks (id, t) ∧ proposalCost = d.proposalCost + spentCost checks id ∧
      proposalCost ≤ Network.batchSpendLimit ∧ proposalCost < 2 ^ 64 := by
  have habsent : p.ledger.containsTransmission id = .ok false := by
    by_contra hne
    unfold choose at h
    rw [if_pos] at h
    · cases h
    · intro hmatches
      split at hmatches
      · next heq => exact hne heq
      · cases hmatches
  have hfresh : ¬ (¬ d.transmissions.entries.isEmpty = true ∧
      p.storage.containsTransmission id = true) := by
    intro hstored
    unfold choose at h
    rw [habsent, if_neg (not_not.mpr rfl), if_pos hstored] at h
    cases h
  unfold choose at h
  rw [habsent, if_neg (not_not.mpr rfl), if_neg hfresh] at h
  refine ⟨habsent, fun hne => ?_, ?_⟩
  · rw [not_and, Bool.not_eq_true, Bool.not_eq_true] at hfresh
    exact hfresh (List.isEmpty_eq_false_iff.mpr hne)
  split at h
  · obtain ⟨hpasses, rfl⟩ := chooseSolution_insert h
    exact ⟨hpasses, rfl, hlimit, hwrap⟩
  · obtain ⟨hpasses, hcost, hlt, hle⟩ := chooseTransaction_insert h
    exact ⟨hpasses, hcost, hle, hlt⟩
  · cases h

/-! ### The drain -/

lemma Collecting.collected {taken : List (TransmissionID × Transmission)}
    (h : Collecting p checks queue taken d) : Collected p checks queue d :=
  { h.toCollected with
    order := h.order.trans (h.rest ▸ List.sublist_append_left _ _) }

omit [StorageService S] [Ledger V] [Network] in
lemma notMem_taken {taken rest : List (TransmissionID × Transmission)}
    (hnodup : ((taken ++ (id, t) :: rest).map Prod.fst).Nodup) : id ∉ taken.map Prod.fst := by
  intro hid
  rw [List.map_append, List.nodup_append] at hnodup
  exact hnodup.2.2 id hid id (by simp) rfl

/-- **The front is taken**, and not chosen. -/
lemma Collecting.skip {taken : List (TransmissionID × Transmission)} {ready : Ready}
    (h : Collecting p checks queue taken d)
    (hfront : d.ready.transmissions = (id, t) :: ready.transmissions) (hvalid : ready.Valid) :
    Collecting p checks queue (taken ++ [(id, t)]) { d with ready } :=
  { h.toCollected with
    order := h.order.trans (List.sublist_append_left _ _)
    rest := by rw [h.rest, hfront, List.append_assoc]; rfl
    nodup := h.nodup
    valid := hvalid }

/-- **The front is taken and chosen.** -/
lemma Collecting.insert {taken : List (TransmissionID × Transmission)} {ready : Ready}
    {proposalCost : ℕ} (h : Collecting p checks queue taken d)
    (hfront : d.ready.transmissions = (id, t) :: ready.transmissions) (hvalid : ready.Valid)
    (hbelow : d.transmissions.len < Network.maxTransmissionsPerBatch)
    (hchoice : p.choose (checks id) { d with ready } id t = .insert proposalCost) (m : ℕ) :
    Collecting p checks queue (taken ++ [(id, t)])
      ⟨ready, d.transmissions.insert id t, proposalCost, m⟩ := by
  obtain ⟨habsent, hfresh, hpasses, hcost, hlimit, hwrap⟩ := choose_insert hchoice h.limit h.noWrap
  have hnodup := h.nodup
  rw [h.rest, hfront] at hnodup
  have hnew : id ∉ d.transmissions.keys := fun hid =>
    notMem_taken hnodup ((h.order.map Prod.fst).subset hid)
  have hentries := IndexMap.entries_insert (v := t) hnew
  have hskip := h.skip hfront hvalid
  refine ⟨⟨?_, ?_, hlimit, hwrap, ?_, ?_, ?_, ?_⟩, hskip.rest, h.nodup, hvalid⟩ <;>
    dsimp only [IndexMap.len] at hbelow ⊢ <;> rw [hentries]
  · rw [List.length_append]
    exact hbelow
  · rw [List.map_append, List.sum_append, h.cost, hcost]
    rfl
  · intro e he
    rcases List.mem_append.mp he with he | he
    · exact h.absent e he
    · rw [List.mem_singleton.mp he]
      exact habsent
  · intro e he
    rcases List.mem_append.mp he with he | he
    · exact h.passes e he
    · rw [List.mem_singleton.mp he]
      exact hpasses
  · intro e he
    cases hold : d.transmissions.entries with
    | nil =>
      rw [hold] at he
      cases he
    | cons first others =>
      rw [hold] at he
      rcases List.mem_append.mp he with he | he
      · exact h.fresh e (by rw [hold]; exact he)
      · rw [List.mem_singleton.mp he]
        exact hfresh (by rw [hold]; exact List.cons_ne_nil _ _)
  · exact h.order.append (List.Sublist.refl _)

/-- **The drain**, from wherever it is, and for any number of turns. -/
lemma Collecting.drain {taken : List (TransmissionID × Transmission)}
    (h : Collecting p checks queue taken d) (n : ℕ) :
    Collected p checks queue (p.drain checks n d).2 := by
  induction n generalizing d taken with
  | zero => exact h.collected
  | succ n ih =>
    rw [Primary.drain]
    cases hfront : d.ready.transmissions with
    | nil =>
      rw [Ready.removeFront_nil hfront]
      exact h.collected
    | cons e rest =>
      obtain ⟨id, t⟩ := e
      obtain ⟨ready, hremove, rfl, hvalid⟩ := h.valid.removeFront_cons hfront
      rw [hremove]
      have hskip := h.skip hfront hvalid
      dsimp only
      split
      · exact hskip.collected
      next hbelow =>
      split
      · exact hskip.collected
      split
      · exact ih hskip
      · next proposalCost hchoice =>
        exact ih (h.insert hfront hvalid (Nat.not_le.mp hbelow) hchoice _)
      · exact { hskip.collected with }
      · exact hskip.collected

/-- **The limits of a batch**: they hold of what the drain of `propose_batch_lite` collects, at any
of its turns, for every queue and whatever the ledger, the storage and the checks answer. -/
theorem batch_limits (p : Primary S V) (checks : TransmissionID → Checks) (h : p.ready.Valid)
    (n : ℕ) :
    Collected p checks p.ready.transmissions (p.drain checks n ⟨p.ready, ∅, 0, 0⟩).2 := by
  have hstart : Collecting p checks p.ready.transmissions [] ⟨p.ready, ∅, 0, 0⟩ := by
    refine ⟨⟨Nat.zero_le _, rfl, Nat.zero_le _, Nat.two_pow_pos 64, ?_, ?_, ?_,
      List.Sublist.refl _⟩, rfl, h.nodup, h⟩ <;> exact fun e he => (by cases he)
  exact hstart.drain n

end Primary

section Example

/-- A node with two transactions in its queue, of which one would go over the spend limit. -/
def queuedNode : Primary BFTMemoryService Chain :=
  let ready := (Ready.new.insert (.transaction 7 0) (.transaction (.object ⟨7, []⟩))).2
  { newNode (developmentLedger []) with
    ready := (ready.insert (.transaction 8 0) (.transaction (.object ⟨8, []⟩))).2 }

/-- Each transaction passes, and costs more than half of the limit. -/
def costly (_ : TransmissionID) : Checks := ⟨.ok (), .ok (), .ok (), .ok 30000000⟩

theorem batch_limits_example :
    let _ := developmentNetwork
    (queuedNode.drain costly 2 ⟨queuedNode.ready, ∅, 0, 0⟩).2.transmissions.len = 1 ∧
      Primary.Collected queuedNode costly queuedNode.ready.transmissions
        (queuedNode.drain costly 2 ⟨queuedNode.ready, ∅, 0, 0⟩).2 := by
  let _ := developmentNetwork
  intro _
  have hvalid : queuedNode.ready.Valid := (Ready.valid_new.insert _ _).insert _ _
  have hone : (queuedNode.drain costly 2 ⟨queuedNode.ready, ∅, 0, 0⟩).2.transmissions.len = 1 := by
    decide +kernel
  exact ⟨hone, Primary.batch_limits queuedNode costly hvalid 2⟩

end Example

end AmareleoChain
