import AmareleoChain.Submissions

/-!
The worker stays within what the primary tolerates, as long as what is sent has room.

The transactions sent are limited by the room that is left for transmissions. The solutions sent
are limited by the room that is left for solutions only, once there is room for one transmission.
And a clone that has no workers finds the room of an empty worker. So what is sent may go beyond
what is tolerated in all.
-/

namespace AmareleoChain

/-! ### What the worker takes in -/

namespace Ready

variable {r : Ready} {id j : TransmissionID} {t : Transmission}

lemma contains_insert : (r.insert id t).2.contains j = true ↔ r.contains j = true ∨ j = id := by
  rw [insert]
  split
  · next h =>
    refine (or_iff_left_of_imp ?_).symm
    rintro rfl
    exact h
  · rw [contains, contains, IndexMap.containsKey_iff, IndexMap.containsKey_iff]
    exact IndexMap.mem_keys_insert

lemma numTransmissions_insert (h : r.contains id = false) :
    (r.insert id t).2.numTransmissions = r.numTransmissions + 1 := by
  rw [numTransmissions, transmissions_insert h, List.length_append]
  rfl

lemma keys_insert (h : r.contains id = false) :
    (r.insert id t).2.transmissionIds.keys = r.transmissionIds.keys ++ [id] := by
  have hid : id ∉ r.transmissionIds.keys := of_decide_eq_false h
  rw [insert, if_neg (Bool.eq_false_iff.mp h), IndexMap.keys_insert, if_neg hid]

lemma numSolutions_insert (h : r.contains id = false) :
    (r.insert id t).2.numSolutions = r.numSolutions + if id.isSolution then 1 else 0 := by
  rw [numSolutions, keys_insert h, List.filter_append, List.length_append, numSolutions]
  cases hid : id.isSolution with
  | true => simp [hid]
  | false => simp [hid]

/-- Between two states of the queue nothing was added to it. -/
structure Drained (r r' : Ready) : Prop where
  transmissions : r'.numTransmissions ≤ r.numTransmissions
  solutions : r'.numSolutions ≤ r.numSolutions

instance (r r' : Ready) : Decidable (Drained r r') :=
  decidable_of_iff (r'.numTransmissions ≤ r.numTransmissions ∧ r'.numSolutions ≤ r.numSolutions)
    ⟨fun h => ⟨h.1, h.2⟩, fun h => ⟨h.1, h.2⟩⟩

lemma Drained.trans {r r' r'' : Ready} (h : Drained r r') (h' : Drained r' r'') :
    Drained r r'' :=
  ⟨h'.transmissions.trans h.transmissions, h'.solutions.trans h.solutions⟩

lemma drained_removeFront {r r' : Ready} {front : Option (TransmissionID × Transmission)}
    (h : r.removeFront = (front, r')) : Drained r r' := by
  unfold removeFront at h
  split at h
  · cases h
    exact ⟨Nat.le_refl _, Nat.le_refl _⟩
  · next id transmission transmissions hq =>
    cases h
    constructor
    · rw [numTransmissions, numTransmissions, hq]
      exact Nat.le_succ _
    · rw [numSolutions, numSolutions, IndexMap.keys_erase]
      exact (List.filter_sublist.filter _).length_le

lemma removeFront_some {r' : Ready} (h : r.removeFront = (some (id, t), r')) :
    r.transmissions = (id, t) :: r'.transmissions ∧
      r'.transmissionIds = r.transmissionIds.erase id := by
  unfold removeFront at h
  split at h
  · cases h
  · next hq =>
    cases h
    exact ⟨hq, rfl⟩

lemma keys_insertFront (h : r.contains id = false) :
    (r.insertFront id t).2.transmissionIds.keys = r.transmissionIds.keys ++ [id] := by
  have hid : id ∉ r.transmissionIds.keys := of_decide_eq_false h
  rw [insertFront, if_neg (Bool.eq_false_iff.mp h), IndexMap.keys_insert, if_neg hid]

/-- What leaves the front, and is put back. -/
lemma Valid.drained_reinsert {r' : Ready} (h : r.Valid)
    (hremove : r.removeFront = (some (id, t), r')) : Drained r (r'.insertFront id t).2 := by
  obtain ⟨hq, hkeys⟩ := removeFront_some hremove
  have hgone : r'.contains id = false := by
    refine decide_eq_false fun hmem => ?_
    rw [hkeys] at hmem
    exact (IndexMap.mem_keys_erase.mp hmem).2 rfl
  constructor
  · rw [numTransmissions, numTransmissions, transmissions_insertFront hgone, hq]
  · -- the keys are those of the queue again
    have hkey : id ∈ r.transmissionIds.keys := by
      have hfront : id ∈ r.ids := by
        rw [ids, hq]
        exact List.mem_cons_self
      exact of_decide_eq_true (h.contains_iff.mpr hfront)
    have hnodup : r.transmissionIds.keys.Nodup := r.transmissionIds.nodup
    have herase : r'.transmissionIds.keys = r.transmissionIds.keys.erase id := by
      rw [hkeys, IndexMap.keys_erase, hnodup.erase_eq_filter]
      refine List.filter_congr fun i _ => ?_
      by_cases hi : i = id
      · simp [hi]
      · simp [hi]
    have hperm : (r'.transmissionIds.keys ++ [id]).Perm r.transmissionIds.keys := by
      rw [herase]
      exact (List.perm_append_singleton _ _).trans (List.perm_cons_erase hkey).symm
    rw [numSolutions, numSolutions, keys_insertFront hgone]
    exact (hperm.filter _).length_eq.le

end Ready

namespace Primary

variable {S V : Type} [StorageService S] [Ledger V] [Network] {p : Primary S V}

/-- Those of some transmissions that the primary does not contain. -/
def newIds (ids : List TransmissionID) (p : Primary S V) : Finset TransmissionID :=
  ids.toFinset.filter fun id => p.containsTransmission id = false

/-- A transmission that passes the checks of the worker gets into its queue, unless the primary
contains it. -/
def receive (p : Primary S V) : Option TransmissionID × Transmission → Primary S V
  | (none, _) => p
  | (some id, t) =>
    if p.containsTransmission id then p else { p with ready := (p.ready.insert id t).2 }

omit [Network] in
lemma containsTransmission_insert {id j : TransmissionID} (t : Transmission) :
    containsTransmission { p with ready := (p.ready.insert id t).2 } j
      = (p.containsTransmission j || decide (j = id)) := by
  have hready : (p.ready.insert id t).2.contains j = (p.ready.contains j || decide (j = id)) := by
    rw [Bool.eq_iff_iff, Ready.contains_insert, Bool.or_eq_true, decide_eq_true_iff]
  dsimp only [containsTransmission]
  rw [hready]
  cases decide (j = id) with
  | true => simp
  | false => rw [Bool.or_false, Bool.or_false]

omit [Network] in
/-- **The transmissions received** are counted once each, if the primary did not contain them. -/
lemma count_receive (m : Ready → ℕ) (counted : TransmissionID → Bool)
    (hm : ∀ {r : Ready} {id : TransmissionID} {t : Transmission}, r.contains id = false →
      m (r.insert id t).2 = m r + if counted id then 1 else 0)
    (es : List (Option TransmissionID × Transmission)) (p : Primary S V) :
    m (es.foldl receive p).ready
      = m p.ready + ((p.newIds (es.filterMap Prod.fst)).filter (counted ·)).card := by
  induction es generalizing p with
  | nil => rfl
  | cons e es ih =>
    obtain ⟨_ | id, t⟩ := e
    · exact ih p
    · have hids : ((some id, t) :: es).filterMap Prod.fst = id :: es.filterMap Prod.fst := rfl
      rw [List.foldl_cons, ih, hids]
      cases hcontains : p.containsTransmission id with
      | true =>
        -- it is left out
        have hsame : p.newIds (id :: es.filterMap Prod.fst) = p.newIds (es.filterMap Prod.fst) := by
          rw [newIds, List.toFinset_cons, Finset.filter_insert, if_neg (by simp [hcontains])]
          rfl
        rw [hsame, receive, if_pos hcontains]
      | false =>
        -- it is received, and those that come after it are others
        have hready : p.ready.contains id = false := by
          rw [containsTransmission, Bool.or_eq_false_iff, Bool.or_eq_false_iff,
            Bool.or_eq_false_iff] at hcontains
          exact hcontains.1.1.1
        have hothers : newIds (es.filterMap Prod.fst)
              { p with ready := (p.ready.insert id t).2 }
            = (p.newIds (es.filterMap Prod.fst)).erase id := by
          ext j
          rw [newIds, newIds, Finset.mem_filter, Finset.mem_erase, Finset.mem_filter,
            containsTransmission_insert, Bool.or_eq_false_iff, decide_eq_false_iff_not]
          tauto
        have hall : p.newIds (id :: es.filterMap Prod.fst)
            = insert id ((p.newIds (es.filterMap Prod.fst)).erase id) := by
          ext j
          by_cases hj : j = id
          · simp [newIds, hj, hcontains]
          · simp [newIds, hj]
        rw [receive, if_neg (Bool.eq_false_iff.mp hcontains), hall, Finset.filter_insert, hothers,
          hm hready]
        cases hcounted : counted id with
        | true =>
          rw [if_pos rfl, if_pos rfl, Finset.card_insert_of_notMem (by simp)]
          omega
        | false => rfl

end Primary

/-- The ID under which a solution that is sent gets into the queue of the worker, if it passes the
checks. -/
def Checks.admitSolution [Network] (checks : Checks) (solution : Solution) :
    Option TransmissionID :=
  match Network.solutionChecksum (.object solution) with
  | .error _ => none
  | .ok checksum =>
    if checks.checkSolutionBasic.isOk then some (.solution solution.id checksum) else none

/-- The ID under which a transaction that is sent gets there. -/
def Checks.admitTransaction [Network] (checks : Checks) (transaction : Transaction) :
    Option TransmissionID :=
  match Network.transactionChecksum (.object transaction) with
  | .error _ => none
  | .ok checksum =>
    if checks.deserialized.isOk && checks.checkTransactionBasic.isOk then
      some (.transaction transaction.id checksum)
    else none

lemma Checks.admitTransaction_spec [Network] {checks : Checks} {transaction : Transaction}
    {id : TransmissionID} (h : checks.admitTransaction transaction = some id) :
    ∃ checksum, id = .transaction transaction.id checksum := by
  unfold admitTransaction at h
  split at h
  · cases h
  · split at h
    · cases h
      exact ⟨_, rfl⟩
    · cases h

namespace Primary

variable {S V : Type} [StorageService S] [Ledger V] [Network]

/-- **What becomes of a solution that is sent.** -/
lemma processUnconfirmedSolution_eq (checks : Checks) (solution : Solution) (p : Primary S V) :
    (p.processUnconfirmedSolution checks solution.id (.object solution)).2
      = p.receive (checks.admitSolution solution, .solution (.object solution)) := by
  unfold processUnconfirmedSolution Checks.admitSolution
  cases Network.solutionChecksum (.object solution) with
  | error e => rfl
  | ok checksum =>
    dsimp only [orStop, Except.mapError, attempt]
    cases checks.checkSolutionBasic with
    | error stop => split <;> rfl
    | ok u =>
      change _ = p.receive (some (.solution solution.id checksum), _)
      rw [receive]
      split <;> rfl

/-- **What becomes of a transaction that is sent.** -/
lemma processUnconfirmedTransaction_eq (checks : Checks) (transaction : Transaction)
    (p : Primary S V) :
    (p.processUnconfirmedTransaction checks transaction.id (.object transaction)).2
      = p.receive (checks.admitTransaction transaction, .transaction (.object transaction)) := by
  unfold processUnconfirmedTransaction Checks.admitTransaction
  cases Network.transactionChecksum (.object transaction) with
  | error e => rfl
  | ok checksum =>
    dsimp only [orStop, Except.mapError, attempt]
    cases checks.deserialized with
    | error stop => split <;> rfl
    | ok u =>
      cases checks.checkTransactionBasic with
      | error stop => split <;> rfl
      | ok u =>
        change _ = p.receive (some (.transaction transaction.id checksum), _)
        rw [receive]
        split <;> rfl

/-- **The drain loop of a batch adds nothing to the queue.** -/
lemma drained_drain (p : Primary S V) (checks : TransmissionID → Checks) (n : ℕ) {d : Draining}
    (h : d.ready.Valid) : Ready.Drained d.ready (p.drain checks n d).2.ready := by
  induction n generalizing d with
  | zero => exact ⟨Nat.le_refl _, Nat.le_refl _⟩
  | succ n ih =>
    rw [drain]
    cases hfront : d.ready.transmissions with
    | nil =>
      rw [Ready.removeFront_nil hfront]
      exact ⟨Nat.le_refl _, Nat.le_refl _⟩
    | cons e rest =>
      obtain ⟨id, t⟩ := e
      obtain ⟨ready, hremove, -, hvalid⟩ := h.removeFront_cons hfront
      have hone := Ready.drained_removeFront hremove
      have hrest : ∀ d' : Draining, d'.ready = ready →
          Ready.Drained ready (p.drain checks n d').2.ready := by
        rintro d' rfl
        exact ih hvalid
      rw [hremove]
      dsimp only
      split
      · exact hone
      · split
        · exact hone
        · split
          · exact hone.trans (hrest _ rfl)
          · exact hone.trans (hrest _ rfl)
          · exact h.drained_reinsert hremove
          · exact hone

end Primary

/-! ### What is sent -/

namespace Consensus

variable {S V : Type} [StorageService S] [Ledger V] [ConsensusNetwork] {c : Consensus S V}
  {clone : Clone}

/-- The queued solutions that a clone sends, from the one used least recently on: as many as it
finds room for as far as solutions go. -/
def nextSolutions (clone : Clone) (c : Consensus S V) : List Solution :=
  if c.numUnconfirmedTransmissions clone ≥ maxTransmissionsTolerance then []
  else (c.solutionsQueue.entries.reverse.take
    (ConsensusNetwork.maxSolutions - c.numUnconfirmedSolutions clone)).map Prod.snd

/-- The queued transactions that a clone sends, from those used least recently on: as many as it
finds room for, and at most one deployment. -/
def nextTransactions (clone : Clone) (c : Consensus S V) : List Transaction :=
  let capacity := maxTransmissionsTolerance - c.numUnconfirmedTransmissions clone
  let deployments := c.transactionsQueue.deployments.entries.reverse.take
    (min capacity maxDeploymentsPerInterval)
  let executions := c.transactionsQueue.executions.entries.reverse.take
    (capacity - deployments.length)
  (deployments ++ executions).map Prod.snd

/-- The worker has no more than is tolerated. -/
structure Within (c : Consensus S V) : Prop where
  transmissions : c.primary.ready.numTransmissions ≤ maxTransmissionsTolerance
  solutions : c.primary.ready.numSolutions ≤ ConsensusNetwork.maxSolutions

instance (c : Consensus S V) : Decidable c.Within :=
  decidable_of_iff (c.primary.ready.numTransmissions ≤ maxTransmissionsTolerance ∧
    c.primary.ready.numSolutions ≤ ConsensusNetwork.maxSolutions)
    ⟨fun h => ⟨h.1, h.2⟩, fun h => ⟨h.1, h.2⟩⟩

/-- The worker has room for those of some transmissions that the primary does not contain. -/
structure Room (ids : List TransmissionID) (c : Consensus S V) : Prop where
  transmissions : c.primary.ready.numTransmissions + (c.primary.newIds ids).card
    ≤ maxTransmissionsTolerance
  solutions : c.primary.ready.numSolutions + ((c.primary.newIds ids).filter (·.isSolution)).card
    ≤ ConsensusNetwork.maxSolutions

/-- The worker has room for the solutions that a clone sends, as far as they pass the checks. -/
def SolutionsFit (clone : Clone) (checks : SolutionID → Checks) (c : Consensus S V) : Prop :=
  c.Room ((c.nextSolutions clone).filterMap fun s => (checks s.id).admitSolution s)

/-- The worker has room for the transactions that a clone sends, as far as they pass the checks. -/
def TransactionsFit (clone : Clone) (checks : TransactionID → Checks) (c : Consensus S V) : Prop :=
  c.Room ((c.nextTransactions clone).filterMap fun t => (checks t.id).admitTransaction t)

/-- **What the worker received** stays within what is tolerated just when there is room for it. -/
lemma within_receive (es : List (Option TransmissionID × Transmission)) {d : Consensus S V}
    (hd : d.primary = es.foldl Primary.receive c.primary) :
    d.Within ↔ c.Room (es.filterMap Prod.fst) := by
  have htransmissions := Primary.count_receive Ready.numTransmissions (fun _ => true)
    Ready.numTransmissions_insert es c.primary
  have hsolutions := Primary.count_receive Ready.numSolutions TransmissionID.isSolution
    Ready.numSolutions_insert es c.primary
  rw [Finset.filter_true_of_mem fun _ _ => rfl, ← hd] at htransmissions
  rw [← hd] at hsolutions
  constructor
  · intro h
    exact ⟨htransmissions ▸ h.transmissions, hsolutions ▸ h.solutions⟩
  · intro h
    exact ⟨htransmissions ▸ h.transmissions, hsolutions ▸ h.solutions⟩

lemma within_sendSolutions (checks : SolutionID → Checks) (solutions : List Solution)
    {d : Consensus S V} (hd : d.primary = c.primary) :
    (solutions.foldl (sendSolution checks) d).Within
      ↔ c.Room (solutions.filterMap fun s => (checks s.id).admitSolution s) := by
  have hsent : ∀ d : Consensus S V, (solutions.foldl (sendSolution checks) d).primary
      = (solutions.map fun s => ((checks s.id).admitSolution s,
          Transmission.solution (.object s))).foldl Primary.receive d.primary := by
    induction solutions with
    | nil => exact fun d => rfl
    | cons s solutions ih =>
      intro d
      rw [List.foldl_cons, ih, List.map_cons, List.foldl_cons,
        ← Primary.processUnconfirmedSolution_eq]
      rfl
  refine (within_receive _ (hd ▸ hsent d)).trans ?_
  rw [List.filterMap_map]
  rfl

lemma within_sendTransactions (checks : TransactionID → Checks) (transactions : List Transaction)
    {d : Consensus S V} (hd : d.primary = c.primary) :
    (transactions.foldl (sendTransaction checks) d).Within
      ↔ c.Room (transactions.filterMap fun t => (checks t.id).admitTransaction t) := by
  have hsent : ∀ d : Consensus S V, (transactions.foldl (sendTransaction checks) d).primary
      = (transactions.map fun t => ((checks t.id).admitTransaction t,
          Transmission.transaction (.object t))).foldl Primary.receive d.primary := by
    induction transactions with
    | nil => exact fun d => rfl
    | cons t transactions ih =>
      intro d
      rw [List.foldl_cons, ih, List.map_cons, List.foldl_cons,
        ← Primary.processUnconfirmedTransaction_eq]
      rfl
  refine (within_receive _ (hd ▸ hsent d)).trans ?_
  rw [List.filterMap_map]
  rfl

/-! ### What one call sends -/

/-- **`process_unconfirmed_solutions` stays within what is tolerated** just when the solutions
fit. -/
lemma within_processUnconfirmedSolutions (clone : Clone) (checks : SolutionID → Checks)
    (c : Consensus S V) :
    (c.processUnconfirmedSolutions clone checks).2.Within ↔ c.SolutionsFit clone checks := by
  unfold processUnconfirmedSolutions SolutionsFit
  dsimp only
  split
  · next hfull =>
    -- nothing is sent
    have hnone : c.nextSolutions clone = [] := by
      rw [nextSolutions]
      rcases hfull with hsolutions | htransmissions
      · rw [Nat.sub_eq_zero_of_le hsolutions, List.take_zero, List.map_nil, ite_self]
      · exact if_pos htransmissions
    rw [hnone]
    exact within_receive [] rfl
  · next hroom =>
    obtain ⟨hsolutions, htransmissions⟩ := not_or.mp hroom
    have hpopped : (c.solutionsQueue.popLrus (min c.solutionsQueue.len
        (ConsensusNetwork.maxSolutions - c.numUnconfirmedSolutions clone))).1.map Prod.snd
          = c.nextSolutions clone := by
      obtain ⟨hentries, hlen, -⟩ := c.solutionsQueue.popLrus_spec (min c.solutionsQueue.len
        (ConsensusNetwork.maxSolutions - c.numUnconfirmedSolutions clone))
      rw [nextSolutions, if_neg htransmissions, ← LruCache.eq_take_of_append hentries (by omega)]
    rw [hpopped]
    exact within_sendSolutions checks _ rfl

omit [StorageService S] [Ledger V] [ConsensusNetwork] in
lemma interleave_perm {α : Type} (as bs : List α) : (interleave as bs).Perm (as ++ bs) := by
  fun_induction interleave as bs with
  | case1 bs => exact .refl _
  | case2 a as bs ih => exact (ih.trans List.perm_append_comm).cons a

lemma room_perm {ids ids' : List TransmissionID} (h : ids.Perm ids') :
    c.Room ids ↔ c.Room ids' := by
  have hsame : c.primary.newIds ids = c.primary.newIds ids' := by
    rw [Primary.newIds, Primary.newIds, List.toFinset_eq_of_perm _ _ h]
  constructor
  · intro hroom
    exact ⟨hsame ▸ hroom.transmissions, hsame ▸ hroom.solutions⟩
  · intro hroom
    exact ⟨hsame ▸ hroom.transmissions, hsame ▸ hroom.solutions⟩

/-- **`process_unconfirmed_transactions` stays within what is tolerated** just when the transactions
fit. -/
lemma within_processUnconfirmedTransactions (clone : Clone) (checks : TransactionID → Checks)
    (c : Consensus S V) :
    (c.processUnconfirmedTransactions clone checks).2.Within
      ↔ c.TransactionsFit clone checks := by
  unfold processUnconfirmedTransactions TransactionsFit
  dsimp only
  split
  · next hfull =>
    -- nothing is sent
    have hnone : c.nextTransactions clone = [] := by
      rw [nextTransactions, Nat.sub_eq_zero_of_le hfull]
      simp
    rw [hnone]
    exact within_receive [] rfl
  · next hroom =>
    set numDeployments := min (min c.transactionsQueue.deployments.len
      (maxTransmissionsTolerance - c.numUnconfirmedTransmissions clone)) maxDeploymentsPerInterval
      with hdeployments
    set selector := interleave (List.replicate numDeployments true) (List.replicate _ false)
      with hselector
    obtain ⟨deployments, executions, hd, he, -, -, hperm, hlend, hlene⟩ :=
      c.transactionsQueue.drain_spec selector
    rw [hselector, (interleave_perm _ _).count_eq, List.count_append, List.count_replicate_self,
      List.count_replicate, if_neg (by decide), Nat.add_zero] at hlend
    rw [hselector, (interleave_perm _ _).count_eq, List.count_append, List.count_replicate_self,
      List.count_replicate, if_neg (by decide), Nat.zero_add] at hlene
    have hdrained : (c.transactionsQueue.drain selector).1.Perm (c.nextTransactions clone) := by
      have hfirst := LruCache.eq_take_of_append (n := min (maxTransmissionsTolerance
        - c.numUnconfirmedTransmissions clone) maxDeploymentsPerInterval) hd (by omega)
      have hsecond := LruCache.eq_take_of_append (n := maxTransmissionsTolerance
        - c.numUnconfirmedTransmissions clone - deployments.length) he (by omega)
      rw [nextTransactions, ← hfirst, ← hsecond]
      exact hperm
    refine Iff.trans ?_ (room_perm (hdrained.filterMap _))
    exact within_sendTransactions checks _ rfl

/-- A clone that has the worker finds the room that there is. -/
lemma Within.transactionsFit (h : c.Within) (checks : TransactionID → Checks) :
    c.TransactionsFit .running checks := by
  have hle : (c.nextTransactions .running).length
      ≤ maxTransmissionsTolerance - c.primary.ready.numTransmissions := by
    simp only [nextTransactions, numUnconfirmedTransmissions, List.length_map,
      List.length_append, List.length_take]
    omega
  unfold TransactionsFit
  generalize hids : (c.nextTransactions .running).filterMap
    (fun t => (checks t.id).admitTransaction t) = ids
  have hcard : (c.primary.newIds ids).card ≤ ids.length :=
    (Finset.card_filter_le _ _).trans (List.toFinset_card_le ids)
  have hlen : ids.length ≤ (c.nextTransactions .running).length :=
    hids ▸ List.length_filterMap_le _ _
  have hnone : (c.primary.newIds ids).filter (·.isSolution) = ∅ := by
    refine Finset.filter_false_of_mem fun id hid => ?_
    rw [Primary.newIds, Finset.mem_filter, List.mem_toFinset, ← hids, List.mem_filterMap] at hid
    obtain ⟨⟨t, -, hadmit⟩, -⟩ := hid
    obtain ⟨checksum, rfl⟩ := Checks.admitTransaction_spec hadmit
    exact Bool.false_ne_true
  have htransmissions := h.transmissions
  refine ⟨by omega, ?_⟩
  rw [hnone]
  exact h.solutions

/-! ### What is queued -/

/-- A solution is queued: its bytes have a checksum, it was not seen recently, and the ledger does
not have it. -/
def queuesSolution (contains : Except String Bool) (solution : Solution) (c : Consensus S V) :
    Bool :=
  match Network.solutionChecksum (.buffer solution.bytes), contains with
  | .ok _, .ok false => !(c.seenSolutions.peek solution.id).isSome
  | _, _ => false

/-- Consensus with a solution queued. -/
def withSolution (solution : Solution) (c : Consensus S V) : Consensus S V :=
  { c with
    seenSolutions := c.seenSolutions.put solution.id ()
    solutionsQueue := c.solutionsQueue.put solution.id solution }

/-- A transaction is queued: moreover it is no fee. -/
def queuesTransaction (contains : Except String Bool) (transaction : Transaction)
    (c : Consensus S V) : Bool :=
  match Network.transactionChecksum (.buffer transaction.bytes), contains with
  | .ok _, .ok false =>
    !ConsensusNetwork.isFee transaction && !(c.seenTransactions.peek transaction.id).isSome
  | _, _ => false

/-- What the queue of its kind has under the ID of a transaction. -/
def pooled (c : Consensus S V) (transaction : Transaction) : Option Transaction :=
  let q := c.transactionsQueue
  (if ConsensusNetwork.isDeploy transaction then q.deployments else q.executions).peek
    transaction.id

/-- Consensus with a transaction queued, among those of its kind. -/
def withTransaction (transaction : Transaction) (c : Consensus S V) : Consensus S V :=
  let q := c.transactionsQueue
  { c with
    seenTransactions := c.seenTransactions.put transaction.id ()
    transactionsQueue :=
      if ConsensusNetwork.isDeploy transaction then
        { q with deployments := q.deployments.put transaction.id transaction }
      else { q with executions := q.executions.put transaction.id transaction } }

/-- From one state to the other, those used least recently leave the queues, and these are handed
to the primary. The others stay, in their order. -/
structure HandsOn (c d : Consensus S V) : Prop where
  solutions : ∃ sent : List (SolutionID × Solution),
    d.solutionsQueue.entries ++ sent.reverse = c.solutionsQueue.entries ∧
    d.sentSolutions = c.sentSolutions ++ (sent.map Prod.snd).map Solution.id
  transactions : ∃ (deployments executions : List (TransactionID × Transaction))
      (sent : List Transaction),
    d.transactionsQueue.deployments.entries ++ deployments.reverse
      = c.transactionsQueue.deployments.entries ∧
    d.transactionsQueue.executions.entries ++ executions.reverse
      = c.transactionsQueue.executions.entries ∧
    sent.Perm ((deployments ++ executions).map Prod.snd) ∧
    d.sentTransactions = c.sentTransactions ++ sent.map Transaction.id

omit [StorageService S] [Ledger V] [ConsensusNetwork] in
lemma HandsOn.of_same {d : Consensus S V} (hsolutions : d.solutionsQueue = c.solutionsQueue)
    (htransactions : d.transactionsQueue = c.transactionsQueue)
    (hsentSolutions : d.sentSolutions = c.sentSolutions)
    (hsentTransactions : d.sentTransactions = c.sentTransactions) : HandsOn c d := by
  constructor
  · refine ⟨[], ?_, ?_⟩
    · rw [hsolutions, List.reverse_nil, List.append_nil]
    · rw [hsentSolutions, List.map_nil, List.map_nil, List.append_nil]
  · refine ⟨[], [], [], ?_, ?_, .refl _, ?_⟩
    · rw [htransactions, List.reverse_nil, List.append_nil]
    · rw [htransactions, List.reverse_nil, List.append_nil]
    · rw [hsentTransactions, List.map_nil, List.append_nil]

omit [StorageService S] [Ledger V] [ConsensusNetwork] in
lemma HandsOn.refl (c : Consensus S V) : HandsOn c c := HandsOn.of_same rfl rfl rfl rfl

lemma handsOn_processUnconfirmedSolutions (clone : Clone) (checks : SolutionID → Checks)
    (c : Consensus S V) : HandsOn c (c.processUnconfirmedSolutions clone checks).2 := by
  obtain ⟨n, primary, heq⟩ := processUnconfirmedSolutions_spec clone checks c
  obtain ⟨hentries, -, -⟩ := c.solutionsQueue.popLrus_spec n
  have hsame := HandsOn.refl c
  rw [heq]
  exact ⟨⟨_, hentries, rfl⟩, hsame.transactions⟩

lemma handsOn_processUnconfirmedTransactions (clone : Clone) (checks : TransactionID → Checks)
    (c : Consensus S V) : HandsOn c (c.processUnconfirmedTransactions clone checks).2 := by
  obtain ⟨selector, primary, heq⟩ := processUnconfirmedTransactions_spec clone checks c
  obtain ⟨deployments, executions, hd, he, -, -, hperm, -⟩ :=
    c.transactionsQueue.drain_spec selector
  have hsame := HandsOn.refl c
  rw [heq]
  exact ⟨hsame.solutions, deployments, executions, _, hd, he, hperm, rfl⟩

/-- **`add_unconfirmed_solution`** queues the solution, and processes the queue if it was not
there. -/
lemma addUnconfirmedSolution_spec (clone : Clone) (contains : Except String Bool)
    (checks : SolutionID → Checks) (solution : Solution) (c : Consensus S V) :
    (c.queuesSolution contains solution = true ∧
      (c.addUnconfirmedSolution clone contains checks solution).2 =
        if (c.solutionsQueue.peek solution.id).isSome then c.withSolution solution
        else ((c.withSolution solution).processUnconfirmedSolutions clone checks).2) ∨
    (c.queuesSolution contains solution = false ∧ ∃ seenSolutions,
      (c.addUnconfirmedSolution clone contains checks solution).2 = { c with seenSolutions }) := by
  unfold queuesSolution addUnconfirmedSolution
  cases Network.solutionChecksum (.buffer solution.bytes) with
  | error e => exact .inr ⟨rfl, c.seenSolutions, rfl⟩
  | ok checksum =>
    dsimp only
    cases hseen : (c.seenSolutions.peek solution.id).isSome with
    | true =>
      refine .inr ⟨?_, _, rfl⟩
      match contains with
      | .error e => rfl
      | .ok true => rfl
      | .ok false => rfl
    | false =>
      match contains with
      | .error e => exact .inr ⟨rfl, _, rfl⟩
      | .ok true => exact .inr ⟨rfl, _, rfl⟩
      | .ok false =>
        refine .inl ⟨rfl, ?_⟩
        rw [if_neg Bool.false_ne_true]
        dsimp only
        split
        · rfl
        · rfl

/-- **`add_unconfirmed_transaction`** queues the transaction, and processes the queues if it was
not there. -/
lemma addUnconfirmedTransaction_spec (clone : Clone) (contains : Except String Bool)
    (checks : TransactionID → Checks) (transaction : Transaction) (c : Consensus S V) :
    (c.queuesTransaction contains transaction = true ∧
      (c.addUnconfirmedTransaction clone contains checks transaction).2 =
        if (c.pooled transaction).isSome then c.withTransaction transaction
        else ((c.withTransaction transaction).processUnconfirmedTransactions clone checks).2) ∨
    (c.queuesTransaction contains transaction = false ∧ ∃ seenTransactions,
      (c.addUnconfirmedTransaction clone contains checks transaction).2
        = { c with seenTransactions }) := by
  unfold queuesTransaction addUnconfirmedTransaction
  cases Network.transactionChecksum (.buffer transaction.bytes) with
  | error e => exact .inr ⟨rfl, c.seenTransactions, rfl⟩
  | ok checksum =>
    dsimp only
    cases hfee : ConsensusNetwork.isFee transaction with
    | true =>
      refine .inr ⟨?_, c.seenTransactions, rfl⟩
      match contains with
      | .error e => rfl
      | .ok true => rfl
      | .ok false => rfl
    | false =>
      cases hseen : (c.seenTransactions.peek transaction.id).isSome with
      | true =>
        refine .inr ⟨?_, _, rfl⟩
        match contains with
        | .error e => rfl
        | .ok true => rfl
        | .ok false => rfl
      | false =>
        match contains with
        | .error e => exact .inr ⟨rfl, _, rfl⟩
        | .ok true => exact .inr ⟨rfl, _, rfl⟩
        | .ok false =>
          refine .inl ⟨rfl, ?_⟩
          rw [if_neg Bool.false_ne_true, if_neg Bool.false_ne_true]
          unfold withTransaction pooled
          dsimp only
          cases ConsensusNetwork.isDeploy transaction with
          | true =>
            simp only [if_true]
            split <;> rfl
          | false =>
            simp only [Bool.false_eq_true, if_false]
            split <;> rfl

end Consensus

/-! ### Calls -/

namespace ConsensusCall

variable {S V : Type} [StorageService S] [Ledger V] [ConsensusNetwork] {c : Consensus S V}

/-- Consensus with the item of a call queued, if the call comes to queue it. -/
def queued (c : Consensus S V) : ConsensusCall S V → Consensus S V
  | .addUnconfirmedTransaction _ contains _ transaction =>
    if c.queuesTransaction contains transaction then c.withTransaction transaction else c
  | .addUnconfirmedSolution _ contains _ solution =>
    if c.queuesSolution contains solution then c.withSolution solution else c
  | _ => c

/-- What becomes of the primary adds nothing to the worker: batches are drained. -/
def Drains (c : Consensus S V) : ConsensusCall S V → Prop
  | .other primary => Ready.Drained c.primary.ready primary.ready
  | _ => True

/-- What a call sends fits. Transactions that are sent by a clone with the worker always do. -/
def Fits (c : Consensus S V) : ConsensusCall S V → Prop
  | .addUnconfirmedTransaction clone contains checks transaction =>
    clone = .handler → c.queuesTransaction contains transaction = true →
      c.pooled transaction = none → (c.withTransaction transaction).TransactionsFit clone checks
  | .addUnconfirmedSolution clone contains checks solution =>
    c.queuesSolution contains solution = true → solution.id ∉ c.solutionsQueue.keys →
      (c.withSolution solution).SolutionsFit clone checks
  | .processUnconfirmedTransactions clone checks =>
    clone = .handler → c.TransactionsFit clone checks
  | .processUnconfirmedSolutions clone checks => c.SolutionsFit clone checks
  | .other _ => True

/-- **What a call leaves in the queues** stays in its order. -/
lemma handsOn_run (c : Consensus S V) (call : ConsensusCall S V) :
    Consensus.HandsOn (call.queued c) (call.run c).2 := by
  cases call with
  | addUnconfirmedTransaction clone contains checks transaction =>
    rw [run, queued]
    rcases Consensus.addUnconfirmedTransaction_spec clone contains checks transaction c with
      ⟨hqueues, hadd⟩ | ⟨hqueues, seen, hadd⟩
    · rw [hadd, hqueues, if_pos rfl]
      split
      · exact .refl _
      · exact Consensus.handsOn_processUnconfirmedTransactions clone checks _
    · rw [hadd, hqueues, if_neg Bool.false_ne_true]
      exact .of_same rfl rfl rfl rfl
  | addUnconfirmedSolution clone contains checks solution =>
    rw [run, queued]
    rcases Consensus.addUnconfirmedSolution_spec clone contains checks solution c with
      ⟨hqueues, hadd⟩ | ⟨hqueues, seen, hadd⟩
    · rw [hadd, hqueues, if_pos rfl]
      split
      · exact .refl _
      · exact Consensus.handsOn_processUnconfirmedSolutions clone checks _
    · rw [hadd, hqueues, if_neg Bool.false_ne_true]
      exact .of_same rfl rfl rfl rfl
  | processUnconfirmedTransactions clone checks =>
    exact Consensus.handsOn_processUnconfirmedTransactions clone checks c
  | processUnconfirmedSolutions clone checks =>
    exact Consensus.handsOn_processUnconfirmedSolutions clone checks c
  | other primary => exact .of_same rfl rfl rfl rfl

lemma transactionsFit_iff (h : c.Within) (clone : Consensus.Clone)
    (checks : TransactionID → Checks) :
    c.TransactionsFit clone checks ↔ (clone = .handler → c.TransactionsFit clone checks) := by
  cases clone with
  | handler => exact (imp_iff_right rfl).symm
  | running => exact iff_of_true (h.transactionsFit checks) fun hclone => (by cases hclone)

/-- **What one call does to the worker**: it stays within what is tolerated just when what is sent
fits. -/
lemma within_run_iff (h : c.Within) (call : ConsensusCall S V) (hdrains : call.Drains c) :
    (call.run c).2.Within ↔ call.Fits c := by
  cases call with
  | addUnconfirmedTransaction clone contains checks transaction =>
    have hqueued : (c.withTransaction transaction).Within := ⟨h.transmissions, h.solutions⟩
    rw [run, Fits]
    rcases Consensus.addUnconfirmedTransaction_spec clone contains checks transaction c with
      ⟨hqueues, hadd⟩ | ⟨hqueues, seen, hadd⟩
    · rw [hadd, imp_iff_right hqueues]
      split
      · next hpool =>
        refine iff_of_true hqueued fun _ hnone => ?_
        rw [hnone] at hpool
        cases hpool
      · next hpool =>
        rw [imp_iff_right (Option.not_isSome_iff_eq_none.mp hpool), ← transactionsFit_iff hqueued]
        exact Consensus.within_processUnconfirmedTransactions clone checks _
    · rw [hadd, hqueues]
      exact iff_of_true ⟨h.transmissions, h.solutions⟩ fun _ hnot =>
        absurd hnot Bool.false_ne_true
  | addUnconfirmedSolution clone contains checks solution =>
    rw [run, Fits]
    rcases Consensus.addUnconfirmedSolution_spec clone contains checks solution c with
      ⟨hqueues, hadd⟩ | ⟨hqueues, seen, hadd⟩
    · rw [hadd, imp_iff_right hqueues, ← LruCache.peek_isSome]
      split
      · next hpool =>
        exact iff_of_true ⟨h.transmissions, h.solutions⟩ fun hnot => absurd hpool hnot
      · next hpool =>
        rw [imp_iff_right hpool]
        exact Consensus.within_processUnconfirmedSolutions clone checks _
    · rw [hadd, hqueues]
      exact iff_of_true ⟨h.transmissions, h.solutions⟩ fun hnot => absurd hnot Bool.false_ne_true
  | processUnconfirmedTransactions clone checks =>
    rw [Fits, ← transactionsFit_iff h]
    exact Consensus.within_processUnconfirmedTransactions clone checks c
  | processUnconfirmedSolutions clone checks =>
    exact Consensus.within_processUnconfirmedSolutions clone checks c
  | other primary =>
    exact iff_of_true ⟨hdrains.transmissions.trans h.transmissions,
      hdrains.solutions.trans h.solutions⟩ trivial

end ConsensusCall

/-- **The tolerance of the primary**: along a sequence of calls on any clones, between which batches
are drained, every call leaves the worker within what is tolerated, and what is not sent in its
order in the queues, just when what each call sends fits. -/
theorem tolerance_kept {S V : Type} [StorageService S] [Ledger V] [ConsensusNetwork]
    (p : Primary S V) (calls : List (ConsensusCall S V)) (h : (Consensus.new p).Within)
    (hdrains : ∀ done call, done ++ [call] <+: calls →
      call.Drains ((Consensus.new p).after done)) :
    (∀ done call, done ++ [call] <+: calls →
      (call.run ((Consensus.new p).after done)).2.Within ∧
      Consensus.HandsOn (call.queued ((Consensus.new p).after done))
        (call.run ((Consensus.new p).after done)).2) ↔
      ∀ done call, done ++ [call] <+: calls → call.Fits ((Consensus.new p).after done) := by
  constructor
  · intro hall done call hdone
    have hbefore : ((Consensus.new p).after done).Within := by
      rcases List.eq_nil_or_concat done with rfl | ⟨done, last, rfl⟩
      · exact h
      · rw [List.concat_eq_append] at hdone ⊢
        rw [Consensus.after_concat]
        exact (hall done last ((List.prefix_append _ _).trans hdone)).1
    exact (call.within_run_iff hbefore (hdrains done call hdone)).mp
      (hall done call hdone).1
  · intro hfits
    have hbefore : ∀ done, done <+: calls → ((Consensus.new p).after done).Within := by
      intro done hdone
      induction done using List.reverseRecOn with
      | nil => exact h
      | append_singleton done call ih =>
        rw [Consensus.after_concat]
        exact (call.within_run_iff (ih ((List.prefix_append _ _).trans hdone))
          (hdrains done call hdone)).mpr (hfits done call hdone)
    intro done call hdone
    refine ⟨?_, call.handsOn_run _⟩
    exact (call.within_run_iff (hbefore done ((List.prefix_append _ _).trans hdone))
      (hdrains done call hdone)).mpr (hfits done call hdone)

section Example

/-- A worker with executions in its queue. -/
def busyWorker (n : ℕ) : Ready :=
  (List.range n).foldl (fun r i =>
    (r.insert (.transaction i 0) (.transaction (.object ⟨i, [1]⟩))).2) Ready.new

/-- A node with a worker. -/
def busyNode (ready : Ready) : Primary BFTMemoryService Chain :=
  { newNode (developmentLedger []) with ready }

lemma valid_busyWorker (n : ℕ) : (busyWorker n).Valid :=
  List.foldlRecOn (motive := Ready.Valid) _ _ Ready.valid_new fun _ h _ _ => h.insert _ _

/-- The consensus that an execution and a solution came in to, while the worker had as much as is
tolerated. -/
def fullConsensus : Consensus BFTMemoryService Chain :=
  let _ := developmentConsensus
  (Consensus.new (busyNode (busyWorker 100))).after
    [.addUnconfirmedTransaction .running (.ok false) (fun _ => passing) ⟨100, [1]⟩,
      .addUnconfirmedSolution .running (.ok false) (fun _ => passing) ⟨1, [1]⟩]

/-- The handler comes to the transactions. -/
def handlerTurn : ConsensusCall BFTMemoryService Chain :=
  .processUnconfirmedTransactions .handler fun _ => passing

/-- A transmission is drained from the worker. -/
def drainOne : ConsensusCall BFTMemoryService Chain :=
  .other (busyNode (busyWorker 100).removeFront.2)

lemma drains_busyNode {c : Consensus BFTMemoryService Chain} {ready : Ready} :
    ConsensusCall.Drains c (.other (busyNode ready)) ↔ Ready.Drained c.primary.ready ready :=
  Iff.rfl

/-- Another solution comes in. -/
def anotherSolution : ConsensusCall BFTMemoryService Chain :=
  .addUnconfirmedSolution .running (.ok false) (fun _ => passing) ⟨2, [2]⟩

/-- The handler finds room in a full worker; and where there is room for one transmission, two
solutions are sent. -/
theorem tolerance_exceeded :
    let _ := developmentConsensus
    (Consensus.new (busyNode (busyWorker 100))).Within ∧ fullConsensus.Within ∧
      ¬ (handlerTurn.run fullConsensus).2.Within ∧
      drainOne.Drains fullConsensus ∧ (drainOne.run fullConsensus).2.Within ∧
      ¬ (anotherSolution.run (drainOne.run fullConsensus).2).2.Within := by
  let _ := developmentConsensus
  intro _
  have hdrains : Ready.Drained fullConsensus.primary.ready (busyWorker 100).removeFront.2 := by
    decide +kernel
  rw [drainOne, drains_busyNode, ← drainOne]
  have hall : (Consensus.new (busyNode (busyWorker 100))).Within ∧ fullConsensus.Within ∧
      ¬ (handlerTurn.run fullConsensus).2.Within ∧ (drainOne.run fullConsensus).2.Within ∧
      ¬ (anotherSolution.run (drainOne.run fullConsensus).2).2.Within := by
    decide +kernel
  exact ⟨hall.1, hall.2.1, hall.2.2.1, hdrains, hall.2.2.2⟩

/-- A batch is drained from the worker. -/
def drainBatch (p : Primary BFTMemoryService Chain) : ConsensusCall BFTMemoryService Chain :=
  let _ := developmentNetwork
  .other { p with
    ready := (p.drain (fun _ => passing) p.ready.numTransmissions ⟨p.ready, ∅, 0, 0⟩).2.ready }

lemma drainBatch_drains {ready : Ready} (h : ready.Valid) :
    (drainBatch (busyNode ready)).Drains (Consensus.new (busyNode ready)) := by
  let _ := developmentNetwork
  exact Primary.drained_drain (busyNode ready) _ _ (d := ⟨ready, ∅, 0, 0⟩) h

/-- A batch is drained, a solution comes in, and the handler comes to the transactions. -/
theorem tolerance_kept_example :
    let _ := developmentConsensus
    let calls := [drainBatch (busyNode (busyWorker 60)), anotherSolution, handlerTurn]
    ∀ done call, done ++ [call] <+: calls →
      (call.run ((Consensus.new (busyNode (busyWorker 60))).after done)).2.Within ∧
      Consensus.HandsOn (call.queued ((Consensus.new (busyNode (busyWorker 60))).after done))
        (call.run ((Consensus.new (busyNode (busyWorker 60))).after done)).2 := by
  let _ := developmentConsensus
  intro _ calls
  have hwithin : (Consensus.new (busyNode (busyWorker 60))).Within := by decide +kernel
  have hsplit : ∀ {done : List (ConsensusCall BFTMemoryService Chain)}
      {call : ConsensusCall BFTMemoryService Chain}, done ++ [call] <+: calls →
      (done = [] ∧ call = drainBatch (busyNode (busyWorker 60))) ∨
      (done = [drainBatch (busyNode (busyWorker 60))] ∧ call = anotherSolution) ∨
      (done = [drainBatch (busyNode (busyWorker 60)), anotherSolution] ∧ call = handlerTurn) := by
    rintro done call ⟨rest, h⟩
    rcases done with _ | ⟨a, _ | ⟨b, _ | ⟨c, done⟩⟩⟩
    · exact .inl ⟨rfl, (List.cons.inj h).1⟩
    · simp [calls] at h
      exact .inr (.inl ⟨by rw [h.1], h.2.1⟩)
    · simp [calls] at h
      exact .inr (.inr ⟨by rw [h.1, h.2.1], h.2.2.1⟩)
    · simp [calls] at h
  refine (tolerance_kept _ calls hwithin fun done call hdone => ?_).mpr fun done call hdone => ?_
  · rcases hsplit hdone with ⟨rfl, rfl⟩ | ⟨rfl, rfl⟩ | ⟨rfl, rfl⟩
    · exact drainBatch_drains (valid_busyWorker 60)
    · trivial
    · trivial
  · rcases hsplit hdone with ⟨rfl, rfl⟩ | ⟨rfl, rfl⟩ | ⟨rfl, rfl⟩
    · trivial
    · intro _ _
      exact ⟨by decide +kernel, by decide +kernel⟩
    · intro _
      exact ⟨by decide +kernel, by decide +kernel⟩

end Example

end AmareleoChain
