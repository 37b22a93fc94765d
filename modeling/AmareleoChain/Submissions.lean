import AmareleoChain.DevelopmentNode
import AmareleoChain.Library.Intake

/-!
A submission that is accepted is in the pipeline, unless one before it was lost.

The recently seen IDs are marked before the ledger is asked, and before the item is queued, where
it may push out another. A submission of an ID that is marked is accepted, and nothing is done. So
each accepted item is queued, or was handed to the primary, as long as no marked ID loses its item.
-/

namespace AmareleoChain

/-! ### Calls -/

/-- A call to a clone of consensus. -/
inductive ConsensusCall (S V : Type) where
  | addUnconfirmedTransaction (clone : Consensus.Clone) (contains : Except String Bool)
      (checks : TransactionID → Checks) (transaction : Transaction)
  | addUnconfirmedSolution (clone : Consensus.Clone) (contains : Except String Bool)
      (checks : SolutionID → Checks) (solution : Solution)
  | processUnconfirmedTransactions (clone : Consensus.Clone) (checks : TransactionID → Checks)
  | processUnconfirmedSolutions (clone : Consensus.Clone) (checks : SolutionID → Checks)
  /-- What becomes of the primary between two calls. -/
  | other (primary : Primary S V)

variable {S V : Type} [StorageService S] [Ledger V] [ConsensusNetwork]

/-- What a call answers, and consensus after it. -/
def ConsensusCall.run (c : Consensus S V) : ConsensusCall S V → Except String Unit × Consensus S V
  | .addUnconfirmedTransaction clone contains checks transaction =>
    c.addUnconfirmedTransaction clone contains checks transaction
  | .addUnconfirmedSolution clone contains checks solution =>
    c.addUnconfirmedSolution clone contains checks solution
  | .processUnconfirmedTransactions clone checks => c.processUnconfirmedTransactions clone checks
  | .processUnconfirmedSolutions clone checks => c.processUnconfirmedSolutions clone checks
  | .other primary => (.ok (), { c with primary })

/-- Consensus after a sequence of calls. -/
def Consensus.after (c : Consensus S V) (calls : List (ConsensusCall S V)) : Consensus S V :=
  calls.foldl (fun c call => (call.run c).2) c

lemma Consensus.after_concat (c : Consensus S V) (calls : List (ConsensusCall S V))
    (call : ConsensusCall S V) : c.after (calls ++ [call]) = (call.run (c.after calls)).2 := by
  rw [Consensus.after, List.foldl_concat]
  rfl

/-! ### What is drained -/

omit [StorageService S] [Ledger V] [ConsensusNetwork] in
/-- **What is drained** of the two queues is the end of each, from the entry used least recently
on, and as much as is selected and there. -/
lemma TransactionsQueue.drain_spec (selector : List Bool) (q : TransactionsQueue) :
    ∃ deployments executions : List (TransactionID × Transaction),
      (q.drain selector).2.deployments.entries ++ deployments.reverse = q.deployments.entries ∧
      (q.drain selector).2.executions.entries ++ executions.reverse = q.executions.entries ∧
      (q.drain selector).2.deployments.capacity = q.deployments.capacity ∧
      (q.drain selector).2.executions.capacity = q.executions.capacity ∧
      (q.drain selector).1.Perm ((deployments ++ executions).map Prod.snd) ∧
      deployments.length = min (selector.count true) q.deployments.len ∧
      executions.length = min (selector.count false) q.executions.len := by
  induction selector generalizing q with
  | nil =>
    exact ⟨[], [], List.append_nil _, List.append_nil _, rfl, rfl, .refl _,
      (Nat.zero_min _).symm, (Nat.zero_min _).symm⟩
  | cons selectDeployment selector ih =>
    cases selectDeployment with
    | true =>
      obtain ⟨deployments, executions, hd, he, hdc, hec, hperm, hlend, hlene⟩ :=
        ih { q with deployments := q.deployments.popLru.2 }
      refine ⟨q.deployments.popLru.1.toList ++ deployments, executions,
        LruCache.popLru_append hd, he, hdc, hec, ?_, ?_, ?_⟩
      · rw [List.append_assoc, List.map_append]
        exact hperm.append_left _
      · obtain ⟨hone, hrest⟩ := q.deployments.length_popLru
        rw [List.length_append, hlend, hone, hrest, List.count_cons_self]
        omega
      · rw [hlene, List.count_cons_of_ne (by decide)]
    | false =>
      obtain ⟨deployments, executions, hd, he, hdc, hec, hperm, hlend, hlene⟩ :=
        ih { q with executions := q.executions.popLru.2 }
      refine ⟨deployments, q.executions.popLru.1.toList ++ executions, hd,
        LruCache.popLru_append he, hdc, hec, ?_, ?_, ?_⟩
      · have hswap : ((deployments ++ (q.executions.popLru.1.toList ++ executions)).map
            Prod.snd).Perm ((q.executions.popLru.1.toList ++ (deployments ++ executions)).map
            Prod.snd) := (List.perm_append_comm_assoc _ _ _).map _
        refine List.Perm.trans ?_ hswap.symm
        rw [List.map_append]
        exact hperm.append_left _
      · rw [hlend, List.count_cons_of_ne (by decide)]
      · obtain ⟨hone, hrest⟩ := q.executions.length_popLru
        rw [List.length_append, hlene, hone, hrest, List.count_cons_self]
        omega

namespace Consensus

variable {c d : Consensus S V} {clone : Clone}

/-! ### What is handed on -/

/-- The intake of solutions. -/
def solutionsIntake (c : Consensus S V) : Intake Unit SolutionID Solution :=
  ⟨c.seenSolutions, fun _ => c.solutionsQueue, c.sentSolutions⟩

/-- The intake of transactions: deployments under `true`, executions under `false`. -/
def transactionsIntake (c : Consensus S V) : Intake Bool TransactionID Transaction :=
  ⟨c.seenTransactions, fun isDeploy =>
    if isDeploy then c.transactionsQueue.deployments else c.transactionsQueue.executions,
    c.sentTransactions⟩

/-- The queues have their items under their own IDs. -/
structure Keyed (c : Consensus S V) : Prop where
  solutions : ∀ e ∈ c.solutionsQueue.entries, e.1 = e.2.id
  deployments : ∀ e ∈ c.transactionsQueue.deployments.entries, e.1 = e.2.id
  executions : ∀ e ∈ c.transactionsQueue.executions.entries, e.1 = e.2.id

lemma foldl_sendSolution (checks : SolutionID → Checks) (solutions : List Solution)
    (c : Consensus S V) : ∃ primary, solutions.foldl (sendSolution checks) c =
      { c with primary, sentSolutions := c.sentSolutions ++ solutions.map Solution.id } := by
  induction solutions generalizing c with
  | nil => exact ⟨c.primary, by rw [List.map_nil, List.append_nil]; rfl⟩
  | cons solution solutions ih =>
    obtain ⟨primary, hprimary⟩ := ih (c.sendSolution checks solution)
    refine ⟨primary, ?_⟩
    rw [List.foldl_cons, hprimary, sendSolution, List.append_assoc]
    rfl

lemma foldl_sendTransaction (checks : TransactionID → Checks) (transactions : List Transaction)
    (c : Consensus S V) : ∃ primary, transactions.foldl (sendTransaction checks) c =
      { c with primary
               sentTransactions := c.sentTransactions ++ transactions.map Transaction.id } := by
  induction transactions generalizing c with
  | nil => exact ⟨c.primary, by rw [List.map_nil, List.append_nil]; rfl⟩
  | cons transaction transactions ih =>
    obtain ⟨primary, hprimary⟩ := ih (c.sendTransaction checks transaction)
    refine ⟨primary, ?_⟩
    rw [List.foldl_cons, hprimary, sendTransaction, List.append_assoc]
    rfl

/-- **What `process_unconfirmed_solutions` does**: it sends some of the solutions used least
recently. -/
lemma processUnconfirmedSolutions_spec (clone : Clone) (checks : SolutionID → Checks)
    (c : Consensus S V) : ∃ n primary, c.processUnconfirmedSolutions clone checks = (.ok (),
      { c with
        primary
        solutionsQueue := (c.solutionsQueue.popLrus n).2
        sentSolutions := c.sentSolutions
          ++ ((c.solutionsQueue.popLrus n).1.map Prod.snd).map Solution.id }) := by
  unfold processUnconfirmedSolutions
  dsimp only
  split
  · exact ⟨0, c.primary, by rw [LruCache.popLrus, List.map_nil, List.map_nil, List.append_nil]⟩
  · obtain ⟨primary, hprimary⟩ := foldl_sendSolution checks
      ((c.solutionsQueue.popLrus (min c.solutionsQueue.len
        (ConsensusNetwork.maxSolutions - c.numUnconfirmedSolutions clone))).1.map Prod.snd)
      { c with solutionsQueue := (c.solutionsQueue.popLrus (min c.solutionsQueue.len
        (ConsensusNetwork.maxSolutions - c.numUnconfirmedSolutions clone))).2 }
    rw [hprimary]
    exact ⟨_, primary, rfl⟩

/-- **What `process_unconfirmed_transactions` does**: it sends some of the transactions used least
recently. -/
lemma processUnconfirmedTransactions_spec (clone : Clone) (checks : TransactionID → Checks)
    (c : Consensus S V) :
    ∃ selector primary, c.processUnconfirmedTransactions clone checks = (.ok (),
      { c with
        primary
        transactionsQueue := (c.transactionsQueue.drain selector).2
        sentTransactions := c.sentTransactions
          ++ (c.transactionsQueue.drain selector).1.map Transaction.id }) := by
  unfold processUnconfirmedTransactions
  dsimp only
  split
  · exact ⟨[], c.primary, by rw [TransactionsQueue.drain, List.map_nil, List.append_nil]⟩
  · obtain ⟨primary, hprimary⟩ := foldl_sendTransaction checks (c.transactionsQueue.drain _).1
      { c with transactionsQueue := (c.transactionsQueue.drain _).2 }
    rw [hprimary]
    exact ⟨_, primary, rfl⟩

/-- Some queued items were handed on. -/
structure Handed (c d : Consensus S V) : Prop where
  solutions : Intake.Moved c.solutionsIntake d.solutionsIntake
  transactions : Intake.Moved c.transactionsIntake d.transactionsIntake
  keyed : d.Keyed

omit [StorageService S] [Ledger V] [ConsensusNetwork] in
lemma map_id_eq {α κ : Type} {id : α → κ} {l : List (κ × α)} (h : ∀ e ∈ l, e.1 = id e.2) :
    (l.map Prod.snd).map id = l.map Prod.fst := by
  rw [List.map_map]
  exact List.map_congr_left fun e he => (h e he).symm

lemma Keyed.processUnconfirmedSolutions (h : c.Keyed) (clone : Clone)
    (checks : SolutionID → Checks) : Handed c (c.processUnconfirmedSolutions clone checks).2 := by
  obtain ⟨n, primary, heq⟩ := processUnconfirmedSolutions_spec clone checks c
  obtain ⟨hentries, -, hcapacity⟩ := c.solutionsQueue.popLrus_spec n
  have hpopped : ∀ e ∈ (c.solutionsQueue.popLrus n).1, e.1 = e.2.id := by
    intro e he
    refine h.solutions e ?_
    rw [← hentries]
    exact List.mem_append_right _ (List.mem_reverse.mpr he)
  rw [heq, map_id_eq hpopped]
  refine ⟨Intake.Moved.of_entries (fun _ => (c.solutionsQueue.popLrus n).1.reverse) rfl
    (fun _ => hentries) (fun _ => hcapacity) fun k => ?_, Intake.Moved.refl _,
    fun e he => h.solutions e ?_, h.deployments, h.executions⟩
  · rw [exists_const, List.map_reverse, List.mem_reverse]
    exact List.mem_append
  · rw [← hentries]
    exact List.mem_append_left _ he

lemma Keyed.processUnconfirmedTransactions (h : c.Keyed) (clone : Clone)
    (checks : TransactionID → Checks) :
    Handed c (c.processUnconfirmedTransactions clone checks).2 := by
  obtain ⟨selector, primary, heq⟩ := processUnconfirmedTransactions_spec clone checks c
  obtain ⟨deployments, executions, hd, he, hdc, hec, hperm, -⟩ :=
    c.transactionsQueue.drain_spec selector
  have hmem : ∀ e ∈ deployments ++ executions, e.1 = e.2.id := by
    intro e hmem
    rcases List.mem_append.mp hmem with hmem | hmem
    · exact h.deployments e (hd ▸ List.mem_append_right _ (List.mem_reverse.mpr hmem))
    · exact h.executions e (he ▸ List.mem_append_right _ (List.mem_reverse.mpr hmem))
  have hsent : ∀ k, k ∈ (c.transactionsQueue.drain selector).1.map Transaction.id ↔
      k ∈ deployments.map Prod.fst ∨ k ∈ executions.map Prod.fst := by
    intro k
    rw [(hperm.map Transaction.id).mem_iff, map_id_eq hmem, List.map_append, List.mem_append]
  rw [heq]
  refine ⟨Intake.Moved.refl _, Intake.Moved.of_entries
    (fun isDeploy => (if isDeploy then deployments else executions).reverse) rfl
    (fun isDeploy => ?_) (fun isDeploy => ?_) fun k => ?_, h.solutions, fun e hmem => ?_,
    fun e hmem => ?_⟩
  · cases isDeploy with
    | true => exact hd
    | false => exact he
  · cases isDeploy with
    | true => exact hdc
    | false => exact hec
  · rw [Bool.exists_bool, List.map_reverse, List.map_reverse, List.mem_reverse, List.mem_reverse,
      or_comm (a := k ∈ (if false then deployments else executions).map Prod.fst)]
    exact List.mem_append.trans (or_congr_right (hsent k))
  · exact h.deployments e (hd ▸ List.mem_append_left _ hmem)
  · exact h.executions e (he ▸ List.mem_append_left _ hmem)

/-! ### What is submitted -/

/-- A solution that is asked for: its bytes have a checksum. -/
def AdmitsSolution (solution : Solution) : Prop :=
  ∃ checksum, Network.solutionChecksum (.buffer solution.bytes) = .ok checksum

/-- A transaction that is asked for: its bytes have a checksum, and it is not a fee. -/
def AdmitsTransaction (transaction : Transaction) : Prop :=
  ConsensusNetwork.isFee transaction = false ∧
    ∃ checksum, Network.transactionChecksum (.buffer transaction.bytes) = .ok checksum

lemma addUnconfirmedSolution_of_not {solution : Solution} (h : ¬ AdmitsSolution solution)
    (clone : Clone) (contains : Except String Bool) (checks : SolutionID → Checks)
    (c : Consensus S V) :
    ∃ e, c.addUnconfirmedSolution clone contains checks solution = (.error e, c) := by
  unfold addUnconfirmedSolution
  split
  · exact ⟨_, rfl⟩
  · next checksum hchecksum => exact absurd ⟨checksum, hchecksum⟩ h

lemma addUnconfirmedTransaction_of_not {transaction : Transaction}
    (h : ¬ AdmitsTransaction transaction) (clone : Clone) (contains : Except String Bool)
    (checks : TransactionID → Checks) (c : Consensus S V) :
    ∃ e, c.addUnconfirmedTransaction clone contains checks transaction = (.error e, c) := by
  unfold addUnconfirmedTransaction
  split
  · exact ⟨_, rfl⟩
  · next checksum hchecksum =>
    have hfee : ConsensusNetwork.isFee transaction = true := by
      by_contra hfee
      exact h ⟨Bool.eq_false_iff.mpr hfee, checksum, hchecksum⟩
    dsimp only
    rw [if_pos hfee]
    exact ⟨_, rfl⟩

/-- What a submission of a solution comes to. -/
structure AnswersSolution (c : Consensus S V) (contains : Except String Bool) (solution : Solution)
    (result : Except String Unit × Consensus S V) : Prop where
  answers : Intake.Answers c.solutionsIntake () solution.id solution contains
    (result.1 = .ok ()) result.2.solutionsIntake
  transactions : Intake.Moved c.transactionsIntake result.2.transactionsIntake
  keyed : result.2.Keyed

/-- What a submission of a transaction comes to. -/
structure AnswersTransaction (c : Consensus S V) (contains : Except String Bool)
    (transaction : Transaction) (result : Except String Unit × Consensus S V) : Prop where
  answers : Intake.Answers c.transactionsIntake (ConsensusNetwork.isDeploy transaction)
    transaction.id transaction contains (result.1 = .ok ()) result.2.transactionsIntake
  solutions : Intake.Moved c.solutionsIntake result.2.solutionsIntake
  keyed : result.2.Keyed

lemma Keyed.addUnconfirmedSolution (h : c.Keyed) {solution : Solution}
    (ha : AdmitsSolution solution) (clone : Clone) (contains : Except String Bool)
    (checks : SolutionID → Checks) : AnswersSolution c contains solution
      (c.addUnconfirmedSolution clone contains checks solution) := by
  obtain ⟨checksum, hchecksum⟩ := ha
  unfold Consensus.addUnconfirmedSolution
  rw [hchecksum]
  dsimp only
  have hmarked : ({ c with seenSolutions := c.seenSolutions.put solution.id () } :
      Consensus S V).Keyed := ⟨h.solutions, h.deployments, h.executions⟩
  by_cases hseen : (c.seenSolutions.peek solution.id).isSome = true
  · rw [if_pos hseen]
    exact ⟨Intake.Answers.dropped hseen rfl, Intake.Moved.refl _, hmarked⟩
  · rw [if_neg hseen]
    match contains with
    | .error e =>
      exact ⟨Intake.Answers.refused hseen nofun nofun, Intake.Moved.refl _, hmarked⟩
    | .ok true =>
      exact ⟨Intake.Answers.refused hseen nofun nofun, Intake.Moved.refl _, hmarked⟩
    | .ok false =>
      -- the solution is queued
      set d : Consensus S V := { c with
        seenSolutions := c.seenSolutions.put solution.id ()
        solutionsQueue := c.solutionsQueue.put solution.id solution } with hd
      have hintake : (c.solutionsIntake.mark solution.id).enqueue () solution.id solution
          = d.solutionsIntake := by
        rw [Intake.enqueue, solutionsIntake, Intake.mk.injEq]
        refine ⟨rfl, funext fun _ => ?_, rfl⟩
        exact Function.update_self _ _ _
      have hkeyed : d.Keyed :=
        ⟨LruCache.forall_put h.solutions rfl, h.deployments, h.executions⟩
      dsimp only
      by_cases hpool : (c.solutionsQueue.peek solution.id).isSome = true
      · rw [if_pos hpool]
        refine ⟨Intake.Answers.queued hseen ?_ (hintake ▸ Intake.Moved.refl _),
          Intake.Moved.refl _, hkeyed⟩
        exact iff_of_false nofun (not_not_intro hpool)
      · rw [if_neg hpool]
        obtain ⟨hsolutions, htransactions, hkeyed⟩ :=
          hkeyed.processUnconfirmedSolutions clone checks
        refine ⟨Intake.Answers.queued hseen ?_ (hintake ▸ hsolutions), htransactions, hkeyed⟩
        obtain ⟨n, primary, heq⟩ := processUnconfirmedSolutions_spec clone checks d
        exact iff_of_true (congrArg Prod.fst heq) hpool

/-- The consensus in which a transaction was marked, and the queues replaced. -/
private def requeued (c : Consensus S V) (id : TransactionID) (q : TransactionsQueue) :
    Consensus S V :=
  { c with seenTransactions := c.seenTransactions.put id (), transactionsQueue := q }

omit [StorageService S] [Ledger V] [ConsensusNetwork] in
lemma enqueue_deployment (id : TransactionID) (transaction : Transaction) :
    (c.transactionsIntake.mark id).enqueue true id transaction
      = transactionsIntake (c.requeued id { c.transactionsQueue with
          deployments := c.transactionsQueue.deployments.put id transaction }) := by
  rw [Intake.enqueue, transactionsIntake, Intake.mk.injEq]
  refine ⟨rfl, funext fun isDeploy => ?_, rfl⟩
  cases isDeploy with
  | true => rfl
  | false => rfl

omit [StorageService S] [Ledger V] [ConsensusNetwork] in
lemma enqueue_execution (id : TransactionID) (transaction : Transaction) :
    (c.transactionsIntake.mark id).enqueue false id transaction
      = transactionsIntake (c.requeued id { c.transactionsQueue with
          executions := c.transactionsQueue.executions.put id transaction }) := by
  rw [Intake.enqueue, transactionsIntake, Intake.mk.injEq]
  refine ⟨rfl, funext fun isDeploy => ?_, rfl⟩
  cases isDeploy with
  | true => rfl
  | false => rfl

lemma Keyed.answers_queued (hkeyed : d.Keyed) {transaction : Transaction}
    (hseen : ¬ (c.seenTransactions.peek transaction.id).isSome = true)
    (hintake : (c.transactionsIntake.mark transaction.id).enqueue
      (ConsensusNetwork.isDeploy transaction) transaction.id transaction = d.transactionsIntake)
    (hsolutions : d.solutionsIntake = c.solutionsIntake) (e : String) (clone : Clone)
    (checks : TransactionID → Checks) :
    AnswersTransaction c (.ok false) transaction
      (if ((c.transactionsIntake.queues (ConsensusNetwork.isDeploy transaction)).peek
        transaction.id).isSome then (.error e, d)
      else d.processUnconfirmedTransactions clone checks) := by
  have hsame : Intake.Moved c.solutionsIntake d.solutionsIntake :=
    hsolutions ▸ Intake.Moved.refl _
  by_cases hpool : ((c.transactionsIntake.queues (ConsensusNetwork.isDeploy transaction)).peek
    transaction.id).isSome = true
  · rw [if_pos hpool]
    refine ⟨Intake.Answers.queued hseen ?_ (hintake ▸ Intake.Moved.refl _), hsame, hkeyed⟩
    exact iff_of_false nofun (not_not_intro hpool)
  · rw [if_neg hpool]
    obtain ⟨hsolutions', htransactions, hkeyed⟩ :=
      hkeyed.processUnconfirmedTransactions clone checks
    refine ⟨Intake.Answers.queued hseen ?_ (hintake ▸ htransactions), hsolutions ▸ hsolutions',
      hkeyed⟩
    obtain ⟨selector, primary, heq⟩ := processUnconfirmedTransactions_spec clone checks d
    exact iff_of_true (congrArg Prod.fst heq) hpool

lemma Keyed.addUnconfirmedTransaction (h : c.Keyed) {transaction : Transaction}
    (ha : AdmitsTransaction transaction) (clone : Clone) (contains : Except String Bool)
    (checks : TransactionID → Checks) : AnswersTransaction c contains transaction
      (c.addUnconfirmedTransaction clone contains checks transaction) := by
  obtain ⟨hfee, checksum, hchecksum⟩ := ha
  unfold Consensus.addUnconfirmedTransaction
  rw [hchecksum]
  dsimp only
  rw [if_neg (Bool.eq_false_iff.mp hfee)]
  have hmarked : ({ c with seenTransactions := c.seenTransactions.put transaction.id () } :
      Consensus S V).Keyed := ⟨h.solutions, h.deployments, h.executions⟩
  by_cases hseen : (c.seenTransactions.peek transaction.id).isSome = true
  · rw [if_pos hseen]
    exact ⟨Intake.Answers.dropped hseen rfl, Intake.Moved.refl _, hmarked⟩
  · rw [if_neg hseen]
    match contains with
    | .error e =>
      exact ⟨Intake.Answers.refused hseen nofun nofun, Intake.Moved.refl _, hmarked⟩
    | .ok true =>
      exact ⟨Intake.Answers.refused hseen nofun nofun, Intake.Moved.refl _, hmarked⟩
    | .ok false =>
      dsimp only
      cases hdeploy : ConsensusNetwork.isDeploy transaction with
      | true =>
        have hkeyed : Keyed (c.requeued transaction.id { c.transactionsQueue with
            deployments := c.transactionsQueue.deployments.put transaction.id transaction }) :=
          ⟨h.solutions, LruCache.forall_put h.deployments rfl, h.executions⟩
        have hqueued := hkeyed.answers_queued hseen
          (hdeploy ▸ enqueue_deployment transaction.id transaction) rfl
          s!"Transaction '{transaction.id}' exists in the memory pool" clone checks
        rw [hdeploy] at hqueued
        exact hqueued
      | false =>
        have hkeyed : Keyed (c.requeued transaction.id { c.transactionsQueue with
            executions := c.transactionsQueue.executions.put transaction.id transaction }) :=
          ⟨h.solutions, h.deployments, LruCache.forall_put h.executions rfl⟩
        have hqueued := hkeyed.answers_queued hseen
          (hdeploy ▸ enqueue_execution transaction.id transaction) rfl
          s!"Transaction '{transaction.id}' exists in the memory pool" clone checks
        rw [hdeploy] at hqueued
        exact hqueued

/-! ### Accepted submissions -/

/-- A submission that a clone accepts has its item queued, or the item was handed to the
primary. -/
structure Honest (clone : Clone) (c : Consensus S V) : Prop where
  solutions : ∀ contains checks (solution : Solution),
    (c.addUnconfirmedSolution clone contains checks solution).1 = .ok () →
      let after := (c.addUnconfirmedSolution clone contains checks solution).2
      solution.id ∈ after.solutionsQueue.keys ∨ solution.id ∈ after.sentSolutions
  transactions : ∀ contains checks (transaction : Transaction),
    (c.addUnconfirmedTransaction clone contains checks transaction).1 = .ok () →
      let after := (c.addUnconfirmedTransaction clone contains checks transaction).2
      transaction.id ∈ after.transactionsQueue.deployments.keys ∨
      transaction.id ∈ after.transactionsQueue.executions.keys ∨
      transaction.id ∈ after.sentTransactions

/-- The caches are valid, and what was seen recently is what was asked for. -/
structure Proper (c : Consensus S V) : Prop where
  solutions : c.solutionsIntake.Sound
  transactions : c.transactionsIntake.Sound
  keyed : c.Keyed
  seenSolutions : ∀ k ∈ c.seenSolutions.keys, ∃ s : Solution, s.id = k ∧ AdmitsSolution s
  seenTransactions : ∀ k ∈ c.seenTransactions.keys,
    ∃ t : Transaction, t.id = k ∧ AdmitsTransaction t

omit [StorageService S] [Ledger V] [ConsensusNetwork] in
lemma has_solution {k : SolutionID} : c.solutionsIntake.Has k ↔
    k ∈ c.solutionsQueue.keys ∨ k ∈ c.sentSolutions :=
  or_congr_left ⟨fun ⟨_, hk⟩ => hk, fun hk => ⟨(), hk⟩⟩

omit [StorageService S] [Ledger V] [ConsensusNetwork] in
lemma has_transaction {k : TransactionID} : c.transactionsIntake.Has k ↔
    k ∈ c.transactionsQueue.deployments.keys ∨ k ∈ c.transactionsQueue.executions.keys ∨
      k ∈ c.sentTransactions := by
  rw [Intake.Has, Bool.exists_bool, or_comm (a := k ∈ (c.transactionsIntake.queues false).keys),
    or_assoc]
  rfl

omit [StorageService S] [Ledger V] in
lemma proper_new (p : Primary S V) : (new p).Proper where
  solutions := ⟨LruCache.valid_empty _, Nat.two_pow_pos 16, fun _ => LruCache.valid_empty _,
    fun _ => Nat.two_pow_pos 10⟩
  transactions := by
    refine ⟨LruCache.valid_empty _, Nat.two_pow_pos 16, fun isDeploy => ?_, fun isDeploy => ?_⟩
    · cases isDeploy with
      | true => exact LruCache.valid_empty _
      | false => exact LruCache.valid_empty _
    · cases isDeploy with
      | true => exact Nat.two_pow_pos 10
      | false => exact Nat.two_pow_pos 10
  keyed := ⟨nofun, nofun, nofun⟩
  seenSolutions := nofun
  seenTransactions := nofun

omit [StorageService S] [Ledger V] in
lemma Proper.handed (h : c.Proper) (hd : Handed c d) : d.Proper where
  solutions := hd.solutions.sound h.solutions
  transactions := hd.transactions.sound h.transactions
  keyed := hd.keyed
  seenSolutions := by
    intro k hk
    exact h.seenSolutions k (congrArg LruCache.keys hd.solutions.seen ▸ hk)
  seenTransactions := by
    intro k hk
    exact h.seenTransactions k (congrArg LruCache.keys hd.transactions.seen ▸ hk)

omit [StorageService S] [Ledger V] in
lemma Proper.answersSolution (h : c.Proper) {contains : Except String Bool} {solution : Solution}
    (ha : AdmitsSolution solution) {result : Except String Unit × Consensus S V}
    (hr : AnswersSolution c contains solution result) : result.2.Proper where
  solutions := hr.answers.sound h.solutions
  transactions := hr.transactions.sound h.transactions
  keyed := hr.keyed
  seenSolutions := by
    intro k hk
    rcases hr.answers.mem_seen h.solutions hk with rfl | hk
    · exact ⟨solution, rfl, ha⟩
    · exact h.seenSolutions k hk
  seenTransactions := by
    intro k hk
    exact h.seenTransactions k (congrArg LruCache.keys hr.transactions.seen ▸ hk)

omit [StorageService S] [Ledger V] in
lemma Proper.answersTransaction (h : c.Proper) {contains : Except String Bool}
    {transaction : Transaction} (ha : AdmitsTransaction transaction)
    {result : Except String Unit × Consensus S V}
    (hr : AnswersTransaction c contains transaction result) : result.2.Proper where
  solutions := hr.solutions.sound h.solutions
  transactions := hr.answers.sound h.transactions
  keyed := hr.keyed
  seenSolutions := by
    intro k hk
    exact h.seenSolutions k (congrArg LruCache.keys hr.solutions.seen ▸ hk)
  seenTransactions := by
    intro k hk
    rcases hr.answers.mem_seen h.transactions hk with rfl | hk
    · exact ⟨transaction, rfl, ha⟩
    · exact h.seenTransactions k hk

/-- **Submissions are answered honestly** just when each item seen recently is there. -/
lemma Proper.honest_iff (h : c.Proper) :
    c.Honest clone ↔ c.solutionsIntake.Tracked ∧ c.transactionsIntake.Tracked := by
  constructor
  · intro hc
    constructor
    · intro k hk
      obtain ⟨solution, rfl, ha⟩ := h.seenSolutions k hk
      -- a submission of what was seen is accepted, and changes nothing
      have hr := h.keyed.addUnconfirmedSolution ha clone (.ok false) (fun _ => passing)
      obtain ⟨haccepted, hhas⟩ := hr.answers.of_seen hk
      exact hhas (has_solution.mpr (hc.solutions _ _ solution haccepted))
    · intro k hk
      obtain ⟨transaction, rfl, ha⟩ := h.seenTransactions k hk
      have hr := h.keyed.addUnconfirmedTransaction ha clone (.ok false) (fun _ => passing)
      obtain ⟨haccepted, hhas⟩ := hr.answers.of_seen hk
      exact hhas (has_transaction.mpr (hc.transactions _ _ transaction haccepted))
  · rintro ⟨hsolutions, htransactions⟩
    constructor
    · intro contains checks solution haccepted
      by_cases ha : AdmitsSolution solution
      · have hr := h.keyed.addUnconfirmedSolution ha clone contains checks
        exact has_solution.mp (hr.answers.has hsolutions h.solutions haccepted)
      · obtain ⟨e, he⟩ := addUnconfirmedSolution_of_not ha clone contains checks c
        rw [he] at haccepted
        cases haccepted
    · intro contains checks transaction haccepted
      by_cases ha : AdmitsTransaction transaction
      · have hr := h.keyed.addUnconfirmedTransaction ha clone contains checks
        exact has_transaction.mp (hr.answers.has htransactions h.transactions haccepted)
      · obtain ⟨e, he⟩ := addUnconfirmedTransaction_of_not ha clone contains checks c
        rw [he] at haccepted
        cases haccepted

end Consensus

namespace ConsensusCall

/-- A call keeps what was seen recently: an item that it asks for, and that was not seen, is not in
the ledger, or is queued or handed over already, and the item that gives way to it in a full queue
was handed over, waits in the other queue too, or is not among the recently seen any more. -/
def Keeps (c : Consensus S V) : ConsensusCall S V → Prop
  | .addUnconfirmedTransaction _ contains _ transaction =>
    Consensus.AdmitsTransaction transaction → c.transactionsIntake.Keeps
      (ConsensusNetwork.isDeploy transaction) transaction.id contains
  | .addUnconfirmedSolution _ contains _ solution =>
    Consensus.AdmitsSolution solution → c.solutionsIntake.Keeps () solution.id contains
  | _ => True

variable {c : Consensus S V} {asked : Consensus.Clone}

lemma proper_run (h : c.Proper) (call : ConsensusCall S V) : (call.run c).2.Proper := by
  cases call with
  | addUnconfirmedTransaction clone contains checks transaction =>
    by_cases ha : Consensus.AdmitsTransaction transaction
    · exact h.answersTransaction ha (h.keyed.addUnconfirmedTransaction ha clone contains checks)
    · obtain ⟨e, he⟩ := Consensus.addUnconfirmedTransaction_of_not ha clone contains checks c
      rw [run, he]
      exact h
  | addUnconfirmedSolution clone contains checks solution =>
    by_cases ha : Consensus.AdmitsSolution solution
    · exact h.answersSolution ha (h.keyed.addUnconfirmedSolution ha clone contains checks)
    · obtain ⟨e, he⟩ := Consensus.addUnconfirmedSolution_of_not ha clone contains checks c
      rw [run, he]
      exact h
  | processUnconfirmedTransactions clone checks =>
    exact h.handed (h.keyed.processUnconfirmedTransactions clone checks)
  | processUnconfirmedSolutions clone checks =>
    exact h.handed (h.keyed.processUnconfirmedSolutions clone checks)
  | other primary => exact h.handed ⟨Intake.Moved.refl _, Intake.Moved.refl _,
      h.keyed.solutions, h.keyed.deployments, h.keyed.executions⟩

lemma honest_handed {d : Consensus S V} (h : c.Proper) (hc : c.Honest asked)
    (hd : Consensus.Handed c d) : d.Honest asked := by
  obtain ⟨hsolutions, htransactions⟩ := h.honest_iff.mp hc
  exact (h.handed hd).honest_iff.mpr ⟨hd.solutions.tracked_iff.mpr hsolutions,
    hd.transactions.tracked_iff.mpr htransactions⟩

/-- **What one call does**: submissions are answered honestly after it just when it keeps what was
seen. -/
lemma honest_run_iff (h : c.Proper) (hc : c.Honest asked) (call : ConsensusCall S V) :
    (call.run c).2.Honest asked ↔ call.Keeps c := by
  have hrun := proper_run h call
  obtain ⟨hsolutions, htransactions⟩ := h.honest_iff.mp hc
  cases call with
  | addUnconfirmedTransaction clone contains checks transaction =>
    by_cases ha : Consensus.AdmitsTransaction transaction
    · have hr := h.keyed.addUnconfirmedTransaction ha clone contains checks
      rw [Keeps, imp_iff_right ha, hrun.honest_iff, ← hr.answers.tracked_iff htransactions
        h.transactions]
      exact and_iff_right (hr.solutions.tracked_iff.mpr hsolutions)
    · obtain ⟨e, he⟩ := Consensus.addUnconfirmedTransaction_of_not ha clone contains checks c
      rw [run, he]
      exact iff_of_true hc fun hadmits => absurd hadmits ha
  | addUnconfirmedSolution clone contains checks solution =>
    by_cases ha : Consensus.AdmitsSolution solution
    · have hr := h.keyed.addUnconfirmedSolution ha clone contains checks
      rw [Keeps, imp_iff_right ha, hrun.honest_iff, ← hr.answers.tracked_iff hsolutions
        h.solutions]
      exact and_iff_left (hr.transactions.tracked_iff.mpr htransactions)
    · obtain ⟨e, he⟩ := Consensus.addUnconfirmedSolution_of_not ha clone contains checks c
      rw [run, he]
      exact iff_of_true hc fun hadmits => absurd hadmits ha
  | processUnconfirmedTransactions clone checks =>
    exact iff_of_true (honest_handed h hc (h.keyed.processUnconfirmedTransactions clone checks))
      trivial
  | processUnconfirmedSolutions clone checks =>
    exact iff_of_true (honest_handed h hc (h.keyed.processUnconfirmedSolutions clone checks))
      trivial
  | other primary =>
    refine iff_of_true (honest_handed h hc ⟨Intake.Moved.refl _, Intake.Moved.refl _, ?_⟩) trivial
    exact ⟨h.keyed.solutions, h.keyed.deployments, h.keyed.executions⟩

end ConsensusCall

lemma Consensus.proper_after {c : Consensus S V} (h : c.Proper)
    (calls : List (ConsensusCall S V)) : (c.after calls).Proper := by
  induction calls using List.reverseRecOn with
  | nil => exact h
  | append_singleton calls call ih =>
    rw [Consensus.after_concat]
    exact call.proper_run ih

/-- **Accepted submissions**: in every state of a sequence of calls, on any clones, a submission
that a clone accepts has its item in the pipeline, just when each call keeps what was seen
recently. -/
theorem accepted_in_pipeline (clone : Consensus.Clone) (p : Primary S V)
    (calls : List (ConsensusCall S V)) :
    (∀ done, done <+: calls → ((Consensus.new p).after done).Honest clone) ↔
      ∀ done call, done ++ [call] <+: calls → call.Keeps ((Consensus.new p).after done) := by
  constructor
  · intro h done call hdone
    have hproper := Consensus.proper_after (Consensus.proper_new p) done
    have hbefore := h done ((List.prefix_append _ _).trans hdone)
    have hafter := h _ hdone
    rw [Consensus.after_concat] at hafter
    exact (call.honest_run_iff hproper hbefore).mp hafter
  · intro h done hdone
    induction done using List.reverseRecOn with
    | nil =>
      have hproper : (Consensus.new p).Proper := Consensus.proper_new p
      exact hproper.honest_iff.mpr ⟨nofun, nofun⟩
    | append_singleton done call ih =>
      have hproper := Consensus.proper_after (Consensus.proper_new p) done
      have hbefore := ih ((List.prefix_append _ _).trans hdone)
      rw [Consensus.after_concat]
      exact (call.honest_run_iff hproper hbefore).mpr (h done call hdone)

section Example

/-- An execution. -/
def execution : Transaction := ⟨7, [1]⟩

/-- The consensus in which the ledger could not be asked for the execution when it came in. -/
def failedSubmission : Consensus BFTMemoryService Chain :=
  let _ := developmentConsensus
  (Consensus.new (newNode (developmentLedger []))).after
    [.addUnconfirmedTransaction .running (.error "Failed to read the ledger") (fun _ => passing)
      execution]

omit [ConsensusNetwork] in
/-- The submission that failed makes a later one of the same transaction be accepted, with nothing
queued and nothing handed to the primary. -/
theorem lost_after_failure :
    let _ := developmentConsensus
    (failedSubmission.addUnconfirmedTransaction .running (.ok false) (fun _ => passing)
        execution).1 = .ok () ∧
      ¬ failedSubmission.Honest .running := by
  let _ := developmentConsensus
  intro _
  have haccepted : (failedSubmission.addUnconfirmedTransaction .running (.ok false)
      (fun _ => passing) execution).1 = .ok () := by decide +kernel
  have hlost : ¬ (execution.id ∈ (failedSubmission.addUnconfirmedTransaction .running (.ok false)
        (fun _ => passing) execution).2.transactionsQueue.deployments.keys ∨
      execution.id ∈ (failedSubmission.addUnconfirmedTransaction .running (.ok false)
        (fun _ => passing) execution).2.transactionsQueue.executions.keys ∨
      execution.id ∈ (failedSubmission.addUnconfirmedTransaction .running (.ok false)
        (fun _ => passing) execution).2.sentTransactions) := by decide +kernel
  exact ⟨haccepted, fun h => hlost (h.transactions _ _ execution haccepted)⟩

end Example

end AmareleoChain
