import AmareleoChain.BatchLimits

/-!
What becomes of the transmissions that the drain loop takes from the front of the queue.

It collects, discards or puts back each of them. But where it ends at a limit, or with an error,
the last one that it took is in none of these.
-/

namespace AmareleoChain

/-- What becomes of a transmission that the drain loop takes from the front. -/
inductive Turn where
  | collected
  /-- One of the reasons of the loop to skip it holds. -/
  | discarded
  /-- It is put back. -/
  | returned
  /-- The batch is full, and the loop ends. -/
  | overrun
  /-- The loop ends with an error. -/
  | failed
  deriving DecidableEq

namespace Primary

variable {S V : Type} [StorageService S] [Ledger V] [Network]

/-! ### Reasons -/

/-- The transaction can be read, where it is to be deserialized. -/
def Readable (checks : Checks) (transaction : Data Transaction) : Prop :=
  checks.deserialized = .ok () ∧ ∀ bytes, transaction = .buffer bytes →
    (Network.readTransaction bytes).isOk = true

/-- The reasons of the drain loop to skip a transmission: it is in the ledger, or that cannot be
told; it is in the storage; its checksum is not that of its ID; it fails the basic check; its cost
is unknown, or overflows; or it is a ratification, or not of the kind of its ID. -/
def Refused (p : Primary S V) (checks : Checks) (d : Draining) (id : TransmissionID)
    (transmission : Transmission) : Prop :=
  p.ledger.containsTransmission id ≠ .ok false ∨
  (d.transmissions.entries ≠ [] ∧ p.storage.containsTransmission id = true) ∨
  match id, transmission with
  | .solution _ checksum, .solution solution =>
    Network.solutionChecksum solution ≠ .ok checksum ∨
      ∃ e, checks.checkSolutionBasic = .error (.error e)
  | .transaction _ checksum, .transaction transaction =>
    Network.transactionChecksum transaction ≠ .ok checksum ∨
      Readable checks transaction ∧
        ((∃ e, checks.checkTransactionBasic = .error (.error e)) ∨
          checks.checkTransactionBasic = .ok () ∧
            ((∃ e, checks.transactionSpentCost = .error e) ∨
              ∃ cost, checks.transactionSpentCost = .ok cost ∧ 2 ^ 64 ≤ d.proposalCost + cost))
  | _, _ => True

lemma chooseSolution_eq_skip {checks : Checks} {proposalCost : ℕ} {checksum : Checksum}
    {solution : Data Solution} :
    chooseSolution checks proposalCost checksum solution = .skip ↔
      Network.solutionChecksum solution ≠ .ok checksum ∨
        ∃ e, checks.checkSolutionBasic = .error (.error e) := by
  unfold chooseSolution
  by_cases hchecksum : Network.solutionChecksum solution = .ok checksum
  · rw [if_pos (checksumMatches_iff.mpr hchecksum)]
    rcases checks.checkSolutionBasic with (e | _ | _) | _ <;> simp [hchecksum]
  · rw [if_neg (mt checksumMatches_iff.mp hchecksum)]
    simp [hchecksum]

lemma chooseTransaction_eq_skip {checks : Checks} {proposalCost : ℕ} {checksum : Checksum}
    {transaction : Data Transaction} :
    chooseTransaction checks proposalCost checksum transaction = .skip ↔
      Network.transactionChecksum transaction ≠ .ok checksum ∨
        Readable checks transaction ∧
          ((∃ e, checks.checkTransactionBasic = .error (.error e)) ∨
            checks.checkTransactionBasic = .ok () ∧
              ((∃ e, checks.transactionSpentCost = .error e) ∨
                ∃ cost, checks.transactionSpentCost = .ok cost ∧
                  2 ^ 64 ≤ proposalCost + cost)) := by
  unfold chooseTransaction
  by_cases hchecksum : Network.transactionChecksum transaction = .ok checksum
  swap
  · rw [if_neg (mt checksumMatches_iff.mp hchecksum)]
    simp [hchecksum]
  rw [if_pos (checksumMatches_iff.mpr hchecksum), or_iff_right (not_not.mpr hchecksum)]
  split
  · next stop hdeserialized => simp [Readable, hdeserialized]
  next hdeserialized =>
  split
  · -- the transaction cannot be read
    next e hread =>
    cases transaction with
    | object transaction => cases hread
    | buffer bytes => simp [Readable, Except.isOk, Except.toBool, hread]
  next hread =>
  have hreadable : Readable checks transaction := by
    refine ⟨hdeserialized, fun bytes hbytes => ?_⟩
    subst hbytes
    dsimp only at hread
    rw [hread]
    rfl
  rw [and_iff_right hreadable]
  split
  · next e hbasic => simp [hbasic]
  · next stop hne hbasic =>
    have hstop : ¬ ∃ e, checks.checkTransactionBasic = .error (.error e) := by
      rintro ⟨e, he⟩
      exact hne e (Except.error.inj (hbasic.symm.trans he))
    simpa [hbasic] using hstop
  next hbasic =>
  rw [and_iff_right hbasic]
  split
  · next e hcost => simp [hbasic, hcost]
  next cost hcost =>
  dsimp only
  split
  · next hoverflow => simpa [hbasic, hcost] using hoverflow
  next hoverflow =>
  split <;> simpa [hbasic, hcost] using hoverflow

/-- **The loop skips a transmission** for one of its reasons, and for no other. -/
theorem choose_eq_skip (p : Primary S V) (checks : Checks) (d : Draining) (id : TransmissionID)
    (t : Transmission) : p.choose checks d id t = .skip ↔ p.Refused checks d id t := by
  unfold choose Refused
  rcases hledger : p.ledger.containsTransmission id with e | _ | _
  · exact iff_of_true rfl (.inl fun h => by cases h)
  swap
  · exact iff_of_true rfl (.inl fun h => by cases h)
  rw [if_neg (by simp), or_iff_right (not_not.mpr rfl)]
  have hempty : ¬ d.transmissions.entries.isEmpty = true ↔ d.transmissions.entries ≠ [] := by simp
  split
  · next hstored => exact iff_of_true rfl (.inl ⟨hempty.mp hstored.1, hstored.2⟩)
  next hstored =>
  rw [or_iff_right fun hs => hstored ⟨hempty.mpr hs.1, hs.2⟩]
  cases id <;> cases t <;> first
    | exact chooseSolution_eq_skip
    | exact chooseTransaction_eq_skip
    | exact iff_of_true rfl trivial

/-! ### The turns of the loop -/

/-- The transmissions that the drain loop takes, in order, and what becomes of them. -/
def turns (p : Primary S V) (checks : TransmissionID → Checks) :
    ℕ → Draining → List ((TransmissionID × Transmission) × Turn)
  | 0, _ => []
  | n + 1, d =>
    match d.ready.removeFront with
    | (none, _) => []
    | (some (id, transmission), ready) =>
      let d := { d with ready }
      if d.transmissions.len ≥ Network.maxTransmissionsPerBatch ∨
          d.numWorkerTransmissions ≥ maxTransmissionsPerWorker then
        -- it is not looked at any more
        match p.choose (checks id) d id transmission with
        | .skip => [((id, transmission), .discarded)]
        | _ => [((id, transmission), .overrun)]
      else
        match p.choose (checks id) d id transmission with
        | .skip => ((id, transmission), .discarded) :: p.turns checks n d
        | .insert proposalCost =>
          ((id, transmission), .collected) :: p.turns checks n { d with
            transmissions := d.transmissions.insert id transmission
            proposalCost
            numWorkerTransmissions := d.numWorkerTransmissions + 1 }
        | .reinsert => [((id, transmission), .returned)]
        | .stop _ => [((id, transmission), .failed)]

/-- The transmissions of some turns. -/
def taken (turns : List ((TransmissionID × Transmission) × Turn)) (kinds : List Turn) :
    List (TransmissionID × Transmission) :=
  (turns.filter fun e => decide (e.2 ∈ kinds)).map Prod.fst

omit [Network] in
lemma mem_taken {turns : List ((TransmissionID × Transmission) × Turn)} {kinds : List Turn}
    {e : TransmissionID × Transmission} :
    e ∈ taken turns kinds ↔ ∃ turn ∈ kinds, (e, turn) ∈ turns := by
  unfold taken
  rw [List.mem_map]
  constructor
  · rintro ⟨⟨e, turn⟩, he, rfl⟩
    rw [List.mem_filter, decide_eq_true_eq] at he
    exact ⟨turn, he.2, he.1⟩
  · rintro ⟨turn, hturn, he⟩
    exact ⟨(e, turn), List.mem_filter.mpr ⟨he, decide_eq_true hturn⟩, rfl⟩

/-- All that the loop does not put back. -/
def gone : List Turn := [.collected, .discarded, .overrun, .failed]

/-- **What the drain leaves**: the queue without what is gone, and what was collected after what
was there before. -/
structure Drains (p : Primary S V) (checks : TransmissionID → Checks)
    (turns : List ((TransmissionID × Transmission) × Turn)) (d : Draining)
    (r : Except Stop Unit × Draining) : Prop where
  valid : r.2.ready.Valid
  queue : d.ready.transmissions = taken turns gone ++ r.2.ready.transmissions
  collected : r.2.transmissions.entries = d.transmissions.entries ++ taken turns [.collected]
  absent : ∀ e, (e, .collected) ∈ turns → p.ledger.containsTransmission e.1 = .ok false
  refused : ∀ e, (e, .discarded) ∈ turns → ∃ d, p.Refused (checks e.1) d e.1 e.2
  overrun : ∀ e, (e, .overrun) ∈ turns → p.storage.containsTransmission e.1 = false
  failed : (∃ stop, r.1 = .error stop) ↔ ∃ e, (e, .failed) ∈ turns

variable {p : Primary S V} {checks : TransmissionID → Checks}
  {turns : List ((TransmissionID × Transmission) × Turn)} {d d' : Draining}
  {r : Except Stop Unit × Draining} {id : TransmissionID} {t : Transmission}

lemma drains_nil (h : d.ready.Valid) : Drains p checks [] d (.ok (), d) where
  valid := h
  queue := rfl
  collected := (List.append_nil _).symm
  absent _ he := absurd he List.not_mem_nil
  refused _ he := absurd he List.not_mem_nil
  overrun _ he := absurd he List.not_mem_nil
  failed := by simp

lemma Drains.cons {turn : Turn} (h : Drains p checks turns d' r)
    (hfront : d.ready.transmissions = (id, t) :: d'.ready.transmissions)
    (hturn : turn ∈ gone ∧ turn ≠ .failed)
    (hcollected : d'.transmissions.entries
      = d.transmissions.entries ++ taken [((id, t), turn)] [.collected])
    (habsent : turn = .collected → p.ledger.containsTransmission id = .ok false)
    (hrefused : turn = .discarded → ∃ d, p.Refused (checks id) d id t)
    (hoverrun : turn = .overrun → p.storage.containsTransmission id = false) :
    Drains p checks (((id, t), turn) :: turns) d r where
  valid := h.valid
  queue := by
    rw [hfront, h.queue]
    simp [taken, hturn.1]
  collected := by
    rw [h.collected, hcollected, List.append_assoc]
    congr 1
    simp only [taken, ← List.map_append, ← List.filter_append, List.singleton_append]
  absent e he := by
    rcases List.mem_cons.mp he with he | he
    · cases he
      exact habsent rfl
    · exact h.absent e he
  refused e he := by
    rcases List.mem_cons.mp he with he | he
    · cases he
      exact hrefused rfl
    · exact h.refused e he
  overrun e he := by
    rcases List.mem_cons.mp he with he | he
    · cases he
      exact hoverrun rfl
    · exact h.overrun e he
  failed := by
    rw [h.failed]
    refine exists_congr fun e => ?_
    rw [List.mem_cons, or_iff_right]
    rintro ⟨⟩
    exact hturn.2 rfl

lemma absent_of_choose {proposalCost : ℕ}
    (h : p.choose (checks id) d id t = .insert proposalCost) :
    p.ledger.containsTransmission id = .ok false := by
  by_contra hledger
  have hskip := (choose_eq_skip p (checks id) d id t).mpr (.inl hledger)
  rw [hskip] at h
  cases h

lemma fresh_of_choose (h : p.choose (checks id) d id t ≠ .skip)
    (hd : d.transmissions.entries ≠ []) : p.storage.containsTransmission id = false := by
  rw [Ne, choose_eq_skip] at h
  exact Bool.eq_false_iff.mpr fun hstored => h (.inr (.inl ⟨hd, hstored⟩))

/-- **The turns of the drain loop** say what it leaves. -/
theorem drain_spec (p : Primary S V) (checks : TransmissionID → Checks)
    (hlimit : 0 < Network.maxTransmissionsPerBatch) (n : ℕ) {d : Draining} (h : d.ready.Valid)
    (hnew : ∀ id ∈ d.transmissions.keys, id ∉ d.ready.ids)
    (hcount : d.numWorkerTransmissions = d.transmissions.len) :
    Drains p checks (p.turns checks n d) d (p.drain checks n d) := by
  induction n generalizing d with
  | zero => exact drains_nil h
  | succ n ih =>
    rw [drain, Primary.turns]
    cases hfront : d.ready.transmissions with
    | nil =>
      rw [Ready.removeFront_nil hfront]
      exact drains_nil h
    | cons e rest =>
    obtain ⟨id, t⟩ := e
    obtain ⟨ready, hremove, rfl, hvalid⟩ := h.removeFront_cons hfront
    have hids : d.ready.ids = id :: ready.ids := by
      rw [Ready.ids, hfront, List.map_cons, Ready.ids]
    have hnodup := h.nodup
    rw [hids, List.nodup_cons] at hnodup
    rw [hids] at hnew
    rw [hremove]
    dsimp only
    rw [← ite_or]
    by_cases hfull : d.transmissions.len ≥ Network.maxTransmissionsPerBatch ∨
        d.numWorkerTransmissions ≥ maxTransmissionsPerWorker
    · -- something was collected before the batch is full
      have hne : d.transmissions.entries ≠ [] := by
        intro hnil
        have hlen : d.transmissions.len = 0 := by rw [IndexMap.len, hnil, List.length_nil]
        rw [hcount, maxTransmissionsPerWorker, maxWorkers, hlen] at hfull
        omega
      have hend : Drains p checks [] { d with ready } (.ok (), { d with ready }) :=
        drains_nil hvalid
      rw [if_pos hfull, if_pos hfull]
      split
      · next hskip =>
        exact hend.cons hfront (by decide) (List.append_nil _).symm (fun h => by cases h)
          (fun _ => ⟨_, (choose_eq_skip _ _ _ _ _).mp hskip⟩) fun h => by cases h
      · next hskip =>
        exact hend.cons hfront (by decide) (List.append_nil _).symm (fun h => by cases h)
          (fun h => by cases h) fun _ => fresh_of_choose hskip hne
    rw [if_neg hfull, if_neg hfull]
    cases hchoice : p.choose (checks id) { d with ready } id t with
    | skip =>
      have hrest := ih (d := { d with ready }) hvalid
        (fun i hi hmem => hnew i hi (List.mem_cons_of_mem _ hmem)) hcount
      exact hrest.cons hfront (by decide) (List.append_nil _).symm (fun h => by cases h)
        (fun _ => ⟨_, (choose_eq_skip _ _ _ _ _).mp hchoice⟩) fun h => by cases h
    | insert proposalCost =>
      have hfresh : id ∉ d.transmissions.keys := fun hid => hnew id hid List.mem_cons_self
      have hrest := ih (d := ⟨ready, d.transmissions.insert id t, proposalCost,
        d.numWorkerTransmissions + 1⟩) hvalid (fun i hi => by
          rcases IndexMap.mem_keys_insert.mp hi with hi | rfl
          · exact fun hmem => hnew i hi (List.mem_cons_of_mem _ hmem)
          · exact hnodup.1) (by
          simp only [IndexMap.len, IndexMap.entries_insert hfresh, List.length_append] at hcount ⊢
          rw [hcount]
          rfl)
      exact hrest.cons hfront (by decide) (IndexMap.entries_insert hfresh)
        (fun _ => absent_of_choose hchoice) (fun h => by cases h) fun h => by cases h
    | reinsert =>
      have hcontains : ready.contains id = false := by
        rw [← Bool.not_eq_true, hvalid.contains_iff]
        exact hnodup.1
      refine ⟨hvalid.insertFront id t, ?_, (List.append_nil _).symm, by simp, by simp, by simp,
        by simp⟩
      rw [hfront, Ready.transmissions_insertFront hcontains]
      rfl
    | stop stop =>
      exact ⟨hvalid, hfront, (List.append_nil _).symm, by simp, by simp, by simp, by simp⟩

end Primary

end AmareleoChain
