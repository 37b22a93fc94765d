import AmareleoChain.Conserving

/-!
Whether transmissions are lost while a batch is built.

What the drain loop collects gets into the certificate of the batch, or is inserted again at the
back of the queue. It is lost where the call ends between the two, and so is the transmission that
the loop has taken when the batch is full, or when it ends with an error.
-/

namespace AmareleoChain

open Std

/-- What becomes of the transmissions that were collected for a batch. -/
inductive Fate where
  /-- They are in the certificate that is stored. -/
  | stored
  /-- They are inserted again into the queue. -/
  | reinserted
  | lost
  deriving DecidableEq

/-- An error inserts them again, when it is one of the proposal or of the storing of its
certificate. An aborted task does not. -/
def Stop.fate : Stop → Fate
  | .error _ => .reinserted
  | _ => .lost

namespace Primary

variable {S V : Type} [StorageService S] [Ledger V] [Network]

/-! ### What is asked of a call -/

/-- A transmission is in the batch that is certified for an account and a round. -/
def inOwnBatch (p : Primary S V) (round : ℕ) (account : Address) (id : TransmissionID) : Bool :=
  (p.storage.getCertificatesForRound round).any fun certificate =>
    certificate.author == account && decide (id ∈ certificate.transmissionIds)

/-- The turns of the drain loop of a call. -/
def drainTurns (env : LiteEnv) (p : Primary S V) :
    List ((TransmissionID × Transmission) × Turn) :=
  p.turns env.checks p.ready.numTransmissions ⟨p.ready, ∅, 0, 0⟩

/-- After a call, each transmission of the queue that was not discarded is in the batch of the
round, in the storage, or in the queue. -/
def Conserves (env : LiteEnv) (p q : Primary S V) : Prop :=
  ∀ e ∈ p.ready.transmissions, (e, .discarded) ∈ p.drainTurns env ∨
    q.inOwnBatch p.currentRound p.account e.1 = true ∨
    q.storage.containsTransmission e.1 = true ∨ e ∈ q.ready.transmissions

/-- Those in the queue, and not in the batch, are in the order in which they were. -/
def ConservesOrder (p q : Primary S V) : Prop :=
  (q.ready.transmissions.filter fun e =>
    !q.inOwnBatch p.currentRound p.account e.1).Sublist p.ready.transmissions

/-! ### The conditions -/

/-- A call gets to the drain loop. -/
structure Builds (env : LiteEnv) (otherAcc : List Address) (p : Primary S V)
    (committee : Committee) : Prop where
  round_ne : p.currentRound ≠ 0
  ahead : p.proposeLock < p.currentRound
  timely : p.checkProposalTimestamp (p.currentRound - 1) p.account env.checkedAt = .ok ()
  fresh : p.storage.containsCertificateInRoundFrom p.currentRound p.account = false
  lookback : p.ledger.getCommitteeLookbackForRound p.currentRound = .ok committee
  connected : committee.isQuorumThresholdReached (insert p.account otherAcc.toFinset) = true
  ready : p.isReady p.currentRound = .ok true

/-- What becomes of them once the certificate is to be inserted, which the storage accepts or
does not. -/
def insertionFate (inserted : Await) (accepted : Bool) : Fate :=
  match inserted with
  | .done => if accepted then .stored else .reinserted
  | .stopped stop effect =>
    if effect && accepted then .stored else stop.fate

/-- What becomes of the transmissions of a batch, by the steps that certify it: the header and the
proposal, the signatures, the certificate, and its insertion. -/
def batchFate (env : LiteEnv) (otherAcc : List Address) (committee : Committee)
    (transmissions : IndexMap TransmissionID Transmission) (p : Primary S V) : Fate :=
  match newProposal env.certification p.account p.currentRound committee
      (p.storage.getCertificatesForRound (p.currentRound - 1)) transmissions with
  | .error stop => stop.fate
  | .ok proposal =>
    match addSignatures env.certification committee otherAcc proposal with
    | .error _ => .lost
    | .ok proposal =>
      match proposal.toCertificate committee with
      | .error _ => .reinserted
      | .ok (certificate, transmissions) =>
        insertionFate env.certification.inserted (p.storage.insertCertificate p.ledger
          env.certification.insertedAt certificate transmissions ∅).1.isOk

/-- The batch that a call builds, when no transaction fails to be read. -/
def collected (env : LiteEnv) (p : Primary S V) : IndexMap TransmissionID Transmission :=
  (p.drain env.checks p.ready.numTransmissions ⟨p.ready, ∅, 0, 0⟩).2.transmissions

/-- **When transmissions are lost**: a call gets to the drain loop, and a transmission that is not
in the storage is taken when the batch is full, or fails to be read, or is collected and either
another fails to be read or the certification stops where nothing is inserted again. -/
def Loses (env : LiteEnv) (otherAcc : List Address) (p : Primary S V) : Prop :=
  ∃ committee, p.Builds env otherAcc committee ∧
    ∃ e, p.storage.containsTransmission e.1 = false ∧
      ((e, .overrun) ∈ p.drainTurns env ∨ (e, .failed) ∈ p.drainTurns env ∨
        (e, .collected) ∈ p.drainTurns env ∧ ((∃ e', (e', .failed) ∈ p.drainTurns env) ∨
          p.batchFate env otherAcc committee (p.collected env) = .lost))

/-- **When the order is lost**: what was collected is inserted again behind what was left. -/
def Reorders (env : LiteEnv) (otherAcc : List Address) (p : Primary S V) : Prop :=
  ∃ committee, p.Builds env otherAcc committee ∧
    (∀ e, (e, .failed) ∉ p.drainTurns env) ∧
    (∃ e ∈ p.ready.transmissions, e ∉ taken (p.drainTurns env) gone) ∧
    (∃ e, p.storage.containsTransmission e.1 = false ∧ (e, .collected) ∈ p.drainTurns env) ∧
    p.batchFate env otherAcc committee (p.collected env) = .reinserted

/-! ### The end of a call -/

/-- What a call leaves of the transmissions of its batch, over a queue that was drained. -/
def Leaves (p q : Primary S V) (given : IndexMap TransmissionID Transmission) : Fate → Prop
  | .stored =>
    (∀ id, q.inOwnBatch p.currentRound p.account id = true ↔ id ∈ given.keys) ∧
      (∀ id, q.storage.containsTransmission id = true →
        p.storage.containsTransmission id = true ∨ id ∈ given.keys) ∧
      ∃ back, q.ready.transmissions = p.ready.transmissions ++ back ∧ back.Sublist given.entries
  | .reinserted =>
    q.storage = p.storage ∧ q.ready.transmissions = p.ready.transmissions ++
      given.entries.filter fun e => !p.storage.containsTransmission e.1
  | .lost => q.storage = p.storage ∧ q.ready = p.ready

variable {p q : Primary S V} {c : BatchCertificate}
  {given : IndexMap TransmissionID Transmission}

omit [StorageService S] [Ledger V] [Network] in
lemma inOwnBatch_iff (h : p.storage.Indexed) {round : ℕ} (hround : round ≠ 0) {a : Address}
    {id : TransmissionID} : p.inOwnBatch round a id = true ↔
      ∃ c : BatchCertificate, p.storage.certificates[c.id]? = some c ∧ c.round = round ∧
        c.author = a ∧ id ∈ c.transmissionIds := by
  rw [inOwnBatch, List.any_eq_true]
  refine exists_congr fun c => ?_
  rw [Storage.mem_getCertificatesForRound h hround, Bool.and_eq_true, beq_iff_eq,
    decide_eq_true_eq, and_assoc]

omit [StorageService S] [Ledger V] [Network] in
lemma inOwnBatch_of_fresh (h : p.storage.Indexed) {round : ℕ} (hround : round ≠ 0) {a : Address}
    (hfresh : p.storage.containsCertificateInRoundFrom round a = false) (id : TransmissionID) :
    p.inOwnBatch round a id = false := by
  rw [Bool.eq_false_iff]
  intro hin
  obtain ⟨c, hc, hr, ha, -⟩ := (inOwnBatch_iff h hround).mp hin
  rw [Bool.eq_false_iff] at hfresh
  exact hfresh ((Storage.containsCertificateInRoundFrom_iff h).mpr ⟨c, hc, hr, ha⟩)

/-- **Once the certificate is stored**, nothing is lost any more. -/
lemma leaves_stored (hS : StorageService.AddsOnly S) (h : p.Sound) (hround : p.currentRound ≠ 0)
    (hfresh : p.storage.containsCertificateInRoundFrom p.currentRound p.account = false)
    (hcround : c.round = p.currentRound) (hauthor : c.author = p.account)
    (hids : c.transmissionIds = given.keySet) {p₂ : Primary S V}
    (haccepts : Storage.Accepts p.ledger p.storage c)
    {missing : IndexMap TransmissionID Transmission} (hq : Settles c.round p₂ q)
    (hstorage : p₂.storage = p.storage.insertCertificateAtomic c ∅ missing)
    (hready : p₂.ready = p.ready) {q' : Primary S V}
    (hq' : q' = q ∨ q' = q.reinsertTransmissions given) :
    p.Leaves q' given .stored := by
  have hreinserted : ∃ ready back, q' = { q with ready } ∧
      ready.transmissions = q.ready.transmissions ++ back ∧ back.Sublist given.entries := by
    rcases hq' with hq' | hq' <;> rw [hq']
    · exact ⟨q.ready, [], rfl, (List.append_nil _).symm, List.nil_sublist _⟩
    · exact reinserted_sublist given.entries q
  obtain ⟨ready, back, rfl, hback, hsub⟩ := hreinserted
  have hkeys : ∀ id, id ∈ c.transmissionIds ↔ id ∈ given.keys := by
    intro id
    rw [hids]
    exact Iff.rfl
  refine ⟨fun id => ?_, fun id hid => ?_, back, by rw [hback, hq.ready, hready], hsub⟩
  · -- the certificates of the account and the round are the one that was inserted
    have hin : inOwnBatch { q with ready } p.currentRound p.account id = true ↔
        q.inOwnBatch p.currentRound p.account id = true := Iff.rfl
    rw [hin, inOwnBatch_iff hq.sound.tidy.indexed hround, ← hkeys]
    constructor
    · rintro ⟨d, hd, hr, ha, hid⟩
      rw [hq.certificates (hr.trans hcround.symm), hstorage,
        Storage.getElem?_insertCertificateAtomic haccepts.fresh] at hd
      rcases hd with hd | ⟨-, rfl⟩
      · have hcontains := (Storage.containsCertificateInRoundFrom_iff h.tidy.indexed).mpr
          ⟨d, hd, hr, ha⟩
        rw [hfresh] at hcontains
        cases hcontains
      · exact hid
    · intro hid
      refine ⟨c, ?_, hcround, hauthor, hid⟩
      rw [hq.certificates rfl, hstorage, Storage.getElem?_insertCertificateAtomic haccepts.fresh]
      exact .inr ⟨rfl, rfl⟩
  · have hid₂ : p₂.storage.containsTransmission id = true := hq.contains id hid
    rw [hstorage] at hid₂
    rcases hS.insert _ _ _ _ _ _ hid₂ with hid | hid | hid
    · exact .inl hid
    · exact .inr ((hkeys id).mp hid)
    · exact absurd hid (IndexSet.not_mem_empty id)

lemma settles_broadcast (hS : StorageService.AddsOnly S) (h : p.Sound) (env : LiteEnv)
    (c : BatchCertificate) :
    Settles c.round p (andThen (p.updateBft env.certification.toReceipt c) fun _ p =>
      andThen (p.tryIncrementToTheNextRoundLite env.roundSent env.roundSentAt (c.round + 1))
        fun _ p => ((.ok (), p) : Except Stop Unit × Primary S V)).2 := by
  refine (settles_walk c.round).andThen (fun h => settles_updateBft hS h _ c) (fun _ q => ?_) h
  refine (settles_walk c.round).andThen ?_ fun _ q => (settles_walk c.round).refl q
  exact (settles_walk c.round).tryIncrementToTheNextRoundLite _ _ _ q

lemma afterLite_settles (hS : StorageService.AddsOnly S) (h : p.Sound) (env : LiteEnv) (round : ℕ)
    (c : BatchCertificate) (given : IndexMap TransmissionID Transmission)
    (result : Except Stop Unit) :
    ∃ q, Settles c.round p q ∧ ((afterLite env round c given (result, p)).2 = q ∨
      (afterLite env round c given (result, p)).2 = q.reinsertTransmissions given) := by
  cases result with
  | error stop =>
    refine ⟨p, .refl h, ?_⟩
    cases stop with
    | error e => exact .inr rfl
    | aborted => exact .inl rfl
    | diverged => exact .inl rfl
  | ok =>
    have hsettles := settles_broadcast hS h env c
    have hok : ∀ next : Unit → Primary S V → Except Stop Unit × Primary S V,
        andThen (.ok (), p) next = next () p := fun _ => rfl
    unfold afterLite
    rw [hok]
    rcases hr : andThen (p.updateBft env.certification.toReceipt c) fun _ p =>
      andThen (p.tryIncrementToTheNextRoundLite env.roundSent env.roundSentAt (c.round + 1))
        fun _ p => ((.ok (), p) : Except Stop Unit × Primary S V) with ⟨(e | _ | _) | _, q⟩ <;>
      rw [hr] at hsettles
    · exact ⟨q, hsettles, .inr rfl⟩
    · exact ⟨q, hsettles, .inl rfl⟩
    · exact ⟨q, hsettles, .inl rfl⟩
    · exact ⟨q, hsettles, .inl rfl⟩

lemma insertCertificate_fate (h : p.storage.Indexed) (env : Receipt) (c : BatchCertificate)
    (given : IndexMap TransmissionID Transmission) :
    (∃ stop, p.insertCertificate env c given = (.error stop, p) ∧
      insertionFate env.inserted (p.storage.insertCertificate p.ledger env.insertedAt c given
        ∅).1.isOk = stop.fate) ∨
    ∃ result missing, Storage.Accepts p.ledger p.storage c ∧
      p.storage.insertCertificate p.ledger env.insertedAt c given ∅
        = (.ok (), p.storage.insertCertificateAtomic c ∅ missing) ∧
      p.insertCertificate env c given
        = (result, p.withStorage (p.storage.insertCertificateAtomic c ∅ missing)) ∧
      insertionFate env.inserted (p.storage.insertCertificate p.ledger env.insertedAt c given
        ∅).1.isOk = .stored := by
  unfold insertCertificate insertionFate
  rcases Storage.insertCertificate_cases p.ledger env.insertedAt h c given ∅ with
    ⟨e, hres⟩ | ⟨missing, haccepts, -, hres⟩
  · left
    rcases env.inserted with _ | ⟨stop, _ | _⟩ <;> dsimp only [Await.run] <;> rw [hres]
    · exact ⟨.error e, rfl, rfl⟩
    · exact ⟨stop, rfl, rfl⟩
    · exact ⟨stop, rfl, rfl⟩
  · rcases env.inserted with _ | ⟨stop, _ | _⟩ <;> dsimp only [Await.run] <;> rw [hres]
    · exact .inr ⟨.ok (), missing, haccepts, rfl, rfl, rfl⟩
    · exact .inl ⟨stop, rfl, rfl⟩
    · exact .inr ⟨.error stop, missing, haccepts, rfl, rfl, rfl⟩

/-- **The certification of a batch** leaves what its fate says. -/
theorem signAndComplete_leaves (hS : StorageService.AddsOnly S) (h : p.Sound)
    (hvalid : p.ready.Valid)
    (hnodup : ((p.ready.transmissions ++ given.entries).map Prod.fst).Nodup)
    (habsent : ∀ e ∈ given.entries, p.ledger.containsTransmission e.1 = .ok false)
    (hround : p.currentRound ≠ 0)
    (hfresh : p.storage.containsCertificateInRoundFrom p.currentRound p.account = false)
    (env : LiteEnv) (otherAcc : List Address) (committee : Committee) :
    p.Leaves (p.signAndComplete env otherAcc true p.currentRound committee
      (p.storage.getCertificatesForRound (p.currentRound - 1)) given).2 given
      (p.batchFate env otherAcc committee given) := by
  have hreinserted : ∀ lock stamp headers, p.Leaves (({ p with
      proposeLock := lock, latestProposedBatchTimestamp := stamp, headers } :
      Primary S V).reinsertTransmissions given) given .reinserted := by
    intro lock stamp headers
    refine ⟨congrArg BFT.storage (bft_reinsertTransmissions _ _), ?_⟩
    exact reinserted_eq given.entries (p := { p with
      proposeLock := lock, latestProposedBatchTimestamp := stamp, headers }) h.idle hvalid hnodup
      habsent
  unfold signAndComplete batchFate
  dsimp only
  split
  · next e hproposal =>
    rw [hproposal]
    exact hreinserted _ _ _
  · next stop hne hproposal =>
    rw [hproposal]
    cases stop with
    | error e => exact absurd rfl (hne e)
    | aborted => exact ⟨rfl, rfl⟩
    | diverged => exact ⟨rfl, rfl⟩
  next proposal hproposal =>
  rw [hproposal, if_pos rfl]
  dsimp only
  unfold completeBatchLite
  cases hsigned : addSignatures env.certification committee otherAcc proposal with
  | error stop => exact ⟨rfl, rfl⟩
  | ok signed =>
  have hgiven : signed.transmissions = given := by
    obtain ⟨-, htransmissions, -⟩ := addSignatures_spec hsigned
    obtain ⟨batchId, signature, -, -, rfl⟩ := newProposal_spec hproposal
    exact htransmissions
  dsimp only [attempt]
  unfold storeAndBroadcastCertificateLite
  rw [hgiven]
  cases hcertificate : signed.toCertificate committee with
  | error e => exact hreinserted _ _ _
  | ok r =>
  obtain ⟨c, transmissions⟩ := r
  have hcertifies : Certifies env.certification p.account otherAcc p.currentRound committee
      (p.storage.getCertificatesForRound (p.currentRound - 1)) given c transmissions :=
    ⟨proposal, signed, hproposal, hsigned, hcertificate⟩
  obtain ⟨hcertified, rfl⟩ := hcertifies.certified
  let p₁ : Primary S V :=
    { p with
      proposeLock := p.currentRound, latestProposedBatchTimestamp := proposal.timestamp
      headers := p.headers ++ [⟨p.account, p.currentRound⟩] }
  change p.Leaves (afterLite env p.currentRound c transmissions
    (p₁.insertCertificate env.certification.toReceipt c transmissions)).2 transmissions
    (insertionFate env.certification.inserted (p₁.storage.insertCertificate p₁.ledger
      env.certification.insertedAt c transmissions ∅).1.isOk)
  rcases insertCertificate_fate (p := p₁) h.tidy.indexed env.certification.toReceipt c
    transmissions with ⟨stop, hres, hfate⟩ | ⟨result, missing, haccepts, hinsert, hres, hfate⟩ <;>
    rw [hres, hfate]
  · -- the certificate is not stored
    cases stop with
    | error e => exact hreinserted _ _ _
    | aborted => exact ⟨rfl, rfl⟩
    | diverged => exact ⟨rfl, rfl⟩
  · have htidy := (h.tidy.insertCertificate (m := 0) p.ledger env.certification.insertedAt c
      transmissions ∅).1
    rw [hinsert] at htidy
    obtain ⟨q, hq, hend⟩ := afterLite_settles (p := p₁.withStorage _) hS
      ⟨htidy, h.wellFormed, h.idle⟩ env p.currentRound c transmissions result
    exact leaves_stored hS h hround hfresh hcertified.round hcertified.author
      hcertified.transmissionIds haccepts hq rfl rfl hend

/-! ### A call -/

lemma proposeBatchLite_builds (env : LiteEnv) (otherAcc : List Address) (p : Primary S V) :
    (∃ committee, p.Builds env otherAcc committee ∧ p.proposeBatchLite env otherAcc true
      = p.buildBatch env otherAcc true p.currentRound committee
        (p.storage.getCertificatesForRound (p.currentRound - 1))) ∨
    (∀ committee, ¬ p.Builds env otherAcc committee) ∧
      (p.proposeBatchLite env otherAcc true).2.ready = p.ready := by
  unfold proposeBatchLite
  dsimp only
  split
  · next hround => exact .inr ⟨fun _ h => h.round_ne hround, rfl⟩
  next hround =>
  split
  · next hlock => exact .inr ⟨fun _ h => (h.ahead.trans hlock).false, rfl⟩
  next hlock =>
  split
  · next e htimely =>
    refine .inr ⟨fun _ h => ?_, rfl⟩
    have := h.timely
    rw [htimely] at this
    cases this
  next htimely =>
  split
  · next hown =>
    refine .inr ⟨fun _ h => ?_, ?_⟩
    · have := h.fresh
      rw [hown] at this
      cases this
    split
    · obtain ⟨bft, hbft, -⟩ := sameWork_round env.roundSent env.roundSentAt p.currentRound p
      have hready := congrArg Primary.ready hbft
      rcases hsent : p.sendPrimaryRoundToBft env.roundSent env.roundSentAt p.currentRound with
        ⟨_ | _, q⟩ <;> rw [hsent] at hready <;> exact hready
    · rfl
  next hown =>
  split
  · next hne => exact .inr ⟨fun _ h => h.ahead.ne' hne, rfl⟩
  next hne =>
  cases hlookback : p.ledger.getCommitteeLookbackForRound p.currentRound with
  | error e =>
    refine .inr ⟨fun _ h => ?_, rfl⟩
    have := h.lookback
    rw [hlookback] at this
    cases this
  | ok committee =>
  dsimp only [attempt, orStop, Except.mapError]
  have hcommittee : ∀ {committee'}, p.Builds env otherAcc committee' → committee' = committee := by
    intro committee' h
    exact Except.ok.inj (h.lookback.symm.trans hlookback)
  split
  · next hconnected =>
    refine .inr ⟨fun _ h => hconnected ?_, rfl⟩
    have := h.connected
    rwa [hcommittee h] at this
  next hconnected =>
  cases hready : p.isReady p.currentRound with
  | error e =>
    refine .inr ⟨fun _ h => ?_, rfl⟩
    have := h.ready
    rw [hready] at this
    cases this
  | ok isReady =>
  dsimp only
  split
  · next hnot =>
    refine .inr ⟨fun _ h => hnot ?_, rfl⟩
    exact Except.ok.inj (hready.symm.trans h.ready)
  next hnot =>
  refine .inl ⟨committee, ⟨hround, by omega, htimely, Bool.eq_false_iff.mpr hown, hlookback,
    not_not.mp hconnected, ?_⟩, rfl⟩
  rw [hready, not_not.mp hnot]

/-! ### The conditions hold -/

section Turns

variable {checks : TransmissionID → Checks} {T : List ((TransmissionID × Transmission) × Turn)}
  {d : Draining} {r : Except Stop Unit × Draining} {e e' : TransmissionID × Transmission}
  {turn turn' : Turn}

lemma Drains.unique (h : Drains p checks T d r) (hvalid : d.ready.Valid) (he : (e, turn) ∈ T)
    (he' : (e', turn') ∈ T) (hturn : turn ∈ gone) (hturn' : turn' ∈ gone) (hid : e.1 = e'.1) :
    turn = turn' := by
  have hnodup := hvalid.nodup
  rw [Ready.ids, h.queue, List.map_append, List.nodup_append] at hnodup
  have hgone := hnodup.1
  rw [taken, List.map_map] at hgone
  have hinj := List.inj_on_of_nodup_map hgone
    (List.mem_filter.mpr ⟨he, decide_eq_true hturn⟩)
    (List.mem_filter.mpr ⟨he', decide_eq_true hturn'⟩) hid
  exact congrArg Prod.snd hinj

lemma Drains.not_left (h : Drains p checks T d r) (hvalid : d.ready.Valid) (he : (e, turn) ∈ T)
    (hturn : turn ∈ gone) : e ∉ r.2.ready.transmissions := by
  intro hleft
  have hnodup := hvalid.nodup
  rw [Ready.ids, h.queue, List.map_append, List.nodup_append] at hnodup
  exact hnodup.2.2 e.1 (List.mem_map_of_mem (mem_taken.mpr ⟨turn, hturn, he⟩)) e.1
    (List.mem_map_of_mem hleft) rfl

lemma Drains.mem_queue (h : Drains p checks T d r) (he : (e, turn) ∈ T) (hturn : turn ∈ gone) :
    e ∈ d.ready.transmissions := by
  rw [h.queue]
  exact List.mem_append_left _ (mem_taken.mpr ⟨turn, hturn, he⟩)

end Turns

/-- A transmission is in the batch of the round, in the storage, or in the queue. -/
def Retains (p q : Primary S V) (e : TransmissionID × Transmission) : Prop :=
  q.inOwnBatch p.currentRound p.account e.1 = true ∨
    q.storage.containsTransmission e.1 = true ∨ e ∈ q.ready.transmissions

/-- The end of a call that got to the drain loop, and that keeps what was collected, or does
not. -/
structure Ends (env : LiteEnv) (p q : Primary S V) (left : List (TransmissionID × Transmission))
    (keeps : Prop) : Prop where
  ready : ∃ back, q.ready.transmissions = left ++ back ∧
    back.Sublist (taken (p.drainTurns env) [.collected])
  batched : ∀ id, q.inOwnBatch p.currentRound p.account id = true →
    ∃ t, ((id, t), .collected) ∈ p.drainTurns env
  contains : ∀ id, q.storage.containsTransmission id = true →
    p.storage.containsTransmission id = true ∨ ∃ t, ((id, t), .collected) ∈ p.drainTurns env
  kept : keeps → ∀ e, (e, .collected) ∈ p.drainTurns env → p.Retains q e
  lost : ¬ keeps → q.storage = p.storage ∧ q.ready.transmissions = left ∧
    ∀ id, q.inOwnBatch p.currentRound p.account id = false

variable {env : LiteEnv} {r : Except Stop Unit × Draining} {keeps : Prop}
  {e : TransmissionID × Transmission} {turn : Turn}

lemma Ends.not_retains (h : Ends env p q r.2.ready.transmissions keeps)
    (hdrains : Drains p env.checks (p.drainTurns env) ⟨p.ready, ∅, 0, 0⟩ r)
    (hvalid : p.ready.Valid) (he : (e, turn) ∈ p.drainTurns env) (hturn : turn ∈ gone)
    (hne : turn ≠ .collected) (hstored : p.storage.containsTransmission e.1 = false) :
    ¬ p.Retains q e := by
  have hcollected : ∀ t, ((e.1, t), .collected) ∉ p.drainTurns env := fun t ht =>
    hne (hdrains.unique hvalid he ht hturn (by decide) rfl)
  rintro (hin | hin | hin)
  · obtain ⟨t, ht⟩ := h.batched _ hin
    exact hcollected t ht
  · rcases h.contains _ hin with hin | ⟨t, ht⟩
    · rw [hstored] at hin
      cases hin
    · exact hcollected t ht
  · obtain ⟨back, hready, hback⟩ := h.ready
    rw [hready, List.mem_append] at hin
    rcases hin with hin | hin
    · exact hdrains.not_left hvalid he hturn hin
    · obtain ⟨turn', hturn', ht⟩ := mem_taken.mp (hback.subset hin)
      rw [List.mem_singleton] at hturn'
      exact hcollected e.2 (hturn' ▸ ht)

/-- **What a call conserves**, by the turns of its drain loop. -/
lemma Ends.conserves_iff (h : Ends env p q r.2.ready.transmissions keeps)
    (hdrains : Drains p env.checks (p.drainTurns env) ⟨p.ready, ∅, 0, 0⟩ r)
    (hvalid : p.ready.Valid) (hfailed : (∃ e, (e, .failed) ∈ p.drainTurns env) → ¬ keeps) :
    p.Conserves env q ↔ ¬ ∃ e, p.storage.containsTransmission e.1 = false ∧
      ((e, .overrun) ∈ p.drainTurns env ∨ (e, .failed) ∈ p.drainTurns env ∨
        (e, .collected) ∈ p.drainTurns env ∧ ¬ keeps) := by
  constructor
  · rintro hconserves ⟨e, hstored, hturn⟩
    have hretains : ∀ turn ∈ gone, (e, turn) ∈ p.drainTurns env → turn ≠ .discarded →
        p.Retains q e := fun turn hgone he hne =>
      (hconserves e (hdrains.mem_queue he hgone)).resolve_left fun hdiscarded =>
        hne (hdrains.unique hvalid he hdiscarded hgone (by decide) rfl)
    rcases hturn with he | he | ⟨he, hlost⟩
    · exact h.not_retains hdrains hvalid he (by decide) (by decide) hstored
        (hretains _ (by decide) he (by decide))
    · exact h.not_retains hdrains hvalid he (by decide) (by decide) hstored
        (hretains _ (by decide) he (by decide))
    · obtain ⟨hstorage, hready, hbatch⟩ := h.lost hlost
      rcases hretains _ (by decide) he (by decide) with hin | hin | hin
      · rw [hbatch] at hin
        cases hin
      · rw [hstorage, hstored] at hin
        cases hin
      · rw [hready] at hin
        exact hdrains.not_left hvalid he (by decide) hin
  · intro hnone e he
    -- a transmission that is in the storage stays there when the batch is lost
    have hstays : ¬ keeps → p.storage.containsTransmission e.1 = true → p.Retains q e := by
      intro hlost hstored
      rw [← (h.lost hlost).1] at hstored
      exact .inr (.inl hstored)
    have hqueue : e ∈ taken (p.drainTurns env) gone ++ r.2.ready.transmissions := by
      rw [← hdrains.queue]
      exact he
    rw [List.mem_append, mem_taken] at hqueue
    rcases hqueue with ⟨turn, hturn, he⟩ | hleft
    swap
    · obtain ⟨back, hready, -⟩ := h.ready
      exact .inr (.inr (.inr (hready ▸ List.mem_append_left _ hleft)))
    cases turn with
    | collected =>
      right
      by_cases hkeeps : keeps
      · exact h.kept hkeeps e he
      · refine hstays hkeeps ?_
        by_contra hstored
        exact hnone ⟨e, Bool.eq_false_iff.mpr hstored, .inr (.inr ⟨he, hkeeps⟩)⟩
    | discarded => exact .inl he
    | returned => exact absurd hturn (by decide)
    | overrun => exact absurd ⟨e, hdrains.overrun e he, .inl he⟩ hnone
    | failed =>
      refine .inr (hstays (hfailed ⟨e, he⟩) ?_)
      by_contra hstored
      exact hnone ⟨e, Bool.eq_false_iff.mpr hstored, .inr (.inl he)⟩

omit [StorageService S] [Ledger V] [Network] in
lemma append_sublist_iff {α : Type} {a b c : List α} (hnodup : (a ++ b).Nodup)
    (hc : c.Sublist a) : (b ++ c).Sublist (a ++ b) ↔ b = [] ∨ c = [] := by
  constructor
  · intro hsub
    by_contra hne
    rw [not_or] at hne
    obtain ⟨x, hx⟩ := List.exists_mem_of_ne_nil b hne.1
    obtain ⟨y, hy⟩ := List.exists_mem_of_ne_nil c hne.2
    have hpair : ([x] ++ [y]).Sublist (a ++ b) :=
      ((List.singleton_sublist.mpr hx).append (List.singleton_sublist.mpr hy)).trans hsub
    have hdisjoint := (List.nodup_append.mp hnodup).2.2
    obtain ⟨l₁, l₂, hl, h₁, h₂⟩ := List.sublist_append_iff.mp hpair
    cases l₁ with
    | nil =>
      have hy' : y ∈ l₂ := by
        rw [← List.nil_append l₂, ← hl]
        simp
      exact hdisjoint y (hc.subset hy) y (h₂.subset hy') rfl
    | cons z l₁ =>
      have hz : x = z := (List.cons.inj hl).1
      exact hdisjoint x (h₁.subset (hz ▸ List.mem_cons_self)) x hx rfl
  · rintro (rfl | rfl)
    · rw [List.append_nil]
      exact hc
    · rw [List.append_nil]
      exact List.sublist_append_right a b

lemma Drains.mem_collected {checks : TransmissionID → Checks}
    {T : List ((TransmissionID × Transmission) × Turn)} {ready : Ready}
    (h : Drains p checks T ⟨ready, ∅, 0, 0⟩ r) :
    e ∈ r.2.transmissions.entries ↔ (e, .collected) ∈ T := by
  rw [h.collected]
  change e ∈ [] ++ taken T [.collected] ↔ _
  rw [List.nil_append, mem_taken]
  simp

omit [Network] in
lemma taken_collected_sublist (T : List ((TransmissionID × Transmission) × Turn)) :
    (taken T [.collected]).Sublist (taken T gone) := by
  refine (List.monotone_filter_right _ fun e he => ?_).map _
  rw [decide_eq_true_eq, List.mem_singleton] at he
  rw [he]
  rfl

/-- What a call that gets to the drain loop does with the transmissions. -/
structure Finishes (env : LiteEnv) (otherAcc : List Address) (committee : Committee)
    (p q : Primary S V) : Prop where
  ends : Ends env p q
    (p.drain env.checks p.ready.numTransmissions ⟨p.ready, ∅, 0, 0⟩).2.ready.transmissions
    (¬ ((∃ e, (e, .failed) ∈ p.drainTurns env) ∨
      p.batchFate env otherAcc committee (p.collected env) = .lost))
  order : p.ConservesOrder q ↔ ¬ ((∀ e, (e, .failed) ∉ p.drainTurns env) ∧
    (∃ e ∈ p.ready.transmissions, e ∉ taken (p.drainTurns env) gone) ∧
    (∃ e, p.storage.containsTransmission e.1 = false ∧ (e, .collected) ∈ p.drainTurns env) ∧
    p.batchFate env otherAcc committee (p.collected env) = .reinserted)

omit [StorageService S] [Ledger V] [Network] in
lemma inOwnBatch_congr (h : q.storage = p.storage) (round : ℕ) (a : Address)
    (id : TransmissionID) : q.inOwnBatch round a id = p.inOwnBatch round a id := by
  rw [inOwnBatch, h, inOwnBatch]

section Finishing

variable {otherAcc : List Address} {committee : Committee}
  (hdrains : Drains p env.checks (p.drainTurns env) ⟨p.ready, ∅, 0, 0⟩
    (p.drain env.checks p.ready.numTransmissions ⟨p.ready, ∅, 0, 0⟩))
  (hbatch : ∀ id, p.inOwnBatch p.currentRound p.account id = false)

include hdrains

lemma left_sublist : (p.drain env.checks p.ready.numTransmissions
    ⟨p.ready, ∅, 0, 0⟩).2.ready.transmissions.Sublist p.ready.transmissions := by
  have hqueue := hdrains.queue
  dsimp only at hqueue
  rw [hqueue]
  exact List.sublist_append_right _ _

include hbatch

lemma finishes_of_lost (hstorage : q.storage = p.storage)
    (hready : q.ready = (p.drain env.checks p.ready.numTransmissions ⟨p.ready, ∅, 0, 0⟩).2.ready)
    (hlost : (∃ e, (e, .failed) ∈ p.drainTurns env) ∨
      p.batchFate env otherAcc committee (p.collected env) = .lost) :
    p.Finishes env otherAcc committee q := by
  have hbatch' : ∀ id, q.inOwnBatch p.currentRound p.account id = false := fun id =>
    (inOwnBatch_congr hstorage _ _ id).trans (hbatch id)
  refine ⟨⟨⟨[], by rw [hready, List.append_nil], List.nil_sublist _⟩, fun id hid => ?_,
    fun id hid => .inl (hstorage ▸ hid), fun hkeeps => absurd hlost hkeeps,
    fun _ => ⟨hstorage, congrArg Ready.transmissions hready, hbatch'⟩⟩, iff_of_true ?_ ?_⟩
  · rw [hbatch'] at hid
    cases hid
  · unfold ConservesOrder
    rw [hready]
    exact List.filter_sublist.trans (left_sublist hdrains)
  · rintro ⟨hnone, -, -, hfate⟩
    rcases hlost with ⟨e, he⟩ | hlost
    · exact hnone e he
    · rw [hlost] at hfate
      cases hfate

lemma finishes_of_reinserted (hvalid : p.ready.Valid) (hnone : ∀ e, (e, .failed) ∉ p.drainTurns env)
    (hfate : p.batchFate env otherAcc committee (p.collected env) = .reinserted)
    (hstorage : q.storage = p.storage)
    (hready : q.ready.transmissions = (p.drain env.checks p.ready.numTransmissions
      ⟨p.ready, ∅, 0, 0⟩).2.ready.transmissions ++
        (p.collected env).entries.filter fun e => !p.storage.containsTransmission e.1) :
    p.Finishes env otherAcc committee q := by
  have hbatch' : ∀ id, q.inOwnBatch p.currentRound p.account id = false := fun id =>
    (inOwnBatch_congr hstorage _ _ id).trans (hbatch id)
  have hentries : (p.collected env).entries = taken (p.drainTurns env) [.collected] :=
    hdrains.collected.trans (List.nil_append _)
  have hqueue : p.ready.transmissions = taken (p.drainTurns env) gone ++ (p.drain env.checks
      p.ready.numTransmissions ⟨p.ready, ∅, 0, 0⟩).2.ready.transmissions := hdrains.queue
  generalize hback : (p.collected env).entries.filter
    (fun e => !p.storage.containsTransmission e.1) = back at hready
  have hsub : back.Sublist (taken (p.drainTurns env) [.collected]) := by
    rw [← hback, hentries]
    exact List.filter_sublist
  have hmem : ∀ e, e ∈ back ↔ (e, .collected) ∈ p.drainTurns env ∧
      p.storage.containsTransmission e.1 = false := by
    intro e
    rw [← hback, List.mem_filter, hentries, mem_taken]
    simp
  refine ⟨⟨⟨back, hready, hsub⟩, fun id hid => ?_, fun id hid => .inl (hstorage ▸ hid),
    fun _ e he => ?_, fun hlost => absurd ?_ hlost⟩, ?_⟩
  · rw [hbatch'] at hid
    cases hid
  · right
    rw [hstorage, hready, List.mem_append, hmem]
    cases hstored : p.storage.containsTransmission e.1 with
    | true => exact .inl rfl
    | false => exact .inr (.inr ⟨he, rfl⟩)
  · rintro (⟨e, he⟩ | hlost)
    · exact hnone e he
    · rw [hlost] at hfate
      cases hfate
  have hfilter : (q.ready.transmissions.filter fun e =>
      !q.inOwnBatch p.currentRound p.account e.1) = q.ready.transmissions :=
    List.filter_eq_self.mpr fun e _ => by rw [hbatch', Bool.not_false]
  have hnodup : p.ready.transmissions.Nodup := List.Nodup.of_map _ hvalid.nodup
  have hgone := hsub.trans (taken_collected_sublist _)
  -- something is left, and something is inserted again
  have hleft : (∃ e ∈ p.ready.transmissions, e ∉ taken (p.drainTurns env) gone) ↔
      (p.drain env.checks p.ready.numTransmissions ⟨p.ready, ∅, 0, 0⟩).2.ready.transmissions
        ≠ [] := by
    rw [Ne, List.eq_nil_iff_forall_not_mem, not_forall_not]
    refine exists_congr fun e => ⟨fun h => ?_, fun h => ?_⟩
    · have he := h.1
      rw [hqueue, List.mem_append] at he
      exact he.resolve_left h.2
    · refine ⟨hqueue ▸ List.mem_append_right _ h, fun htaken => ?_⟩
      obtain ⟨turn, hturn, he⟩ := mem_taken.mp htaken
      exact hdrains.not_left hvalid he hturn h
  have hagain : (∃ e, p.storage.containsTransmission e.1 = false ∧
      (e, .collected) ∈ p.drainTurns env) ↔ back ≠ [] := by
    rw [Ne, List.eq_nil_iff_forall_not_mem, not_forall_not]
    exact exists_congr fun e => by rw [hmem, and_comm]
  rw [hleft, hagain, and_iff_right hnone, and_iff_left hfate]
  unfold ConservesOrder
  rw [hfilter, hready, hqueue]
  rw [hqueue] at hnodup
  rw [append_sublist_iff hnodup hgone, not_and_or, not_not, not_not]

omit hbatch in
lemma finishes_of_stored (hnone : ∀ e, (e, .failed) ∉ p.drainTurns env)
    (hfate : p.batchFate env otherAcc committee (p.collected env) = .stored)
    (hin : ∀ id, q.inOwnBatch p.currentRound p.account id = true ↔ id ∈ (p.collected env).keys)
    (hcontains : ∀ id, q.storage.containsTransmission id = true →
      p.storage.containsTransmission id = true ∨ id ∈ (p.collected env).keys)
    {back : List (TransmissionID × Transmission)}
    (hready : q.ready.transmissions = (p.drain env.checks p.ready.numTransmissions
      ⟨p.ready, ∅, 0, 0⟩).2.ready.transmissions ++ back)
    (hback : back.Sublist (p.collected env).entries) :
    p.Finishes env otherAcc committee q := by
  have hentries : (p.collected env).entries = taken (p.drainTurns env) [.collected] :=
    hdrains.collected.trans (List.nil_append _)
  have hkeys : ∀ id, id ∈ (p.collected env).keys →
      ∃ t, ((id, t), .collected) ∈ p.drainTurns env := by
    intro id hid
    obtain ⟨e, he, rfl⟩ := List.mem_map.mp hid
    exact ⟨e.2, hdrains.mem_collected.mp he⟩
  refine ⟨⟨⟨back, hready, hentries ▸ hback⟩, fun id hid => hkeys id ((hin id).mp hid),
    fun id hid => (hcontains id hid).imp_right (hkeys id), fun _ e he => .inl ?_,
    fun hlost => absurd ?_ hlost⟩, iff_of_true ?_ ?_⟩
  · exact (hin e.1).mpr (List.mem_map_of_mem (hdrains.mem_collected.mpr he))
  · rintro (⟨e, he⟩ | hlost)
    · exact hnone e he
    · rw [hfate] at hlost
      cases hlost
  · -- what is inserted again is in the batch
    have hnil : (back.filter fun e => !q.inOwnBatch p.currentRound p.account e.1) = [] := by
      refine List.filter_eq_nil_iff.mpr fun e he => ?_
      rw [(hin e.1).mpr (List.mem_map_of_mem (hback.subset he))]
      simp
    unfold ConservesOrder
    rw [hready, List.filter_append, hnil, List.append_nil]
    exact List.filter_sublist.trans (left_sublist hdrains)
  · rintro ⟨-, -, -, hreinserted⟩
    rw [hfate] at hreinserted
    cases hreinserted

end Finishing

/-- **A call that gets to the drain loop.** -/
theorem Builds.finishes {otherAcc : List Address} {committee : Committee}
    (hbuilds : p.Builds env otherAcc committee) (hlimit : 0 < Network.maxTransmissionsPerBatch)
    (hS : StorageService.AddsOnly S) (h : p.Sound) (hvalid : p.ready.Valid) :
    Drains p env.checks (p.drainTurns env) ⟨p.ready, ∅, 0, 0⟩
      (p.drain env.checks p.ready.numTransmissions ⟨p.ready, ∅, 0, 0⟩) ∧
    p.Finishes env otherAcc committee (p.buildBatch env otherAcc true p.currentRound committee
      (p.storage.getCertificatesForRound (p.currentRound - 1))).2 := by
  have hdrains : Drains p env.checks (p.drainTurns env) ⟨p.ready, ∅, 0, 0⟩
      (p.drain env.checks p.ready.numTransmissions ⟨p.ready, ∅, 0, 0⟩) :=
    drain_spec p env.checks hlimit _ hvalid (fun id hid => absurd hid List.not_mem_nil) rfl
  refine ⟨hdrains, ?_⟩
  have hbatch := inOwnBatch_of_fresh h.tidy.indexed hbuilds.round_ne hbuilds.fresh
  unfold buildBatch
  rcases hdrain : p.drain env.checks p.ready.numTransmissions ⟨p.ready, ∅, 0, 0⟩ with
    ⟨stop | ⟨⟩, d⟩
  · refine finishes_of_lost hdrains hbatch rfl (by rw [hdrain]; rfl) (.inl ?_)
    rw [← hdrains.failed, hdrain]
    exact ⟨stop, rfl⟩
  have hcollected : p.collected env = d.transmissions := by rw [collected, hdrain]
  have hfate : p.batchFate env otherAcc committee (p.collected env) =
      ({ p with ready := d.ready } : Primary S V).batchFate env otherAcc committee
        d.transmissions := by
    rw [hcollected]
    rfl
  have hd := hdrains
  rw [hdrain] at hd
  have hnone : ∀ e, (e, .failed) ∉ p.drainTurns env := by
    intro e he
    obtain ⟨stop, hstop⟩ := hd.failed.mpr ⟨e, he⟩
    cases hstop
  have hnodup : ((d.ready.transmissions ++ d.transmissions.entries).map Prod.fst).Nodup := by
    have hqueue : p.ready.transmissions
        = taken (p.drainTurns env) gone ++ d.ready.transmissions := hd.queue
    have hids := hvalid.nodup
    rw [Ready.ids, hqueue] at hids
    have hentries : d.transmissions.entries = taken (p.drainTurns env) [.collected] :=
      hd.collected.trans (List.nil_append _)
    have hperm : (d.ready.transmissions ++ d.transmissions.entries).Perm
        (d.transmissions.entries ++ d.ready.transmissions) := List.perm_append_comm
    refine (hperm.map Prod.fst).nodup_iff.mpr (hids.sublist (List.Sublist.map _ ?_))
    rw [hentries]
    exact (taken_collected_sublist _).append_right _
  have hleaves := signAndComplete_leaves (p := { p with ready := d.ready }) hS
    ⟨h.tidy, h.wellFormed, h.idle⟩ hd.valid hnodup
    (fun e he => hd.absent e (hd.mem_collected.mp he)) hbuilds.round_ne hbuilds.fresh env otherAcc
    committee
  rw [← hfate] at hleaves
  have hleft : (p.drain env.checks p.ready.numTransmissions ⟨p.ready, ∅, 0, 0⟩).2.ready
      = d.ready := by rw [hdrain]
  dsimp only [attempt]
  cases hcase : p.batchFate env otherAcc committee (p.collected env) with
  | stored =>
    rw [hcase] at hleaves
    obtain ⟨hin, hcontains, back, hready, hback⟩ := hleaves
    exact finishes_of_stored hdrains hnone hcase (hcollected ▸ hin) (hcollected ▸ hcontains)
      (hleft ▸ hready) (hcollected ▸ hback)
  | reinserted =>
    rw [hcase] at hleaves
    obtain ⟨hstorage, hready⟩ := hleaves
    exact finishes_of_reinserted hdrains hbatch hvalid hnone hcase hstorage
      (by rw [hleft, hcollected]; exact hready)
  | lost =>
    rw [hcase] at hleaves
    obtain ⟨hstorage, hready⟩ := hleaves
    exact finishes_of_lost hdrains hbatch hstorage (by rw [hleft]; exact hready) (.inr hcase)

/-- **Transmissions are conserved** by a call, at any time of the life of a node and for any queue,
unless it loses one of them; and the order of those that stay in the queue is, unless it reorders
them. -/
theorem transmissions_conserved {E : Surroundings V} {cache : Option ProposalCache}
    (hlimit : 0 < Network.maxTransmissionsPerBatch) (hS : StorageService.AddsOnly S)
    (h : Lived E cache p) (hvalid : p.ready.Valid) (env : LiteEnv) (otherAcc : List Address) :
    (p.Conserves env (p.proposeBatchLite env otherAcc true).2 ↔ ¬ p.Loses env otherAcc) ∧
      (p.ConservesOrder (p.proposeBatchLite env otherAcc true).2 ↔
        ¬ p.Reorders env otherAcc) := by
  rcases proposeBatchLite_builds env otherAcc p with ⟨committee, hbuilds, hcall⟩ | ⟨hnot, hready⟩
  · obtain ⟨hdrains, hends, horder⟩ := hbuilds.finishes hlimit hS h.sound.1 hvalid
    have hcommittee : ∀ {committee'}, p.Builds env otherAcc committee' →
        committee' = committee := fun h' =>
      Except.ok.inj (h'.lookback.symm.trans hbuilds.lookback)
    rw [hcall, hends.conserves_iff hdrains hvalid fun hfailed hkeeps => hkeeps (.inl hfailed),
      horder]
    refine ⟨not_congr ⟨fun hlost => ⟨committee, hbuilds, ?_⟩, ?_⟩,
      not_congr ⟨fun hlost => ⟨committee, hbuilds, hlost⟩, ?_⟩⟩
    · simpa only [not_not] using hlost
    · rintro ⟨committee', hbuilds', hlost⟩
      rw [hcommittee hbuilds'] at hlost
      simpa only [not_not] using hlost
    · rintro ⟨committee', hbuilds', hlost⟩
      rwa [hcommittee hbuilds'] at hlost
  · refine ⟨iff_of_true (fun e he => ?_) ?_, iff_of_true ?_ ?_⟩
    · exact .inr (.inr (.inr (hready ▸ he)))
    · rintro ⟨committee, hbuilds, -⟩
      exact hnot committee hbuilds
    · rw [ConservesOrder, hready]
      exact List.filter_sublist
    · rintro ⟨committee, hbuilds, -⟩
      exact hnot committee hbuilds

end Primary

section Example

/-- A node of the development network with a number of solutions in its queue. -/
def filledNode (n : ℕ) : Primary BFTMemoryService Chain :=
  { (startedNode (developmentLedger [genesis]) none 1).2 with
    ready := (List.range n).foldl (fun ready id =>
      (ready.insert (.solution id 0) (.solution (.object ⟨id, []⟩))).2) Ready.new }

/-- The node after it has proposed its batch. -/
def filledCall (n : ℕ) : Primary BFTMemoryService Chain :=
  let _ := developmentNetwork
  ((filledNode n).proposeBatchLite (proposes 1).lite
    [developmentAccount 1, developmentAccount 2, developmentAccount 3] true).2

lemma filledNode_lived (n : ℕ) :
    let _ := developmentNetwork
    Primary.Lived (Primary.anySurroundings Chain) none (filledNode n) ∧
      (filledNode n).ready.Valid := by
  let _ := developmentNetwork
  have hsender : (Primary.anySurroundings Chain).sender processBftSubdag :=
    processBftSubdag_faithful
  have hstart : Primary.Lived (Primary.anySurroundings Chain) none
      (startedNode (developmentLedger [genesis]) none 1).2 :=
    .start (startedNode_starts trivial hsender (by decide +kernel) none)
  refine ⟨hstart.submit _, ?_⟩
  exact List.foldlRecOn (motive := Ready.Valid) _ _ Ready.valid_new fun ready h id _ => h.insert _ _

/-- A full batch conserves its transmissions. -/
theorem transmissions_conserved_example :
    let _ := developmentNetwork
    (filledNode 50).Conserves (proposes 1).lite (filledCall 50) ∧
      (filledNode 50).ConservesOrder (filledCall 50) := by
  let _ := developmentNetwork
  obtain ⟨hlived, hvalid⟩ := filledNode_lived 50
  obtain ⟨hconserves, horder⟩ := Primary.transmissions_conserved (by decide)
    BFTMemoryService.addsOnly hlived hvalid (proposes 1).lite
    [developmentAccount 1, developmentAccount 2, developmentAccount 3]
  have hturns : ∀ e ∈ (filledNode 50).drainTurns (proposes 1).lite, e.2 = .collected := by
    decide +kernel
  have hfate : (filledNode 50).batchFate (proposes 1).lite
      [developmentAccount 1, developmentAccount 2, developmentAccount 3] developmentCommittee
      ((filledNode 50).collected (proposes 1).lite) = .stored := by
    decide +kernel
  refine ⟨hconserves.mpr ?_, horder.mpr ?_⟩
  · rintro ⟨committee, hbuilds, e, -, he | he | ⟨-, ⟨e', he⟩ | hlost⟩⟩
    · cases hturns _ he
    · cases hturns _ he
    · cases hturns _ he
    · cases hbuilds.lookback
      rw [hfate] at hlost
      cases hlost
  · rintro ⟨committee, hbuilds, -, -, -, hreinserted⟩
    cases hbuilds.lookback
    rw [hfate] at hreinserted
    cases hreinserted

/-- **One transmission more than a batch holds** is lost. -/
theorem transmission_lost :
    let _ := developmentNetwork
    Primary.Lived (Primary.anySurroundings Chain) none (filledNode 51) ∧
      (filledNode 51).ready.Valid ∧
      ¬ (filledNode 51).Conserves (proposes 1).lite (filledCall 51) := by
  let _ := developmentNetwork
  obtain ⟨hlived, hvalid⟩ := filledNode_lived 51
  refine ⟨hlived, hvalid, fun hconserves => ?_⟩
  have hlast := hconserves (.solution 50 0, .solution (.object ⟨50, []⟩)) (by decide +kernel)
  revert hlast
  decide +kernel

end Example

end AmareleoChain
