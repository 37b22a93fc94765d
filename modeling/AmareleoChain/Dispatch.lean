import AmareleoChain.Commit
import AmareleoChain.Development

/-!
What `commit_leader_certificate` sends to consensus.

The transmissions sent with a subdag are the first of each solution and each transaction that
its certificates declare and that the ledger does not have, in the order in which they are
declared. So over all the calls, on whatever DAG and storage, no solution and no transaction
comes with the subdags of two blocks.
-/

namespace AmareleoChain

open Std

/-! ### The subject of a transmission -/

/-- The solution or the transaction that a transmission ID is about, whatever the checksum. -/
def TransmissionID.subject : TransmissionID → Option (SolutionID ⊕ TransactionID)
  | .ratification => none
  | .solution id _ => some (.inl id)
  | .transaction id _ => some (.inr id)

lemma CoreLedgerService.containsTransmission_congr {V : Type} [Ledger V]
    (l : CoreLedgerService V) {i j : TransmissionID} (h : i.subject = j.subject) :
    l.containsTransmission i = l.containsTransmission j := by
  cases i <;> cases j <;> simp_all [TransmissionID.subject, containsTransmission]

/-- The transmission IDs that some certificates declare, in order. -/
def declared (certificates : List BatchCertificate) : List TransmissionID :=
  certificates.flatMap fun c => c.transmissionIds.toList

/-- The solutions and transactions of a block, the aborted ones included. -/
def Block.Has (block : Block) (id : TransmissionID) : Prop :=
  match id with
  | .ratification => False
  | .solution id _ => id ∈ block.solutions.map Solution.id ∨ id ∈ block.abortedSolutionIds
  | .transaction id _ =>
    id ∈ block.transactions.map Transaction.id ∨ id ∈ block.abortedTransactionIds

lemma Block.has_congr {block : Block} {i j : TransmissionID} (h : i.subject = j.subject) :
    block.Has i ↔ block.Has j := by
  cases i <;> cases j <;> simp_all [TransmissionID.subject, Block.Has]

namespace BFT

variable {S V : Type} [Ledger V] [StorageService S] {b : BFT S V}

/-! ### One subdag -/

/-- The ledger answers that it does not have the transmission. -/
def isNew (b : BFT S V) (id : TransmissionID) : Bool :=
  b.ledger.containsTransmission id matches .ok false

omit [StorageService S] in
lemma isNew_congr {i j : TransmissionID} (h : i.subject = j.subject) : b.isNew i = b.isNew j := by
  rw [isNew, isNew, b.ledger.containsTransmission_congr h]

lemma retrieveTransmission_eq (round : ℕ) (acc : Deduped) (id : TransmissionID)
    (record : Deduped → Deduped) : b.retrieveTransmission round acc id record =
      if acc.transmissions.containsKey id then .ok acc
      else if !b.isNew id then .ok acc
      else match b.storage.getTransmission id with
        | none => .error
            s!"BFT failed to retrieve transmission '{fmtTransmissionId id}' from round {round}"
        | some transmission =>
          .ok (record { acc with transmissions := acc.transmissions.insert id transmission }) :=
  rfl

/-- What the deduplication loop has collected, `done` being the IDs it is through with. -/
structure Collected (b : BFT S V) (done : List TransmissionID) (acc : Deduped) : Prop where
  plain : .ratification ∉ done
  keys : acc.transmissions.keys = (firstsBy TransmissionID.subject done).filter b.isNew
  stored : ∀ e ∈ acc.transmissions.entries, b.storage.getTransmission e.1 = some e.2
  solutions : ∀ i, i ∈ acc.seenSolutionIds ↔
    some (.inl i) ∈ acc.transmissions.keys.map TransmissionID.subject
  transactions : ∀ i, i ∈ acc.seenTransactionIds ↔
    some (.inr i) ∈ acc.transmissions.keys.map TransmissionID.subject

variable {done : List TransmissionID} {acc acc' : Deduped} {id : TransmissionID} {round : ℕ}

lemma Collected.empty : b.Collected [] ⟨∅, ∅, ∅⟩ :=
  ⟨List.not_mem_nil, rfl, fun _ h => absurd h List.not_mem_nil, by simp [IndexMap.keys],
    by simp [IndexMap.keys]⟩

lemma Collected.mem_subjects (h : b.Collected done acc) :
    id.subject ∈ acc.transmissions.keys.map TransmissionID.subject ↔
      id.subject ∈ done.map TransmissionID.subject ∧ b.isNew id = true := by
  rw [h.keys, ← mem_map_firstsBy (f := TransmissionID.subject) (l := done)]
  simp only [List.mem_map, List.mem_filter]
  constructor
  · rintro ⟨j, ⟨hj, hnew⟩, hid⟩
    exact ⟨⟨j, hj, hid⟩, by rw [← isNew_congr hid]; exact hnew⟩
  · rintro ⟨⟨j, hj, hid⟩, hnew⟩
    exact ⟨j, ⟨hj, by rw [isNew_congr hid]; exact hnew⟩, hid⟩

lemma Collected.pass (h : b.Collected done acc) (hne : id ≠ .ratification)
    (hid : id.subject ∈ acc.transmissions.keys.map TransmissionID.subject ∨ b.isNew id = false) :
    b.Collected (done ++ [id]) acc := by
  refine ⟨by simpa using ⟨h.plain, hne.symm⟩, ?_, h.stored, h.solutions, h.transactions⟩
  rw [h.keys, firstsBy_concat]
  split
  · rfl
  · next hnot =>
    rcases hid with hid | hid
    · exact absurd (mem_map_firstsBy.mpr (h.mem_subjects.mp hid).1) hnot
    · rw [List.filter_append, List.filter_singleton, hid]
      simp

lemma Collected.take (h : b.Collected done acc) (hne : id ≠ .ratification)
    (hid : id.subject ∉ acc.transmissions.keys.map TransmissionID.subject)
    (hnew : b.isNew id = true) {transmission : Transmission}
    (hstored : b.storage.getTransmission id = some transmission)
    (hkeys : acc'.transmissions = acc.transmissions.insert id transmission)
    (hsol : ∀ i, i ∈ acc'.seenSolutionIds ↔ i ∈ acc.seenSolutionIds ∨ some (.inl i) = id.subject)
    (htx : ∀ i, i ∈ acc'.seenTransactionIds ↔
      i ∈ acc.seenTransactionIds ∨ some (.inr i) = id.subject) :
    b.Collected (done ++ [id]) acc' := by
  have hno : id ∉ acc.transmissions.keys := fun hm => hid (List.mem_map_of_mem hm)
  have hk : acc'.transmissions.keys = acc.transmissions.keys ++ [id] := by
    rw [hkeys, IndexMap.keys_insert, if_neg hno]
  have hfirst : id.subject ∉ (firstsBy TransmissionID.subject done).map TransmissionID.subject :=
    fun hm => hid (h.mem_subjects.mpr ⟨mem_map_firstsBy.mp hm, hnew⟩)
  have hsubjects : ∀ x, x ∈ acc'.transmissions.keys.map TransmissionID.subject ↔
      x ∈ acc.transmissions.keys.map TransmissionID.subject ∨ x = id.subject := by
    intro x
    rw [hk, List.map_append, List.mem_append, List.map_singleton, List.mem_singleton]
  refine ⟨by simpa using ⟨h.plain, hne.symm⟩, ?_, fun e he => ?_, fun i => ?_, fun i => ?_⟩
  · rw [hk, firstsBy_concat, if_neg hfirst, List.filter_append, ← h.keys]
    simp [hnew]
  · rw [hkeys, IndexMap.entries_insert hno, List.mem_append, List.mem_singleton] at he
    rcases he with he | rfl
    · exact h.stored e he
    · exact hstored
  · rw [hsol, h.solutions, hsubjects]
  · rw [htx, h.transactions, hsubjects]

/-- The part of a turn that reads the ledger and the storage. -/
lemma Collected.retrieve (h : b.Collected done acc) (round : ℕ) (id : TransmissionID)
    (hne : id ≠ .ratification)
    (hid : id.subject ∉ acc.transmissions.keys.map TransmissionID.subject)
    {record : Deduped → Deduped} (hrecord : ∀ acc,
      (record acc).transmissions = acc.transmissions ∧
      (∀ i, i ∈ (record acc).seenSolutionIds ↔
        i ∈ acc.seenSolutionIds ∨ some (.inl i) = id.subject) ∧
      ∀ i, i ∈ (record acc).seenTransactionIds ↔
        i ∈ acc.seenTransactionIds ∨ some (.inr i) = id.subject) :
    (∀ acc', b.retrieveTransmission round acc id record = .ok acc' →
      b.Collected (done ++ [id]) acc') ∧
    ((b.isNew id = true → (b.storage.getTransmission id).isSome) →
      ∃ acc', b.retrieveTransmission round acc id record = .ok acc') := by
  have hno : acc.transmissions.containsKey id = false := by
    rw [← Bool.not_eq_true, IndexMap.containsKey_iff]
    exact fun hm => hid (List.mem_map_of_mem hm)
  rw [retrieveTransmission_eq, hno, if_neg Bool.false_ne_true]
  cases hnew : b.isNew id with
  | false =>
    exact ⟨fun acc' hacc => by cases hacc; exact h.pass hne (.inr hnew), fun _ => ⟨acc, rfl⟩⟩
  | true =>
    cases hget : b.storage.getTransmission id with
    | none => exact ⟨fun acc' hacc => (by cases hacc), fun hsome => by simp at hsome⟩
    | some transmission =>
      obtain ⟨hk, hsol, htx⟩ := hrecord
        { acc with transmissions := acc.transmissions.insert id transmission }
      exact ⟨fun acc' hacc => by cases hacc; exact h.take hne hid hnew hget hk hsol htx,
        fun _ => ⟨_, rfl⟩⟩

lemma Collected.turn (h : b.Collected done acc) (round : ℕ) (id : TransmissionID) :
    (∀ acc', b.collectTransmission round acc id = .ok acc' → b.Collected (done ++ [id]) acc') ∧
    (id ≠ .ratification → (b.isNew id = true → (b.storage.getTransmission id).isSome) →
      ∃ acc', b.collectTransmission round acc id = .ok acc') := by
  cases id with
  | ratification => exact ⟨fun _ hacc => (by cases hacc), fun hne => absurd rfl hne⟩
  | solution i checksum =>
    rw [collectTransmission]
    split
    · next hseen =>
      have hpass : b.Collected (done ++ [.solution i checksum]) acc :=
        h.pass (by simp) (.inl ((h.solutions i).mp hseen))
      exact ⟨fun _ hacc => by cases hacc; exact hpass, fun _ _ => ⟨acc, rfl⟩⟩
    · next hseen =>
      refine And.imp_right (fun hex _ => hex)
        (h.retrieve round (.solution i checksum) (by simp)
          (fun hm => hseen ((h.solutions i).mpr hm))
          fun acc => ⟨rfl, fun j => ?_, fun j => ?_⟩)
        <;> simp [TransmissionID.subject]
  | transaction i checksum =>
    rw [collectTransmission]
    split
    · next hseen =>
      have hpass : b.Collected (done ++ [.transaction i checksum]) acc :=
        h.pass (by simp) (.inl ((h.transactions i).mp hseen))
      exact ⟨fun _ hacc => by cases hacc; exact hpass, fun _ _ => ⟨acc, rfl⟩⟩
    · next hseen =>
      refine And.imp_right (fun hex _ => hex)
        (h.retrieve round (.transaction i checksum) (by simp)
          (fun hm => hseen ((h.transactions i).mpr hm))
          fun acc => ⟨rfl, fun j => ?_, fun j => ?_⟩)
        <;> simp [TransmissionID.subject]

lemma Collected.run (h : b.Collected done acc) (round : ℕ) (ids : List TransmissionID) :
    (∀ acc', ids.foldlM (b.collectTransmission round) acc = .ok acc' →
      b.Collected (done ++ ids) acc') ∧
    ((∀ id ∈ ids, id ≠ .ratification ∧
        (b.isNew id = true → (b.storage.getTransmission id).isSome)) →
      ∃ acc', ids.foldlM (b.collectTransmission round) acc = .ok acc') := by
  induction ids generalizing done acc with
  | nil => exact ⟨fun acc' hacc => by cases hacc; simpa using h, fun _ => ⟨acc, rfl⟩⟩
  | cons id ids ih =>
    obtain ⟨hok, hex⟩ := h.turn round id
    rw [List.foldlM_cons]
    constructor
    · intro acc' hacc
      cases hturn : b.collectTransmission round acc id with
      | error e => rw [hturn] at hacc; cases hacc
      | ok acc₁ =>
        rw [hturn] at hacc
        simpa using (ih (hok acc₁ hturn)).1 acc' hacc
    · intro hall
      obtain ⟨acc₁, hturn⟩ := hex (hall id (.head _)).1 (hall id (.head _)).2
      rw [hturn]
      exact (ih (hok acc₁ hturn)).2 fun j hj => hall j (.tail _ hj)

lemma Collected.certificates (h : b.Collected done acc) (certificates : List BatchCertificate) :
    (∀ acc', certificates.foldlM (fun acc (certificate : BatchCertificate) =>
        certificate.transmissionIds.toList.foldlM (b.collectTransmission certificate.round) acc)
        acc = .ok acc' → b.Collected (done ++ declared certificates) acc') ∧
    ((∀ id ∈ declared certificates, id ≠ .ratification ∧
        (b.isNew id = true → (b.storage.getTransmission id).isSome)) →
      ∃ acc', certificates.foldlM (fun acc (certificate : BatchCertificate) =>
        certificate.transmissionIds.toList.foldlM (b.collectTransmission certificate.round) acc)
        acc = .ok acc') := by
  induction certificates generalizing done acc with
  | nil => exact ⟨fun acc' hacc => by cases hacc; simpa [declared] using h, fun _ => ⟨acc, rfl⟩⟩
  | cons c certificates ih =>
    obtain ⟨hok, hex⟩ := h.run c.round c.transmissionIds.toList
    have hcons : declared (c :: certificates)
        = c.transmissionIds.toList ++ declared certificates := rfl
    rw [List.foldlM_cons, hcons]
    constructor
    · intro acc' hacc
      cases hone : c.transmissionIds.toList.foldlM (b.collectTransmission c.round) acc with
      | error e => rw [hone] at hacc; cases hacc
      | ok acc₁ =>
        rw [hone] at hacc
        rw [← List.append_assoc]
        exact (ih (hok acc₁ hone)).1 acc' hacc
    · intro hall
      obtain ⟨acc₁, hone⟩ := hex fun id hid => hall id (List.mem_append_left _ hid)
      rw [hone]
      exact (ih (hok acc₁ hone)).2 fun id hid => hall id (List.mem_append_right _ hid)

/-- **The transmissions of a subdag**: the first declared ID of each subject that is not in the
ledger, with its stored transmission. They are found when those that are not in the ledger are
stored. -/
theorem collectTransmissions_spec (certificates : List BatchCertificate) :
    (∀ t, b.collectTransmissions certificates = .ok t →
      .ratification ∉ declared certificates ∧
      t.keys = (firstsBy TransmissionID.subject (declared certificates)).filter b.isNew ∧
      ∀ e ∈ t.entries, b.storage.getTransmission e.1 = some e.2) ∧
    ((∀ id ∈ declared certificates, id ≠ .ratification ∧
        (b.isNew id = true → (b.storage.getTransmission id).isSome)) →
      ∃ t, b.collectTransmissions certificates = .ok t) := by
  obtain ⟨hok, hex⟩ := Collected.empty.certificates (b := b) certificates
  unfold collectTransmissions
  constructor
  · intro t ht
    cases hacc : certificates.foldlM (fun acc (certificate : BatchCertificate) =>
        certificate.transmissionIds.toList.foldlM (b.collectTransmission certificate.round) acc)
        (⟨∅, ∅, ∅⟩ : Deduped) with
    | error e => rw [hacc] at ht; cases ht
    | ok acc =>
      rw [hacc] at ht
      cases ht
      exact ⟨(hok acc hacc).plain, (hok acc hacc).keys, (hok acc hacc).stored⟩
  · intro hall
    obtain ⟨acc, hacc⟩ := hex hall
    exact ⟨acc.transmissions, by rw [hacc]; rfl⟩

end BFT

/-! ### The dispatches of a call -/

/-- A subdag sent to consensus: the BFT that sends it, its transmissions, and the ledger
afterwards. -/
structure Dispatch (S V : Type) where
  sender : BFT S V
  subdag : Subdag
  transmissions : IndexMap TransmissionID Transmission
  ledger : CoreLedgerService V

/-- The ledger was advanced to a next block, whatever the callback said. -/
def Dispatch.Advanced {S V : Type} [Ledger V] (d : Dispatch S V) : Prop :=
  ∃ block, d.ledger.blocks = d.sender.ledger.blocks ++ [block]

/-- A channel that leaves the chain alone or extends it by a block that has every transmission
of the dispatch, confirmed or aborted. -/
def ConsensusSender.Delivers {V : Type} [Ledger V] (send : ConsensusSender V) : Prop :=
  ∀ l s t, (send l s t).2.blocks = l.blocks ∨
    ∃ block : Block, (send l s t).2.blocks = l.blocks ++ [block] ∧
      ∀ id ∈ t.keys, id ≠ .ratification → block.Has id

/-- **Consensus is such a channel** over a ledger that prepares such blocks. -/
theorem processBftSubdag_delivers {V : Type} [Ledger V] [LawfulLedger V]
    (hprepare : ∀ (v : V) s t block, Ledger.prepareAdvanceToNextQuorumBlock v s t = .ok block →
      ∀ id ∈ t.keys, id ≠ .ratification → block.Has id) :
    ConsensusSender.Delivers (processBftSubdag (V := V)) := by
  intro l s t
  unfold processBftSubdag tryAdvanceToNextBlock
  cases hp : Ledger.prepareAdvanceToNextQuorumBlock l.ledger s t with
  | error e => exact .inl rfl
  | ok block =>
    rcases advanceToNextBlock_cases l block with ⟨e, he⟩ | ⟨-, w, -, hw, he⟩
    · exact .inl (by simp [he])
    · exact .inr ⟨block, by simpa [he, CoreLedgerService.blocks] using hw,
        hprepare l.ledger s t block hp⟩

namespace BFT

variable {S V : Type} [Ledger V] [StorageService S] [Network] {b : BFT S V}

/-- The dispatch of a leader. -/
def dispatch (allowLedgerAccess : Bool) (b : BFT S V) (leader : BatchCertificate) :
    Option (Dispatch S V) :=
  match b.consensusSender, b.orderDagWithDfs allowLedgerAccess leader with
  | some send, .ok subdag =>
    match b.collectTransmissions subdag.certificates, Network.subdagFrom subdag with
    | .ok t, .ok () =>
      if subdag.anchorRound = leader.round then some ⟨b, subdag, t, (send b.ledger subdag t).2⟩
      else none
    | _, _ => none
  | _, _ => none

/-- The dispatches of the loop of `commit_leader_certificate`. -/
def dispatches (allowLedgerAccess : Bool) (b : BFT S V) :
    List BatchCertificate → List (Dispatch S V)
  | [] => []
  | leader :: leaders =>
    (b.dispatch allowLedgerAccess leader).toList ++
      match b.commitLeader allowLedgerAccess false leader with
      | (.committed, b) => b.dispatches allowLedgerAccess leaders
      | _ => []

/-- The dispatches of a call of `commit_leader_certificate`. -/
def callDispatches (allowLedgerAccess : Bool) (b : BFT S V) (leader : BatchCertificate) :
    List (Dispatch S V) :=
  match b.previousLeaders leader (leaderRounds b.dag.lastCommittedRound leader.round) with
  | (.ok previous, b) => b.dispatches allowLedgerAccess (leader :: previous).reverse
  | _ => []

lemma dispatch_eq_some {allow : Bool} {leader : BatchCertificate} {d : Dispatch S V}
    (h : b.dispatch allow leader = some d) :
    d.sender = b ∧ b.orderDagWithDfs allow leader = .ok d.subdag ∧
      b.collectTransmissions d.subdag.certificates = .ok d.transmissions ∧
      ∃ send, b.consensusSender = some send ∧
        d.ledger = (send b.ledger d.subdag d.transmissions).2 := by
  unfold dispatch at h
  split at h
  · next send subdag hsend hsub =>
    split at h
    · next t ht _ =>
      split at h
      · cases h; exact ⟨rfl, hsub, ht, send, hsend, rfl⟩
      · cases h
    · cases h
  · cases h

/-- Committing a leader touches the ledger by its dispatch only, and does not commit it
without one when there is a consensus sender. -/
lemma commitLeader_dispatch (allow : Bool) (b : BFT S V) (leader : BatchCertificate) :
    (b.commitLeader allow false leader).2.ledger
      = ((b.dispatch allow leader).map Dispatch.ledger).getD b.ledger ∧
    (((b.commitLeader allow false leader).1 ≠ .committed ∧
        (b.commitLeader allow false leader).2.committed = b.committed) ∨
      ((b.commitLeader allow false leader).1 = .committed ∧
        ∃ subdag, b.orderDagWithDfs allow leader = .ok subdag ∧
          (b.commitLeader allow false leader).2.committed = b.committed ++ [(leader, subdag)] ∧
          (b.consensusSender.isSome →
            ∃ d, b.dispatch allow leader = some d ∧ d.subdag = subdag))) := by
  unfold commitLeader dispatch
  cases hsub : b.orderDagWithDfs allow leader with
  | error e => cases b.consensusSender <;> exact ⟨rfl, .inl ⟨by simp, rfl⟩⟩
  | ok subdag =>
    unfold buildBlock triggerConsensus
    cases hsend : b.consensusSender with
    | none =>
      dsimp only
      rw [if_neg Bool.false_ne_true]
      cases b.collectTransmissions subdag.certificates with
      | error e => exact ⟨rfl, .inl ⟨by simp, rfl⟩⟩
      | ok t =>
        cases Network.subdagFrom subdag with
        | error e => exact ⟨rfl, .inl ⟨by simp, rfl⟩⟩
        | ok u =>
          dsimp only
          by_cases hanchor : subdag.anchorRound = leader.round
          · rw [if_neg (not_not.mpr hanchor)]
            exact ⟨rfl, .inr ⟨rfl, subdag, rfl, rfl, fun h => by cases h⟩⟩
          · rw [if_pos hanchor]
            exact ⟨rfl, .inl ⟨by simp, rfl⟩⟩
    | some send =>
      dsimp only
      rw [if_neg Bool.false_ne_true]
      cases b.collectTransmissions subdag.certificates with
      | error e => exact ⟨rfl, .inl ⟨by simp, rfl⟩⟩
      | ok t =>
        cases Network.subdagFrom subdag with
        | error e => exact ⟨rfl, .inl ⟨by simp, rfl⟩⟩
        | ok u =>
          dsimp only
          by_cases hanchor : subdag.anchorRound = leader.round
          · rw [if_neg (not_not.mpr hanchor), if_pos hanchor]
            cases (send b.ledger subdag t).1 with
            | callback result =>
              cases result with
              | ok u => exact ⟨rfl, .inr ⟨rfl, subdag, rfl, rfl, fun _ => ⟨_, rfl, rfl⟩⟩⟩
              | error e => exact ⟨rfl, .inl ⟨by simp, rfl⟩⟩
            | dropped => exact ⟨rfl, .inl ⟨by simp, rfl⟩⟩
            | unsent => exact ⟨rfl, .inl ⟨by simp, rfl⟩⟩
          · rw [if_pos hanchor, if_neg hanchor]
            exact ⟨rfl, .inl ⟨by simp, rfl⟩⟩

lemma commitLeader_sender (allow : Bool) (b : BFT S V) (leader : BatchCertificate) :
    (b.commitLeader allow false leader).2.consensusSender = b.consensusSender := by
  obtain ⟨dag, ledger, committed, h⟩ := commitLeader_keeps allow false b leader
  rw [h]

end BFT

/-! ### Chains of dispatches -/

section Chained

variable {S V : Type} [Ledger V] [StorageService S]

/-- A dispatch made as `commit_leader_certificate` makes it, through a channel that delivers. -/
structure Dispatch.Made (d : Dispatch S V) : Prop where
  collected : d.sender.collectTransmissions d.subdag.certificates = .ok d.transmissions
  sent : ∃ send, d.sender.consensusSender = some send ∧ send.Delivers ∧
    d.ledger = (send d.sender.ledger d.subdag d.transmissions).2

/-- Dispatches from one ledger to another, each on the ledger that the one before left. -/
inductive Chained : V → List (Dispatch S V) → V → Prop
  | nil (v : V) : Chained v [] v
  | cons {w : V} {d : Dispatch S V} {ds : List (Dispatch S V)} :
      d.Made → Chained d.ledger.ledger ds w → Chained d.sender.ledger.ledger (d :: ds) w

variable {v w x : V} {d : Dispatch S V} {ds es : List (Dispatch S V)}

lemma Chained.append (h : Chained v ds w) (h' : Chained w es x) : Chained v (ds ++ es) x := by
  induction h with
  | nil => exact h'
  | cons hd _ ih => exact .cons hd (ih h')

lemma Chained.made (h : Chained v ds w) (hd : d ∈ ds) : d.Made := by
  induction h with
  | nil => cases hd
  | cons he _ ih =>
    rcases List.mem_cons.mp hd with rfl | hd
    · exact he
    · exact ih hd

lemma Dispatch.Made.blocks (h : d.Made) :
    Ledger.blocks d.ledger.ledger = Ledger.blocks d.sender.ledger.ledger ∨
      ∃ block : Block, Ledger.blocks d.ledger.ledger
          = Ledger.blocks d.sender.ledger.ledger ++ [block] ∧
        ∀ id ∈ d.transmissions.keys, id ≠ .ratification → block.Has id := by
  obtain ⟨send, -, hdelivers, hledger⟩ := h.sent
  rw [hledger]
  exact hdelivers d.sender.ledger d.subdag d.transmissions

lemma Chained.blocks_subset (h : Chained v ds w) (hd : d ∈ ds) :
    Ledger.blocks v ⊆ Ledger.blocks d.sender.ledger.ledger := by
  induction h with
  | nil => cases hd
  | cons he _ ih =>
    rcases List.mem_cons.mp hd with rfl | hd
    · exact List.Subset.refl _
    · refine List.Subset.trans ?_ (ih hd)
      rcases he.blocks with hb | ⟨block, hb, -⟩
      · rw [hb]; exact List.Subset.refl _
      · rw [hb]; exact List.subset_append_left _ _

/-- **No subject twice**: after a dispatch that advanced the ledger, no dispatch has a
transmission with the subject of one of its transmissions. -/
theorem Chained.pairwise (hcontains : ∀ (l : CoreLedgerService V), ∀ block ∈ l.blocks,
      ∀ id, block.Has id → l.containsTransmission id ≠ .ok false)
    (h : Chained v ds w) : ds.Pairwise fun d e => d.Advanced →
      ∀ i ∈ d.transmissions.keys, ∀ j ∈ e.transmissions.keys, i.subject ≠ j.subject := by
  induction h with
  | nil => exact .nil
  | @cons w d ds hd hds ih =>
    refine .cons (fun e he ⟨block, hadv⟩ i hi j hj hij => ?_) ih
    -- the transmission is new to the ledger when it is sent the second time
    have hmade := hds.made he
    obtain ⟨hplain, hkeys, -⟩ := (BFT.collectTransmissions_spec _).1 _ hmade.collected
    rw [hkeys, List.mem_filter] at hj
    have hnew : e.sender.ledger.containsTransmission j = .ok false := by
      have h := hj.2
      rw [BFT.isNew] at h
      split at h <;> first | assumption | cases h
    have hi' : i ≠ .ratification := by
      rintro rfl
      have hj' : j = .ratification := by cases j <;> first | rfl | cases hij
      exact hplain (hj' ▸ firstsBy_subset hj.1)
    -- but a block of the chain has it since the first time
    rcases hd.blocks with hb | ⟨block', hb, hhas⟩
    · exact absurd ((show _ = _ from hadv).symm.trans hb) (by simp [CoreLedgerService.blocks])
    · refine hcontains e.sender.ledger block' (hds.blocks_subset he ?_) j
        ((Block.has_congr hij).mp (hhas i hi hi')) hnew
      rw [hb]
      exact List.mem_append_right _ (List.mem_singleton_self _)

/-! ### Runs -/

variable [Network] {b : BFT S V}

/-- The consensus channel, if there is one, delivers. -/
def BFT.Connected (b : BFT S V) : Prop :=
  ∀ send, b.consensusSender = some send → send.Delivers

lemma BFT.dispatch_made (hb : b.Connected) {allow : Bool} {leader : BatchCertificate}
    {d : Dispatch S V} (h : b.dispatch allow leader = some d) : d.Made ∧ d.sender = b := by
  obtain ⟨hsender, -, ht, send, hsend, hl⟩ := dispatch_eq_some h
  subst hsender
  exact ⟨⟨ht, send, hsend, hb send hsend, hl⟩, rfl⟩

lemma BFT.dispatches_spec (hb : b.Connected) (allow : Bool) (leaders : List BatchCertificate) :
    Chained b.ledger.ledger (b.dispatches allow leaders)
      (b.commitLeaders allow false leaders).2.ledger.ledger ∧
    (b.consensusSender.isSome → ((b.commitLeaders allow false leaders).2.committed.map Prod.snd)
      <+: b.committed.map Prod.snd ++ (b.dispatches allow leaders).map Dispatch.subdag) := by
  induction leaders generalizing b with
  | nil => exact ⟨.nil _, fun _ => by simp [commitLeaders, dispatches]⟩
  | cons leader leaders ih =>
    obtain ⟨hledger, hcommitted⟩ := commitLeader_dispatch allow b leader
    have hsender := commitLeader_sender allow b leader
    -- the dispatch of the first leader
    have hone : Chained b.ledger.ledger (b.dispatch allow leader).toList
        (b.commitLeader allow false leader).2.ledger.ledger := by
      rw [hledger]
      cases hd : b.dispatch allow leader with
      | none => exact .nil _
      | some d =>
        obtain ⟨hmade, rfl⟩ := dispatch_made hb hd
        exact .cons hmade (.nil _)
    rw [commitLeaders, dispatches]
    cases hcommit : b.commitLeader allow false leader with
    | mk result b' =>
      rw [hcommit] at hone hsender hcommitted
      rcases hcommitted with ⟨hstop, hsame⟩ | ⟨hdone, subdag, -, hcommitted, hex⟩
      · refine ⟨?_, fun _ => ?_⟩
        · cases result <;> first | exact absurd rfl hstop | simpa using hone
        · have hpre : b'.committed.map Prod.snd <+: b.committed.map Prod.snd ++
              (b.dispatch allow leader).toList.map Dispatch.subdag := by
            rw [show b'.committed = _ from hsame]
            exact List.prefix_append _ _
          cases result <;> first | exact absurd rfl hstop | simpa using hpre
      · obtain rfl : result = .committed := hdone
        have hb' : b'.Connected := fun send hs => hb send (hsender ▸ hs)
        obtain ⟨hrest, hmore⟩ := ih hb'
        refine ⟨hone.append hrest, fun hsome => ?_⟩
        obtain ⟨d, hd, rfl⟩ := hex hsome
        have hmore := hmore (by rw [show b'.consensusSender = _ from hsender]; exact hsome)
        rw [show b'.committed = _ from hcommitted] at hmore
        rw [hd]
        simpa using hmore

/-- A call of `commit_leader_certificate`: its dispatches lead from its ledger to the one it
leaves, and every subdag that it commits with a consensus sender was delivered. -/
theorem BFT.callDispatches_spec (hb : b.Connected) (allow : Bool) (leader : BatchCertificate) :
    Chained b.ledger.ledger (b.callDispatches allow leader)
      (b.commitLeaderCertificate allow false leader).2.ledger.ledger ∧
    (b.consensusSender.isSome →
      ((b.commitLeaderCertificate allow false leader).2.committed.map Prod.snd) <+:
        b.committed.map Prod.snd ++ (b.callDispatches allow leader).map Dispatch.subdag) := by
  unfold commitLeaderCertificate callDispatches
  obtain ⟨x, hx, -, -⟩ := previousLeaders_spec b leader
    (leaderRounds b.dag.lastCommittedRound leader.round)
  cases hprevious : b.previousLeaders leader
      (leaderRounds b.dag.lastCommittedRound leader.round) with
  | mk result b' =>
    obtain rfl : b' = b.withLeader x := by rw [← hx, hprevious]
    cases result with
    | error e => exact ⟨.nil _, fun _ => by simp [withLeader]⟩
    | ok previous =>
      have hb' : (b.withLeader x).Connected := hb
      obtain ⟨hchain, hmore⟩ := dispatches_spec hb' allow (leader :: previous).reverse
      dsimp only
      cases hloop : (b.withLeader x).commitLeaders allow false (leader :: previous).reverse with
      | mk result b' =>
        rw [hloop] at hchain hmore
        cases result <;> exact ⟨hchain, hmore⟩

/-- The dispatches of calls of `commit_leader_certificate` on one ledger, each on a DAG, a
storage and a leader of its own. -/
inductive Calls : V → List (Dispatch S V) → V → Prop
  | nil (v : V) : Calls v [] v
  | call {v : V} {b : BFT S V} {ds : List (Dispatch S V)} (allow : Bool)
      (leader : BatchCertificate) :
      Calls v ds b.ledger.ledger → b.Connected →
      Calls v (ds ++ b.callDispatches allow leader)
        (b.commitLeaderCertificate allow false leader).2.ledger.ledger

lemma Calls.chained (h : Calls v ds w) : Chained v ds w := by
  induction h with
  | nil => exact .nil _
  | call allow leader _ hb ih => exact ih.append (BFT.callDispatches_spec hb allow leader).1

/-- **Each solution and each transaction once**: every dispatch has the first declared ID of
each subject that is not in the ledger, in order, and nothing else; over all calls no subject
of a dispatch that advanced the ledger is delivered again; and a subdag whose transmissions are
in the ledger or stored has its transmissions collected. -/
theorem each_once (hcontains : ∀ (l : CoreLedgerService V), ∀ block ∈ l.blocks,
      ∀ id, block.Has id → l.containsTransmission id ≠ .ok false) (h : Calls v ds w) :
    (∀ d ∈ ds,
      d.transmissions.keys = (firstsBy TransmissionID.subject
        (declared d.subdag.certificates)).filter d.sender.isNew ∧
      (d.transmissions.keys.map TransmissionID.subject).Nodup ∧
      (∀ id ∈ declared d.subdag.certificates, d.sender.isNew id = true →
        id.subject ∈ d.transmissions.keys.map TransmissionID.subject) ∧
      ∀ e ∈ d.transmissions.entries, d.sender.storage.getTransmission e.1 = some e.2) ∧
    (ds.Pairwise fun d e => d.Advanced →
      ∀ i ∈ d.transmissions.keys, ∀ j ∈ e.transmissions.keys, i.subject ≠ j.subject) ∧
    (∀ (b : BFT S V) (certificates : List BatchCertificate),
      (∀ id ∈ declared certificates, id ≠ .ratification ∧
        (b.isNew id = true → (b.storage.getTransmission id).isSome)) →
      ∃ t, b.collectTransmissions certificates = .ok t) ∧
    ∀ (b : BFT S V) (allow : Bool) (leader : BatchCertificate), b.Connected →
      b.consensusSender.isSome →
      ((b.commitLeaderCertificate allow false leader).2.committed.map Prod.snd) <+:
        b.committed.map Prod.snd ++ (b.callDispatches allow leader).map Dispatch.subdag := by
  refine ⟨fun d hd => ?_, h.chained.pairwise hcontains,
    fun b certificates => (BFT.collectTransmissions_spec certificates).2,
    fun b allow leader hb => (BFT.callDispatches_spec hb allow leader).2⟩
  obtain ⟨-, hkeys, hstored⟩ :=
    (BFT.collectTransmissions_spec _).1 _ (h.chained.made hd).collected
  refine ⟨hkeys, ?_, fun id hid hnew => ?_, hstored⟩
  · rw [hkeys]
    exact nodup_map_firstsBy.sublist (List.filter_sublist.map _)
  · obtain ⟨j, hj, hji⟩ := List.mem_map.mp
      (mem_map_firstsBy.mpr (List.mem_map_of_mem (f := TransmissionID.subject) hid))
    rw [hkeys, ← hji]
    refine List.mem_map_of_mem (List.mem_filter.mpr ⟨hj, ?_⟩)
    rw [BFT.isNew_congr hji]
    exact hnew

end Chained

/-! ### A chain that answers for its blocks -/

/-- The development chain, answering for the IDs of its blocks, the aborted ones included. -/
structure Register where
  chain : Chain

namespace Register

/-- A solution or transaction of a dispatch that is the object of its ID. -/
def confirmed : TransmissionID × Transmission → Option (Solution ⊕ Transaction)
  | (.solution id _, .solution (.object s)) => if s.id = id then some (.inl s) else none
  | (.transaction id _, .transaction (.object tx)) => if tx.id = id then some (.inr tx) else none
  | _ => none

/-- The subjects of a dispatch that are not. -/
def aborted (t : IndexMap TransmissionID Transmission) : List (SolutionID ⊕ TransactionID) :=
  (t.entries.filter fun e => (confirmed e).isNone).filterMap fun e => e.1.subject

instance : Ledger Register where
  blocks c := c.chain.blocks
  latestCommittee c := Ledger.latestCommittee c.chain
  getCommitteeForRound c := Ledger.getCommitteeForRound c.chain
  containsCertificate c := Ledger.containsCertificate c.chain
  containsSolutionId c id := .ok (c.chain.blocks.any fun block =>
    decide (id ∈ block.solutions.map Solution.id ++ block.abortedSolutionIds))
  containsTransactionId c id := .ok (c.chain.blocks.any fun block =>
    decide (id ∈ block.transactions.map Transaction.id ++ block.abortedTransactionIds))
  getSolution c := Ledger.getSolution c.chain
  getUnconfirmedTransaction c := Ledger.getUnconfirmedTransaction c.chain
  prepareAdvanceToNextQuorumBlock c subdag t := .ok {
    height := c.chain.blocks.length
    round := subdag.anchorRound
    authority := .quorum subdag
    solutions := (t.entries.filterMap confirmed).filterMap Sum.getLeft?
    transactions := (t.entries.filterMap confirmed).filterMap Sum.getRight?
    abortedSolutionIds := (aborted t).filterMap Sum.getLeft?
    abortedTransactionIds := (aborted t).filterMap Sum.getRight? }
  advanceToNextBlock c block := (Ledger.advanceToNextBlock c.chain block).map Register.mk

instance : LawfulLedger Register where
  containsCertificate_ok h := LawfulLedger.containsCertificate_ok (V := Chain) h
  prepare_authority h := by cases h; rfl
  advance_blocks {v w b} h := by
    change (Ledger.advanceToNextBlock v.chain b).map Register.mk = .ok w at h
    cases hc : Ledger.advanceToNextBlock v.chain b with
    | error e => rw [hc] at h; cases h
    | ok c => rw [hc] at h; cases h; exact LawfulLedger.advance_blocks (V := Chain) hc

lemma contains_block (l : CoreLedgerService Register) :
    ∀ block ∈ l.blocks, ∀ id, block.Has id → l.containsTransmission id ≠ .ok false := by
  intro block hblock id hhas hno
  cases id with
  | ratification => exact hhas
  | solution id checksum =>
    have hall := Except.ok.inj hno
    rw [List.any_eq_false] at hall
    exact hall block hblock (decide_eq_true (List.mem_append.mpr hhas))
  | transaction id checksum =>
    have hall := Except.ok.inj hno
    rw [List.any_eq_false] at hall
    exact hall block hblock (decide_eq_true (List.mem_append.mpr hhas))

lemma confirmed_solution {id : SolutionID} {checksum : Checksum} {transmission : Transmission}
    {x : Solution ⊕ Transaction} (h : confirmed (.solution id checksum, transmission) = some x) :
    ∃ s, x = .inl s ∧ s.id = id := by
  cases transmission with
  | solution data =>
    cases data with
    | object s =>
      obtain ⟨hid, hx⟩ := Option.ite_none_right_eq_some.mp h
      exact ⟨s, (Option.some_inj.mp hx).symm, hid⟩
    | buffer => cases h
  | ratification => cases h
  | transaction => cases h

lemma confirmed_transaction {id : TransactionID} {checksum : Checksum}
    {transmission : Transmission} {x : Solution ⊕ Transaction}
    (h : confirmed (.transaction id checksum, transmission) = some x) :
    ∃ tx, x = .inr tx ∧ tx.id = id := by
  cases transmission with
  | transaction data =>
    cases data with
    | object tx =>
      obtain ⟨hid, hx⟩ := Option.ite_none_right_eq_some.mp h
      exact ⟨tx, (Option.some_inj.mp hx).symm, hid⟩
    | buffer => cases h
  | ratification => cases h
  | solution => cases h

lemma prepare_has (v : Register) (s : Subdag) (t : IndexMap TransmissionID Transmission)
    (block : Block) (h : Ledger.prepareAdvanceToNextQuorumBlock v s t = .ok block) :
    ∀ id ∈ t.keys, id ≠ .ratification → block.Has id := by
  intro id hid hne
  cases h
  obtain ⟨e, he, rfl⟩ := List.mem_map.mp hid
  have haborted : confirmed e = none → ∀ x, e.1.subject = some x → x ∈ aborted t := fun h x hx =>
    List.mem_filterMap.mpr ⟨e, List.mem_filter.mpr ⟨he, by rw [h]; rfl⟩, hx⟩
  have hconfirmed : ∀ x, confirmed e = some x → x ∈ t.entries.filterMap confirmed := fun x hx =>
    List.mem_filterMap.mpr ⟨e, he, hx⟩
  obtain ⟨id, transmission⟩ := e
  cases id with
  | ratification => exact absurd rfl hne
  | solution id checksum =>
    cases hc : confirmed (.solution id checksum, transmission) with
    | none => exact .inr (List.mem_filterMap.mpr ⟨_, haborted hc _ rfl, rfl⟩)
    | some x =>
      obtain ⟨s, rfl, rfl⟩ := confirmed_solution hc
      exact .inl (List.mem_map_of_mem (List.mem_filterMap.mpr ⟨_, hconfirmed _ hc, rfl⟩))
  | transaction id checksum =>
    cases hc : confirmed (.transaction id checksum, transmission) with
    | none => exact .inr (List.mem_filterMap.mpr ⟨_, haborted hc _ rfl, rfl⟩)
    | some x =>
      obtain ⟨tx, rfl, rfl⟩ := confirmed_transaction hc
      exact .inl (List.mem_map_of_mem (List.mem_filterMap.mpr ⟨_, hconfirmed _ hc, rfl⟩))

end Register

section Example

/-- A leader that declares solution `7` under some checksums. -/
def declaringLeader (round : ℕ) (checksums : List Checksum) : BatchCertificate :=
  let c := developmentCertificate round 0 round []
  { c with batchHeader := { c.batchHeader with
      transmissionIds := IndexSet.ofList (checksums.map (.solution 7)) } }

/-- A BFT that stores the transmissions of a leader. -/
def storingBft (l : CoreLedgerService Register) (c : BatchCertificate) :
    BFT BFTMemoryService Register where
  account := developmentAccount 0
  storage := Storage.new developmentCommittee (BFTMemoryService.empty.insertTransmissions c.id
    c.transmissionIds ∅ (c.transmissionIds.toList.foldl
      (fun m id => m.insert id (.solution (.object ⟨7, []⟩))) ∅)) 100
  ledger := l
  dag := DAG.new
  leaderCertificate := none
  leaderCertificateTimer := 0
  consensusSender := some processBftSubdag
  committed := []

/-- A leader that declares the solution twice, over an empty chain. -/
def firstCall : BFT BFTMemoryService Register :=
  storingBft ⟨⟨⟨[]⟩⟩, none, false⟩ (declaringLeader 2 [1, 2])

/-- A leader that declares the solution again, over the chain that the first one leaves. -/
def secondCall : BFT BFTMemoryService Register :=
  let _ := developmentNetwork
  storingBft (firstCall.commitLeaderCertificate true false (declaringLeader 2 [1, 2])).2.ledger
    (declaringLeader 4 [3])

def repeatedDispatches : List (Dispatch BFTMemoryService Register) :=
  let _ := developmentNetwork
  firstCall.callDispatches true (declaringLeader 2 [1, 2]) ++
    secondCall.callDispatches true (declaringLeader 4 [3])

/-- The solution is delivered with the first leader, under its first checksum. -/
theorem each_once_example :
    repeatedDispatches.map (fun d => d.transmissions.keys) = [[.solution 7 1], []] ∧
    repeatedDispatches.Pairwise fun d e => d.Advanced →
      ∀ i ∈ d.transmissions.keys, ∀ j ∈ e.transmissions.keys, i.subject ≠ j.subject := by
  let _ := developmentNetwork
  have hsender : ConsensusSender.Delivers (processBftSubdag (V := Register)) :=
    processBftSubdag_delivers Register.prepare_has
  have hfirst : firstCall.Connected := fun send hs => by cases hs; exact hsender
  have hsecond : secondCall.Connected := fun send hs => by cases hs; exact hsender
  have hcalls := Calls.call (b := secondCall) true (declaringLeader 4 [3])
    (.call true (declaringLeader 2 [1, 2]) (.nil firstCall.ledger.ledger) hfirst) hsecond
  exact ⟨by decide +kernel, (each_once Register.contains_block hcalls).2.1⟩

end Example

end AmareleoChain
