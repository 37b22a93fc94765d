import AmareleoChain.Accepting
import AmareleoChain.Filling
import AmareleoChain.Tolerance
import AmareleoChain.Turns

/-!
Calls of `propose_batch` in which nothing fails.

A batch is certified by the other three validators, stored and sent to the BFT. In the first call
of a round the node makes its certificate, and then those of the others; in the second call it
finds its certificate, and moves to the next round.
-/

namespace AmareleoChain

open Std

/-! ### Batches -/

/-- `BatchCertificate::from` accepts the verified signatures of up to three others. -/
def AcceptsSigned [Network] : Prop :=
  ∀ (header : BatchHeader) (signatures : IndexSet Signature), signatures.toList.length ≤ 3 →
    (∀ x ∈ signatures, x.toAddress ≠ header.author ∧
      Network.verify x x.toAddress header.batchId = true) →
    Network.certificateFrom header signatures = .ok ()

/-- Nothing fails while a batch is certified by its signers, stored and sent, and it is stored no
earlier than it is made. -/
structure Certification.Flawless [Network] (env : Certification) (author : Address)
    (signers : List Address) : Prop where
  inserted : env.inserted = .done
  sent : env.sent = .done
  clock : env.currentTimestamp ≤ env.insertedAt
  header : ∃ batchId signature, env.header = .ok (batchId, signature) ∧
    signature.toAddress = author ∧ ∀ signer ∈ signers, ∃ x, env.sign signer = .ok x ∧
      x.toAddress = signer ∧ Network.verify x signer batchId = true

/-- The accounts of the other validators, each once. -/
structure Others (acc : Fin 4 → Address) (vid : Fin 4) (signers : List Address) : Prop where
  nodup : signers.Nodup
  mem : ∀ a, a ∈ signers ↔ ∃ w, w ≠ vid ∧ acc w = a

section Others

variable {acc : Fin 4 → Address} {vid : Fin 4} {signers : List Address}

lemma others_own (hinjective : Function.Injective acc) :
    Others acc 0 [acc 1, acc 2, acc 3] := by
  have hnd : ([1, 2, 3] : List (Fin 4)).Nodup := by decide
  have hmem : ∀ w : Fin 4, w ∈ [1, 2, 3] ↔ w ≠ 0 := by decide
  refine ⟨hnd.map hinjective, fun a => ?_⟩
  change a ∈ [1, 2, 3].map acc ↔ _
  simp only [List.mem_map, hmem]

lemma others_fake (hinjective : Function.Injective acc) (vid : Fin 4) :
    Others acc vid ((List.ofFn acc).filter (· ≠ acc vid)) := by
  refine ⟨(List.nodup_ofFn.mpr hinjective).filter _, fun a => ?_⟩
  rw [List.mem_filter, List.mem_ofFn, decide_eq_true_eq]
  constructor
  · rintro ⟨⟨w, rfl⟩, hne⟩
    exact ⟨w, fun heq => hne (congrArg acc heq), rfl⟩
  · rintro ⟨w, hne, rfl⟩
    exact ⟨⟨w, rfl⟩, fun heq => hne (hinjective heq)⟩

lemma Others.toFinset_eq (h : Others acc vid signers) :
    signers.toFinset = (Finset.univ.erase vid).image acc := by
  ext a
  rw [List.mem_toFinset, h.mem, Finset.mem_image]
  simp only [Finset.mem_erase, Finset.mem_univ, and_true]

lemma Others.length_le (h : Others acc vid signers) : signers.length ≤ 3 := by
  rw [← List.toFinset_card_of_nodup h.nodup, h.toFinset_eq]
  refine Finset.card_image_le.trans ?_
  rw [Finset.card_erase_of_mem (Finset.mem_univ vid), Finset.card_univ, Fintype.card_fin]

lemma Others.insert_eq (h : Others acc vid signers) :
    insert (acc vid) signers.toFinset = Finset.univ.image acc := by
  rw [h.toFinset_eq, ← Finset.image_insert, Finset.insert_erase (Finset.mem_univ vid)]

end Others

namespace Primary

section Certifies

variable [Network] {env : Certification} {committee : Committee} {acc : Fin 4 → Address}
  {vid : Fin 4} {signers : List Address} {round : ℕ}

lemma addSignatures_ok (committee : Committee) (proposal : Proposal)
    (hsign : ∀ a ∈ signers, ∃ x, env.sign a = .ok x ∧ x.toAddress = a ∧
      Network.verify x a proposal.batchId = true)
    (hmembers : ∀ a ∈ signers, a ∈ committee.members) (hnd : signers.Nodup)
    (hnew : ∀ a ∈ signers, a ∉ proposal.signers) :
    ∃ signed, addSignatures env committee signers proposal = .ok signed ∧
      signed.batchHeader = proposal.batchHeader ∧
      signed.transmissions = proposal.transmissions ∧
      signed.signers = proposal.signers ∪ signers.toFinset ∧
      (∀ x ∈ signed.signatures, x ∈ proposal.signatures ∨ x.toAddress ∈ signers ∧
        Network.verify x x.toAddress proposal.batchId = true) ∧
      signed.signatures.toList.length ≤ proposal.signatures.toList.length + signers.length := by
  induction signers generalizing proposal with
  | nil =>
    refine ⟨proposal, rfl, rfl, rfl, ?_, fun x hx => .inl hx, le_rfl⟩
    rw [List.toFinset_nil, Finset.union_empty]
  | cons a signers ih =>
    rw [List.forall_mem_cons] at hsign hmembers hnew
    rw [List.nodup_cons] at hnd
    obtain ⟨x, hx, rfl, hverify⟩ := hsign.1
    have hmember : committee.isCommitteeMember x.toAddress = true := decide_eq_true hmembers.1
    have hone : proposal.addSignature x.toAddress x committee
        = .ok { proposal with signatures := proposal.signatures.insert x } := by
      rw [Proposal.addSignature, if_neg (not_not_intro hmember), if_neg hnew.1,
        if_neg (not_not_intro hverify)]
    have hsigners : ({ proposal with signatures := proposal.signatures.insert x } :
        Proposal).signers = insert x.toAddress proposal.signers := by
      ext a
      simp only [Proposal.signers, Finset.mem_insert, List.mem_toFinset, List.mem_map,
        ← IndexSet.mem_def, IndexSet.mem_insert]
      constructor
      · rintro (ha | ⟨y, hy | rfl, rfl⟩)
        · exact .inr (.inl ha)
        · exact .inr (.inr ⟨y, hy, rfl⟩)
        · exact .inl rfl
      · rintro (rfl | ha | ⟨y, hy, rfl⟩)
        · exact .inr ⟨x, .inr rfl, rfl⟩
        · exact .inl ha
        · exact .inr ⟨y, .inl hy, rfl⟩
    obtain ⟨signed, hsigned, hheader, htransmissions, hall, hverified, hlength⟩ :=
      ih { proposal with signatures := proposal.signatures.insert x } hsign.2
        hmembers.2 hnd.2 fun a ha hin => by
          rw [hsigners] at hin
          rcases Finset.mem_insert.mp hin with rfl | hin
          · exact hnd.1 ha
          · exact hnew.2 a ha hin
    refine ⟨signed, ?_, hheader, htransmissions, ?_, fun y hy => ?_, ?_⟩
    · rw [addSignatures, hx]
      dsimp only
      rw [hone]
      exact hsigned
    · rw [hall, hsigners, List.toFinset_cons, Finset.insert_union, Finset.union_insert]
    · rcases hverified y hy with hy | ⟨hy, hv⟩
      · rcases IndexSet.mem_insert.mp hy with hy | rfl
        · exact .inl hy
        · exact .inr ⟨List.mem_cons_self, hverify⟩
      · exact .inr ⟨List.mem_cons_of_mem _ hy, hv⟩
    · have hinsert : (proposal.signatures.insert x).toList.length
          ≤ proposal.signatures.toList.length + 1 := by
        unfold IndexSet.insert
        split
        · exact Nat.le_succ _
        · exact (List.length_append).le
      rw [List.length_cons]
      dsimp only at hlength
      omega

/-- **A batch that nothing fails for** is certified by all the validators. -/
theorem certifies_of_flawless (previous : List BatchCertificate)
    (given : IndexMap TransmissionID Transmission) (haccepts : AcceptsSigned)
    (hinjective : Function.Injective acc) (hequal : committee.Equal acc)
    (hstarting : committee.startingRound ≤ round) (h : env.Flawless (acc vid) signers)
    (hothers : Others acc vid signers) :
    ∃ c, Certifies env (acc vid) signers round committee previous given c given := by
  obtain ⟨batchId, signature, hheader, hauthor, hsign⟩ := h.header
  have hmember : committee.isCommitteeMember (acc vid) = true :=
    decide_eq_true (hequal.mem_members vid)
  obtain ⟨proposal, hproposal⟩ :
      ∃ proposal, newProposal env (acc vid) round committee previous given = .ok proposal := by
    have hkeys : ¬ given.keySet.toList ≠ given.keys := not_not_intro rfl
    rw [newProposal, hheader]
    dsimp only [Proposal.new]
    rw [if_neg (Nat.not_lt.mpr hstarting), if_neg (not_not_intro hmember),
      if_neg hkeys]
    exact ⟨_, rfl⟩
  obtain ⟨_, _, hheader', -, heq⟩ := newProposal_spec hproposal
  rw [hheader] at hheader'
  cases hheader'
  have hid : proposal.batchId = batchId := heq ▸ rfl
  have hempty : proposal.signatures = ∅ := heq ▸ rfl
  have hgiven : proposal.transmissions = given := heq ▸ rfl
  have hheaderAuthor : proposal.batchHeader.author = acc vid := heq ▸ rfl
  have hsigners : proposal.signers = {acc vid} := by
    rw [Proposal.signers, hempty, heq, hauthor]
    rfl
  rw [← hid] at hsign
  obtain ⟨signed, hsigned, hbatch, htransmissions, hall, hverified, hlength⟩ :=
    addSignatures_ok committee proposal hsign
      (fun a ha => by
        obtain ⟨w, -, rfl⟩ := (hothers.mem a).mp ha
        exact hequal.mem_members w) hothers.nodup
      (fun a ha hin => by
        rw [hsigners, Finset.mem_singleton] at hin
        obtain ⟨w, hne, hw⟩ := (hothers.mem a).mp ha
        exact hne (hinjective (hw.trans hin)))
  rw [hempty] at hverified hlength
  have hquorum : signed.isQuorumThresholdReached committee = true := by
    rw [Proposal.isQuorumThresholdReached, hall, hsigners, ← Finset.insert_eq,
      hothers.insert_eq, hequal.quorum_iff hinjective]
    decide
  have hfrom : Network.certificateFrom signed.batchHeader signed.signatures = .ok () := by
    refine haccepts _ _ ?_ fun x hx => ?_
    · have hthree := hothers.length_le
      simp only [IndexSet.toList_empty, List.length_nil] at hlength
      omega
    · obtain ⟨hx, hv⟩ := (hverified x hx).resolve_left (IndexSet.not_mem_empty x)
      rw [hbatch, hheaderAuthor]
      refine ⟨fun heq => ?_, hv⟩
      obtain ⟨w, hne, hw⟩ := (hothers.mem _).mp hx
      exact hne (hinjective (hw.trans heq))
  refine ⟨⟨signed.batchHeader, signed.signatures⟩, _, signed, hproposal, hsigned, ?_⟩
  rw [Proposal.toCertificate, if_neg (not_not_intro hquorum), hfrom, htransmissions, hgiven]

end Certifies

/-! ### Draining -/

section Drain

variable {S V : Type} [StorageService S] [Ledger V] [Network]

/-- The ledger service answers about the transmissions of the ready queue, and the transactions
there can be read. -/
structure Answered (checks : TransmissionID → Checks) (ready : Ready) : Prop where
  solution : ∀ id stop, (checks id).checkSolutionBasic = .error stop → ∃ e, stop = .error e
  transaction : ∀ id stop, (checks id).checkTransactionBasic = .error stop → ∃ e, stop = .error e
  readable : ∀ id transaction, (id, .transaction transaction) ∈ ready.transmissions →
    Readable (checks id) transaction

variable {checks : TransmissionID → Checks} {ready : Ready}

lemma Answered.chooseSolution_ne_stop (h : Answered checks ready) {id : TransmissionID}
    {proposalCost : ℕ} {checksum : Checksum} {solution : Data Solution} (stop : Stop) :
    chooseSolution (checks id) proposalCost checksum solution ≠ .stop stop := by
  unfold chooseSolution
  split
  swap
  · simp
  split
  · simp
  · next s hne hs =>
    obtain ⟨e, rfl⟩ := h.solution _ _ hs
    exact absurd rfl (hne e)
  · simp

lemma Answered.chooseTransaction_ne_stop (h : Answered checks ready) {id : TransmissionID}
    {proposalCost : ℕ} {checksum : Checksum} {transaction : Data Transaction}
    (hreadable : Readable (checks id) transaction) (stop : Stop) :
    chooseTransaction (checks id) proposalCost checksum transaction ≠ .stop stop := by
  unfold chooseTransaction
  split
  swap
  · simp
  split
  · next hdeserialized =>
    rw [hreadable.1] at hdeserialized
    cases hdeserialized
  split
  · next e hread =>
    cases transaction with
    | object transaction => cases hread
    | buffer bytes =>
      have hok := hreadable.2 bytes rfl
      dsimp only at hread
      rw [hread] at hok
      cases hok
  split
  · simp
  · next s hne hs =>
    obtain ⟨e, rfl⟩ := h.transaction _ _ hs
    exact absurd rfl (hne e)
  split
  · simp
  dsimp only
  split
  · simp
  · split <;> simp

lemma Answered.choose_ne_stop (h : Answered checks ready) (p : Primary S V) {d : Draining}
    {id : TransmissionID} {t : Transmission} (ht : (id, t) ∈ ready.transmissions) (stop : Stop) :
    p.choose (checks id) d id t ≠ .stop stop := by
  unfold choose
  rcases p.ledger.containsTransmission id with e | _ | _
  · simp
  swap
  · simp
  rw [if_neg (by simp)]
  split
  · simp
  cases t with
  | ratification => cases id <;> simp
  | solution solution =>
    cases id with
    | solution _ _ => exact h.chooseSolution_ne_stop stop
    | _ => simp
  | transaction transaction =>
    cases id with
    | transaction _ _ => exact h.chooseTransaction_ne_stop (h.readable _ _ ht) stop
    | _ => simp

/-- **The drain loop succeeds** when the ledger service answers. -/
lemma Answered.drain_ok (h : Answered checks ready) (p : Primary S V) (n : ℕ) {d : Draining}
    (hd : ∀ e ∈ d.ready.transmissions, e ∈ ready.transmissions) :
    ∃ d', p.drain checks n d = (.ok (), d') := by
  induction n generalizing d with
  | zero => exact ⟨d, rfl⟩
  | succ n ih =>
    rw [drain]
    rcases hremove : d.ready.removeFront with ⟨_ | ⟨id, t⟩, rest⟩
    · exact ⟨d, rfl⟩
    obtain ⟨hfront, -⟩ := Ready.removeFront_some hremove
    rw [hfront, List.forall_mem_cons] at hd
    dsimp only
    split
    · exact ⟨_, rfl⟩
    split
    · exact ⟨_, rfl⟩
    split
    · exact ih hd.2
    · exact ih hd.2
    · exact ⟨_, rfl⟩
    · next stop hstop => exact absurd hstop (h.choose_ne_stop p hd.1 stop)

end Drain

end Primary

/-! ### The ledger and consensus -/

section Cooperates

variable {V : Type} [Ledger V] [Network]

/-- The committees of the rounds up to the given one are known. -/
def Knows (committee : ℕ → Committee) (n : ℕ) (l : CoreLedgerService V) : Prop :=
  ∀ r, 1 ≤ r → r ≤ n → l.getCommitteeLookbackForRound r = .ok (committee r)

lemma Knows.of_ledger {committee : ℕ → Committee} {n : ℕ} {l l' : CoreLedgerService V}
    (h : Knows committee n l) (hl : l'.ledger = l.ledger) : Knows committee n l' := by
  intro r hpos hle
  have hr := h r hpos hle
  unfold CoreLedgerService.getCommitteeLookbackForRound CoreLedgerService.getCommitteeForRound
    at hr ⊢
  rwa [hl]

/-- Consensus accepts the ordered subdags of certificates that are in no block, agrees on the
committees, and leaves the shutdown flag alone. -/
structure ConsensusSender.Cooperates (U : Universe) (committee : ℕ → Committee) (g : ℕ)
    (send : ConsensusSender V) : Prop where
  faithful : send.Faithful
  keeps : send.KeepsCommittees
  agrees : ∀ l subdag transmissions, Storage.AgreesOn committee l →
    Storage.AgreesOn committee (send l subdag transmissions).2
  accepts : ∀ l subdag transmissions, l.shutdown = false → U.Ordered g subdag →
    (∀ c ∈ subdag.certificates, ¬ BFT.InChain l c.id) →
    (send l subdag transmissions).1 = .callback (.ok ())
  shutdown : ∀ l subdag transmissions, (send l subdag transmissions).2.shutdown = l.shutdown

/-- What the BFT does to its ledger then. -/
structure CoreLedgerService.Continues (committee : ℕ → Committee) (l l' : CoreLedgerService V) :
    Prop where
  grows : l.Grows l'
  shutdown : l'.shutdown = l.shutdown
  agrees : Storage.AgreesOn committee l → Storage.AgreesOn committee l'

lemma ConsensusSender.Cooperates.evolves {U : Universe} {committee : ℕ → Committee} {g : ℕ}
    {send : ConsensusSender V} (h : send.Cooperates U committee g) :
    BFT.Evolves (some send) (CoreLedgerService.Continues committee) where
  refl l := ⟨.refl l, rfl, id⟩
  trans h h' := ⟨h.grows.trans h'.grows, h'.shutdown.trans h.shutdown, h'.agrees ∘ h.agrees⟩
  leader _ _ := ⟨⟨fun _ _ h => h, fun _ h => h⟩, rfl, id⟩
  send s hs l subdag transmissions := by
    cases hs
    exact ⟨h.faithful.grows h.keeps l subdag transmissions, h.shutdown l subdag transmissions,
      h.agrees l subdag transmissions⟩

end Cooperates

/-- What the accounts, the committees, the storage service and `snarkvm` are like when nothing
fails. -/
structure Favourable (S : Type) [StorageService S] [Network] (U : Universe)
    (committee : ℕ → Committee) (g : ℕ) (acc : Fin 4 → Address) : Prop where
  regular : U.Regular
  positive : 0 < g
  injective : Function.Injective acc
  equal : ∀ r, 1 ≤ r → (committee r).Equal acc
  starting : ∀ r, 1 ≤ r → (committee r).startingRound ≤ r
  finds : StorageService.FindsProvided S
  verify : ∀ x a id, Network.verify x a id = true → x.toAddress = a
  accepts : AcceptsSigned
  subdagFrom : ∀ s, U.Ordered g s → Network.subdagFrom s = .ok ()

namespace BFT

variable {S V : Type} [Ledger V] [StorageService S] [LawfulStorageService S] [Network]
  {U : Universe} {committee : ℕ → Committee} {g : ℕ} {acc : Fin 4 → Address} {past : List Block}
  {made : List BatchCertificate} {n k : ℕ} {b : BFT S V} {c : BatchCertificate} {vid : Fin 4}

/-- The rounds fill up, and nothing hinders the commits. -/
structure Running (U : Universe) (committee : ℕ → Committee) (g : ℕ) (acc : Fin 4 → Address)
    (past : List Block) (made : List BatchCertificate) (n k : ℕ) (b : BFT S V) : Prop where
  filled : b.Filled U committee g acc past made n k (lastFilled n k)
  shutdown : b.ledger.shutdown = false
  sender : ∃ send, b.consensusSender = some send ∧ send.Cooperates U committee g
  agrees : Storage.AgreesOn committee b.ledger

namespace Running

lemma gcRound_lt (h : b.Running U committee g acc past made n k) (hg : 0 < g) (hn : 0 < n) :
    b.storage.gcRound < n := by
  have hgc := h.filled.gcRound
  have hle := lastFilled_le n k
  omega

lemma mem_getCertificatesForRound (h : b.Running U committee g acc past made n k) (hg : 0 < g) :
    c ∈ b.storage.getCertificatesForRound n ↔ c ∈ made ∧ c.round = n := by
  have hindexed := h.filled.sound.consistent.indexed
  rcases Nat.eq_zero_or_pos n with rfl | hn
  · refine iff_of_false (by simp [Storage.getCertificatesForRound]) fun ⟨hc, hround⟩ => ?_
    have := h.filled.rows.round_pos hc
    omega
  · have hgc := h.gcRound_lt hg hn
    rw [Storage.mem_getCertificatesForRound hindexed (by omega)]
    change b.Stored c ∧ _ ↔ _
    rw [h.filled.stored, and_assoc]
    refine and_congr_right fun _ => ?_
    omega

lemma mem_authorsOf (h : b.Running U committee g acc past made n k) (hg : 0 < g) (hn : 0 < n)
    (vid : Fin 4) : acc vid ∈ authorsOf (b.storage.getCertificatesForRound n) := by
  obtain ⟨c, hc, hround, hauthor, -⟩ := h.filled.rows.one n vid ⟨hn, .inl le_rfl⟩
  exact AmareleoChain.mem_authorsOf.mpr
    ⟨c, (h.mem_getCertificatesForRound hg).mpr ⟨hc, hround⟩, hauthor⟩

lemma quorum (h : b.Running U committee g acc past made n k) (hg : 0 < g) (hn : 0 < n)
    (hinjective : Function.Injective acc) {com : Committee} (hequal : com.Equal acc) :
    com.isQuorumThresholdReached (authorsOf (b.storage.getCertificatesForRound n)) = true := by
  refine com.quorum_mono (s := Finset.univ.image acc) (fun a ha => ?_)
    ((hequal.quorum_iff hinjective).mpr (by decide))
  obtain ⟨vid, -, rfl⟩ := Finset.mem_image.mp ha
  exact h.mem_authorsOf hg hn vid

lemma author_ne (h : b.Running U committee g acc past made n k)
    (hinjective : Function.Injective acc) {d : BatchCertificate} (hd : b.Stored d)
    (hround : d.round = n + 1) (hvid : k ≤ vid.val) : d.author ≠ acc vid := by
  intro hauthor
  obtain ⟨w, hw, -, hle | ⟨-, hlt⟩⟩ := h.filled.rows.only d ((h.filled.stored d).mp hd).1
  · omega
  · obtain rfl := hinjective (hauthor.symm.trans hw)
    omega

end Running

/-- **The next certificate is stored and sent**, and the leader that is due is committed. -/
theorem Running.deliver [LawfulLedger V] (F : Favourable S U committee g acc)
    (h : b.Running U committee g acc past made n k) (hknows : Knows committee (n + 1) b.ledger)
    (hvid : vid.val = k) (hc : U.Has c) (hnext : Filled.Next acc made n vid c) {now : ℤ}
    {transmissions : IndexMap TransmissionID Transmission}
    (haccept : b.storage.Acceptable b.ledger now c transmissions ∅) :
    ∃ storage b', b.storage.insertCertificate b.ledger now c transmissions ∅ = (.ok (), storage) ∧
      ({ b with storage } : BFT S V).updateDag true false c = (.ok (), b') ∧
      b'.Running U committee g acc past (made ++ [c]) n (k + 1) ∧
      Knows committee (n + 1) b'.ledger ∧
      b'.storage.currentRound = b.storage.currentRound := by
  obtain ⟨missing, -, hinsert⟩ := haccept.insertCertificate h.filled.sound.consistent.indexed
  obtain ⟨send, hsend, hcooperates⟩ := h.sender
  have hserved : Served U committee g b
      ⟨c, now, transmissions, ∅, b.ledger, b.consensusSender⟩ :=
    { certificate := hc
      quiet := ⟨rfl, id⟩
      committee := h.agrees
      serves := ⟨h.shutdown, fun s hs => F.subdagFrom s hs.ordered, send, hsend,
        hcooperates.faithful, fun l s t _ hl hs _ =>
          ⟨hcooperates.accepts l s t hl hs.ordered fun c hc => (hs.stored c hc).2,
            (hcooperates.shutdown l s t).trans hl⟩⟩
      aborted := rfl
      accepted := by rw [hinsert] }
  obtain ⟨b', hupdate, hfilled⟩ := h.filled.updateDag F.regular F.positive F.injective F.equal
    hserved hvid hnext fun r hpos hle => ⟨_, hknows r hpos hle⟩
  have hstore : b.store ⟨c, now, transmissions, ∅, b.ledger, b.consensusSender⟩
      = { b with storage := b.storage.insertCertificateAtomic c ∅ missing } := by
    unfold store
    rw [hinsert]
  rw [hstore] at hupdate
  have hupdated := updateDag_updated (b := ({ b with
      storage := b.storage.insertCertificateAtomic c ∅ missing } : BFT S V))
    (Q := CoreLedgerService.Continues committee) (by
      dsimp only
      rw [hsend]
      exact hcooperates.evolves) h.filled.sound.consistent.once.wellFormed true false c
  rw [hupdate] at hupdated
  obtain ⟨dag, ledger, committed, storage, hkeeps⟩ := hupdated.keeps
  have hcontinues : b.ledger.Continues committee b'.ledger := hupdated.ledger
  refine ⟨_, b', hinsert, hupdate, ⟨hfilled, hcontinues.shutdown.trans h.shutdown,
    ⟨send, ?_, hcooperates⟩, hcontinues.agrees h.agrees⟩,
    fun r hpos hle => hcontinues.grows.committees _ _ (hknows r hpos hle), ?_⟩
  · rw [show b' = _ from hkeeps]
    exact hsend
  · rcases hupdated.storage with heq | ⟨-, -, heq⟩
    · dsimp only at heq
      rw [heq]
      rfl
    · dsimp only at heq
      rw [heq, Storage.currentRound_garbageCollectCertificates]
      rfl

end BFT

namespace Primary

variable {S V : Type} [Ledger V] [StorageService S] [LawfulStorageService S] [Network]
  {U : Universe} {committee : ℕ → Committee} {g : ℕ} {acc : Fin 4 → Address} {past : List Block}
  {made : List BatchCertificate} {n k : ℕ} {p : Primary S V} {c : BatchCertificate} {vid : Fin 4}
  {env : Certification} {signers : List Address}
  {given transmissions : IndexMap TransmissionID Transmission}

lemma orderly_of_running (F : Favourable S U committee g acc)
    (h : p.bft.Running U committee g acc past made n k) (hknows : Knows committee (n + 1) p.ledger)
    (hlock : p.proposeLock = n + 1) (hproposal : p.proposedBatch = none) : p.Orderly := by
  have hcon := h.filled.sound.consistent
  have hmade : ∀ {c : BatchCertificate}, p.storage.certificates[c.id]? = some c → c ∈ made :=
    fun hc => ((h.filled.stored _).mp hc).1
  refine ⟨⟨hcon.indexed, hcon.closed.above⟩, fun {c} hc => ?_, fun {c} hc => .inl ?_,
    fun _ _ hzero => absurd hlock (by omega), hcon.once.wellFormed, fun s hs => ?_, hproposal⟩
  · have hpos := h.filled.rows.round_pos (hmade hc)
    obtain ⟨vid, hauthor, -⟩ := h.filled.rows.only c (hmade hc)
    exact ⟨_, hknows c.round hpos (h.filled.rows.round_le (hmade hc)),
      hauthor ▸ (F.equal c.round hpos).mem_members vid⟩
  · rw [hlock]
    exact h.filled.rows.round_le (hmade hc)
  · obtain ⟨send, hsend, hcooperates⟩ := h.sender
    rw [hsend] at hs
    cases hs
    exact ⟨hcooperates.faithful, hcooperates.keeps⟩

lemma next_of_certifies (F : Favourable S U committee g acc)
    (h : p.bft.Running U committee g acc past made n k) (hknows : Knows committee (n + 1) p.ledger)
    (hlock : p.proposeLock = n + 1) (hproposal : p.proposedBatch = none) (hvid : vid.val = k)
    (henv : env.Flawless (acc vid) signers) (hhas : U.Has c)
    (hc : Certifies env (acc vid) signers (n + 1) (committee (n + 1))
      (p.storage.getCertificatesForRound n) given c transmissions) :
    BFT.Filled.Next acc made n vid c ∧
      p.storage.Acceptable p.ledger env.insertedAt c transmissions ∅ := by
  have hcertified := hc.certified.1
  have hindexed := h.filled.sound.consistent.indexed
  refine ⟨⟨hcertified.round, hcertified.author, fun id => ?_⟩, ?_⟩
  · rw [hcertified.previousCertificateIds, IndexSet.mem_ofList, List.mem_map, hcertified.round]
    constructor
    · rintro ⟨d, hd, hid⟩
      obtain ⟨hd, hround⟩ := (h.mem_getCertificatesForRound F.positive).mp hd
      exact ⟨d, hd, by omega, hid⟩
    · rintro ⟨d, hd, hround, hid⟩
      exact ⟨d, (h.mem_getCertificatesForRound F.positive).mpr ⟨hd, by omega⟩, hid⟩
  · obtain ⟨batchId, signature, hheader, hauthor, -⟩ := henv.header
    have hgc : p.storage.gcRound = lastFilled n k - g := h.filled.gcRound
    have hlast := lastFilled_le n k
    refine (orderly_of_running F h hknows hlock hproposal).acceptable F.finds F.verify hc
      ⟨fun id x hx => ?_, henv.clock⟩ (hknows (n + 1) (by omega) le_rfl) (by omega)
      (fun hd hround => h.author_ne F.injective hd hround hvid.ge) (fun d hd => ?_) fun habove => ?_
    · rw [hheader] at hx
      cases hx
      exact hauthor
    · -- a stored certificate with the same batch ID is the same
      have hd' : U.cert c.id = some d := h.filled.sound.consistent.stored hd
      have heq : d = c := Option.some_inj.mp (hd'.symm.trans hhas)
      rw [heq]
      exact ⟨rfl, rfl⟩
    · have hpos : 0 < n := by omega
      exact ⟨committee n, hknows n hpos (Nat.le_succ n),
        h.quorum F.positive hpos F.injective (F.equal n hpos)⟩

/-- **It is stored, and sent to the BFT.** -/
theorem stores_next [LawfulLedger V] (F : Favourable S U committee g acc)
    (h : p.bft.Running U committee g acc past made n k) (hknows : Knows committee (n + 1) p.ledger)
    (hlock : p.proposeLock = n + 1) (hproposal : p.proposedBatch = none) (hvid : vid.val = k)
    (henv : env.Flawless (acc vid) signers) (hhas : U.Has c)
    (hc : Certifies env (acc vid) signers (n + 1) (committee (n + 1))
      (p.storage.getCertificatesForRound n) given c transmissions) :
    ∃ storage b, p.insertCertificate env.toReceipt c transmissions
        = (.ok (), p.withStorage storage) ∧
      (∀ q : Primary S V, q.bft = (p.withStorage storage).bft → q.bftSender = true →
        q.updateBft env.toReceipt c = (.ok (), { q with bft := b })) ∧
      b.Running U committee g acc past (made ++ [c]) n (k + 1) ∧ Knows committee (n + 1) b.ledger ∧
      b.storage.currentRound = p.currentRound ∧ c.round = n + 1 ∧ c.author = acc vid ∧
      c.timestamp = env.currentTimestamp := by
  obtain ⟨hnext, haccept⟩ := next_of_certifies F h hknows hlock hproposal hvid henv hhas hc
  obtain ⟨storage, b, hinsert, hupdate, hb, hknows', hround⟩ :=
    h.deliver F hknows hvid hhas hnext haccept
  refine ⟨storage, b, ?_, fun q hq hsender => ?_, hb, hknows', hround, hnext.round, hnext.author,
    hc.certified.1.timestamp⟩
  · rw [insertCertificate, henv.inserted]
    dsimp only [Await.run]
    rw [hinsert]
    rfl
  · rw [updateBft, if_pos hsender, sendPrimaryCertificateToBft, henv.sent]
    dsimp only [Await.run]
    rw [hq]
    have hupdate' : (p.withStorage storage).bft.updateDag true false c = (.ok (), b) := hupdate
    rw [hupdate']

end Primary

end AmareleoChain
