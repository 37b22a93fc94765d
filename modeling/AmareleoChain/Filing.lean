import AmareleoChain.Conserving
import AmareleoChain.Dispatch

/-!
Transmissions that are filed under IDs of their own.

The ID of a solution or of a transaction has the checksum of its data. The storage takes what it
is given with a certificate, and what it lacks at bootup, it is given by the ledger, which goes by
the ID alone.
-/

namespace AmareleoChain

/-- The transmission is of the kind that its ID names, and has the checksum of its ID. -/
def Filed [Network] : TransmissionID × Transmission → Prop
  | (.ratification, .ratification) => True
  | (.solution _ checksum, .solution solution) => Network.solutionChecksum solution = .ok checksum
  | (.transaction _ checksum, .transaction transaction) =>
    Network.transactionChecksum transaction = .ok checksum
  | _ => False

/-! ### The services of the storage -/

/-- What a service holds, in its maps or in its caches: it returns nothing else, and is given it
by `insert_transmissions`. -/
class HoldingService (S : Type) [StorageService S] where
  Holds : S → TransmissionID × Transmission → Prop
  get : ∀ {s : S} {t : TransmissionID} {x : Transmission},
    StorageService.getTransmission s t = some x → Holds s (t, x)
  insert : ∀ {s : S} {id : Field} {ids aborted : IndexSet TransmissionID}
    {missing : IndexMap TransmissionID Transmission} {e : TransmissionID × Transmission},
    Holds (StorageService.insertTransmissions s id ids aborted missing) e →
      Holds s e ∨ e ∈ missing.entries
  remove : ∀ {s : S} {id : Field} {ids : IndexSet TransmissionID}
    {e : TransmissionID × Transmission},
    Holds (StorageService.removeTransmissions s id ids) e → Holds s e
  missing : ∀ {s : S} {h : BatchHeader} {provided missing : IndexMap TransmissionID Transmission}
    {aborted : IndexSet TransmissionID},
    StorageService.findMissingTransmissions s h provided aborted = .ok missing →
      missing.entries ⊆ provided.entries

namespace BFTMemoryService

lemma entries_findMissing {known : IndexMap TransmissionID (Transmission × IndexSet Field)}
    {aborted : IndexSet TransmissionID} {ids : List TransmissionID}
    {provided missing m : IndexMap TransmissionID Transmission}
    (h : findMissing known aborted ids provided missing = .ok m) {e : TransmissionID × Transmission}
    (he : e ∈ m.entries) : e ∈ missing.entries ∨ e ∈ provided.entries := by
  induction ids generalizing provided missing with
  | nil =>
    cases h
    exact .inl he
  | cons id ids ih =>
    rw [findMissing] at h
    split at h
    · exact ih h
    · split at h
      next transmission hget =>
        rcases ih h with hin | hin
        · rcases IndexMap.mem_of_mem_insert hin with hold | rfl
          · exact .inl hold
          · exact .inr (IndexMap.get?_eq_some_iff.mp hget)
        · exact .inr (List.mem_of_mem_filter hin)
      next =>
        split at h
        · exact ih h
        · cases h

instance : HoldingService BFTMemoryService where
  Holds s e := s.getTransmission e.1 = some e.2
  get h := h
  insert {s id ids aborted missing e} h := by
    have hget : ((s.insertTransmissions id ids aborted missing).transmissions.get? e.1).map
        Prod.fst = some e.2 := h
    unfold insertTransmissions at hget
    dsimp only at hget
    rw [get?_insertKnown ids.nodup] at hget
    unfold getTransmission
    split at hget
    · cases hknown : s.transmissions.get? e.1 with
      | some known => rw [hknown] at hget; exact .inl hget
      | none =>
        rw [hknown, Option.map_map] at hget
        obtain ⟨x, hx, he⟩ := Option.map_eq_some_iff.mp hget
        refine .inr (IndexMap.get?_eq_some_iff.mp ?_)
        rw [hx, ← he]
        rfl
    · exact .inl hget
  remove {s id ids e} h := by
    have hget : ((s.removeTransmissions id ids).transmissions.get? e.1).map Prod.fst
        = some e.2 := h
    unfold removeTransmissions at hget
    rw [get?_removeTransmissions ids.nodup] at hget
    unfold getTransmission
    split at hget
    · cases hknown : s.transmissions.get? e.1 with
      | none => rw [hknown] at hget; cases hget
      | some known =>
        rw [hknown, Option.bind_some] at hget
        split at hget
        · cases hget
        · exact hget
    · exact hget
  missing h e he := (entries_findMissing h he).resolve_left List.not_mem_nil

end BFTMemoryService

namespace BFTPersistentStorage

/-- The transmission is in the database or in its cache. -/
def Holds (s : BFTPersistentStorage) (e : TransmissionID × Transmission) : Prop :=
  (s.transmissions.get? e.1).map Prod.fst = some e.2 ∨
    (s.cacheTransmissions.peek e.1).map Prod.fst = some e.2

variable {s : BFTPersistentStorage} {e : TransmissionID × Transmission}

lemma Holds.of_insert {id : TransmissionID} {entry : Transmission × IndexSet Field}
    (h : (s.insert id entry).Holds e) : s.Holds e ∨ e = (id, entry.1) := by
  have hnew : e.1 = id → entry.1 = e.2 → e = (id, entry.1) := fun hid hx => by
    rw [← hid, hx]
  rcases h with h | h
  · unfold insert at h
    dsimp only at h
    rw [IndexMap.get?_insert] at h
    split at h
    next hid => exact .inr (hnew hid (Option.some_inj.mp h))
    next => exact .inl (.inl h)
  · obtain ⟨known, hpeek, hx⟩ := Option.map_eq_some_iff.mp h
    rcases LruCache.peek_put hpeek with ⟨hid, rfl⟩ | ⟨-, hpeek⟩
    · exact .inr (hnew hid hx)
    · exact .inl (.inr (by rw [hpeek]; exact congrArg some hx))

lemma Holds.of_insertKnown {certificateId : Field} {ids : List TransmissionID}
    {missing : IndexMap TransmissionID Transmission}
    (h : (insertKnown certificateId ids missing s).Holds e) : s.Holds e ∨ e ∈ missing.entries := by
  induction ids generalizing s missing with
  | nil => exact .inl h
  | cons id ids ih =>
    rw [insertKnown] at h
    split at h
    next transmission certificateIds hknown =>
      refine (ih h).imp_left fun hinsert => ?_
      rcases hinsert.of_insert with hold | rfl
      · exact hold
      · exact .inl (by rw [hknown]; rfl)
    next =>
      split at h
      next transmission hmissing =>
        rcases ih h with hinsert | hin
        · rcases hinsert.of_insert with hold | rfl
          · exact .inl hold
          · exact .inr (IndexMap.get?_eq_some_iff.mp hmissing)
        · exact .inr (List.mem_of_mem_filter hin)
      next => exact ih h

lemma holds_foldl_insertAborted {certificateId : Field} (ids : List TransmissionID) :
    (ids.foldl (insertAborted certificateId) s).Holds e ↔ s.Holds e := by
  induction ids generalizing s with
  | nil => rfl
  | cons id ids ih => exact ih

lemma Holds.of_removeTransmissions {certificateId : Field} {ids : List TransmissionID}
    (h : (ids.foldl (removeTransmission certificateId) s).Holds e) : s.Holds e := by
  induction ids generalizing s with
  | nil => exact h
  | cons id ids ih =>
    rcases ih h with hdata | hcache
    · refine .inl ?_
      unfold removeTransmission at hdata
      dsimp only at hdata
      split at hdata
      next transmission certificateIds hknown =>
        split at hdata
        · rw [IndexMap.get?_erase] at hdata
          split at hdata
          · cases hdata
          · exact hdata
        · rw [IndexMap.get?_insert] at hdata
          split at hdata
          next hid => rw [hid, hknown]; exact hdata
          next => exact hdata
      next => exact hdata
    · exact .inr hcache

lemma entries_findMissing {aborted : IndexSet TransmissionID} {ids : List TransmissionID}
    {provided missing m : IndexMap TransmissionID Transmission}
    (h : s.findMissing aborted ids provided missing = .ok m) (he : e ∈ m.entries) :
    e ∈ missing.entries ∨ e ∈ provided.entries := by
  induction ids generalizing provided missing with
  | nil =>
    cases h
    exact .inl he
  | cons id ids ih =>
    rw [findMissing] at h
    split at h
    · exact ih h
    · split at h
      next transmission hget =>
        rcases ih h with hin | hin
        · rcases IndexMap.mem_of_mem_insert hin with hold | rfl
          · exact .inl hold
          · exact .inr (IndexMap.get?_eq_some_iff.mp hget)
        · exact .inr (List.mem_of_mem_filter hin)
      next =>
        split at h
        · exact ih h
        · cases h

instance : HoldingService BFTPersistentStorage where
  Holds := Holds
  get {s t x} h := by
    have hread : (s.getTransmission t).1 = some x := h
    unfold getTransmission at hread
    have hpeek := LruCache.fst_getMut (c := s.cacheTransmissions) (k := t)
    split at hread
    next transmission certificateIds cache hmut =>
      rw [hmut] at hpeek
      refine .inr ?_
      rw [← hpeek]
      exact hread
    next => exact .inl hread
  insert h := Holds.of_insertKnown ((holds_foldl_insertAborted _).mp h)
  remove h := Holds.of_removeTransmissions h
  missing h e he := (entries_findMissing h he).resolve_left List.not_mem_nil

end BFTPersistentStorage

/-! ### Where transmissions come from -/

section Tracing

variable {S V : Type} [Ledger V] [Network]

/-- What a ledger has for the ID of a transmission. -/
def CoreLedgerService.Answers (l : CoreLedgerService V) : TransmissionID × Transmission → Prop
  | (.solution id _, .solution (.object solution)) =>
    (solution.id = id ∧ ∃ block ∈ l.blocks, solution ∈ block.solutions) ∨
      Ledger.getSolution l.ledger id = .ok solution
  | (.transaction id _, .transaction (.object transaction)) =>
    (transaction.id = id ∧ ∃ block ∈ l.blocks, transaction ∈ block.transactions) ∨
      Ledger.getUnconfirmedTransaction l.ledger id = .ok transaction
  | _ => False

/-- What `snarkvm` keeps of its maps: what a ledger has for an ID, a later ledger contains. -/
def ContainsAnswers (V : Type) [Ledger V] : Prop :=
  ∀ (l l' : CoreLedgerService V) (e : TransmissionID × Transmission), l.blocks <+: l'.blocks →
    l.Answers e → l'.containsTransmission e.1 ≠ .ok false

/-- What a node was started with: the blocks of its first start, and the ledger of each one. -/
structure Origins (V : Type) where
  blocks : List Block
  ledgers : List (CoreLedgerService V)

namespace Origins

variable {o o' : Origins V} {e : TransmissionID × Transmission}

/-- The transmission is filed, or a ledger had it for its ID when the node was started. -/
def Traced (o : Origins V) (e : TransmissionID × Transmission) : Prop :=
  Filed e ∨ ∃ l ∈ o.ledgers, l.Answers e

/-- The block is an original one, or was prepared from a subdag and some of the transmissions that
its certificates declare, each of which is filed. -/
def FiledBlock (o : Origins V) (block : Block) : Prop :=
  block ∈ o.blocks ∨ ∃ v subdag transmissions,
    Ledger.prepareAdvanceToNextQuorumBlock (V := V) v subdag transmissions = .ok block ∧
      ∀ e ∈ transmissions.entries, e.1 ∈ declared subdag.certificates ∧ Filed e

/-- More ledgers. -/
lemma Traced.mono (h : o.Traced e) (hledgers : o.ledgers ⊆ o'.ledgers) : o'.Traced e :=
  h.imp_right fun ⟨l, hl, hanswers⟩ => ⟨l, hledgers hl, hanswers⟩

end Origins

/-! ### The storage -/

variable [StorageService S] [HoldingService S] {P : TransmissionID × Transmission → Prop}

namespace Storage

/-- All that the storage holds satisfies `P`. -/
def Holding (P : TransmissionID × Transmission → Prop) (s : Storage S) : Prop :=
  ∀ e, HoldingService.Holds s.transmissions e → P e

variable {s t : Storage S} {l : CoreLedgerService V} {now : ℤ}

omit [Ledger V] [Network] in
lemma Holding.get (h : s.Holding P) {id : TransmissionID} {transmission : Transmission}
    (hget : s.getTransmission id = some transmission) : P (id, transmission) :=
  h _ (HoldingService.get hget)

omit [Ledger V] [Network] in
lemma Holding.garbageCollect (h : s.Holding P) (round : ℕ) :
    (s.garbageCollectCertificates round).Holding P := by
  refine garbageCollectCertificates_induction (motive := fun s : Storage S => s.Holding P) h ?_
    (fun _ _ h => h) round
  intro s id h e he
  unfold removeCertificate at he
  split at he
  · exact h e he
  · exact h e (HoldingService.remove he)

omit [HoldingService S] in
lemma checkBatchHeader_missing {header : BatchHeader}
    {transmissions missing : IndexMap TransmissionID Transmission}
    {aborted : IndexSet TransmissionID}
    (h : s.checkBatchHeader l now header transmissions aborted = .ok missing) :
    StorageService.findMissingTransmissions s.transmissions header transmissions aborted
      = .ok missing := by
  unfold checkBatchHeader at h
  dsimp only at h
  split at h
  · cases h
  split at h
  · cases h
  split at h
  · cases h
  split at h
  · cases h
  split at h
  · cases h
  next hmissing =>
  rw [hmissing]
  split at h
  · split at h
    · cases h
    · exact h
  · exact h

omit [HoldingService S] in
lemma checkCertificate_missing {certificate : BatchCertificate}
    {transmissions missing : IndexMap TransmissionID Transmission}
    {aborted : IndexSet TransmissionID}
    (h : s.checkCertificate l now certificate transmissions aborted = .ok missing) :
    StorageService.findMissingTransmissions s.transmissions certificate.batchHeader transmissions
      aborted = .ok missing := by
  unfold checkCertificate at h
  dsimp only at h
  split at h
  · cases h
  split at h
  · cases h
  split at h
  · cases h
  next hheader =>
  rw [checkBatchHeader_missing hheader]
  split at h
  · cases h
  split at h
  · cases h
  split at h
  · cases h
  split at h
  · cases h
  · exact h

lemma Holding.insertCertificate (h : s.Holding P) {certificate : BatchCertificate}
    {transmissions : IndexMap TransmissionID Transmission} (hP : ∀ e ∈ transmissions.entries, P e)
    (aborted : IndexSet TransmissionID) :
    (s.insertCertificate l now certificate transmissions aborted).2.Holding P := by
  unfold Storage.insertCertificate
  split
  · exact h
  split
  · exact h
  next missing hcheck =>
  intro e he
  rcases HoldingService.insert he with hold | hin
  · exact h e hold
  · exact hP e (HoldingService.missing (checkCertificate_missing hcheck) hin)

/-! #### Synchronisation with a block -/

omit [HoldingService S] [Network] in
/-- **What a certificate of a block is given** is what the ledger has for its transmissions. -/
lemma answers_syncTransmission {block : Block} (hblock : block ∈ l.blocks)
    {found : BlockTransmissions} (hfound : ∀ e ∈ found.missing.entries, l.Answers e)
    (id : TransmissionID) : ∀ e ∈ (s.syncTransmission l block block.unconfirmedTransactions found
      id).missing.entries, l.Answers e := by
  have hinsert : ∀ {transmission : Transmission}, l.Answers (id, transmission) →
      ∀ e ∈ (found.missing.insert id transmission).entries, l.Answers e := by
    intro transmission hanswers e he
    rcases IndexMap.mem_of_mem_insert he with hold | rfl
    · exact hfound e hold
    · exact hanswers
  unfold syncTransmission
  split
  · exact hfound
  split
  · exact hfound
  dsimp only
  cases id with
  | ratification => exact hfound
  | solution id checksum =>
    dsimp only
    split
    · next solution hfind =>
      have hid : solution.id = id := by simpa using List.find?_some hfind
      exact hinsert (.inl ⟨hid, block, hblock, List.mem_of_find?_eq_some hfind⟩)
    · split
      · next solution hsolution => exact hinsert (.inr hsolution)
      · split <;> split <;> exact hfound
  | transaction id checksum =>
    dsimp only
    split
    · next transaction hfind =>
      unfold Block.unconfirmedTransactions at hfind
      have hid : transaction.id = id := by simpa using List.find?_some hfind
      exact hinsert (.inl ⟨hid, block, hblock, List.mem_of_find?_eq_some hfind⟩)
    · split
      · next transaction htransaction => exact hinsert (.inr htransaction)
      · split <;> split <;> exact hfound

lemma Holding.syncCertificate (h : s.Holding P) (hl : ∀ e, l.Answers e → P e) {block : Block}
    (hblock : block ∈ l.blocks) (certificate : BatchCertificate) :
    (s.syncCertificateWithBlock l now block certificate
      block.unconfirmedTransactions).Holding P := by
  have hanswers := List.foldlRecOn (motive := fun found : BlockTransmissions =>
      ∀ e ∈ found.missing.entries, l.Answers e) certificate.transmissionIds.toList
    (s.syncTransmission l block block.unconfirmedTransactions) (b := ⟨∅, ∅⟩)
    (fun _ he => absurd he List.not_mem_nil)
    fun found hfound id _ => answers_syncTransmission hblock hfound id
  unfold syncCertificateWithBlock
  split
  · exact h
  split
  · exact h
  exact h.insertCertificate (fun e he => hl e (hanswers e he)) _

/-- **Bootup**: the storage comes to hold what the ledger has for the transmissions of its
certificates. -/
theorem Holding.bootup (h : s.Holding P) (hl : ∀ e, l.Answers e → P e)
    {certificates : List BatchCertificate}
    (hsync : s.syncStorageWithLedgerAtBootup l now = .ok (t, certificates)) : t.Holding P := by
  unfold syncStorageWithLedgerAtBootup at hsync
  split at hsync
  · cases hsync
  dsimp only at hsync
  split at hsync
  · cases hsync
  next blocks hblocks =>
  cases hsync
  have hheight : (s.syncHeightWithBlock l.latestBlockHeight).Holding P := by
    unfold syncHeightWithBlock
    split <;> exact h
  have hround : ((s.syncHeightWithBlock l.latestBlockHeight).syncRoundWithBlock
      l.latestRound).Holding P := by
    unfold syncRoundWithBlock
    dsimp only
    split <;> exact hheight
  refine List.foldlRecOn (motive := fun s : Storage S => s.Holding P) _ _
    (hround.garbageCollect _) fun s hs block hblock => ?_
  refine List.foldlRecOn (motive := fun s : Storage S => s.Holding P) _ _ hs
    fun s hs certificate _ => ?_
  exact hs.syncCertificate hl (mem_blocks_of_getBlocks hblocks block hblock) certificate

end Storage

/-! ### The BFT -/

namespace BFT

variable {b : BFT S V} {o : Origins V}

/-- The storage holds traced transmissions, the chain goes on from those of the starts with filed
blocks, and when consensus listens, it does what `process_bft_subdag` does. -/
structure Traces (o : Origins V) (b : BFT S V) : Prop where
  storage : b.storage.Holding o.Traced
  sender : ∀ send, b.consensusSender = some send → send = processBftSubdag
  blocks : ∀ block ∈ b.ledger.blocks, o.FiledBlock block
  later : ∀ l ∈ o.ledgers, l.blocks <+: b.ledger.blocks

lemma Traces.same (h : b.Traces o) {b' : BFT S V} (hstorage : b'.storage.Holding o.Traced)
    (hsender : b'.consensusSender = b.consensusSender)
    (hblocks : b'.ledger.blocks = b.ledger.blocks) : b'.Traces o :=
  ⟨hstorage, hsender ▸ h.sender, hblocks ▸ h.blocks, hblocks ▸ h.later⟩

/-- **What is collected for a block** is filed: what only a ledger had is not new to the chain. -/
lemma Traces.collected (hV : ContainsAnswers V) (h : b.Traces o)
    {certificates : List BatchCertificate} {transmissions : IndexMap TransmissionID Transmission}
    (hcollected : b.collectTransmissions certificates = .ok transmissions) :
    ∀ e ∈ transmissions.entries, e.1 ∈ declared certificates ∧
      b.ledger.containsTransmission e.1 = .ok false ∧
      b.storage.getTransmission e.1 = some e.2 ∧ Filed e := by
  intro e he
  obtain ⟨-, hkeys, hstored⟩ := (collectTransmissions_spec _).1 _ hcollected
  have hkey : e.1 ∈ transmissions.keys := List.mem_map_of_mem he
  rw [hkeys, List.mem_filter] at hkey
  have hnew : b.ledger.containsTransmission e.1 = .ok false := by
    have hisNew := hkey.2
    rw [isNew] at hisNew
    split at hisNew <;> first | assumption | cases hisNew
  refine ⟨firstsBy_subset hkey.1, hnew, hstored e he, ?_⟩
  rcases h.storage.get (hstored e he) with hfiled | ⟨l, hl, hanswers⟩
  · exact hfiled
  · exact absurd hnew (hV l _ e (h.later l hl) hanswers)

/-- **A block** that is made of what was collected is filed. -/
lemma Traces.added (hV : ContainsAnswers V) (h : b.Traces o) {subdag : Subdag}
    {transmissions : IndexMap TransmissionID Transmission}
    (hcollected : b.collectTransmissions subdag.certificates = .ok transmissions) {block : Block}
    (hprepared : Ledger.prepareAdvanceToNextQuorumBlock b.ledger.ledger subdag transmissions
      = .ok block) {ledger : CoreLedgerService V}
    (hblocks : ledger.blocks = b.ledger.blocks ++ [block]) :
    ({ b with ledger } : BFT S V).Traces o := by
  refine ⟨h.storage, h.sender, fun block' hblock => ?_, fun l hl => ?_⟩
  · change block' ∈ ledger.blocks at hblock
    rw [hblocks] at hblock
    rcases List.mem_append.mp hblock with hold | hnew
    · exact h.blocks block' hold
    obtain rfl := List.mem_singleton.mp hnew
    refine .inr ⟨_, subdag, transmissions, hprepared, fun e he => ?_⟩
    obtain ⟨hdeclared, -, -, hfiled⟩ := h.collected hV hcollected e he
    exact ⟨hdeclared, hfiled⟩
  · change l.blocks <+: ledger.blocks
    rw [hblocks]
    exact (h.later l hl).trans (List.prefix_append _ _)

/-- A subdag is sent with filed transmissions, so the block that it becomes is filed. -/
lemma Traces.commitLeader [LawfulLedger V] (hV : ContainsAnswers V) (h : b.Traces o) (allow : Bool)
    (leader : BatchCertificate) : (b.commitLeader allow false leader).2.Traces o := by
  have hledger := (commitLeader_dispatch allow b leader).1
  obtain ⟨dag, ledger, committed, hkeeps⟩ := commitLeader_keeps allow false b leader
  rw [hkeeps] at hledger ⊢
  change ledger = _ at hledger
  subst hledger
  cases hdispatch : b.dispatch allow leader with
  | none => exact h.same h.storage rfl rfl
  | some d =>
    obtain ⟨rfl, -, hcollected, send, hsend, hledger⟩ := dispatch_eq_some hdispatch
    obtain rfl := h.sender send hsend
    have hsame : d.ledger.blocks = d.sender.ledger.blocks → BFT.Traces o { d.sender with
        dag, ledger := d.ledger, committed } := fun hblocks => h.same h.storage rfl hblocks
    change BFT.Traces o { d.sender with dag, ledger := d.ledger, committed }
    unfold processBftSubdag tryAdvanceToNextBlock at hledger
    cases hprepared : Ledger.prepareAdvanceToNextQuorumBlock d.sender.ledger.ledger d.subdag
        d.transmissions with
    | error e =>
      rw [hprepared] at hledger
      exact hsame (by rw [hledger])
    | ok next =>
      rw [hprepared] at hledger
      dsimp only at hledger
      rcases advanceToNextBlock_cases d.sender.ledger next with ⟨e, he⟩ | ⟨-, w, -, hw, he⟩ <;>
        rw [he] at hledger
      · exact hsame (by rw [hledger])
      · have hblocks : d.ledger.blocks = d.sender.ledger.blocks ++ [next] := by
          rw [hledger]
          exact hw
        have hadded := h.added hV hcollected hprepared hblocks
        exact hadded.same hadded.storage rfl rfl

lemma Traces.commitLeaders [LawfulLedger V] (hV : ContainsAnswers V) (h : b.Traces o) (allow : Bool)
    (leaders : List BatchCertificate) : (b.commitLeaders allow false leaders).2.Traces o := by
  induction leaders generalizing b with
  | nil => exact h
  | cons leader leaders ih =>
    have hone := h.commitLeader hV allow leader
    rw [BFT.commitLeaders]
    split
    · next hcommitted =>
      rw [hcommitted] at hone
      exact ih hone
    · next hcommitted =>
      rw [hcommitted] at hone
      exact hone

/-- **A call of `update_dag`.** -/
theorem Traces.updateDag [LawfulLedger V] (hV : ContainsAnswers V) (h : b.Traces o) (allow : Bool)
    (certificate : BatchCertificate) : (b.updateDag allow false certificate).2.Traces o := by
  have hcached : ∀ x, (({ b with dag := b.dag.insert certificate } : BFT S V).withLeader
      x).Traces o := fun _ => h.same h.storage rfl rfl
  obtain ⟨x, -, ⟨r, hres⟩ | ⟨leader, -, hres⟩⟩ := updateDag_entry allow false b certificate
  · rw [hres]
    exact hcached x
  rw [hres]
  unfold commitLeaderCertificate
  obtain ⟨y, hy, -⟩ := previousLeaders_spec
    (({ b with dag := b.dag.insert certificate } : BFT S V).withLeader x) leader
    (leaderRounds (b.dag.insert certificate).lastCommittedRound leader.round)
  split
  · next b₂ he =>
    obtain rfl : b₂ = ({ b with dag := b.dag.insert certificate } : BFT S V).withLeader y :=
      (congrArg Prod.snd he).symm.trans hy
    exact hcached y
  next previous b₂ he =>
  obtain rfl : b₂ = ({ b with dag := b.dag.insert certificate } : BFT S V).withLeader y :=
    (congrArg Prod.snd he).symm.trans hy
  have hloop := (hcached y).commitLeaders hV allow (leader :: previous).reverse
  split <;> next h => rw [h] at hloop; first
    | exact hloop
    | exact hloop.same (hloop.storage.garbageCollect _) rfl rfl

lemma Traces.incrementToNextRound (h : b.Traces o) (round : ℕ) :
    ({ b with storage := (b.storage.incrementToNextRound b.ledger round).2 } : BFT S V).Traces
      o := by
  obtain ⟨currentRound, -, hres⟩ := Storage.incrementToNextRound_keeps b.ledger b.storage round
  rw [hres]
  exact h.same h.storage rfl rfl

lemma Traces.updateToNextRound (h : b.Traces o) (now : ℤ) (round : ℕ) :
    (b.updateToNextRound now round).2.Traces o := by
  obtain ⟨x, leader, timer, storage, rfl | rfl, hres⟩ := b.updateToNextRound_keeps now round <;>
    rw [hres]
  · exact h.same h.storage rfl rfl
  · exact h.same (h.incrementToNextRound round).storage rfl rfl

end BFT

end Tracing

end AmareleoChain
