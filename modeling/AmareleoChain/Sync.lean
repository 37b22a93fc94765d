import AmareleoChain.Building

/-!
Bootup: the storage and the DAG of the BFT are synced with the ledger.

Only the blocks that can hold certificates above the garbage collection horizon are read. There
is at most one block every two rounds, so these are half as many as the rounds kept.
-/

namespace AmareleoChain

open Std

/-- `block.transactions()`, in their unconfirmed form, by ID. -/
def Block.unconfirmedTransactions (b : Block) (id : TransactionID) : Option Transaction :=
  b.transactions.find? fun transaction => transaction.id == id

/-- The ledger finds a transmission of its block, so that this one does not count as aborted. -/
def CoreLedgerService.Finds {V : Type} [Ledger V] (l : CoreLedgerService V) (block : Block) :
    TransmissionID → Prop
  | .ratification => True
  | .solution id _ => (∃ solution ∈ block.solutions, solution.id = id) ∨
    ∃ solution, Ledger.getSolution l.ledger id = .ok solution
  | .transaction id _ => (∃ transaction ∈ block.transactions, transaction.id = id) ∨
    ∃ transaction, Ledger.getUnconfirmedTransaction l.ledger id = .ok transaction

namespace Storage

variable {S V : Type} [StorageService S] [Network] [Ledger V]

/-- The certificates of one block synced; a beacon block has none. -/
def syncBlock (l : CoreLedgerService V) (now : ℤ) (s : Storage S) (block : Block) : Storage S :=
  block.certificates.foldl (fun s certificate =>
    s.syncCertificateWithBlock l now block certificate block.unconfirmedTransactions) s

/-- `sync_storage_with_ledger_at_bootup`, with the certificates it sends to the BFT. -/
def syncStorageWithLedgerAtBootup (l : CoreLedgerService V) (now : ℤ) (s : Storage S) :
    Except String (Storage S × List BatchCertificate) :=
  if s.maxGcRounds ≥ 2 ^ 32 then .error "out of range integral type conversion attempted"
  else
    let blockHeight := l.latestBlockHeight
    let maxGcBlocks := s.maxGcRounds / 2
    let gcHeight := blockHeight - maxGcBlocks
    match l.getBlocks gcHeight (blockHeight + 1) with
    | .error e => .error e
    | .ok blocks =>
      let s := s.syncHeightWithBlock blockHeight
      let s := s.syncRoundWithBlock l.latestRound
      let s := s.garbageCollectCertificates l.latestRound
      .ok (blocks.foldl (syncBlock l now) s, blocks.flatMap Block.certificates)

/-! ### What is synced -/

omit [Network] in
lemma aborted_of_finds {l : CoreLedgerService V} (s : Storage S) {block : Block}
    {ids : List TransmissionID} (hfinds : ∀ id ∈ ids, l.Finds block id)
    (found : BlockTransmissions) :
    (ids.foldl (s.syncTransmission l block block.unconfirmedTransactions) found).aborted
      = found.aborted := by
  refine List.foldlRecOn (motive := fun acc : BlockTransmissions =>
    acc.aborted = found.aborted) ids _ rfl ?_
  intro acc hacc id hid
  rw [← hacc]
  have hfound := hfinds id hid
  unfold syncTransmission
  split
  · rfl
  split
  · rfl
  cases id with
  | ratification => rfl
  | solution id checksum =>
    dsimp only
    split
    · rfl
    next hnone =>
    obtain ⟨solution, hin, hid⟩ | ⟨solution, hget⟩ := hfound
    · simp [List.find?_eq_none] at hnone
      exact absurd hid (hnone solution hin)
    · rw [hget]
  | transaction id checksum =>
    dsimp only
    split
    · rfl
    next hnone =>
    obtain ⟨transaction, hin, hid⟩ | ⟨transaction, hget⟩ := hfound
    · simp [Block.unconfirmedTransactions, List.find?_eq_none] at hnone
      exact absurd hid (hnone transaction hin)
    · rw [hget]

lemma syncCertificateWithBlock_cases (l : CoreLedgerService V) (now : ℤ) {s : Storage S}
    (hs : s.Indexed) (block : Block) (c : BatchCertificate)
    (unconfirmed : TransactionID → Option Transaction) :
    s.syncCertificateWithBlock l now block c unconfirmed = s ∨
    ∃ t missing, Accepts l s c ∧
      StorageService.findMissingTransmissions s.transmissions c.batchHeader t
        (c.transmissionIds.toList.foldl (s.syncTransmission l block unconfirmed) ⟨∅, ∅⟩).aborted
        = .ok missing ∧
      s.syncCertificateWithBlock l now block c unconfirmed
        = s.insertCertificateAtomic c
          (c.transmissionIds.toList.foldl (s.syncTransmission l block unconfirmed) ⟨∅, ∅⟩).aborted
          missing := by
  unfold syncCertificateWithBlock
  split
  · exact .inl rfl
  · split
    · exact .inl rfl
    · dsimp only
      rcases insertCertificate_cases l now hs c _ _ with ⟨x, hx⟩ | ⟨missing, ha, hm, hx⟩
      · rw [hx]; exact .inl rfl
      · exact .inr ⟨_, missing, ha, hm, by rw [hx]⟩

/-- A storage that holds only certificates of a chain. -/
structure Synced [LawfulStorageService S] (committee : ℕ → Committee) (l : CoreLedgerService V)
    (g gcRound : ℕ) (s : Storage S) : Prop where
  indexed : s.Indexed
  closed : s.Closed committee
  maxGcRounds : s.maxGcRounds = g
  gcRound : s.gcRound = gcRound
  valid : LawfulStorageService.Valid s.transmissions
  chain : ∀ (id : Field) (c : BatchCertificate), s.certificates[id]? = some c →
    c ∈ chainCertificates l.blocks

variable [LawfulStorageService S] {committee : ℕ → Committee} {l : CoreLedgerService V} {g k : ℕ}
  {s : Storage S}

lemma Synced.syncCertificate (h : s.Synced committee l g k) (hl : AgreesOn committee l) (now : ℤ)
    {block : Block} {c : BatchCertificate} (hc : c ∈ chainCertificates l.blocks)
    (hfinds : LawfulStorageService.TellsAborted S ∨ ∀ t ∈ c.transmissionIds, l.Finds block t) :
    (s.syncCertificateWithBlock l now block c block.unconfirmedTransactions).Synced committee l g
      k := by
  rcases syncCertificateWithBlock_cases l now h.indexed block c block.unconfirmedTransactions with
    hx | ⟨t, missing, ha, hm, hx⟩
  · rw [hx]
    exact h
  · rw [hx]
    have haborted := hfinds.imp_right fun hall : ∀ t ∈ c.transmissionIds.toList, l.Finds block t =>
      aborted_of_finds s hall ⟨∅, ∅⟩
    refine ⟨indexed_insertCertificateAtomic h.indexed ha, closed_insertCertificateAtomic hl h.closed
      ha, h.maxGcRounds, h.gcRound, LawfulStorageService.valid_insert h.valid haborted,
      fun id d hd => ?_⟩
    rcases (getElem?_insertCertificateAtomic ha.fresh _ missing _ _).mp hd with hd | ⟨-, rfl⟩
    · exact h.chain id d hd
    · exact hc

/-- No transmission of a block counts as aborted when it is synced, where the storage service does
not tell those from the ones that it keeps. -/
def Syncable (S : Type) [StorageService S] [LawfulStorageService S] (l : CoreLedgerService V) :
    Prop :=
  LawfulStorageService.TellsAborted S ∨ ∀ block ∈ l.blocks, ∀ c ∈ block.certificates,
    ∀ t ∈ c.transmissionIds, l.Finds block t

lemma Synced.syncBlock (h : s.Synced committee l g k) (hl : AgreesOn committee l)
    (hsyncable : Syncable S l) (now : ℤ) {block : Block} (hblock : block ∈ l.blocks) :
    (s.syncBlock l now block).Synced committee l g k := by
  refine List.foldlRecOn (motive := fun s : Storage S => s.Synced committee l g k) _ _ h
    fun s hs c hc => hs.syncCertificate hl now ?_ (hsyncable.imp_right fun h => h block hblock c hc)
  exact List.mem_flatMap.mpr ⟨block, hblock, hc⟩

omit [Network] in
lemma Synced.same {t : Storage S} (h : s.Synced committee l g k) (hst : SameCertificates s t)
    (hmax : t.maxGcRounds = s.maxGcRounds) (ht : t.transmissions = s.transmissions) :
    t.Synced committee l g k where
  indexed := hst.indexed h.indexed
  closed := hst.closed h.closed
  maxGcRounds := hmax.trans h.maxGcRounds
  gcRound := hst.2.2.2.trans h.gcRound
  valid := ht ▸ h.valid
  chain := by rw [hst.2.1]; exact h.chain

omit [Network] in
lemma Synced.garbageCollect (h : s.Synced committee l g k) (nextRound : ℕ) :
    (s.garbageCollectCertificates nextRound).Synced committee l g (max k (nextRound - g)) := by
  obtain ⟨hi, hgc, hmem⟩ := garbageCollectCertificates_spec h.indexed h.closed.above nextRound
  have hcarries : s.Carries fun _ => False := ⟨h.valid, fun _ _ hf => hf.elim⟩
  refine ⟨hi, closed_garbageCollectCertificates h.indexed h.closed nextRound, ?_, ?_,
    (hcarries.garbageCollectCertificates nextRound).valid, fun id c hc => ?_⟩
  · rw [maxGcRounds_garbageCollectCertificates]
    exact h.maxGcRounds
  · rw [hgc, h.gcRound, h.maxGcRounds]
  · exact h.chain id c ((hmem id c).mp hc).1

omit [StorageService S] [LawfulStorageService S] [Network] in
lemma getBlocks_eq {first last : ℕ} (h : last ≤ l.blocks.length) :
    l.getBlocks first last = .ok ((l.blocks.drop first).take (last - first)) := by
  unfold CoreLedgerService.getBlocks
  induction hn : last - first generalizing first with
  | zero => rfl
  | succ n ih =>
    have hlt : first < l.blocks.length := by omega
    rw [List.range'_succ, List.mapM_cons, List.getElem?_eq_getElem hlt, ih (by omega),
      List.drop_eq_getElem_cons hlt]
    rfl

omit [StorageService S] [LawfulStorageService S] [Network] in
lemma mem_blocks_of_getBlocks {first last : ℕ} {blocks : List Block}
    (h : l.getBlocks first last = .ok blocks) : ∀ block ∈ blocks, block ∈ l.blocks := by
  unfold CoreLedgerService.getBlocks at h
  induction hn : last - first generalizing first last blocks with
  | zero =>
    rw [hn] at h
    cases h
    simp
  | succ n ih =>
    rw [hn, List.range'_succ, List.mapM_cons] at h
    cases hb : l.blocks[first]? with
    | none => rw [hb] at h; cases h
    | some block =>
      rw [hb] at h
      cases hbs : l.getBlocks (first + 1) (first + 1 + n) with
      | error e =>
        unfold CoreLedgerService.getBlocks at hbs
        rw [Nat.add_sub_cancel_left] at hbs
        simp only [hbs] at h
        cases h
      | ok rest =>
        unfold CoreLedgerService.getBlocks at hbs
        have hrest := ih hbs (Nat.add_sub_cancel_left _ _)
        rw [Nat.add_sub_cancel_left] at hbs
        simp only [hbs] at h
        cases h
        exact List.forall_mem_cons.mpr ⟨List.mem_of_getElem? hb, hrest⟩

omit [LawfulStorageService S] in
lemma mem_chain_of_sync {now : ℤ} {s s' : Storage S} {cs : List BatchCertificate}
    (h : s.syncStorageWithLedgerAtBootup l now = .ok (s', cs)) :
    ∀ c ∈ cs, c ∈ chainCertificates l.blocks := by
  unfold syncStorageWithLedgerAtBootup at h
  split at h
  · cases h
  dsimp only at h
  split at h
  · cases h
  next blocks hblocks =>
  cases h
  intro c hc
  obtain ⟨block, hblock, hc⟩ := List.mem_flatMap.mp hc
  exact List.mem_flatMap.mpr ⟨block, mem_blocks_of_getBlocks hblocks block hblock, hc⟩

/-- **The storage after bootup**, when the chain and its heights are in order. -/
theorem syncStorageWithLedgerAtBootup_ok (hl : AgreesOn committee l)
    (hsyncable : Syncable S l) (now : ℤ)
    (hg : g < 2 ^ 32) (hheight : l.latestBlockHeight + 1 = l.blocks.length)
    (hs : s.Synced committee l g k) :
    ∃ s', s.syncStorageWithLedgerAtBootup l now
        = .ok (s', chainCertificates (l.blocks.drop (l.latestBlockHeight - g / 2))) ∧
      s'.Synced committee l g (max k (l.latestRound - g)) := by
  have hmax := hs.maxGcRounds
  have hblocks : (l.blocks.drop (l.latestBlockHeight - g / 2)).take
      (l.latestBlockHeight + 1 - (l.latestBlockHeight - g / 2))
        = l.blocks.drop (l.latestBlockHeight - g / 2) := by
    refine List.take_of_length_le ?_
    rw [List.length_drop]
    omega
  unfold syncStorageWithLedgerAtBootup
  rw [hmax, if_neg (by omega)]
  dsimp only
  rw [getBlocks_eq hheight.le, hblocks]
  refine ⟨_, rfl, ?_⟩
  -- the height and the round, the garbage collection, and the blocks one after the other
  have hheight' : (s.syncHeightWithBlock l.latestBlockHeight).Synced committee l g k := by
    unfold syncHeightWithBlock
    split
    · exact hs.same ⟨rfl, rfl, rfl, rfl⟩ rfl rfl
    · exact hs
  have hround : ((s.syncHeightWithBlock l.latestBlockHeight).syncRoundWithBlock
      l.latestRound).Synced committee l g k := by
    unfold syncRoundWithBlock updateCurrentRound
    dsimp only
    split
    · exact hheight'.same ⟨rfl, rfl, rfl, rfl⟩ rfl rfl
    · exact hheight'
  refine List.foldlRecOn (motive := fun s : Storage S =>
    s.Synced committee l g (max k (l.latestRound - g))) _ _ (hround.garbageCollect _)
    fun s hs block hblock => hs.syncBlock hl hsyncable now ?_
  exact List.mem_of_mem_drop hblock

end Storage

/-- `Sync::initialize`: the storage is synced, and the certificates are sent to the BFT. -/
def BFT.bootup {S V : Type} [StorageService S] [Network] [Ledger V] (b : BFT S V) (now : ℤ) :
    Except String (BFT S V) :=
  match b.storage.syncStorageWithLedgerAtBootup b.ledger now with
  | .error e => .error e
  | .ok (storage, certificates) => .ok (({ b with storage }).syncBftDagAtBootup certificates)

lemma BFT.bootup_keeps {S V : Type} [StorageService S] [Network] [Ledger V] {b b' : BFT S V}
    {now : ℤ} (h : b.bootup now = .ok b') : ∃ storage dag, b' = { b with storage, dag } := by
  unfold BFT.bootup at h
  split at h
  · cases h
  · cases h; exact ⟨_, _, rfl⟩

end AmareleoChain
