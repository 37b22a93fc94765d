import AmareleoChain.Keeping
import AmareleoChain.PersistentStorage

/-!
What bootup restores.

Of a chain whose anchor rounds are two or more apart, half as many blocks as rounds are kept hold
every certificate above the GC round. These are inserted by block and by round, so when a
certificate is inserted its previous certificates are there, and nothing is refused.
-/

namespace AmareleoChain

open Std

/-! ### The persistent service -/

/-- What bootup needs of the service that keeps the transmissions. -/
structure StorageService.Restores (S : Type) [StorageService S] : Prop where
  finds : ∀ (s : S) (header : BatchHeader) (provided : IndexMap TransmissionID Transmission)
    (aborted : IndexSet TransmissionID), (∀ t ∈ header.transmissionIds,
      StorageService.containsTransmission s t = true ∨ t ∈ provided.keys ∨ t ∈ aborted) →
    ∃ missing, StorageService.findMissingTransmissions s header provided aborted = .ok missing
  keeps : ∀ (s : S) (id : Field) (ids aborted : IndexSet TransmissionID)
    (missing : IndexMap TransmissionID Transmission) (t : TransmissionID),
    StorageService.containsTransmission s t = true →
    StorageService.containsTransmission
      (StorageService.insertTransmissions s id ids aborted missing) t = true

namespace BFTPersistentStorage

/-- `open` on the database that another service left. -/
def reopen (s : BFTPersistentStorage) (maxCommitteeSize maxTransmissionsPerBatch : ℕ) :
    BFTPersistentStorage :=
  { new maxCommitteeSize maxTransmissionsPerBatch with
    transmissions := s.transmissions
    abortedTransmissionIds := s.abortedTransmissionIds }

variable {s : BFTPersistentStorage} {aborted : IndexSet TransmissionID} {t : TransmissionID}

lemma containsTransmission_iff : s.containsTransmission t = true ↔
    t ∈ s.toMemory.transmissions.keys ∨ t ∈ s.toMemory.abortedTransmissionIds.keys := by
  simp [containsTransmission, toMemory]

lemma findMissing_exists {ids : List TransmissionID} (hnd : ids.Nodup)
    {provided missing : IndexMap TransmissionID Transmission}
    (h : ∀ t ∈ ids, s.containsTransmission t = true ∨ t ∈ provided.keys ∨ t ∈ aborted) :
    ∃ m, s.findMissing aborted ids provided missing = .ok m := by
  induction ids generalizing provided missing with
  | nil => exact ⟨missing, rfl⟩
  | cons id ids ih =>
    rw [List.forall_mem_cons] at h
    rw [List.nodup_cons] at hnd
    rw [findMissing]
    split
    · exact ih hnd.2 h.2
    next hnew =>
    split
    · refine ih hnd.2 fun t ht => ?_
      have hne : t ≠ id := fun he => hnd.1 (he ▸ ht)
      exact (h.2 t ht).imp_right (Or.imp_left fun hp => by simp [hp, hne])
    · next hnone =>
      have hprovided : id ∉ provided.keys := by
        rw [← IndexMap.get?_isSome, hnone]
        simp
      rw [if_pos ((h.1.resolve_left hnew).resolve_left hprovided)]
      exact ih hnd.2 h.2

lemma findsProvided : StorageService.FindsProvided BFTPersistentStorage :=
  fun _ header _ _ h => findMissing_exists header.transmissionIds.nodup
    fun t ht => .inr (.inl (h t ht))

lemma containsTransmission_insertTransmissions (id : Field) (ids : IndexSet TransmissionID)
    (missing : IndexMap TransmissionID Transmission) (h : s.containsTransmission t = true) :
    (s.insertTransmissions id ids aborted missing).containsTransmission t = true := by
  rw [containsTransmission_iff] at h ⊢
  rw [toMemory_insertTransmissions]
  unfold BFTMemoryService.insertTransmissions
  dsimp only
  refine h.imp (fun ht => ?_) fun ht => ?_
  · rw [← IndexMap.get?_isSome, BFTMemoryService.get?_insertKnown ids.nodup]
    rw [← IndexMap.get?_isSome] at ht
    obtain ⟨e, he⟩ := Option.isSome_iff_exists.mp ht
    rw [he]
    split <;> rfl
  · rw [← IndexMap.get?_isSome, BFTMemoryService.get?_insertAborted aborted.nodup]
    rw [← IndexMap.get?_isSome] at ht
    split
    · rfl
    · exact ht

/-- **The persistent service restores.** -/
theorem restores : StorageService.Restores BFTPersistentStorage where
  finds _ header _ _ h := findMissing_exists header.transmissionIds.nodup h
  keeps _ id ids _ missing _ h := containsTransmission_insertTransmissions id ids missing h

end BFTPersistentStorage

/-! ### The chain -/

/-- What `snarkvm` keeps of its blocks: they are counted from zero, their rounds are two or more
apart, and a round is that of the last certificates of its block. -/
structure ChainInOrder (V : Type) [Ledger V] : Prop where
  height : ∀ l : CoreLedgerService V, l.latestBlockHeight + 1 = l.blocks.length
  apart : ∀ l : CoreLedgerService V, (l.blocks.map Block.round).Pairwise fun m n => m + 2 ≤ n
  round_le : ∀ (l : CoreLedgerService V), ∀ block ∈ l.blocks, ∀ c ∈ block.certificates,
    c.round ≤ block.round
  anchor : ∀ (l : CoreLedgerService V), ∀ block ∈ l.blocks, block.round = 0 ∨
    ∃ c ∈ block.certificates, c.round = block.round
  committee : ∀ (l : CoreLedgerService V) (committee : Committee),
    l.currentCommittee = .ok committee → committee.startingRound ≤ max l.latestRound 1

namespace ChainInOrder

variable {V : Type} [Ledger V] (hV : ChainInOrder V) (l : CoreLedgerService V)

include hV

lemma latest : ∃ block, l.blocks[l.latestBlockHeight]? = some block ∧
    block.round = l.latestRound := by
  have hlength := hV.height l
  obtain ⟨block, hblock⟩ : ∃ block, l.blocks[l.latestBlockHeight]? = some block :=
    ⟨_, List.getElem?_eq_getElem (by omega)⟩
  refine ⟨block, hblock, ?_⟩
  have hlast : l.latestBlock = some block := by
    rw [CoreLedgerService.latestBlock, List.getLast?_eq_getElem?, ← hlength, Nat.add_sub_cancel]
    exact hblock
  rw [CoreLedgerService.latestRound, hlast]
  rfl

/-- A block below the last one is two rounds lower for each block between. -/
lemma round_add_le {k : ℕ} {block : Block} (hk : l.blocks[k]? = some block) :
    block.round + 2 * (l.latestBlockHeight - k) ≤ l.latestRound := by
  obtain ⟨hlt, -⟩ := List.getElem?_eq_some_iff.mp hk
  have hlength := hV.height l
  have hstep : ∀ (n m : ℕ) (b : Block), l.blocks[m]? = some b → m + n = l.latestBlockHeight →
      b.round + 2 * n ≤ l.latestRound := by
    intro n
    induction n with
    | zero =>
      intro m b hb hm
      obtain ⟨last, hlast, hround⟩ := hV.latest l
      rw [Nat.add_zero] at hm
      rw [← hm, hb] at hlast
      cases hlast
      omega
    | succ n ih =>
      intro m b hb hm
      obtain ⟨b', hb'⟩ : ∃ b', l.blocks[m + 1]? = some b' :=
        ⟨_, List.getElem?_eq_getElem (by omega)⟩
      have hrest := ih (m + 1) b' hb' (by omega)
      have hpair := List.pairwise_iff_getElem.mp (List.pairwise_map.mp (hV.apart l)) m (m + 1)
        (by omega) (by omega) (by omega)
      obtain ⟨_, rfl⟩ := List.getElem?_eq_some_iff.mp hb
      obtain ⟨_, rfl⟩ := List.getElem?_eq_some_iff.mp hb'
      omega
  exact hstep _ k block hk (by omega)

lemma roundsInOrder : Primary.RoundsInOrder V := by
  intro l c hc
  obtain ⟨block, hblock, hc⟩ := List.mem_flatMap.mp hc
  obtain ⟨k, hk⟩ := List.mem_iff_getElem?.mp hblock
  have hround := hV.round_add_le l hk
  have hle := hV.round_le l block hblock c hc
  omega

lemma roundsAttained : RoundsAttained V := by
  intro l
  obtain ⟨block, hblock, hround⟩ := hV.latest l
  have hmem := List.mem_of_getElem? hblock
  rw [← hround]
  exact (hV.anchor l block hmem).imp_right fun ⟨c, hc, h⟩ =>
    ⟨c, List.mem_flatMap.mpr ⟨block, hmem, hc⟩, h⟩

/-- **Half as many blocks as rounds are enough.** -/
theorem le_of_above {g k : ℕ} {block : Block} {c : BatchCertificate}
    (hk : l.blocks[k]? = some block) (hc : c ∈ block.certificates)
    (habove : l.latestRound - g < c.round) : l.latestBlockHeight - g / 2 ≤ k := by
  have hround := hV.round_add_le l hk
  have hle := hV.round_le l block (List.mem_of_getElem? hk) c hc
  omega

end ChainInOrder

/-! ### The transmissions of a block -/

/-- The ledger resolves a transmission of its block: it has it, or it was aborted. -/
def CoreLedgerService.Resolves {V : Type} [Ledger V] (l : CoreLedgerService V) (block : Block) :
    TransmissionID → Prop
  | .ratification => False
  | .solution id checksum =>
    (∃ solution ∈ block.solutions, solution.id = id) ∨
    (∃ solution, Ledger.getSolution l.ledger id = .ok solution) ∨
    id ∈ block.abortedSolutionIds ∨ l.containsTransmission (.solution id checksum) = .ok true
  | .transaction id checksum =>
    (∃ transaction ∈ block.transactions, transaction.id = id) ∨
    (∃ transaction, Ledger.getUnconfirmedTransaction l.ledger id = .ok transaction) ∨
    id ∈ block.abortedTransactionIds ∨
      l.containsTransmission (.transaction id checksum) = .ok true

namespace Storage

variable {S V : Type} [StorageService S] [Ledger V] {s : Storage S} {l : CoreLedgerService V}
  {block : Block}

/-- A transmission is stored, or found, or known to be aborted. -/
def Known (s : Storage S) (found : BlockTransmissions) (t : TransmissionID) : Prop :=
  s.containsTransmission t = true ∨ t ∈ found.missing.keys ∨ t ∈ found.aborted

lemma known_syncTransmission (found : BlockTransmissions) {id : TransmissionID}
    (hresolves : l.Resolves block id) :
    s.Known (s.syncTransmission l block block.unconfirmedTransactions found id) id ∧
      ∀ t, s.Known found t →
        s.Known (s.syncTransmission l block block.unconfirmedTransactions found id) t := by
  have hsame : s.Known found id → s.Known found id ∧ ∀ t, s.Known found t → s.Known found t :=
    fun h => ⟨h, fun _ h => h⟩
  have hmissing : ∀ transmission, s.Known ⟨found.missing.insert id transmission, found.aborted⟩ id ∧
      ∀ t, s.Known found t →
        s.Known ⟨found.missing.insert id transmission, found.aborted⟩ t := fun transmission =>
    ⟨.inr (.inl (by simp)), fun t ht => ht.imp_right (Or.imp_left fun ht => by simp [ht])⟩
  have haborted : s.Known ⟨found.missing, found.aborted.insert id⟩ id ∧
      ∀ t, s.Known found t → s.Known ⟨found.missing, found.aborted.insert id⟩ t :=
    ⟨.inr (.inr (by simp)), fun t ht => ht.imp_right (Or.imp_right fun ht => by simp [ht])⟩
  unfold syncTransmission
  split
  · next hkey => exact hsame (.inr (.inl (by simpa using hkey)))
  split
  · next hstored => exact hsame (.inl hstored)
  cases id with
  | ratification => exact hresolves.elim
  | solution id checksum =>
    dsimp only
    cases hfound : block.solutions.find? fun solution => solution.id == id with
    | some solution => exact hmissing _
    | none =>
      cases hledger : Ledger.getSolution l.ledger id with
      | ok solution => exact hmissing _
      | error e =>
        have hnone : ¬ ∃ solution ∈ block.solutions, solution.id = id := by
          simpa using hfound
        rcases hresolves.resolve_left hnone with ⟨solution, hok⟩ | hin | hin
        · rw [hledger] at hok
          cases hok
        · have hcontains : block.abortedSolutionIds.contains id = true := by simpa using hin
          simp only [hcontains, Bool.true_or, if_true]
          exact haborted
        · simp only [hin, Bool.or_true, if_true]
          exact haborted
  | transaction id checksum =>
    dsimp only
    unfold Block.unconfirmedTransactions
    cases hfound : block.transactions.find? fun transaction => transaction.id == id with
    | some transaction => exact hmissing _
    | none =>
      cases hledger : Ledger.getUnconfirmedTransaction l.ledger id with
      | ok transaction => exact hmissing _
      | error e =>
        have hnone : ¬ ∃ transaction ∈ block.transactions, transaction.id = id := by
          simpa using hfound
        rcases hresolves.resolve_left hnone with ⟨transaction, hok⟩ | hin | hin
        · rw [hledger] at hok
          cases hok
        · have hcontains : block.abortedTransactionIds.contains id = true := by simpa using hin
          simp only [hcontains, Bool.true_or, if_true]
          exact haborted
        · simp only [hin, Bool.or_true, if_true]
          exact haborted

/-- **The loop finds** every transmission that the ledger resolves. -/
lemma known_foldl {ids : List TransmissionID} (hresolves : ∀ id ∈ ids, l.Resolves block id)
    (found : BlockTransmissions) :
    (∀ id ∈ ids, s.Known (ids.foldl
      (s.syncTransmission l block block.unconfirmedTransactions) found) id) ∧
    ∀ t, s.Known found t → s.Known (ids.foldl
      (s.syncTransmission l block block.unconfirmedTransactions) found) t := by
  induction ids generalizing found with
  | nil => exact ⟨fun _ h => absurd h List.not_mem_nil, fun _ h => h⟩
  | cons id ids ih =>
    rw [List.forall_mem_cons] at hresolves
    obtain ⟨hid, hkept⟩ := known_syncTransmission (s := s) found hresolves.1
    obtain ⟨hall, hkept'⟩ := ih hresolves.2
      (s.syncTransmission l block block.unconfirmedTransactions found id)
    exact ⟨List.forall_mem_cons.mpr ⟨hkept' id hid, hall⟩, fun t ht => hkept' t (hkept t ht)⟩

end Storage

/-! ### Bootup -/

section Bootup

variable {S V : Type} [StorageService S] [Network] [Ledger V] {U : Universe} {g : ℕ} {b : BFT S V}
  {l : CoreLedgerService V} {s : Storage S} {block : Block} {c d : BatchCertificate} {now : ℤ}

namespace CoreLedgerService

/-! #### Two services over one ledger -/

omit [Network] in
lemma blocks_of_eq {l l' : CoreLedgerService V} (h : l'.ledger = l.ledger) :
    l'.blocks = l.blocks := by
  rw [blocks, blocks, h]

omit [Network] in
lemma latestRound_of_eq {l l' : CoreLedgerService V} (h : l'.ledger = l.ledger) :
    l'.latestRound = l.latestRound := by
  rw [latestRound, latestRound, latestBlock, latestBlock, blocks_of_eq h]

lemma grows_of_eq {l l' : CoreLedgerService V} (h : l'.ledger = l.ledger) : l.Grows l' := by
  refine ⟨fun r committee hr => ?_, fun c hc => ?_⟩
  · unfold getCommitteeLookbackForRound getCommitteeForRound at hr ⊢
    rwa [h]
  · rwa [blocks_of_eq h]

end CoreLedgerService

/-- What the sync of a certificate finds of its transmissions. -/
abbrev Storage.found (l : CoreLedgerService V) (s : Storage S) (block : Block)
    (c : BatchCertificate) : Storage.BlockTransmissions :=
  c.transmissionIds.toList.foldl (s.syncTransmission l block block.unconfirmedTransactions) ⟨∅, ∅⟩

namespace BFT

omit [StorageService S] in
/-- The blocks up to that of a certificate have its previous certificates, when their round is not
collected. -/
lemma Whole.previous (horder : Primary.RoundsInOrder V) (h : b.Whole U g)
    (hledger : l.ledger = b.ledger.ledger) {k : ℕ} (hk : l.blocks[k]? = some block)
    (hc : c ∈ block.certificates) (habove : max l.latestRound 1 - g < c.round - 1)
    (hstored : ∀ p ∈ chainCertificates (l.blocks.take (k + 1)), p.round = c.round - 1 →
      s.certificates[p.id]? = some p) :
    ∃ committee previous,
      s.Previous l (c.round - 1) c.previousCertificateIds.toList committee previous := by
  have hblocks := CoreLedgerService.blocks_of_eq hledger
  have hlatest := CoreLedgerService.latestRound_of_eq hledger
  have hgc := h.gc
  have hin : c ∈ chainCertificates b.ledger.blocks :=
    List.mem_flatMap.mpr ⟨block, List.mem_of_getElem? (hblocks ▸ hk), hc⟩
  obtain ⟨committee, previous, hp⟩ := (h.checked (h.stored c hin (by omega))).previous (by omega)
  refine ⟨committee, previous, (CoreLedgerService.grows_of_eq hledger).committees _ _ hp.lookback,
    hp.ids, fun p hmem => ?_, hp.members, hp.distinct, hp.quorum⟩
  obtain ⟨hpstored, hpround⟩ := hp.stored p hmem
  refine ⟨hstored p ?_ hpround, hpround⟩
  have hid : p.id ∈ c.previousCertificateIds := by
    rw [IndexSet.mem_def, ← hp.ids]
    exact List.mem_map_of_mem hmem
  rcases h.linked.previous k block (hblocks ▸ hk) c hc p.id hid with ⟨q, hq, hqid⟩ | ⟨d, hd, hr⟩
  · have hqchain : q ∈ chainCertificates b.ledger.blocks := by
      obtain ⟨blk, hblk, hq⟩ := List.mem_flatMap.mp hq
      exact List.mem_flatMap.mpr ⟨blk, List.mem_of_mem_take hblk, hq⟩
    have hphas : U.Has p := h.within.storage hpstored
    rw [hphas.eq_of_id (h.chain q hqchain) hqid.symm, hblocks]
    exact hq
  · -- the round of the previous certificates would be collected
    have hle := horder b.ledger d hd
    omega

/-- **A certificate of a block is accepted again**, by a storage that has the certificates of the
lower rounds up to this block. -/
theorem Whole.acceptable (hS : StorageService.Restores S) (horder : Primary.RoundsInOrder V)
    (h : b.Whole U g) (hledger : l.ledger = b.ledger.ledger)
    (hgc : s.gcRound = max l.latestRound 1 - g)
    (hchain : ∀ d : BatchCertificate, s.certificates[d.id]? = some d →
      d ∈ chainCertificates l.blocks) {k : ℕ} (hk : l.blocks[k]? = some block)
    (hc : c ∈ block.certificates) (habove : s.gcRound < c.round)
    (hfresh : s.certificates[c.id]? = none)
    (hbefore : ∀ p ∈ chainCertificates (l.blocks.take (k + 1)), s.gcRound < p.round →
      p.round < c.round → s.certificates[p.id]? = some p)
    (htime : c.timestamp ≤ now + maxTimestampDeltaInSecs)
    (hresolves : ∀ t ∈ c.transmissionIds, l.Resolves block t) :
    s.Acceptable l now c (s.found l block c).missing (s.found l block c).aborted := by
  have hblocks := CoreLedgerService.blocks_of_eq hledger
  have hlatest := CoreLedgerService.latestRound_of_eq hledger
  have hold : b.storage.gcRound ≤ s.gcRound := by
    rw [hgc, hlatest]
    exact h.gc
  have hin : c ∈ chainCertificates l.blocks :=
    List.mem_flatMap.mpr ⟨block, List.mem_of_getElem? hk, hc⟩
  -- the node before has the certificate, and has checked it
  have hstored : ∀ d ∈ chainCertificates l.blocks, s.gcRound < d.round → b.Stored d :=
    fun d hd hr => h.stored d (hblocks ▸ hd) (hold.trans_lt hr)
  refine ⟨habove, hfresh, fun {d} hd hround hauthor => ?_, htime, ?_, ?_, fun hprevious => ?_⟩
  · have heq := h.tidy.indexed.unique (hstored c hin habove)
      (hstored d (hchain d hd) (hround ▸ habove)) hround.symm hauthor.symm
    rw [heq, hd] at hfresh
    cases hfresh
  · refine hS.finds _ _ _ _ fun t ht => ?_
    exact (Storage.known_foldl hresolves ⟨∅, ∅⟩).1 t ht
  · exact (h.checked (hstored c hin habove)).endorsed.mono (CoreLedgerService.grows_of_eq hledger)
  · exact h.previous horder hledger hk hc (hgc ▸ hprevious) fun p hp hround =>
      hbefore p hp (by omega) (by omega)

/-- A storage while the blocks are synced: it has the certificates with `D` above its GC round. -/
structure Restoring (g : ℕ) (l : CoreLedgerService V) (D : BatchCertificate → Prop)
    (s : Storage S) : Prop where
  tidy : s.Tidy
  maxGcRounds : s.maxGcRounds = g
  gcRound : s.gcRound = max l.latestRound 1 - g
  chain : ∀ d, D d → d ∈ chainCertificates l.blocks
  mem : ∀ d : BatchCertificate, s.certificates[d.id]? = some d ↔ D d ∧ s.gcRound < d.round

variable {D E : BatchCertificate → Prop}

omit [StorageService S] [Network] in
lemma Restoring.congr (h : Restoring g l D s) (hDE : ∀ d, D d ↔ E d) : Restoring g l E s where
  tidy := h.tidy
  maxGcRounds := h.maxGcRounds
  gcRound := h.gcRound
  chain d hd := h.chain d ((hDE d).mpr hd)
  mem d := by rw [h.mem, hDE]

/-- The clock is not behind the certificates in the blocks, and the ledger resolves their
transmissions. -/
structure Resolved (now : ℤ) (l : CoreLedgerService V) : Prop where
  inTime : ∀ c ∈ chainCertificates l.blocks, c.timestamp ≤ now + maxTimestampDeltaInSecs
  resolves : ∀ block ∈ l.blocks, ∀ c ∈ block.certificates, ∀ t ∈ c.transmissionIds,
    l.Resolves block t

/-- **A certificate of a block is synced.** -/
lemma Whole.syncCertificate (hS : StorageService.Restores S) (horder : Primary.RoundsInOrder V)
    (h : b.Whole U g) (hledger : l.ledger = b.ledger.ledger) (hl : Resolved now l)
    (hs : Restoring g l D s) {k : ℕ} (hk : l.blocks[k]? = some block) (hc : c ∈ block.certificates)
    (hbefore : ∀ p ∈ chainCertificates (l.blocks.take (k + 1)), s.gcRound < p.round →
      p.round < c.round → D p) :
    Restoring g l (fun d => D d ∨ d = c)
      (s.syncCertificateWithBlock l now block c block.unconfirmedTransactions) := by
  have hblock := List.mem_of_getElem? hk
  have hblocks := CoreLedgerService.blocks_of_eq hledger
  have hin : c ∈ chainCertificates l.blocks := List.mem_flatMap.mpr ⟨block, hblock, hc⟩
  have hchain : ∀ d, D d ∨ d = c → d ∈ chainCertificates l.blocks := by
    rintro d (hd | rfl)
    · exact hs.chain d hd
    · exact hin
  unfold Storage.syncCertificateWithBlock
  split
  · next hlow =>
    -- it is collected
    refine ⟨hs.tidy, hs.maxGcRounds, hs.gcRound, hchain, fun d => ?_⟩
    rw [hs.mem]
    refine and_congr_left fun hround => ⟨.inl, fun hd => hd.resolve_right ?_⟩
    rintro rfl
    omega
  next habove =>
  split
  · next hcontains =>
    -- it is there
    rw [Storage.containsCertificate, ExtTreeMap.contains_eq_isSome_getElem?] at hcontains
    obtain ⟨d, hd⟩ := Option.isSome_iff_exists.mp hcontains
    have hid : d.id = c.id := hs.tidy.indexed.keyed hd
    obtain ⟨hdone, -⟩ := (hs.mem d).mp (hid ▸ hd)
    have heq : d = c := (h.chain d (hblocks ▸ hs.chain d hdone)).eq_of_id
      (h.chain c (hblocks ▸ hin)) hid
    refine hs.congr fun e => ⟨.inl, fun he => he.elim id ?_⟩
    rintro rfl
    exact heq ▸ hdone
  next hfresh =>
  have hnone : s.certificates[c.id]? = none := by
    rw [Storage.containsCertificate, ExtTreeMap.contains_eq_isSome_getElem?] at hfresh
    simpa using hfresh
  have hacceptable := h.acceptable hS horder hledger hs.gcRound
    (fun d hd => hs.chain d ((hs.mem d).mp hd).1) hk hc (Nat.not_le.mp habove) hnone
    (fun p hp hgc hr => (hs.mem p).mpr ⟨hbefore p hp hgc hr, hgc⟩) (hl.inTime c hin)
    (hl.resolves block hblock c hc)
  obtain ⟨missing, -, hres⟩ := hacceptable.insertCertificate hs.tidy.indexed
  obtain ⟨htidy, -⟩ := hs.tidy.insertCertificate (m := 0) l now c (s.found l block c).missing
    (s.found l block c).aborted
  have hget := Storage.getElem?_insertCertificateAtomic hnone (s.found l block c).aborted missing
  rw [hres] at htidy
  dsimp only
  rw [hres]
  refine ⟨htidy, hs.maxGcRounds, hs.gcRound, hchain, fun d => (hget d.id d).trans ?_⟩
  rw [hs.mem]
  have habove' : s.gcRound < c.round := Nat.not_le.mp habove
  constructor
  · rintro (⟨hd, hround⟩ | ⟨-, rfl⟩)
    · exact ⟨.inl hd, hround⟩
    · exact ⟨.inr rfl, habove'⟩
  · rintro ⟨hd | rfl, hround⟩
    · exact .inl ⟨hd, hround⟩
    · exact .inr ⟨rfl, rfl⟩

/-- A certificate of the blocks at some heights. -/
def InBlocks (l : CoreLedgerService V) (first last : ℕ) (c : BatchCertificate) : Prop :=
  ∃ k block, first ≤ k ∧ k < last ∧ l.blocks[k]? = some block ∧ c ∈ block.certificates

/-- **A block is synced**, after those from `first` on: its certificates are in the order of
their rounds. -/
lemma Whole.syncBlock (hS : StorageService.Restores S) (horder : Primary.RoundsInOrder V)
    (h : b.Whole U g) (hledger : l.ledger = b.ledger.ledger) (hl : Resolved now l) {first k : ℕ}
    (hfirst : ∀ (j : ℕ) (blk : Block) (d : BatchCertificate), l.blocks[j]? = some blk →
      d ∈ blk.certificates → max l.latestRound 1 - g < d.round → first ≤ j)
    (hs : Restoring g l (InBlocks l first k) s) (hk : l.blocks[k]? = some block)
    (hle : first ≤ k) : Restoring g l (InBlocks l first (k + 1)) (s.syncBlock l now block) := by
  have hsorted : (block.certificates.map BatchCertificate.round).Pairwise (· ≤ ·) := by
    refine h.linked.sorted block ?_
    rw [← CoreLedgerService.blocks_of_eq hledger]
    exact List.mem_of_getElem? hk
  -- by induction on what is left of the block
  have hall : ∀ (post pre : List BatchCertificate) (s : Storage S),
      block.certificates = pre ++ post →
      Restoring g l (fun d => InBlocks l first k d ∨ d ∈ pre) s →
      Restoring g l (fun d => InBlocks l first k d ∨ d ∈ block.certificates)
        (post.foldl (fun s c =>
          s.syncCertificateWithBlock l now block c block.unconfirmedTransactions) s) := by
    intro post
    induction post with
    | nil =>
      intro pre s hsplit hs
      rw [List.append_nil] at hsplit
      rw [hsplit]
      exact hs
    | cons c post ih =>
      intro pre s hsplit hs
      refine ih (pre ++ [c]) _ (by rw [hsplit, List.append_assoc]; rfl) ?_
      refine (h.syncCertificate hS horder hledger hl hs hk (by rw [hsplit]; simp)
        fun p hp hgc hround => ?_).congr fun d => by simp [or_assoc]
      -- a certificate of a lower round is in a block before, or before in the block
      obtain ⟨blk, hblk, hp⟩ := List.mem_flatMap.mp hp
      obtain ⟨j, hj⟩ := List.mem_iff_getElem?.mp hblk
      rw [List.getElem?_take] at hj
      split at hj
      swap
      · cases hj
      next hlt =>
      have hlow := hfirst j blk p hj hp (hs.gcRound ▸ hgc)
      rcases Nat.lt_or_ge j k with hjk | hjk
      · exact .inl ⟨j, blk, hlow, hjk, hj, hp⟩
      · obtain rfl : j = k := by omega
        rw [hk] at hj
        cases hj
        right
        rw [hsplit, List.mem_append] at hp
        refine hp.resolve_right fun hp => ?_
        rw [hsplit, List.map_append, List.pairwise_append, List.map_cons, List.pairwise_cons]
          at hsorted
        rcases List.mem_cons.mp hp with rfl | hp
        · omega
        · have := hsorted.2.1.1 p.round (List.mem_map_of_mem hp)
          omega
  refine (hall block.certificates [] s rfl (hs.congr fun d => by simp)).congr fun d => ?_
  constructor
  · rintro (⟨j, blk, hlow, hjk, hj, hd⟩ | hd)
    · exact ⟨j, blk, hlow, by omega, hj, hd⟩
    · exact ⟨k, block, hle, by omega, hk, hd⟩
  · rintro ⟨j, blk, hlow, hjk, hj, hd⟩
    rcases Nat.lt_or_ge j k with hlt | hge
    · exact .inl ⟨j, blk, hlow, hlt, hj, hd⟩
    · obtain rfl : j = k := by omega
      rw [hk] at hj
      cases hj
      exact .inr hd

/-- **The blocks are synced** from `first` on. -/
theorem Whole.syncBlocks (hS : StorageService.Restores S) (horder : Primary.RoundsInOrder V)
    (h : b.Whole U g) (hledger : l.ledger = b.ledger.ledger) (hl : Resolved now l) {first : ℕ}
    (hfirst : ∀ (j : ℕ) (blk : Block) (d : BatchCertificate), l.blocks[j]? = some blk →
      d ∈ blk.certificates → max l.latestRound 1 - g < d.round → first ≤ j)
    (hs : Restoring g l (fun _ => False) s) :
    Restoring g l (· ∈ chainCertificates l.blocks)
      ((l.blocks.drop first).foldl (Storage.syncBlock l now) s) := by
  have hall : ∀ (blocks : List Block) (k : ℕ) (s : Storage S), first ≤ k →
      l.blocks.drop k = blocks → Restoring g l (InBlocks l first k) s →
      Restoring g l (InBlocks l first l.blocks.length)
        (blocks.foldl (Storage.syncBlock l now) s) := by
    intro blocks
    induction blocks with
    | nil =>
      intro k s hk hdrop hs
      rw [List.drop_eq_nil_iff] at hdrop
      refine hs.congr fun d => ?_
      constructor
      · rintro ⟨j, blk, hlow, -, hj, hd⟩
        exact ⟨j, blk, hlow, (List.getElem?_eq_some_iff.mp hj).1, hj, hd⟩
      · rintro ⟨j, blk, hlow, hlt, hj, hd⟩
        exact ⟨j, blk, hlow, by omega, hj, hd⟩
    | cons block blocks ih =>
      intro k s hk hdrop hs
      have hblock : l.blocks[k]? = some block := by
        rw [← List.head?_drop, hdrop]
        rfl
      refine ih (k + 1) _ (by omega) ?_ (h.syncBlock hS horder hledger hl hfirst hs hblock hk)
      rw [← List.tail_drop, hdrop]
      rfl
  have hdone := hall _ first s le_rfl rfl (hs.congr fun d => ⟨False.elim, fun ⟨_, _, h₁, h₂, _⟩ =>
    absurd h₁ (Nat.not_le.mpr h₂)⟩)
  refine ⟨hdone.tidy, hdone.maxGcRounds, hdone.gcRound, fun _ hd => hd, fun d => ?_⟩
  rw [hdone.mem]
  refine and_congr_left fun hround => ⟨fun ⟨k, blk, _, _, hk, hd⟩ =>
    List.mem_flatMap.mpr ⟨blk, List.mem_of_getElem? hk, hd⟩, fun hd => ?_⟩
  obtain ⟨blk, hblk, hd⟩ := List.mem_flatMap.mp hd
  obtain ⟨k, hk⟩ := List.mem_iff_getElem?.mp hblk
  exact ⟨k, blk, hfirst k blk d hk hd (hdone.gcRound ▸ hround),
    (List.getElem?_eq_some_iff.mp hk).1, hk, hd⟩

end BFT

/-! #### The transmissions -/

namespace Storage

omit [Network] [Ledger V] in
lemma transmissions_garbageCollectCertificates
    (h : ∀ (id : Field) (c : BatchCertificate), s.certificates[id]? ≠ some c) (n : ℕ) :
    (s.garbageCollectCertificates n).transmissions = s.transmissions := by
  refine (garbageCollectCertificates_induction (motive := fun t : Storage S =>
    (∀ (id : Field) (c : BatchCertificate), t.certificates[id]? ≠ some c) ∧
      t.transmissions = s.transmissions) ⟨h, rfl⟩ ?_ (fun _ _ h => h) n).2
  intro t id ht
  have hnone : t.getCertificate id = none := Option.eq_none_iff_forall_ne_some.mpr (ht.1 id)
  unfold removeCertificate
  rw [hnone]
  exact ht

omit [Network] [Ledger V] in
lemma transmissions_new (committee : Committee) (transmissions : S) (g : ℕ) :
    (Storage.new committee transmissions g).transmissions = transmissions := by
  unfold Storage.new
  exact transmissions_garbageCollectCertificates (by simp [updateCurrentRound]) _

lemma containsTransmission_syncBlocks (hS : StorageService.Restores S) (hs : s.Tidy)
    (blocks : List Block) {t : TransmissionID} (ht : s.containsTransmission t = true) :
    (blocks.foldl (syncBlock l now) s).containsTransmission t = true := by
  refine (List.foldlRecOn (motive := fun s : Storage S => s.Tidy ∧
    s.containsTransmission t = true) blocks _ ⟨hs, ht⟩ fun s hs block _ => ?_).2
  refine List.foldlRecOn (motive := fun s : Storage S => s.Tidy ∧
    s.containsTransmission t = true) block.certificates _ hs fun s ⟨hs, ht⟩ c _ => ?_
  unfold syncCertificateWithBlock
  split
  · exact ⟨hs, ht⟩
  split
  · exact ⟨hs, ht⟩
  dsimp only
  refine ⟨(hs.insertCertificate (m := 0) l now c _ _).1, ?_⟩
  rcases insertCertificate_cases l now hs.indexed c (s.found l block c).missing
    (s.found l block c).aborted with ⟨e, hx⟩ | ⟨missing, -, -, hx⟩ <;> rw [hx]
  · exact ht
  · exact hS.keeps _ _ _ _ _ _ ht

end Storage

/-! #### The node -/

namespace BFT

lemma whole_new (U : Universe) {g : ℕ} {l : CoreLedgerService V}
    (hl : chainCertificates l.blocks = []) (hzero : l.latestRound = 0) {committee : Committee}
    (hcommittee : committee.startingRound ≤ max l.latestRound 1) (account : Address)
    (transmissions : S) :
    (BFT.new account (Storage.new committee transmissions g) l).Whole U g := by
  obtain ⟨htidy, hnone, hgc, -, hmax⟩ := Storage.new_spec committee transmissions g
  have hempty : ∀ block ∈ l.blocks, block.certificates = [] := fun block hblock => by
    rw [List.eq_nil_iff_forall_not_mem]
    intro c hc
    have hmem : c ∈ chainCertificates l.blocks := List.mem_flatMap.mpr ⟨block, hblock, hc⟩
    rw [hl] at hmem
    cases hmem
  have hgraph : ∀ (r : ℕ) (a : Address), DAG.new.getCertificateForRoundWithAuthor r a = none := by
    simp [DAG.getCertificateForRoundWithAuthor, DAG.new]
  refine ⟨⟨hmax, ⟨DAG.wellFormed_new, fun hc => ?_, fun hc => absurd hc (hnone _ _)⟩,
    fun c hc => ?_, fun c hc => ?_, fun hc => ?_, fun r id hid => ?_, ⟨fun k block hk c hc => ?_,
    fun block hblock => ?_⟩⟩, htidy, fun hc => absurd hc (hnone _ _), ?_, fun _ h => by cases h⟩
  · exact absurd hc (by simp [BFT.new, hgraph])
  · exact absurd hc (by simp [BFT.new, hl])
  · exact absurd hc (by simp [BFT.new, hl])
  · exact absurd hc (by simp [BFT.new, hgraph])
  · simp [BFT.new, DAG.isRecentlyCommitted, DAG.new] at hid
  · rw [hempty block (List.mem_of_getElem? hk)] at hc
    cases hc
  · rw [hempty block hblock]
    exact .nil
  · change (Storage.new committee transmissions g).gcRound ≤ max l.latestRound 1 - g
    rw [hgc]
    omega

/-- **Bootup** restores the certificates in the blocks that are above the GC round. -/
theorem Whole.bootup (hV : ChainInOrder V) (hS : StorageService.Restores S) (h : b.Whole U g)
    (hledger : l.ledger = b.ledger.ledger) (hl : Resolved now l) (hg : g < 2 ^ 32)
    {committee : Committee} (hcommittee : l.currentCommittee = .ok committee) (account : Address)
    (transmissions : S) :
    ∃ s, (BFT.new account (Storage.new committee transmissions g) l).bootup now
        = .ok ((BFT.new account s l).syncBftDagAtBootup
          (chainCertificates (l.blocks.drop (l.latestBlockHeight - g / 2)))) ∧
      Restoring g l (· ∈ chainCertificates l.blocks) s ∧ max l.latestRound 1 ≤ s.currentRound ∧
      ∀ t, StorageService.containsTransmission transmissions t = true →
        s.containsTransmission t = true := by
  obtain ⟨htidy, hnone, hgc, hround, hmax⟩ := Storage.new_spec committee transmissions g
  have hstarting := hV.committee l committee hcommittee
  have hheight := hV.height l
  have hblocks : (l.blocks.drop (l.latestBlockHeight - g / 2)).take
      (l.latestBlockHeight + 1 - (l.latestBlockHeight - g / 2))
        = l.blocks.drop (l.latestBlockHeight - g / 2) := by
    refine List.take_of_length_le ?_
    rw [List.length_drop]
    omega
  have hsync : ∃ s, (Storage.new committee transmissions g).syncStorageWithLedgerAtBootup l now
      = .ok (s, chainCertificates (l.blocks.drop (l.latestBlockHeight - g / 2))) ∧
      Restoring g l (· ∈ chainCertificates l.blocks) s ∧
      ∀ t, StorageService.containsTransmission transmissions t = true →
        s.containsTransmission t = true := by
    unfold Storage.syncStorageWithLedgerAtBootup
    rw [hmax, if_neg (by omega)]
    dsimp only
    rw [Storage.getBlocks_eq hheight.le, hblocks]
    refine ⟨_, rfl, ?_⟩
    have htransmissions := Storage.transmissions_new committee transmissions g
    generalize Storage.new committee transmissions g = s₀ at htidy hnone hgc hmax htransmissions ⊢
    -- the height and the round
    have hheight' : Storage.SameCertificates s₀ (s₀.syncHeightWithBlock l.latestBlockHeight) ∧
        (s₀.syncHeightWithBlock l.latestBlockHeight).maxGcRounds = s₀.maxGcRounds ∧
        (s₀.syncHeightWithBlock l.latestBlockHeight).transmissions = s₀.transmissions := by
      unfold Storage.syncHeightWithBlock
      split <;> exact ⟨⟨rfl, rfl, rfl, rfl⟩, rfl, rfl⟩
    generalize s₀.syncHeightWithBlock l.latestBlockHeight = s₁ at hheight' ⊢
    have hround' : Storage.SameCertificates s₁ (s₁.syncRoundWithBlock l.latestRound) ∧
        (s₁.syncRoundWithBlock l.latestRound).maxGcRounds = s₁.maxGcRounds ∧
        (s₁.syncRoundWithBlock l.latestRound).transmissions = s₁.transmissions := by
      unfold Storage.syncRoundWithBlock Storage.updateCurrentRound
      dsimp only
      split <;> exact ⟨⟨rfl, rfl, rfl, rfl⟩, rfl, rfl⟩
    generalize s₁.syncRoundWithBlock l.latestRound = s₂ at hround' ⊢
    obtain ⟨hsame₁, hmax₁, htransmissions₁⟩ := hheight'
    obtain ⟨hsame₂, hmax₂, htransmissions₂⟩ := hround'
    have htidy₂ := hsame₂.tidy (hsame₁.tidy htidy)
    have hnone₂ : ∀ (id : Field) (c : BatchCertificate), s₂.certificates[id]? ≠ some c := by
      rw [hsame₂.2.1, hsame₁.2.1]
      exact hnone
    -- nothing is collected, and the blocks are synced
    obtain ⟨-, hgc₃, hmem₃⟩ := Storage.garbageCollectCertificates_spec htidy₂.indexed htidy₂.above
      l.latestRound
    obtain ⟨htidy₃, honward₃⟩ := htidy₂.garbageCollectCertificates (X := fun _ => False)
      l.latestRound
    have hmax₃ : s₂.maxGcRounds = g := hmax₂.trans (hmax₁.trans hmax)
    have hgc₂ : s₂.gcRound = s₀.gcRound := hsame₂.2.2.2.trans hsame₁.2.2.2
    have hblank : Restoring g l (fun _ => False) (s₂.garbageCollectCertificates l.latestRound) := by
      refine ⟨htidy₃, honward₃.maxGcRounds.trans hmax₃, ?_, fun _ h => h.elim, fun d => ?_⟩
      · rw [hgc₃, hmax₃, hgc₂, hgc]
        omega
      · rw [hmem₃]
        exact ⟨fun h => absurd h.1 (hnone₂ _ _), fun h => h.1.elim⟩
    refine ⟨h.syncBlocks hS hV.roundsInOrder hledger hl (fun j blk d hj hd habove =>
      hV.le_of_above l hj hd ((Nat.sub_le_sub_right (le_max_left _ _) g).trans_lt habove)) hblank,
      fun t ht => ?_⟩
    refine Storage.containsTransmission_syncBlocks hS htidy₃ _ ?_
    rw [Storage.containsTransmission, Storage.transmissions_garbageCollectCertificates hnone₂,
      htransmissions₂, htransmissions₁, htransmissions]
    exact ht
  obtain ⟨s, hsync, hrestoring, hcontains⟩ := hsync
  obtain ⟨-, -, hlatest, -⟩ := htidy.bootup hsync
  refine ⟨s, ?_, hrestoring, hlatest, hcontains⟩
  unfold BFT.bootup
  dsimp only [BFT.new]
  rw [hsync]

omit [StorageService S] in
/-- **After bootup** the node is whole, and has the last committed round of its chain. -/
theorem Whole.booted (hV : ChainInOrder V) (h : b.Whole U g) (hledger : l.ledger = b.ledger.ledger)
    (hs : Restoring g l (· ∈ chainCertificates l.blocks) s) (account : Address) :
    ((BFT.new account s l).syncBftDagAtBootup
      (chainCertificates (l.blocks.drop (l.latestBlockHeight - g / 2)))).Whole U g ∧
    ((BFT.new account s l).syncBftDagAtBootup (chainCertificates
      (l.blocks.drop (l.latestBlockHeight - g / 2)))).dag.lastCommittedRound = l.latestRound ∧
    ∀ (r : ℕ) (a : Address), ((BFT.new account s l).syncBftDagAtBootup (chainCertificates
      (l.blocks.drop (l.latestBlockHeight - g / 2)))).dag.getCertificateForRoundWithAuthor r a
        = none := by
  have hblocks := CoreLedgerService.blocks_of_eq hledger
  have hlatest := CoreLedgerService.latestRound_of_eq hledger
  set cs := chainCertificates (l.blocks.drop (l.latestBlockHeight - g / 2)) with hcs
  have hsub : ∀ c ∈ cs, c ∈ chainCertificates l.blocks := by
    intro c hc
    obtain ⟨blk, hblk, hc⟩ := List.mem_flatMap.mp hc
    exact List.mem_flatMap.mpr ⟨blk, List.mem_of_mem_drop hblk, hc⟩
  have hnone : ∀ (r : ℕ) (a : Address), ((BFT.new account s l).syncBftDagAtBootup
      cs).dag.getCertificateForRoundWithAuthor r a = none := by
    intro r a
    rw [Option.eq_none_iff_forall_ne_some]
    intro c hc
    have hc' := DAG.getCertificateForRoundWithAuthor_of_commitAll hc
    simp [DAG.getCertificateForRoundWithAuthor, BFT.new, DAG.new] at hc'
  refine ⟨⟨⟨hs.maxGcRounds, ⟨DAG.wellFormed_new.commitAll _ _, fun hc => ?_, fun {id c} hc => ?_⟩,
    fun c hc => ?_, fun c hc hgc => ?_, fun hc => ?_, fun r id hid => ?_, ⟨fun k blk hk => ?_,
    fun blk hblk => ?_⟩⟩, hs.tidy, fun {c} hc => ?_, hs.gcRound.le, fun _ h => by cases h⟩, ?_,
    hnone⟩
  · rw [hnone] at hc
    cases hc
  · obtain rfl := hs.tidy.indexed.keyed hc
    exact h.chain c (hblocks ▸ ((hs.mem c).mp hc).1)
  · exact h.chain c (hblocks ▸ hc)
  · exact (hs.mem c).mpr ⟨hc, hgc⟩
  · rw [hnone] at hc
    cases hc
  · rcases recent_commitAll hid with hid | ⟨c, hc, rfl⟩
    · simp [BFT.new, DAG.isRecentlyCommitted, DAG.new] at hid
    · exact ⟨c, hsub c hc, rfl⟩
  · have hlinked := h.linked.previous k blk (hblocks ▸ hk)
    rwa [← hblocks] at hlinked
  · exact h.linked.sorted blk (hblocks ▸ hblk)
  · obtain ⟨hin, habove⟩ := (hs.mem c).mp hc
    have hstored : b.Stored c := h.stored c (hblocks ▸ hin) (by
      have hgc := h.gc
      rw [hs.gcRound, hlatest] at habove
      omega)
    refine ⟨(h.checked hstored).endorsed.mono (CoreLedgerService.grows_of_eq hledger),
      fun hprevious => ?_⟩
    obtain ⟨block, hblock, hcblock⟩ := List.mem_flatMap.mp hin
    obtain ⟨k, hk⟩ := List.mem_iff_getElem?.mp hblock
    have hprevious' : s.gcRound < c.round - 1 := hprevious
    refine h.previous hV.roundsInOrder hledger hk hcblock (hs.gcRound ▸ hprevious')
      fun p hp hround => (hs.mem p).mpr ⟨?_, by omega⟩
    obtain ⟨blk, hblk, hp⟩ := List.mem_flatMap.mp hp
    exact List.mem_flatMap.mpr ⟨blk, List.mem_of_mem_take hblk, hp⟩
  · -- the last round is that of the last block
    refine Nat.le_antisymm (DAG.lastCommittedRound_commitAll_le (Nat.zero_le _) fun c hc =>
      hV.roundsInOrder l c (hsub c hc)) ?_
    obtain ⟨block, hblock, hround⟩ := hV.latest l
    rcases hV.anchor l block (List.mem_of_getElem? hblock) with hzero | ⟨c, hc, hcround⟩
    · omega
    · rw [← hround, ← hcround]
      refine DAG.round_le_lastCommittedRound_commitAll ?_
      refine List.mem_flatMap.mpr ⟨block, List.mem_of_getElem?
        (i := l.latestBlockHeight - (l.latestBlockHeight - g / 2)) ?_, hc⟩
      rw [List.getElem?_drop, ← hblock]
      congr 1
      omega

end BFT

end Bootup

end AmareleoChain
