import AmareleoChain.Restored
import AmareleoChain.ReferenceCounts

/-!
No orphaned transmissions after a restart.

The maps of the persistent service survive a restart, and the certificates of the storage are
restored from the blocks and from the proposal cache. What the maps list for a certificate that is
restored is released with it. What they list for another one stays.
-/

namespace AmareleoChain

open Std

/-- A map lists a certificate ID at a transmission ID. -/
def BFTMemoryService.Lists (s : BFTMemoryService) (t : TransmissionID) (id : Field) : Prop :=
  (∃ e, s.transmissions.get? t = some e ∧ id ∈ e.2) ∨
    ∃ ids, s.abortedTransmissionIds.get? t = some ids ∧ id ∈ ids

lemma BFTMemoryService.ListsOnly.lists {s : BFTMemoryService} {X : TransmissionID → Field → Prop}
    (h : s.ListsOnly X) : s.ListsOnly s.Lists where
  transmissions t e he := ⟨(h.transmissions t e he).1, fun _ hid => .inl ⟨e, he, hid⟩⟩
  aborted t ids hids := ⟨(h.aborted t ids hids).1, fun _ hid => .inr ⟨ids, hids, hid⟩⟩

namespace BFTPersistentStorage

lemma listsOnly_new (m n : ℕ) (X : TransmissionID → Field → Prop) :
    (new m n).toMemory.ListsOnly X :=
  ⟨fun _ _ h => (by cases h), fun _ _ h => (by cases h)⟩

end BFTPersistentStorage

/-! ### The storage -/

namespace Storage

variable {V : Type} {s t : Storage BFTPersistentStorage} {c : BatchCertificate}
  {X Y : TransmissionID → Field → Prop}

/-- A stored certificate with the ID lists the transmission. -/
def Declares (s : Storage BFTPersistentStorage) (t : TransmissionID) (id : Field) : Prop :=
  ∃ c, s.certificates[id]? = some c ∧ t ∈ c.transmissionIds

/-- The maps list what the stored certificates declare, and beyond this only what `X` relates. -/
structure Referred (X : TransmissionID → Field → Prop) (s : Storage BFTPersistentStorage) :
    Prop where
  indexed : s.Indexed
  listed : s.transmissions.toMemory.ListsOnly fun t id => s.Declares t id ∨ X t id

lemma Referred.imp (h : s.Referred X)
    (hXY : ∀ t id, X t id → s.Declares t id ∨ Y t id) : s.Referred Y :=
  ⟨h.indexed, h.listed.mono fun t id hx => hx.elim .inl (hXY t id)⟩

/-- **What is contained** is declared by a stored certificate, when `X` relates nothing. -/
lemma Referred.exists (h : s.Referred fun _ _ => False) {i : TransmissionID}
    (hi : s.containsTransmission i = true) :
    ∃ c : BatchCertificate, s.certificates[c.id]? = some c ∧ i ∈ c.transmissionIds := by
  obtain ⟨id, ⟨c, hc, hin⟩ | hfalse⟩ := h.listed.exists (t := i) hi
  · refine ⟨c, ?_, hin⟩
    rwa [h.indexed.keyed hc]
  · exact hfalse.elim

lemma Referred.same (h : s.Referred X) (hsame : SameCertificates s t)
    (htransmissions : t.transmissions = s.transmissions) : t.Referred X := by
  refine ⟨hsame.indexed h.indexed, ?_⟩
  rw [htransmissions]
  refine h.listed.mono fun i id hx => hx.imp_left fun ⟨c, hc, hin⟩ => ⟨c, ?_, hin⟩
  rwa [hsame.2.1]

/-- **A certificate is removed**, with what the maps list for it. -/
lemma Referred.removeCertificate (h : s.Referred X) (id : Field) :
    (s.removeCertificate id).Referred X := by
  refine ⟨indexed_removeCertificate h.indexed id, ?_⟩
  cases hget : s.getCertificate id with
  | none =>
    have hsame : s.removeCertificate id = s := by
      unfold Storage.removeCertificate
      rw [hget]
    rw [hsame]
    exact h.listed
  | some c =>
    have htransmissions : (s.removeCertificate id).transmissions.toMemory
        = s.transmissions.toMemory.removeTransmissions id c.transmissionIds := by
      rw [← BFTPersistentStorage.toMemory_removeTransmissions]
      unfold Storage.removeCertificate
      rw [hget]
      rfl
    rw [htransmissions]
    refine (h.listed.removeTransmissions id c.transmissionIds).mono fun i j ⟨hij, hne⟩ => ?_
    refine hij.imp_left fun ⟨d, hd, hin⟩ => ⟨d, getElem?_removeCertificate.mpr ⟨hd, ?_⟩, hin⟩
    rintro rfl
    cases hd.symm.trans hget
    exact hne hin rfl

/-- **Certificates are collected.** -/
lemma Referred.garbageCollectCertificates (h : s.Referred X) (nextRound : ℕ) :
    (s.garbageCollectCertificates nextRound).Referred X :=
  garbageCollectCertificates_induction (motive := fun s => s.Referred X) h
    (fun _ id h => h.removeCertificate id)
    (fun _ _ h => ⟨⟨h.indexed.keyed, h.indexed.batchIds, h.indexed.nonempty, h.indexed.entries,
      h.indexed.unique⟩, h.listed⟩) nextRound

variable [Network] [Ledger V]

/-- **A certificate is inserted**, with the transmissions that it declares. -/
lemma Referred.insertCertificate (h : s.Referred X) (l : CoreLedgerService V) (now : ℤ)
    (c : BatchCertificate) (transmissions : IndexMap TransmissionID Transmission)
    {aborted : IndexSet TransmissionID} (haborted : ∀ i ∈ aborted, i ∈ c.transmissionIds) :
    (s.insertCertificate l now c transmissions aborted).2.Referred X := by
  rcases insertCertificate_cases l now h.indexed c transmissions aborted with
    ⟨e, hres⟩ | ⟨missing, haccepts, -, hres⟩ <;> rw [hres]
  · exact h
  have hget := getElem?_insertCertificateAtomic haccepts.fresh aborted missing
  refine ⟨indexed_insertCertificateAtomic h.indexed haccepts, ?_⟩
  have hnew : ∀ i ∈ c.transmissionIds,
      (s.insertCertificateAtomic c aborted missing).Declares i c.id := fun i hi =>
    ⟨c, (hget c.id c).mpr (.inr ⟨rfl, rfl⟩), hi⟩
  have htransmissions : (s.insertCertificateAtomic c aborted missing).transmissions.toMemory
      = s.transmissions.toMemory.insertTransmissions c.id c.transmissionIds aborted missing :=
    BFTPersistentStorage.toMemory_insertTransmissions _ _ _ _ _
  rw [htransmissions]
  refine h.listed.insertTransmissions (fun i id hx => hx.imp_left fun ⟨d, hd, hin⟩ => ?_)
    (fun i hi => .inl (hnew i hi)) fun i hi => .inl (hnew i (haborted i hi))
  exact ⟨d, (hget id d).mpr (.inl hd), hin⟩

omit [Network] in
/-- **The round is incremented.** -/
lemma Referred.incrementToNextRound (h : s.Referred X) (l : CoreLedgerService V) (round : ℕ) :
    (s.incrementToNextRound l round).2.Referred X := by
  obtain ⟨currentRound, -, hres⟩ := incrementToNextRound_keeps l s round
  rw [hres]
  exact h.same ⟨rfl, rfl, rfl, rfl⟩ rfl

/-! #### Bootup -/

omit [Network] in
lemma aborted_syncTransmission (l : CoreLedgerService V) (s : Storage BFTPersistentStorage)
    (block : Block) (unconfirmed : TransactionID → Option Transaction)
    (ids : List TransmissionID) (found : BlockTransmissions) :
    ∀ i ∈ (ids.foldl (s.syncTransmission l block unconfirmed) found).aborted,
      i ∈ found.aborted ∨ i ∈ ids := by
  induction ids generalizing found with
  | nil => exact fun i hi => .inl hi
  | cons id ids ih =>
    rw [List.foldl_cons]
    intro i hi
    rcases ih _ i hi with hi | hi
    swap
    · exact .inr (List.mem_cons_of_mem _ hi)
    -- one turn adds the ID to the aborted ones, or none
    have hone : (s.syncTransmission l block unconfirmed found id).aborted = found.aborted ∨
        (s.syncTransmission l block unconfirmed found id).aborted = found.aborted.insert id := by
      unfold syncTransmission
      dsimp only
      repeat' split
      all_goals first | exact .inl rfl | exact .inr rfl
    rcases hone with hone | hone <;> rw [hone] at hi
    · exact .inl hi
    · rcases IndexSet.mem_insert.mp hi with hi | rfl
      · exact .inl hi
      · exact .inr List.mem_cons_self

/-- **A certificate of a block is synced.** -/
lemma Referred.syncCertificateWithBlock (h : s.Referred X) (l : CoreLedgerService V) (now : ℤ)
    (block : Block) (c : BatchCertificate) (unconfirmed : TransactionID → Option Transaction) :
    (s.syncCertificateWithBlock l now block c unconfirmed).Referred X := by
  unfold Storage.syncCertificateWithBlock
  split
  · exact h
  split
  · exact h
  refine h.insertCertificate l now c _ fun i hi => ?_
  rcases aborted_syncTransmission l s block unconfirmed _ ⟨∅, ∅⟩ i hi with hi | hi
  · exact absurd hi (IndexSet.not_mem_empty i)
  · exact hi

/-- **The storage is synced with the ledger.** -/
lemma Referred.bootup {l : CoreLedgerService V} {now : ℤ} {cs : List BatchCertificate}
    (h : s.Referred X) (hboot : s.syncStorageWithLedgerAtBootup l now = .ok (t, cs)) :
    t.Referred X := by
  unfold syncStorageWithLedgerAtBootup at hboot
  split at hboot
  · cases hboot
  dsimp only at hboot
  split at hboot
  · cases hboot
  next blocks hblocks =>
  cases hboot
  have hheight : (s.syncHeightWithBlock l.latestBlockHeight).Referred X := by
    unfold syncHeightWithBlock
    split
    · exact h.same ⟨rfl, rfl, rfl, rfl⟩ rfl
    · exact h
  have hround : ((s.syncHeightWithBlock l.latestBlockHeight).syncRoundWithBlock
      l.latestRound).Referred X := by
    unfold syncRoundWithBlock updateCurrentRound
    dsimp only
    split
    · exact hheight.same ⟨rfl, rfl, rfl, rfl⟩ rfl
    · exact hheight
  refine List.foldlRecOn (motive := fun s => Referred X s) blocks _
    (hround.garbageCollectCertificates l.latestRound) fun s hs block _ => ?_
  exact List.foldlRecOn (motive := fun s => Referred X s) block.certificates _ hs
    fun s hs c _ => hs.syncCertificateWithBlock l now block c _

omit [Network] in
lemma referred_new {transmissions : BFTPersistentStorage}
    (h : transmissions.toMemory.ListsOnly X) (committee : Committee) (g : ℕ) :
    (Storage.new committee transmissions g).Referred X := by
  refine ⟨(new_spec committee transmissions g).1.indexed, ?_⟩
  rw [transmissions_new]
  exact h.mono fun _ _ => .inr

end Storage

/-! ### The primary -/

section

variable {V : Type} [Ledger V] [Network] {X : TransmissionID → Field → Prop}

/-- **A step of the primary** on its BFT. -/
lemma BFT.Step.referred {G : BFT BFTPersistentStorage V → BatchCertificate → Prop}
    {b b' : BFT BFTPersistentStorage V} (hstep : BFT.Step G b b') (h : b.storage.Referred X) :
    b'.storage.Referred X := by
  cases hstep with
  | insertCertificate now c transmissions =>
    exact h.insertCertificate b.ledger now c transmissions
      fun i hi => absurd hi (IndexSet.not_mem_empty i)
  | incrementToNextRound round => exact h.incrementToNextRound b.ledger round
  | updateToNextRound now round =>
    obtain ⟨x, leader, timer, storage, rfl | rfl, hres⟩ := b.updateToNextRound_keeps now round
    · rw [hres]
      exact h
    · rw [hres]
      exact h.incrementToNextRound b.ledger round
  | updateDag c =>
    obtain ⟨dag, ledger, committed, storage, rfl | ⟨round, rfl⟩, hres⟩ :=
      b.updateDag_keeps true false c
    · rw [hres]
      exact h
    · rw [hres]
      exact h.garbageCollectCertificates round

end

namespace Primary

variable {V : Type} [Ledger V] [Network] {X : TransmissionID → Field → Prop}
  {p q : Primary BFTPersistentStorage V} {env : LoadEnv} {c : BatchCertificate}

/-- **Whatever the primary does.** -/
lemma Moves.referred (h : p.Moves q) (hp : p.storage.Referred X) : q.storage.Referred X := by
  unfold Moves at h
  unfold storage at hp ⊢
  generalize q.bft = b at h ⊢
  induction h with
  | refl => exact hp
  | tail _ hstep ih => exact hstep.referred ih

/-! #### The loading of the cache -/

/-- The loading of a certificate is neither skipped, as one at or below the GC round or one that is
stored already, nor refused. -/
structure Admits (env : LoadEnv) (c : BatchCertificate) (p : Primary BFTPersistentStorage V) :
    Prop where
  above : p.storage.gcRound < c.round
  fresh : p.storage.containsCertificate c.id = false
  inserts : ∃ missing q, p.syncWithBatchHeaderFromPeer env c.batchHeader = (.ok missing, q) ∧
    q.storage.containsCertificate c.id = false ∧
    (q.insertCertificate env.receipt c missing).1 = .ok ()

instance (env : LoadEnv) (c : BatchCertificate) (p : Primary BFTPersistentStorage V) :
    Decidable (Admits env c p) :=
  decidable_of_iff (p.storage.gcRound < c.round ∧ p.storage.containsCertificate c.id = false ∧
      (match p.syncWithBatchHeaderFromPeer env c.batchHeader with
      | (.ok missing, q) => !q.storage.containsCertificate c.id &&
          decide ((q.insertCertificate env.receipt c missing).1 = .ok ())
      | (.error _, _) => false) = true) <| by
    constructor
    · rintro ⟨habove, hfresh, hinserts⟩
      refine ⟨habove, hfresh, ?_⟩
      split at hinserts
      · next missing q hq =>
        rw [Bool.and_eq_true, Bool.not_eq_true', decide_eq_true_eq] at hinserts
        exact ⟨missing, q, hq, hinserts⟩
      · cases hinserts
    · rintro ⟨habove, hfresh, missing, q, hq, hinserts⟩
      refine ⟨habove, hfresh, ?_⟩
      rw [hq, Bool.and_eq_true, Bool.not_eq_true', decide_eq_true_eq]
      exact hinserts

lemma stored_of_insertCertificate (h : p.storage.Indexed) {env : Receipt}
    {transmissions : IndexMap TransmissionID Transmission}
    (hok : p.insertCertificate env c transmissions = (.ok (), q)) :
    q.storage.certificates[c.id]? = some c := by
  unfold insertCertificate at hok
  cases henv : env.inserted with
  | stopped stop effect =>
    rw [henv] at hok
    cases effect <;> cases hok
  | done =>
    rw [henv] at hok
    dsimp only [Await.run] at hok
    rcases Storage.insertCertificate_cases p.ledger env.insertedAt h c transmissions ∅ with
      ⟨e, hres⟩ | ⟨missing, haccepts, -, hres⟩ <;> rw [hres] at hok <;> cases hok
    exact (Storage.getElem?_insertCertificateAtomic haccepts.fresh ∅ missing c.id c).mpr
      (.inr ⟨rfl, rfl⟩)

/-- **A certificate is loaded.** What the maps list for it is released with it from now on. -/
lemma referred_syncWithCertificateFromPeer (h : p.storage.Referred X) (env : LoadEnv)
    (c : BatchCertificate) :
    (p.syncWithCertificateFromPeer env c).2.storage.Referred fun i id =>
      X i id ∧ ¬ (Admits env c p ∧ c.id = id ∧ i ∈ c.transmissionIds) := by
  by_cases hadmits : Admits env c p
  swap
  · have hmoves : p.Moves (p.syncWithCertificateFromPeer env c).2 :=
      moves_walk.syncWithCertificateFromPeer env.meets_any trivial p
    exact (hmoves.referred h).imp fun i id hx => .inr ⟨hx, fun hnot => hadmits hnot.1⟩
  obtain ⟨missing, q, hsynced, hfresh, hok⟩ := hadmits.inserts
  have hq : q.storage.Referred X := by
    have hmoves : p.Moves (p.syncWithBatchHeaderFromPeer env c.batchHeader).2 :=
      moves_walk.syncWithBatchHeaderFromPeer env.meets_any c.batchHeader p
    rw [hsynced] at hmoves
    exact hmoves.referred h
  obtain ⟨r, hr⟩ : ∃ r, q.insertCertificate env.receipt c missing = (.ok (), r) :=
    ⟨_, Prod.ext hok rfl⟩
  have hstored := stored_of_insertCertificate hq.indexed hr
  have hreferred : r.storage.Referred X := by
    have hmoves := moves_insertCertificate env.receipt c missing q
    rw [hr] at hmoves
    exact hmoves.referred hq
  have habove := hadmits.above
  unfold Primary.syncWithCertificateFromPeer
  rw [if_neg (by omega), if_neg (by simp [hadmits.fresh]), hsynced]
  dsimp only [andThen]
  rw [if_neg (by simp [hfresh]), hr]
  dsimp only
  refine (moves_updateBft env.receipt c r).referred (hreferred.imp fun i id hx => ?_)
  by_cases hin : c.id = id ∧ i ∈ c.transmissionIds
  · exact .inl ⟨c, hin.1 ▸ hstored, hin.2⟩
  · exact .inr ⟨hx, fun hnot => hin hnot.2⟩

/-- The loading gets to a certificate, and admits it. -/
def Loads (envs : ℕ → LoadEnv) (i : ℕ) (cs : List BatchCertificate)
    (p : Primary BFTPersistentStorage V) (c : BatchCertificate) : Prop :=
  ∃ pre post q, cs = pre ++ c :: post ∧ p.loadCertificates envs i pre = (.ok (), q) ∧
    Admits (envs (i + pre.length)) c q

/-- A loading that succeeds goes on after each certificate, also where it failed. -/
lemma loadCertificates_cons {envs : ℕ → LoadEnv} {i : ℕ} {d : BatchCertificate}
    {cs : List BatchCertificate} (hok : p.loadCertificates envs i (d :: cs) = (.ok (), q)) :
    ∃ r, (p.syncWithCertificateFromPeer (envs i) d).2 = r ∧ ∀ rest,
      p.loadCertificates envs i (d :: rest) = r.loadCertificates envs (i + 1) rest := by
  simp only [loadCertificates] at hok ⊢
  rcases hsync : p.syncWithCertificateFromPeer (envs i) d with ⟨(_ | _ | _) | ⟨⟩, r⟩ <;>
    simp only [hsync] at hok ⊢
  · exact ⟨r, rfl, fun _ => rfl⟩
  · cases hok
  · cases hok
  · exact ⟨r, rfl, fun _ => rfl⟩

/-- **The cached certificates are loaded.** -/
theorem referred_loadCertificates {envs : ℕ → LoadEnv} {i : ℕ} {cs : List BatchCertificate}
    (h : p.storage.Referred X) (hok : p.loadCertificates envs i cs = (.ok (), q)) :
    q.storage.Referred fun t id =>
      X t id ∧ ¬ ∃ c, Loads envs i cs p c ∧ c.id = id ∧ t ∈ c.transmissionIds := by
  induction cs generalizing i p X with
  | nil =>
    cases hok
    refine h.imp fun t id hx => .inr ⟨hx, ?_⟩
    rintro ⟨c, ⟨pre, post, q, hnil, -⟩, -⟩
    cases pre <;> cases hnil
  | cons d cs ih =>
    have hone := referred_syncWithCertificateFromPeer h (envs i) d
    obtain ⟨r, hr, hgoes⟩ := loadCertificates_cons hok
    rw [hgoes] at hok
    rw [hr] at hone
    refine (ih hone hok).imp fun t id ⟨⟨hx, hnot⟩, hrest⟩ => .inr ⟨hx, ?_⟩
    rintro ⟨c, ⟨pre, post, q', hsplit, hpre, hadmits⟩, hc⟩
    cases pre with
    | nil =>
      cases hsplit
      cases hpre
      exact hnot ⟨hadmits, hc⟩
    | cons e pre =>
      cases hsplit
      rw [hgoes] at hpre
      refine hrest ⟨c, ⟨pre, post, q', rfl, hpre, ?_⟩, hc⟩
      rwa [List.length_cons, Nat.add_comm pre.length, ← Nat.add_assoc] at hadmits

/-! ### Lives over the transmissions on a disk -/

/-- A node that keeps its state, and the proposal cache on its disk. It first starts over empty
maps, and then over those that it left. -/
inductive KeptLife (E : Surroundings V) :
    Option ProposalCache → Primary BFTPersistentStorage V → Prop
  | start {account : Address} {m n : ℕ} {l : CoreLedgerService V} {r : Except Stop Unit}
      {p : Primary BFTPersistentStorage V} :
      Starts E account (.new m n) l none r p → KeptLife E none p
  | propose {cache : Option ProposalCache} {p : Primary BFTPersistentStorage V}
      (env : ProposeEnv) : KeptLife E cache p → E.propose env →
      KeptLife E cache (p.proposeTask env)
  | increment {cache : Option ProposalCache} {p : Primary BFTPersistentStorage V}
      (env : IncrementEnv) : KeptLife E cache p → E.increment env →
      KeptLife E cache (p.incrementTask env)
  /-- The worker gets transmissions, or drops some. -/
  | submit {cache : Option ProposalCache} {p : Primary BFTPersistentStorage V} (ready : Ready) :
      KeptLife E cache p → KeptLife E cache { p with ready }
  /-- The shutdown flag is raised. -/
  | flag {cache : Option ProposalCache} {p : Primary BFTPersistentStorage V} :
      KeptLife E cache p → KeptLife E cache { p with
        bft := { p.bft with ledger := { p.ledger with shutdown := true } } }
  /-- The primary is shut down, and saves its state when asked to. -/
  | shutDown {cache : Option ProposalCache} {p : Primary BFTPersistentStorage V} :
      KeptLife E cache p → KeptLife E (p.shutDown.1.or cache) p.shutDown.2
  /-- The proposal cache is lost. -/
  | lose {cache : Option ProposalCache} {p : Primary BFTPersistentStorage V} :
      KeptLife E cache p → KeptLife E none p
  /-- The node starts again, after a shutdown or at any other moment, and however this start
  ends. -/
  | reboot {cache : Option ProposalCache} {p q : Primary BFTPersistentStorage V} {m n : ℕ}
      {l : CoreLedgerService V} {r : Except Stop Unit} : KeptLife E cache p →
      l.blocks = p.ledger.blocks →
      Starts E p.account (p.storage.transmissions.reopen m n) l cache r q → KeptLife E cache q

variable {E : Surroundings V} {cache : Option ProposalCache} {l : CoreLedgerService V}
  {account : Address} {transmissions : BFTPersistentStorage} {r : Except Stop Unit}
  {committee : Committee} {g : ℕ} {now : ℤ} {b : BFT BFTPersistentStorage V}
  {envs : ℕ → LoadEnv} {send : ConsensusSender V}

lemma referred_bootup (h : transmissions.toMemory.ListsOnly X)
    (hboot : (BFT.new account (Storage.new committee transmissions g) l).bootup now = .ok b) :
    b.storage.Referred X := by
  unfold BFT.bootup at hboot
  split at hboot
  · cases hboot
  next storage cs hsync =>
  cases hboot
  have hnew : (Storage.new committee transmissions g).Referred X :=
    Storage.referred_new h committee g
  exact hnew.bootup hsync

lemma referred_start (h : transmissions.toMemory.ListsOnly X)
    (hstart : Starts E account transmissions l cache r p) : p.storage.Referred X := by
  obtain ⟨committee, g, keepState, now, envs, send, b, -, hboot, -, -, hrun⟩ := hstart
  obtain ⟨result, q, hload, hcases⟩ := runBft_cases
    (p := new account (Storage.new committee transmissions g) keepState l) hboot envs cache send
  have hmoves := moves_loadProposalCache envs cache
    { new account (Storage.new committee transmissions g) keepState l with
      bftSender := true, bft := b }
  rw [hload] at hmoves
  have hq := hmoves.referred (referred_bootup h hboot)
  rcases hcases with ⟨stop, -, hcases⟩ | ⟨-, hcases⟩ <;> rw [hrun] at hcases <;> cases hcases <;>
    exact hq

/-- **No entry of the maps is empty**, at any time of a life. -/
theorem KeptLife.referred (h : KeptLife E cache p) : p.storage.Referred fun _ _ => True := by
  induction h with
  | start hstart => exact referred_start (BFTPersistentStorage.listsOnly_new _ _ _) hstart
  | @propose cache p env _ _ ih => exact (moves_proposeBatch env p).referred ih
  | @increment cache p env _ _ ih => exact (moves_incrementTask env p).referred ih
  | submit ready _ ih => exact ih
  | flag _ ih => exact ih
  | @shutDown cache p _ ih =>
    unfold Primary.shutDown
    split <;> exact ih
  | lose _ ih => exact ih
  | @reboot cache p q m n l r _ _ hstart ih =>
    have hmaps : (p.storage.transmissions.reopen m n).toMemory.ListsOnly fun _ _ => True :=
      ih.listed.mono fun _ _ _ => trivial
    exact referred_start hmaps hstart

/-- The primary takes over what the cache has, before its certificates are loaded. -/
def withCache (cache : ProposalCache) (p : Primary BFTPersistentStorage V) :
    Primary BFTPersistentStorage V :=
  { p with
    proposedBatch := cache.proposal
    signedProposals := cache.signedProposals
    proposeLock := cache.latestRound }

lemma idle_loadProposalCache (hcache : ∀ c, cache = some c → c.proposal = none)
    (hp : p.proposedBatch = none) (envs : ℕ → LoadEnv) :
    (p.loadProposalCache envs cache).2.proposedBatch = none := by
  unfold loadProposalCache
  cases cache with
  | none => exact hp
  | some c =>
    dsimp only
    split
    · exact keepsIdle_walk.loadCertificates (fun i => (envs i).meets_any) 0
        (fun _ _ => trivial) (p.withCache c) (hcache c rfl)
    · exact hp

lemma idle_start (hcache : ∀ c, cache = some c → c.proposal = none)
    (hstart : Starts E account transmissions l cache r p) : p.proposedBatch = none := by
  obtain ⟨committee, g, keepState, now, envs, send, b, -, hboot, -, -, hrun⟩ := hstart
  obtain ⟨result, q, hload, hcases⟩ := runBft_cases
    (p := new account (Storage.new committee transmissions g) keepState l) hboot envs cache send
  have hq : q.proposedBatch = none := by
    have hidle := idle_loadProposalCache hcache
      (p := { new account (Storage.new committee transmissions g) keepState l with
        bftSender := true, bft := b }) rfl envs
    rwa [hload] at hidle
  rcases hcases with ⟨stop, -, hcases⟩ | ⟨-, hcases⟩ <;> rw [hrun] at hcases <;> cases hcases <;>
    exact hq

/-- **No batch is in flight** at any time of a life, nor in the cache on the disk. -/
theorem KeptLife.idle (h : KeptLife E cache p) :
    p.proposedBatch = none ∧ ∀ c, cache = some c → c.proposal = none := by
  induction h with
  | start hstart =>
    have hnone : ∀ c, (none : Option ProposalCache) = some c → c.proposal = none :=
      fun c hc => by cases hc
    exact ⟨idle_start hnone hstart, hnone⟩
  | @propose cache p env _ _ ih =>
    exact ⟨keepsIdle_walk.proposeBatch env.meets_any p ih.1, ih.2⟩
  | @increment cache p env _ _ ih =>
    exact ⟨keepsIdle_walk.incrementTask env.propose.meets_any p ih.1, ih.2⟩
  | submit ready _ ih => exact ih
  | flag _ ih => exact ih
  | @shutDown cache p _ ih =>
    unfold Primary.shutDown
    split
    · refine ⟨rfl, fun c hc => ?_⟩
      cases hc
      exact ih.1
    · exact ih
  | lose _ ih => exact ⟨ih.1, fun c hc => by cases hc⟩
  | reboot _ _ hstart ih => exact ⟨idle_start ih.2 hstart, ih.2⟩

/-! ### Starts after which all is restored -/

/-- Where the maps list a certificate ID at a transmission, it is that of a certificate that
declares the transmission, and that is stored, or is in the cache and gets loaded. -/
def Recovers (envs : ℕ → LoadEnv) (cache : Option ProposalCache)
    (p : Primary BFTPersistentStorage V) : Prop :=
  ∀ i id, p.storage.transmissions.toMemory.Lists i id → p.storage.Declares i id ∨
    ∃ cached c, cache = some cached ∧
      Loads envs 0 cached.pendingCertificates (p.withCache cached) c ∧ c.id = id ∧
      i ∈ c.transmissionIds

/-- **The cache is loaded**, when nothing else is listed. -/
lemma Recovers.referred (h : Recovers envs cache p) (hp : p.storage.Referred fun _ _ => True)
    (hload : p.loadProposalCache envs cache = (.ok (), q)) :
    q.storage.Referred fun _ _ => False := by
  have hlisted : p.storage.Referred p.storage.transmissions.toMemory.Lists :=
    ⟨hp.indexed, hp.listed.lists.mono fun _ _ => .inr⟩
  unfold loadProposalCache at hload
  cases cache with
  | none =>
    cases hload
    refine hlisted.imp fun i id hi => (h i id hi).imp_right ?_
    rintro ⟨cached, c, hnone, -⟩
    cases hnone
  | some cached =>
    dsimp only at hload
    split at hload
    swap
    · cases hload
    have hloaded := referred_loadCertificates (p := p.withCache cached) (hlisted.imp
      (Y := fun i id => ∃ c, Loads envs 0 cached.pendingCertificates (p.withCache cached) c ∧
        c.id = id ∧ i ∈ c.transmissionIds) fun i id hi => (h i id hi).imp_right ?_) hload
    · exact hloaded.imp fun i id ⟨hx, hnot⟩ => absurd hx hnot
    · rintro ⟨_, c, hcached, hc⟩
      cases hcached
      exact ⟨c, hc⟩

/-- A node since a start that succeeded: the first one, or one over maps and a cache from which
all that is listed is recovered. -/
inductive Settled (E : Surroundings V) : Primary BFTPersistentStorage V → Prop
  | start {account : Address} {m n : ℕ} {l : CoreLedgerService V}
      {p : Primary BFTPersistentStorage V} :
      Starts E account (.new m n) l none (.ok ()) p → Settled E p
  | restart {cache : Option ProposalCache} {p q : Primary BFTPersistentStorage V} {m n g : ℕ}
      {l : CoreLedgerService V} {committee : Committee} {keepState : Bool} {now : ℤ}
      {envs : ℕ → LoadEnv} {send : ConsensusSender V} {b : BFT BFTPersistentStorage V} :
      KeptLife E cache p → l.blocks = p.ledger.blocks → l.currentCommittee = .ok committee →
      (BFT.new p.account (Storage.new committee (p.storage.transmissions.reopen m n) g) l).bootup
        now = .ok b → (∀ i, E.load (envs i)) → E.sender send →
      (new p.account (Storage.new committee (p.storage.transmissions.reopen m n) g) keepState
        l).runBft now envs cache send = (.ok (), q) →
      Recovers envs cache
        { new p.account (Storage.new committee (p.storage.transmissions.reopen m n) g) keepState l
          with bftSender := true, bft := b } → Settled E q
  | propose {p : Primary BFTPersistentStorage V} (env : ProposeEnv) :
      Settled E p → E.propose env → Settled E (p.proposeTask env)
  | increment {p : Primary BFTPersistentStorage V} (env : IncrementEnv) :
      Settled E p → E.increment env → Settled E (p.incrementTask env)
  | submit {p : Primary BFTPersistentStorage V} (ready : Ready) :
      Settled E p → Settled E { p with ready }
  | flag {p : Primary BFTPersistentStorage V} : Settled E p → Settled E { p with
      bft := { p.bft with ledger := { p.ledger with shutdown := true } } }

lemma Settled.kept (h : Settled E p) : ∃ cache, KeptLife E cache p := by
  induction h with
  | start hstart => exact ⟨none, .start hstart⟩
  | restart hlife hblocks hcommittee hboot hload hsend hrun _ =>
    exact ⟨_, hlife.reboot hblocks ⟨_, _, _, _, _, _, _, hcommittee, hboot, hload, hsend, hrun⟩⟩
  | propose env _ henv ih => exact ih.imp fun _ h => h.propose env henv
  | increment env _ henv ih => exact ih.imp fun _ h => h.increment env henv
  | submit ready _ ih => exact ih.imp fun _ h => h.submit ready
  | flag _ ih => exact ih.imp fun _ h => h.flag

/-- **The maps list what the stored certificates declare, and no more.** -/
theorem Settled.referred (h : Settled E p) : p.storage.Referred fun _ _ => False := by
  induction h with
  | start hstart => exact referred_start (BFTPersistentStorage.listsOnly_new _ _ _) hstart
  | @restart cache p q m n g l committee keepState now envs send b hlife _ _ hboot _ _ hrun hrec =>
    have hmaps : (p.storage.transmissions.reopen m n).toMemory.ListsOnly fun _ _ => True :=
      hlife.referred.listed.mono fun _ _ _ => trivial
    obtain ⟨r, hload, rfl⟩ := runBft_eq_ok hboot hrun
    have hloaded : r.storage.Referred fun _ _ => False :=
      hrec.referred (referred_bootup hmaps hboot) hload
    exact hloaded
  | @propose p env _ _ ih => exact (moves_proposeBatch env p).referred ih
  | @increment p env _ _ ih => exact (moves_incrementTask env p).referred ih
  | submit _ _ ih => exact ih
  | flag _ ih => exact ih

/-- **No transmission is orphaned**: what is contained is declared by a stored certificate. So what
the worker reports is in its queue, in a stored certificate or in the ledger. -/
theorem no_orphans (h : Settled E p) (i : TransmissionID) :
    (p.storage.containsTransmission i = true →
      ∃ c : BatchCertificate, p.bft.Stored c ∧ i ∈ c.transmissionIds) ∧
    (p.containsTransmission i = true → p.ready.contains i = true ∨
      (∃ c : BatchCertificate, p.bft.Stored c ∧ i ∈ c.transmissionIds) ∨
      p.ledger.containsTransmission i = .ok true) := by
  have hstored : p.storage.containsTransmission i = true →
      ∃ c : BatchCertificate, p.bft.Stored c ∧ i ∈ c.transmissionIds := fun hi =>
    h.referred.exists hi
  refine ⟨hstored, fun hi => ?_⟩
  obtain ⟨cache, hlife⟩ := h.kept
  unfold containsTransmission at hi
  rw [hlife.idle.1, Option.map_none, Option.getD_none, Bool.or_false, Bool.or_eq_true,
    Bool.or_eq_true] at hi
  rcases hi with (hi | hi) | hi
  · exact .inl hi
  · exact .inr (.inl (hstored hi))
  · refine .inr (.inr ?_)
    split at hi
    · assumption
    · cases hi

end Primary

/-! ### The development node -/

section Example

/-- The transaction that the node gets. -/
def seventh : TransmissionID := .transaction 7 0

/-- The node has stored a batch of the first round with the transaction. -/
def certifiedKeeper : Primary BFTPersistentStorage SpacedChain :=
  let _ := developmentNetwork
  Primary.proposeTask (proposes 1) { (firstKeeper 100).2 with
    ready := (Ready.new.insert seventh (.transaction (.object ⟨7, []⟩))).2 }

/-- It starts again over its blocks and the maps on its disk. -/
def restartedKeeper (cache : Option ProposalCache) :
    Except Stop Unit × Primary BFTPersistentStorage SpacedChain :=
  startedKeeper 100 (certifiedKeeper.storage.transmissions.reopen 4 50)
    ⟨certifiedKeeper.ledger.ledger, none, false⟩ cache 2

lemma startedKeeper_starts {transmissions : BFTPersistentStorage}
    {l : CoreLedgerService SpacedChain} {round : ℕ}
    (hboot : let _ := developmentNetwork
      ((newKeeper 100 transmissions l).bft.bootup (10 * round)).isOk = true)
    (cache : Option ProposalCache) :
    let _ := developmentNetwork
    Primary.Starts keeperSurroundings (developmentAccount 0) transmissions l cache
      (startedKeeper 100 transmissions l cache round).1
      (startedKeeper 100 transmissions l cache round).2 := by
  let _ := developmentNetwork
  obtain ⟨b, hb⟩ := exists_of_isOk hboot
  exact ⟨developmentCommittee, 100, true, 10 * round, fun _ => loads round, processBftSubdag, b,
    rfl, hb, fun _ => ⟨proposes_meets round, trivial⟩, rfl, rfl⟩

lemma certifiedKeeper_life : let _ := developmentNetwork
    Primary.KeptLife keeperSurroundings none certifiedKeeper := by
  let _ := developmentNetwork
  have hboot :
      ((newKeeper 100 (.new 4 50) spacedLedger).bft.bootup (10 * (0 : ℕ))).isOk = true := by
    decide +kernel
  have hstarts : Primary.Starts keeperSurroundings (developmentAccount 0) (.new 4 50) spacedLedger
      none (firstKeeper 100).1 (firstKeeper 100).2 := startedKeeper_starts hboot none
  have hstart := Primary.KeptLife.start hstarts
  exact (hstart.submit _).propose (proposes 1) (proposes_meets 1)

/-- A crash before the proposal cache is saved leaves the transaction in the maps. It is reported,
and no certificate declares it. -/
theorem orphaned_by_crash :
    let _ := developmentNetwork
    Primary.KeptLife keeperSurroundings none certifiedKeeper ∧
    Primary.Starts keeperSurroundings certifiedKeeper.account
      (certifiedKeeper.storage.transmissions.reopen 4 50)
      ⟨certifiedKeeper.ledger.ledger, none, false⟩ none (.ok ()) (restartedKeeper none).2 ∧
    (restartedKeeper none).2.storage.containsTransmission seventh = true ∧
    (∀ c : BatchCertificate, ¬ (restartedKeeper none).2.bft.Stored c) ∧
    (restartedKeeper none).2.ready.contains seventh = false ∧
    (restartedKeeper none).2.ledger.containsTransmission seventh = .ok false ∧
    (restartedKeeper none).2.containsTransmission seventh = true := by
  let _ := developmentNetwork
  obtain ⟨hboot, haccount, hok⟩ :
      ((newKeeper 100 (certifiedKeeper.storage.transmissions.reopen 4 50)
        ⟨certifiedKeeper.ledger.ledger, none, false⟩).bft.bootup (10 * (2 : ℕ))).isOk = true ∧
      certifiedKeeper.account = developmentAccount 0 ∧
      (restartedKeeper none).1 = .ok () := by
    decide +kernel
  obtain ⟨hcontains, hempty, hready, hledger, hreported⟩ :
      (restartedKeeper none).2.storage.containsTransmission seventh = true ∧
      (restartedKeeper none).2.storage.certificates.toList = [] ∧
      (restartedKeeper none).2.ready.contains seventh = false ∧
      (restartedKeeper none).2.ledger.containsTransmission seventh = .ok false ∧
      (restartedKeeper none).2.containsTransmission seventh = true := by
    decide +kernel
  have hstarts := startedKeeper_starts hboot none
  rw [← haccount] at hstarts
  refine ⟨certifiedKeeper_life, ?_, hcontains, fun c hc => ?_, hready, hledger, hreported⟩
  · rw [← hok]
    exact hstarts
  · have hin : (c.id, c) ∈ (restartedKeeper none).2.storage.certificates.toList :=
      ExtTreeMap.mem_toList_iff_getElem?_eq_some.mpr hc
    rw [hempty] at hin
    cases hin

/-- With the proposal cache that was saved, the certificate of the transaction is loaded. -/
theorem no_orphans_example :
    let _ := developmentNetwork
    (restartedKeeper certifiedKeeper.shutDown.1).2.storage.containsTransmission seventh = true ∧
    ∃ c : BatchCertificate,
      (restartedKeeper certifiedKeeper.shutDown.1).2.bft.Stored c ∧
        seventh ∈ c.transmissionIds := by
  let _ := developmentNetwork
  have hboot : ((newKeeper 100 (certifiedKeeper.storage.transmissions.reopen 4 50)
      ⟨certifiedKeeper.ledger.ledger, none, false⟩).bft.bootup (10 * (2 : ℕ))).isOk = true := by
    decide +kernel
  obtain ⟨b, hb⟩ := exists_of_isOk hboot
  -- the maps list the transaction for the first of the pending certificates, which gets loaded
  have hfacts : ((newKeeper 100 (certifiedKeeper.storage.transmissions.reopen 4 50)
      ⟨certifiedKeeper.ledger.ledger, none, false⟩).bft.bootup (10 * (2 : ℕ))).toOption.any
      (fun b => certifiedKeeper.savedCache.pendingCertificates.head?.any fun c =>
      decide (b.storage.transmissions.transmissions.entries.map (fun e => (e.1, e.2.2.toList))
          = [(seventh, [c.id])] ∧ b.storage.transmissions.abortedTransmissionIds.entries = [] ∧
        seventh ∈ c.transmissionIds.toList ∧
        Primary.Admits (loads 2) c (Primary.withCache certifiedKeeper.savedCache
          { newKeeper 100 (certifiedKeeper.storage.transmissions.reopen 4 50)
            ⟨certifiedKeeper.ledger.ledger, none, false⟩ with bftSender := true, bft := b })))
      = true := by
    decide +kernel
  rw [hb, Except.toOption, Option.any_some] at hfacts
  obtain ⟨hok, hsave, hproposal, hcontains, haccount⟩ :
      (restartedKeeper certifiedKeeper.shutDown.1).1 = .ok () ∧
      certifiedKeeper.savePending = true ∧ certifiedKeeper.proposedBatch = none ∧
      (restartedKeeper certifiedKeeper.shutDown.1).2.storage.containsTransmission seventh = true ∧
      certifiedKeeper.account = developmentAccount 0 := by
    decide +kernel
  have hsaved := Primary.shutDown_saves hsave hproposal
  cases hpending : certifiedKeeper.savedCache.pendingCertificates with
  | nil =>
    rw [hpending] at hfacts
    cases hfacts
  | cons c rest =>
  rw [hpending, List.head?_cons, Option.any_some] at hfacts
  obtain ⟨hmaps, haborted, hdeclares, hadmits⟩ := of_decide_eq_true hfacts
  have hrecovers : Primary.Recovers (fun _ => loads 2) certifiedKeeper.shutDown.1
      { newKeeper 100 (certifiedKeeper.storage.transmissions.reopen 4 50)
        ⟨certifiedKeeper.ledger.ledger, none, false⟩ with bftSender := true, bft := b } := by
    rintro i id (⟨e, he, hid⟩ | ⟨ids, hids, -⟩)
    · have hin := List.mem_map_of_mem (f := fun e => (e.1, e.2.2.toList))
        (IndexMap.get?_eq_some_iff.mp he)
      rw [show b.storage.transmissions.toMemory.transmissions
        = b.storage.transmissions.transmissions from rfl, hmaps, List.mem_singleton,
        Prod.mk.injEq] at hin
      obtain ⟨rfl, hlist⟩ := hin
      rw [IndexSet.mem_def, hlist, List.mem_singleton] at hid
      exact .inr ⟨_, c, hsaved, ⟨[], rest, _, hpending, rfl, hadmits⟩, hid.symm, hdeclares⟩
    · have hin := IndexMap.get?_eq_some_iff.mp hids
      rw [show b.storage.transmissions.toMemory.abortedTransmissionIds
        = b.storage.transmissions.abortedTransmissionIds from rfl, haborted] at hin
      cases hin
  have hsettled : Primary.Settled keeperSurroundings
      (restartedKeeper certifiedKeeper.shutDown.1).2 := by
    have hlife := certifiedKeeper_life.shutDown
    obtain ⟨hsame, htransmissions, hledger⟩ :
        certifiedKeeper.shutDown.2.account = certifiedKeeper.account ∧
        certifiedKeeper.shutDown.2.storage.transmissions = certifiedKeeper.storage.transmissions ∧
        certifiedKeeper.shutDown.2.ledger = certifiedKeeper.ledger := by
      unfold Primary.shutDown
      split <;> exact ⟨rfl, rfl, rfl⟩
    generalize certifiedKeeper.shutDown.2 = p at hlife hsame htransmissions hledger
    rw [Option.or_none] at hlife
    have hblocks : (⟨certifiedKeeper.ledger.ledger, none, false⟩ :
        CoreLedgerService SpacedChain).blocks = p.ledger.blocks := by
      rw [hledger]
      rfl
    have hnew : Primary.new p.account (Storage.new developmentCommittee
          (p.storage.transmissions.reopen 4 50) 100) true
          ⟨certifiedKeeper.ledger.ledger, none, false⟩
        = newKeeper 100 (certifiedKeeper.storage.transmissions.reopen 4 50)
          ⟨certifiedKeeper.ledger.ledger, none, false⟩ := by
      rw [hsame, haccount, htransmissions]
      rfl
    have hrun : (newKeeper 100 (certifiedKeeper.storage.transmissions.reopen 4 50)
        ⟨certifiedKeeper.ledger.ledger, none, false⟩).runBft (10 * (2 : ℕ)) (fun _ => loads 2)
          certifiedKeeper.shutDown.1 processBftSubdag
        = (.ok (), (restartedKeeper certifiedKeeper.shutDown.1).2) := Prod.ext hok rfl
    rw [← hnew] at hb hrun hrecovers
    exact .restart hlife hblocks rfl hb (fun _ => ⟨proposes_meets 2, trivial⟩) rfl hrun hrecovers
  exact ⟨hcontains, (Primary.no_orphans hsettled seventh).1 hcontains⟩

end Example

end AmareleoChain
