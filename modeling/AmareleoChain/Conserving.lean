import AmareleoChain.Orderly
import AmareleoChain.ReferenceCounts
import AmareleoChain.Reloading
import AmareleoChain.Turns

/-!
What becomes of transmissions after the drain loop.

The certificate that is stored with them stays while the batch is completed, and no others come
into the storage. Those that are inserted again get to the back of the queue.
-/

namespace AmareleoChain

open Std

/-! ### The services of the storage -/

/-- A service contains nothing but what it was given. -/
structure StorageService.AddsOnly (S : Type) [StorageService S] : Prop where
  insert : ∀ (s : S) (id : Field) (ids aborted : IndexSet TransmissionID)
    (missing : IndexMap TransmissionID Transmission) (t : TransmissionID),
    StorageService.containsTransmission
      (StorageService.insertTransmissions s id ids aborted missing) t = true →
    StorageService.containsTransmission s t = true ∨ t ∈ ids ∨ t ∈ aborted
  remove : ∀ (s : S) (id : Field) (ids : IndexSet TransmissionID) (t : TransmissionID),
    StorageService.containsTransmission (StorageService.removeTransmissions s id ids) t = true →
    StorageService.containsTransmission s t = true

namespace BFTMemoryService

variable {s : BFTMemoryService} {t : TransmissionID}

lemma containsTransmission_iff : s.containsTransmission t = true ↔
    (s.transmissions.get? t).isSome = true ∨ (s.abortedTransmissionIds.get? t).isSome = true := by
  rw [containsTransmission, Bool.or_eq_true, IndexMap.containsKey_iff, IndexMap.containsKey_iff,
    IndexMap.get?_isSome, IndexMap.get?_isSome]

lemma of_containsTransmission_insert {id : Field} {ids aborted : IndexSet TransmissionID}
    {missing : IndexMap TransmissionID Transmission}
    (h : (s.insertTransmissions id ids aborted missing).containsTransmission t = true) :
    s.containsTransmission t = true ∨ t ∈ ids ∨ t ∈ aborted := by
  rw [containsTransmission_iff] at h ⊢
  unfold insertTransmissions at h
  dsimp only at h
  rw [get?_insertKnown ids.nodup, get?_insertAborted aborted.nodup] at h
  simp only [← IndexSet.mem_def] at h
  by_cases hids : t ∈ ids
  · exact .inr (.inl hids)
  by_cases haborted : t ∈ aborted
  · exact .inr (.inr haborted)
  rw [if_neg hids, if_neg haborted] at h
  exact .inl h

lemma of_containsTransmission_remove {id : Field} {ids : IndexSet TransmissionID}
    (h : (s.removeTransmissions id ids).containsTransmission t = true) :
    s.containsTransmission t = true := by
  rw [containsTransmission_iff] at h ⊢
  unfold removeTransmissions at h
  rw [get?_removeTransmissions ids.nodup, get?_aborted_removeTransmissions ids.nodup] at h
  split at h
  · exact h.imp Option.isSome_of_isSome_bind Option.isSome_of_isSome_bind
  · exact h

lemma addsOnly : StorageService.AddsOnly BFTMemoryService where
  insert _ _ _ _ _ _ := of_containsTransmission_insert
  remove _ _ _ _ := of_containsTransmission_remove

end BFTMemoryService

lemma BFTPersistentStorage.addsOnly : StorageService.AddsOnly BFTPersistentStorage where
  insert s id ids aborted missing t h := by
    have hmemory : (s.insertTransmissions id ids aborted missing).toMemory.containsTransmission t
        = true := h
    rw [toMemory_insertTransmissions] at hmemory
    exact BFTMemoryService.of_containsTransmission_insert hmemory
  remove s id ids t h := by
    have hmemory : (s.removeTransmissions id ids).toMemory.containsTransmission t = true := h
    rw [toMemory_removeTransmissions] at hmemory
    exact BFTMemoryService.of_containsTransmission_remove hmemory

/-! ### What holds of a node -/

section Sound

variable {S V : Type} [Ledger V] [Network]

omit [Ledger V] [Network] in
lemma evolves_any (send : Option (ConsensusSender V)) :
    BFT.Evolves send fun _ _ => True :=
  ⟨fun _ => trivial, fun _ _ => trivial, fun _ _ => trivial, fun _ _ _ _ _ => trivial⟩

namespace Primary

/-- The storage and the DAG are in order, and no batch is in flight. -/
structure Sound (p : Primary S V) : Prop where
  tidy : p.storage.Tidy
  wellFormed : p.bft.dag.WellFormed
  idle : p.proposedBatch = none

end Primary

variable [StorageService S]

lemma BFT.Step.sound {G : BFT S V → BatchCertificate → Prop} {b b' : BFT S V}
    (hstep : BFT.Step G b b') (h : b.storage.Tidy ∧ b.dag.WellFormed) :
    b'.storage.Tidy ∧ b'.dag.WellFormed := by
  cases hstep with
  | insertCertificate now c transmissions =>
    exact ⟨(h.1.insertCertificate (m := 0) b.ledger now c transmissions ∅).1, h.2⟩
  | incrementToNextRound round =>
    exact ⟨(Storage.incrementToNextRound_same b.ledger b.storage round).tidy h.1, h.2⟩
  | updateToNextRound now round =>
    obtain ⟨x, leader, timer, storage, rfl | rfl, hres⟩ := b.updateToNextRound_keeps now round <;>
      rw [hres]
    · exact h
    · exact ⟨(Storage.incrementToNextRound_same b.ledger b.storage round).tidy h.1, h.2⟩
  | updateDag c =>
    have hupdated := updateDag_updated (evolves_any b.consensusSender) h.2 true false c
    refine ⟨?_, hupdated.wellFormed⟩
    rcases hupdated.storage with hstorage | ⟨-, -, hstorage⟩ <;> rw [hstorage]
    · exact h.1
    · exact (h.1.garbageCollectCertificates (X := fun _ => False) _).1

namespace Primary

variable {p q : Primary S V}

lemma Sound.moves (h : p.Sound) (hmoves : p.Moves q) (hidle : p.KeepsIdle q) : q.Sound := by
  have hbft : q.bft.storage.Tidy ∧ q.bft.dag.WellFormed := by
    have hp : p.bft.storage.Tidy ∧ p.bft.dag.WellFormed := ⟨h.tidy, h.wellFormed⟩
    unfold Moves at hmoves
    generalize p.bft = b at hmoves hp
    generalize q.bft = b' at hmoves ⊢
    induction hmoves with
    | refl => exact hp
    | tail _ hstep ih => exact hstep.sound ih
  exact ⟨hbft.1, hbft.2, hidle h.idle⟩

lemma Starts.sound {E : Surroundings V} {account : Address} {transmissions : S}
    {l : CoreLedgerService V} {cache : Option ProposalCache} {result : Except Stop Unit}
    (hcache : ∀ c, cache = some c → c.proposal = none)
    (h : Starts E account transmissions l cache result p) : p.Sound := by
  obtain ⟨committee, g, keepState, now, envs, send, b, -, hboot, -, -, hrun⟩ := h
  obtain ⟨result', q, hload, hcases⟩ := runBft_cases
    (p := new account (Storage.new committee transmissions g) keepState l) hboot envs cache send
  have hbooted : ∀ signedProposals proposeLock, Sound
      { new account (Storage.new committee transmissions g) keepState l with
        bft := b, bftSender := true, signedProposals, proposeLock, proposedBatch := none } := by
    intro signedProposals proposeLock
    have horderly := (orderly_booted hboot keepState true signedProposals proposeLock).1
    exact ⟨horderly.tidy, horderly.wellFormed, rfl⟩
  have hq : q.Sound := by
    unfold loadProposalCache at hload
    cases cache with
    | none =>
      cases hload
      exact hbooted ∅ 0
    | some c =>
      dsimp only at hload
      split at hload
      · rw [hcache c rfl] at hload
        have hpending : ∀ d ∈ c.pendingCertificates, True := fun _ _ => trivial
        have hsound := (hbooted c.signedProposals c.latestRound).moves
          (moves_walk.loadCertificates (fun i => (envs i).meets_any) 0 hpending _)
          (keepsIdle_walk.loadCertificates (fun i => (envs i).meets_any) 0 hpending _)
        rwa [hload] at hsound
      · cases hload
        exact hbooted ∅ 0
  rcases hcases with ⟨stop, -, hcases⟩ | ⟨-, hcases⟩ <;> rw [hrun] at hcases <;> cases hcases
  · exact hq
  · exact ⟨hq.tidy, hq.wellFormed, hq.idle⟩

/-- **A node is sound** at any time of its life. -/
theorem Lived.sound {E : Surroundings V} {cache : Option ProposalCache} (h : Lived E cache p) :
    p.Sound ∧ ∀ c, cache = some c → c.proposal = none := by
  induction h with
  | start h => exact ⟨h.sound fun _ hc => (by cases hc), fun _ hc => (by cases hc)⟩
  | @propose cache p env _ _ ih =>
    exact ⟨ih.1.moves (moves_proposeBatch env p) (keepsIdle_walk.proposeBatch env.meets_any p),
      ih.2⟩
  | @increment cache p env _ _ ih =>
    exact ⟨ih.1.moves (moves_incrementTask env p)
      (keepsIdle_walk.incrementTask env.propose.meets_any p), ih.2⟩
  | submit ready _ ih => exact ⟨⟨ih.1.tidy, ih.1.wellFormed, ih.1.idle⟩, ih.2⟩
  | flag _ ih => exact ⟨⟨ih.1.tidy, ih.1.wellFormed, ih.1.idle⟩, ih.2⟩
  | @shutDown cache p _ ih =>
    obtain ⟨h, hcache⟩ := ih
    unfold Primary.shutDown
    split
    · refine ⟨⟨h.tidy, h.wellFormed, rfl⟩, fun c hc => ?_⟩
      cases hc
      exact h.idle
    · exact ⟨h, hcache⟩
  | reboot _ _ hstarts ih => exact ⟨hstarts.sound ih.2, ih.2⟩

/-! ### After the certificate is stored -/

/-- The certificates of a round stay, the queue does too, and nothing comes into the storage. -/
structure Settles (r : ℕ) (p q : Primary S V) : Prop where
  sound : q.Sound
  certificates : ∀ {c : BatchCertificate}, c.round = r →
    (q.storage.certificates[c.id]? = some c ↔ p.storage.certificates[c.id]? = some c)
  contains : ∀ id, q.storage.containsTransmission id = true →
    p.storage.containsTransmission id = true
  ready : q.ready = p.ready
  account : q.account = p.account

variable {r : ℕ} {c : BatchCertificate}

omit [Ledger V] [Network] in
lemma Settles.refl (h : p.Sound) : Settles r p p :=
  ⟨h, fun _ => .rfl, fun _ => id, rfl, rfl⟩

omit [Ledger V] [Network] in
lemma Settles.trans {p' : Primary S V} (h : Settles r p q) (h' : Settles r q p') :
    Settles r p p' :=
  ⟨h'.sound, fun hc => (h'.certificates hc).trans (h.certificates hc),
    fun id hid => h.contains id (h'.contains id hid), h'.ready.trans h.ready,
    h'.account.trans h.account⟩

omit [Network] in
lemma Settles.increment (h : p.Sound) {bft : BFT S V}
    (hstorage : bft.storage = p.storage ∨
      ∃ round, bft.storage = (p.storage.incrementToNextRound p.ledger round).2)
    (hdag : bft.dag = p.bft.dag) (haccount : bft.account = p.account) :
    Settles r p { p with bft } := by
  have hkeeps : ∃ currentRound, bft.storage = { p.storage with currentRound } := by
    rcases hstorage with hsame | ⟨round, hstorage⟩
    · exact ⟨p.storage.currentRound, hsame⟩
    · obtain ⟨currentRound, -, hkeeps⟩ :=
        Storage.incrementToNextRound_keeps p.ledger p.storage round
      exact ⟨currentRound, hstorage.trans hkeeps⟩
  obtain ⟨currentRound, hkeeps⟩ := hkeeps
  have hsame : Storage.SameCertificates p.storage bft.storage := by
    rw [hkeeps]
    exact ⟨rfl, rfl, rfl, rfl⟩
  refine ⟨⟨hsame.tidy h.tidy, ?_, h.idle⟩, fun _ => ?_, fun id hid => ?_, rfl, haccount⟩
  · dsimp only
    rw [hdag]
    exact h.wellFormed
  · change bft.storage.certificates[_]? = _ ↔ _
    rw [hsame.2.1]
  · change bft.storage.containsTransmission id = true at hid
    rw [hkeeps] at hid
    exact hid

/-- **What moves the rounds** settles. -/
theorem settles_walk (r : ℕ) :
    RoundWalk (S := S) (V := V) fun p q => p.Sound → Settles r p q where
  refl _ h := .refl h
  trans h h' hp := (h hp).trans (h' (h hp).sound)
  round sent now round p h := by
    have hstep : Settles r p { p with bft := (p.bft.updateToNextRound now round).2 } := by
      obtain ⟨x, leader, timer, storage, hstorage, hres⟩ := p.bft.updateToNextRound_keeps now round
      rw [hres]
      exact .increment h (hstorage.imp_right fun hs => ⟨round, hs⟩) rfl rfl
    unfold sendPrimaryRoundToBft
    rcases sent with _ | ⟨stop, _ | _⟩
    · exact hstep
    · exact .refl h
    · exact hstep
  increment round p h := .increment h (.inr ⟨round, rfl⟩) rfl rfl
  clear p h := ⟨⟨h.tidy, h.wellFormed, rfl⟩, fun _ => .rfl, fun _ => id, rfl, rfl⟩

omit [Ledger V] [Network] in
lemma of_containsTransmission_collect (hS : StorageService.AddsOnly S) {s : Storage S} {n : ℕ}
    {id : TransmissionID}
    (h : (s.garbageCollectCertificates n).containsTransmission id = true) :
    s.containsTransmission id = true := by
  refine Storage.garbageCollectCertificates_induction
    (motive := fun t : Storage S => t.containsTransmission id = true →
      s.containsTransmission id = true) (fun h => h) (fun t i ht hid => ?_) (fun _ _ ht => ht) n h
  unfold Storage.removeCertificate at hid
  split at hid
  · exact ht hid
  · exact ht (hS.remove _ _ _ _ hid)

lemma certificates_updateBft (h : p.Sound) (env : Receipt) {c d : BatchCertificate}
    (hd : d.round = c.round) : (p.updateBft env c).2.storage.certificates[d.id]? = some d ↔
      p.storage.certificates[d.id]? = some d := by
  rcases updateBft_cases env c p with hres | hres <;> rw [hres]
  have hupdated := BFT.updateDag_updated (evolves_any p.bft.consensusSender) h.wellFormed true
    false c
  change (p.bft.updateDag true false c).2.storage.certificates[d.id]? = some d ↔ _
  rcases hupdated.storage with hstorage | ⟨htwo, -, hstorage⟩ <;> rw [hstorage]
  obtain ⟨-, honward⟩ := h.tidy.garbageCollectCertificates (X := fun _ => False) (c.round - 1)
  refine ⟨fun hstored => (honward.added hstored).resolve_right id, fun hstored => ?_⟩
  have habove := h.tidy.above hstored
  have hgc := honward.gc
  exact honward.kept hstored (by omega)

/-- **The BFT gets the certificate.** Garbage collection stays below its round. -/
lemma settles_updateBft (hS : StorageService.AddsOnly S) (h : p.Sound) (env : Receipt)
    (c : BatchCertificate) : Settles c.round p (p.updateBft env c).2 := by
  have hsound := h.moves (moves_updateBft env c p) (sameWork_updateBft env c p).keepsIdle
  have hready : (p.updateBft env c).2.ready = p.ready ∧
      (p.updateBft env c).2.account = p.account := by
    obtain ⟨bft, hbft, haccount⟩ := sameWork_updateBft env c p
    rw [hbft]
    exact ⟨rfl, haccount⟩
  refine ⟨hsound, fun hd => certificates_updateBft h env hd, fun id hid => ?_, hready.1, hready.2⟩
  have hupdated := BFT.updateDag_updated (evolves_any p.bft.consensusSender) h.wellFormed true
    false c
  rcases updateBft_cases env c p with hres | hres <;> rw [hres] at hid
  · exact hid
  change (p.bft.updateDag true false c).2.storage.containsTransmission id = true at hid
  rcases hupdated.storage with hstorage | ⟨-, -, hstorage⟩ <;> rw [hstorage] at hid
  · exact hid
  · exact of_containsTransmission_collect hS hid

/-! ### Transmissions that are inserted again -/

omit [Network] in
lemma reinserted_sublist (l : List (TransmissionID × Transmission)) (p : Primary S V) :
    ∃ ready back, l.foldl (fun p e => p.reinsert e.1 e.2) p = { p with ready } ∧
      ready.transmissions = p.ready.transmissions ++ back ∧ back.Sublist l := by
  induction l generalizing p with
  | nil => exact ⟨p.ready, [], rfl, (List.append_nil _).symm, List.Sublist.refl _⟩
  | cons e l ih =>
    rw [List.foldl_cons, reinsert]
    split
    · obtain ⟨ready, back, hres, hready, hback⟩ := ih p
      exact ⟨ready, back, hres, hready, hback.cons e⟩
    · next hnew =>
      have hfresh : p.ready.contains e.1 = false := by
        rw [containsTransmission, Bool.or_assoc, Bool.or_assoc, Bool.or_eq_true, not_or] at hnew
        exact Bool.eq_false_iff.mpr hnew.1
      obtain ⟨ready, back, hres, hready, hback⟩ :=
        ih { p with ready := (p.ready.insert e.1 e.2).2 }
      refine ⟨ready, e :: back, hres, ?_, hback.cons_cons e⟩
      rw [hready, Ready.transmissions_insert hfresh, List.append_assoc]
      rfl

omit [Network] in
lemma reinserted_eq (l : List (TransmissionID × Transmission)) {p : Primary S V}
    (hidle : p.proposedBatch = none) (hvalid : p.ready.Valid)
    (hnodup : ((p.ready.transmissions ++ l).map Prod.fst).Nodup)
    (habsent : ∀ e ∈ l, p.ledger.containsTransmission e.1 = .ok false) :
    (l.foldl (fun p e => p.reinsert e.1 e.2) p).ready.transmissions
      = p.ready.transmissions ++ l.filter fun e => !p.storage.containsTransmission e.1 := by
  induction l generalizing p with
  | nil => exact (List.append_nil _).symm
  | cons e l ih =>
    rw [List.forall_mem_cons] at habsent
    have hfresh : p.ready.contains e.1 = false := by
      rw [← Bool.not_eq_true, hvalid.contains_iff]
      intro hmem
      rw [List.map_append, List.nodup_append] at hnodup
      exact hnodup.2.2 _ hmem _ (by simp) rfl
    have hknown : p.containsTransmission e.1 = p.storage.containsTransmission e.1 := by
      simp [containsTransmission, hfresh, hidle, habsent.1]
    rw [List.foldl_cons, reinsert, hknown]
    cases hstored : p.storage.containsTransmission e.1 with
    | true =>
      rw [if_pos rfl, List.filter_cons_of_neg (by simp [hstored])]
      refine ih hidle hvalid (hnodup.sublist ?_) habsent.2
      exact ((List.sublist_cons_self e l).append_left _).map _
    | false =>
      rw [if_neg (by simp), List.filter_cons_of_pos (by simp [hstored])]
      have hready := Ready.transmissions_insert (t := e.2) hfresh
      rw [ih (p := { p with ready := (p.ready.insert e.1 e.2).2 }) hidle (hvalid.insert _ _)
        (by rw [hready, List.append_assoc]; exact hnodup) habsent.2]
      rw [hready, List.append_assoc]
      rfl

end Primary

end Sound

end AmareleoChain
