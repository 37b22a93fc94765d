import AmareleoChain.Consistency

/-!
Leaders whose blocks get built.

A stored certificate has its transmissions in the storage service until it is in a block, and
its history above the garbage collection horizon in storage. So, when consensus does its part,
the subdag of a leader is ordered, its transmissions are retrieved and its block is built; and
a call of `update_dag` commits every leader that is due.
-/

namespace AmareleoChain

open Std

/-! ### Transmissions of stored certificates -/

namespace Storage

variable {S : Type} [StorageService S]

lemma garbageCollectCertificates_induction {motive : Storage S → Prop} {s : Storage S}
    (start : motive s) (remove : ∀ s id, motive s → motive (s.removeCertificate id))
    (collect : ∀ s r, motive s → motive { s with gcRound := r }) (nextRound : ℕ) :
    motive (s.garbageCollectCertificates nextRound) := by
  unfold garbageCollectCertificates
  dsimp only
  split
  · refine collect _ _ (List.foldlRecOn _ _ start fun s hs r _ => ?_)
    exact List.foldlRecOn _ _ hs fun s hs id _ => remove s id hs
  · exact start

/-- The storage service keeps the transmissions of the stored certificates with `P`. -/
structure Carries [LawfulStorageService S] (s : Storage S) (P : BatchCertificate → Prop) :
    Prop where
  valid : LawfulStorageService.Valid s.transmissions
  keeps : ∀ c : BatchCertificate, s.certificates[c.id]? = some c → P c →
    ∀ t ∈ c.transmissionIds, LawfulStorageService.Keeps s.transmissions t c.id

variable [LawfulStorageService S] {s : Storage S} {P Q : BatchCertificate → Prop}
  {c : BatchCertificate}

lemma Carries.imp (h : s.Carries P) (hQ : ∀ c, Q c → P c) : s.Carries Q :=
  ⟨h.valid, fun c hc hq => h.keeps c hc (hQ c hq)⟩

lemma Carries.getTransmission (h : s.Carries P) (hc : s.certificates[c.id]? = some c) (hP : P c)
    {t : TransmissionID} (ht : t ∈ c.transmissionIds) : (s.getTransmission t).isSome :=
  LawfulStorageService.getTransmission_isSome h.valid (h.keeps c hc hP t ht)

lemma Carries.removeCertificate (h : s.Carries P) (id : Field) :
    (s.removeCertificate id).Carries P := by
  refine ⟨?_, fun c hc hP t ht => ?_⟩
  · unfold Storage.removeCertificate
    split
    · exact h.valid
    · exact LawfulStorageService.valid_remove h.valid
  · obtain ⟨hc, hne⟩ := getElem?_removeCertificate.mp hc
    have hkeeps := h.keeps c hc hP t ht
    unfold Storage.removeCertificate
    split
    · exact hkeeps
    · exact LawfulStorageService.keeps_remove.mpr ⟨hkeeps, fun hid => hne hid.1⟩

lemma Carries.garbageCollectCertificates (h : s.Carries P) (nextRound : ℕ) :
    (s.garbageCollectCertificates nextRound).Carries P :=
  garbageCollectCertificates_induction (motive := fun s => s.Carries P) h
    (fun _ id h => h.removeCertificate id) (fun _ _ h => ⟨h.valid, h.keeps⟩) nextRound

lemma Carries.insertCertificateAtomic (h : s.Carries P) (hfresh : s.certificates[c.id]? = none)
    {t missing : IndexMap TransmissionID Transmission} {aborted : IndexSet TransmissionID}
    (hmissing : StorageService.findMissingTransmissions s.transmissions c.batchHeader t aborted
      = .ok missing) (haborted : aborted = ∅) :
    (s.insertCertificateAtomic c aborted missing).Carries P := by
  subst haborted
  refine ⟨LawfulStorageService.valid_insert h.valid (.inr rfl), fun d hd hP i hi => ?_⟩
  refine (LawfulStorageService.keeps_insert h.valid).mpr ?_
  rcases (getElem?_insertCertificateAtomic hfresh ∅ missing _ _).mp hd with hd | ⟨-, rfl⟩
  · exact .inl (h.keeps d hd hP i hi)
  · refine .inr ⟨rfl, hi, ?_⟩
    rcases LawfulStorageService.findMissing_ok h.valid hmissing i hi with hk | hm | ha
    · exact .inl hk
    · exact .inr hm
    · exact absurd ha (IndexSet.not_mem_empty i)

end Storage

/-! ### The anchor of a subdag -/

namespace Subdag

variable {s : Subdag} {c leader : BatchCertificate}

/-- No round of the subdag is empty. -/
def Full (s : Subdag) : Prop := ∀ r : ℕ, s[r]? ≠ some ∅

lemma full_foldl_file (cs : List BatchCertificate) (h : s.Full) :
    Full (cs.foldl Subdag.file s) := by
  refine List.foldlRecOn cs _ h fun s hs c _ r => ?_
  rw [Subdag.file, getElem?_insertKey]
  split
  · exact fun he => IndexSet.insert_ne_empty _ _ (Option.some_inj.mp he)
  · exact hs r

lemma Full.filter (h : s.Full) (f : ℕ → Bool) : Full (s.filter fun r _ => f r) := by
  intro r hr
  rw [getElem?_retain, Option.filter_eq_some_iff] at hr
  exact h r hr.1

lemma anchorRound_eq (hfiled : s.Filed) (hfull : s.Full) (hleader : leader ∈ s.certificates)
    (hle : ∀ c ∈ s.certificates, c.round ≤ leader.round) : s.anchorRound = leader.round := by
  obtain ⟨r, cs, hcs, hmem⟩ := mem_certificates.mp hleader
  obtain rfl := hfiled r cs hcs leader hmem
  have hin : (leader.round, cs) ∈ s.toList :=
    ExtTreeMap.mem_toList_iff_getElem?_eq_some.mpr hcs
  obtain ⟨init, z, hz⟩ := (List.eq_nil_or_concat s.toList).resolve_left
    (List.ne_nil_of_mem hin)
  rw [List.concat_eq_append] at hz
  rw [anchorRound, hz, List.getLast?_concat, Option.map_some, Option.getD_some]
  -- the last key is not above the leader's round, and no key is above the last
  have hzin : z ∈ s.toList := hz ▸ List.mem_append_right _ (List.mem_singleton_self z)
  have hzget := ExtTreeMap.mem_toList_iff_getElem?_eq_some.mp (show (z.1, z.2) ∈ s.toList from hzin)
  have hzne : z.2 ≠ ∅ := fun he => hfull z.1 (he ▸ hzget)
  rw [Ne, IndexSet.eq_empty_iff, not_forall_not] at hzne
  obtain ⟨d, hd⟩ := hzne
  have hdle := hle d (mem_certificates.mpr ⟨z.1, z.2, hzget, hd⟩)
  have hdr := hfiled z.1 z.2 hzget d hd
  have hge : leader.round ≤ z.1 := by
    have hsorted : s.toList.Pairwise fun a b => compare a.1 b.1 = .lt :=
      ExtTreeMap.ordered_keys_toList
    rw [hz, List.pairwise_append] at hsorted
    rw [hz, List.mem_append, List.mem_singleton] at hin
    rcases hin with hin | rfl
    · have hlt := hsorted.2.2 _ hin z (List.mem_singleton_self z)
      exact (Nat.compare_eq_lt.mp hlt).le
    · exact Nat.le_refl _
  omega

end Subdag

/-! ### Ordering a stored leader -/

namespace Universe

/-- Previous certificates are certificates, rounds start at `1`, and there are no
ratifications. -/
structure Regular (U : Universe) : Prop where
  sourced : U.Sourced
  positive : ∀ c, U.Has c → 0 < c.round
  plain : ∀ c, U.Has c → TransmissionID.ratification ∉ c.transmissionIds

/-- A subdag that `order_dag_with_dfs` may return for a leader that is due. -/
def Ordered (U : Universe) (g : ℕ) (s : Subdag) : Prop :=
  ∃ r cs leader, U.Has leader ∧ r < leader.round ∧ leader.round % 2 = 0 ∧
    U.Orders g r cs leader s

lemma search_keyed (U : Universe) (g r : ℕ) (cs : List BatchCertificate) :
    (U.search g r cs).Keyed := by
  intro c id p h
  simp only [search] at h
  split at h
  · next q hq =>
    cases h
    exact U.keyed hq
  · cases h

/-- **Ordered subdags pass the checks of `Subdag::from`** that concern the anchor. -/
theorem Ordered.checkAnchor {U : Universe} {g : ℕ} {s : Subdag} (h : U.Ordered g s) :
    checkAnchor s = .ok () := by
  obtain ⟨r, cs, leader, hhas, habove, heven, fuel, certificates, hrun, rfl⟩ := h
  have hkeyed := U.search_keyed g r cs
  have hall := Search.run_preserves (P := fun c => U.Has c ∧ (c = leader ∨ c.round < leader.round))
    hkeyed (fun c p hc hstep => ?_) (by simpa using hhas) hrun
  swap
  · -- a previous certificate is of a lower round
    obtain ⟨id, hid, -, hlook⟩ := hstep
    have hp : U.cert id = some p := by
      simp only [search] at hlook
      split at hlook
      · next q hq => cases hlook; exact hq
      · cases hlook
    have hmem : id ∈ c.previousCertificateIds := by
      simp only [search] at hid
      split at hid
      · cases hid
      · simpa [IndexSet.mem_def] using hid
    have hround := U.previous_round hc.1 hmem hp
    refine ⟨has_of_cert hp, .inr ?_⟩
    rcases hc.2 with rfl | hlt <;> omega
  have hin := (Search.run_spec hkeyed hrun).1 leader (by simp)
  obtain ⟨hfiled, hmem⟩ := Subdag.foldl_file certificates Subdag.filed_empty
  have hfull : Subdag.Full (certificates.foldl Subdag.file ∅) :=
    Subdag.full_foldl_file certificates fun q => by simp
  have hcert : ∀ c, c ∈ Subdag.certificates ((certificates.foldl Subdag.file ∅).filter
      fun round _ => decide (round + g > r)) ↔ c ∈ certificates ∧ r < c.round + g := by
    intro c
    rw [Subdag.mem_certificates_filter hfiled, hmem]
    simp [Subdag.certificates]
  have hleader := (hcert leader).mpr ⟨hin, by omega⟩
  have hanchor := Subdag.anchorRound_eq (hfiled.filter _) (hfull.filter _) hleader fun c hc => by
    rcases (hall c ((hcert c).mp hc).1).2 with rfl | hlt
    · exact Nat.le_refl _
    · exact hlt.le
  -- the leader is alone in its round
  obtain ⟨q, set, hset, hleaderset⟩ := Subdag.mem_certificates.mp hleader
  obtain rfl := hfiled.filter _ q set hset leader hleaderset
  have hone : set.toList = [leader] := by
    have honly : ∀ c ∈ set.toList, c = leader := by
      intro c hc
      have hround := hfiled.filter _ _ set hset c hc
      have hmem := (hcert c).mp (Subdag.mem_certificates.mpr ⟨_, set, hset, hc⟩)
      exact ((hall c hmem.1).2).resolve_right (by omega)
    have hrep := List.eq_replicate_of_mem honly
    have hnd := set.nodup
    rw [hrep, List.nodup_replicate] at hnd
    have hpos : 0 < set.toList.length := List.length_pos_of_mem hleaderset
    rw [hrep, show set.toList.length = 1 by omega]
    rfl
  unfold AmareleoChain.checkAnchor
  rw [hanchor, hset, if_neg ?_, if_neg (by omega), if_neg (by simp [hone])]
  rw [Bool.not_eq_true, ExtTreeMap.isEmpty_eq_false_iff]
  intro hempty
  rw [hempty] at hset
  simp at hset

end Universe

namespace BFT

variable {S V : Type} [Ledger V] {U : Universe} {committee : ℕ → Committee} {g bootRound : ℕ}
  {boot : List BatchCertificate} {b b' : BFT S V} {c p leader : BatchCertificate} {id : Field}
  {subdag : Subdag}

namespace Consistent

/-- A previous certificate above the horizon is stored. -/
lemma stored_of_previous (hU : U.Regular) (h : Consistent U committee g boot bootRound b)
    (hc : b.Stored c) (hp : U.Has p) (hid : p.id ∈ c.previousCertificateIds)
    (hr : b.dag.lastCommittedRound < p.round + g) : b.Stored p := by
  have hpos := hU.positive p hp
  have hgc := h.gcRound
  exact h.stored_of_parent hc ⟨h.has hc, hp, hid⟩ (by omega)

lemma stored_of_step (hU : U.Regular) (h : Consistent U committee g boot bootRound b)
    (hc : b.Stored c) (hstep : (b.search true).Step c p) : b.Stored p := by
  obtain ⟨hp, hid, -, hr, -⟩ := step_search h.within (h.has hc) hstep
  rw [h.maxGcRounds] at hr
  exact h.stored_of_previous hU hc hp hid hr

lemma total_search (hU : U.Regular) (h : Consistent U committee g boot bootRound b) :
    (b.search true).Total b.Stored := by
  intro c hc id hid hskip
  rw [mem_search_children, h.maxGcRounds] at hid
  obtain ⟨p, hp, rfl⟩ := hU.sourced c id (h.has hc) hid.2
  have hround := (h.has hc).round_previous hp hid.2
  have hps := h.stored_of_previous hU hc hp hid.2 (by omega)
  have hfound : ∃ q, (b.search true).lookup c p.id = .ok q := by
    simp only [search, Storage.getCertificate]
    cases b.dag.getCertificateForRoundWithId (c.round - 1) p.id with
    | some q => exact ⟨q, rfl⟩
    | none => exact ⟨p, by rw [hps]⟩
  obtain ⟨q, hq⟩ := hfound
  have hchild : p.id ∈ (b.search true).children c := by
    rw [mem_search_children, h.maxGcRounds]
    exact hid
  exact ⟨q, hq, h.stored_of_step hU hc ⟨p.id, hchild, hskip, hq⟩⟩

/-- **The subdag of a stored leader** is ordered, of stored certificates that are in no block,
with the leader as its anchor. -/
theorem orderDagWithDfs_exists (hU : U.Regular) (h : Consistent U committee g boot bootRound b)
    (hleader : b.Stored leader) (habove : b.dag.lastCommittedRound < leader.round) :
    ∃ subdag, b.orderDagWithDfs true leader = .ok subdag ∧
      (∀ c ∈ subdag.certificates, b.Stored c ∧ ¬ InChain b.ledger c.id) ∧
      subdag.anchorRound = leader.round := by
  have hfuel : ((b.search true).run (b.knownIds.length + 2) [] [leader]).isSome :=
    run_search_isSome h.within
  obtain ⟨cs, hrun⟩ := (h.total_search hU).run (by simpa using hleader) hfuel
  have hall := Search.run_preserves (search_keyed h.within)
    (fun n p hn hstep => h.stored_of_step hU hn hstep) (by simpa using hleader) hrun
  have hok : b.orderDagWithDfs true leader = .ok ((cs.foldl Subdag.file ∅).filter fun round _ =>
      round + b.storage.maxGcRounds > b.dag.lastCommittedRound) := by
    unfold orderDagWithDfs
    rw [hrun]
  obtain ⟨hfiled, hmem⟩ := Subdag.foldl_file cs Subdag.filed_empty
  have hfull : Subdag.Full (cs.foldl Subdag.file ∅) :=
    Subdag.full_foldl_file cs fun r => by simp
  obtain ⟨-, hin, hspec, -⟩ := orderDagWithDfs_spec h.within (h.has hleader) habove hok
  refine ⟨_, hok, fun c hc => ⟨?_, fun hchain => ?_⟩, ?_⟩
  · rw [Subdag.mem_certificates_filter hfiled, hmem] at hc
    exact hall c (hc.1.resolve_left (by simp [Subdag.certificates]))
  · obtain ⟨hhas, -, hfresh⟩ := hspec c hc
    have hcommitted := h.chain hhas hchain
    rcases hfresh with rfl | ⟨hr, hrec, -⟩
    · have := (h.once.known _ hcommitted).2
      omega
    · rw [h.maxGcRounds] at hr
      have := (h.once.recents c.round c.id).mpr ⟨⟨c, hcommitted, rfl, rfl⟩, hr⟩
      rw [hrec] at this
      cases this
  · exact Subdag.anchorRound_eq (hfiled.filter _) (hfull.filter _) hin
      fun c hc => (hspec c hc).2.1

end Consistent

/-! ### Retrieving the transmissions -/

section Retrieval

variable [StorageService S]

lemma retrieveTransmission_ok (round : ℕ) (acc : Deduped) {id : TransmissionID}
    (record : Deduped → Deduped) (h : (b.storage.getTransmission id).isSome) :
    ∃ acc', b.retrieveTransmission round acc id record = .ok acc' := by
  obtain ⟨t, ht⟩ := Option.isSome_iff_exists.mp h
  unfold retrieveTransmission
  rw [ht]
  split
  · exact ⟨_, rfl⟩
  · split <;> exact ⟨_, rfl⟩

lemma collectTransmission_ok (round : ℕ) (acc : Deduped) {id : TransmissionID}
    (h : (b.storage.getTransmission id).isSome) (hplain : id ≠ .ratification) :
    ∃ acc', b.collectTransmission round acc id = .ok acc' := by
  cases id with
  | ratification => exact absurd rfl hplain
  | solution id checksum =>
    simp only [collectTransmission]
    split
    · exact ⟨_, rfl⟩
    · exact retrieveTransmission_ok round acc _ h
  | transaction id checksum =>
    simp only [collectTransmission]
    split
    · exact ⟨_, rfl⟩
    · exact retrieveTransmission_ok round acc _ h

lemma foldlM_ok {α β ε : Type} {f : β → α → Except ε β} {l : List α}
    (h : ∀ a ∈ l, ∀ acc, ∃ acc', f acc a = .ok acc') (acc : β) :
    ∃ acc', l.foldlM f acc = .ok acc' := by
  induction l generalizing acc with
  | nil => exact ⟨acc, rfl⟩
  | cons a l ih =>
    rw [List.forall_mem_cons] at h
    obtain ⟨acc', hacc⟩ := h.1 acc
    obtain ⟨r, hr⟩ := ih h.2 acc'
    exact ⟨r, by rw [List.foldlM_cons, hacc]; exact hr⟩

lemma collectTransmissions_ok {cs : List BatchCertificate}
    (h : ∀ c ∈ cs, ∀ t ∈ c.transmissionIds,
      (b.storage.getTransmission t).isSome ∧ t ≠ .ratification) :
    ∃ m, b.collectTransmissions cs = .ok m := by
  unfold collectTransmissions
  have houter : ∃ acc, cs.foldlM (fun acc (certificate : BatchCertificate) =>
      certificate.transmissionIds.toList.foldlM (b.collectTransmission certificate.round) acc)
      (⟨∅, ∅, ∅⟩ : Deduped) = .ok acc :=
    foldlM_ok (fun c hc acc => foldlM_ok (fun t ht acc =>
      collectTransmission_ok c.round acc (h c hc t ht).1 (h c hc t ht).2) acc) _
  obtain ⟨acc, hacc⟩ := houter
  exact ⟨acc.transmissions, by rw [hacc]; rfl⟩

end Retrieval

/-! ### Building the blocks -/

section Serves

/-- An ordered subdag, of stored certificates that are in no block. -/
structure Committable (U : Universe) (g : ℕ) (b : BFT S V) (s : Subdag) : Prop where
  ordered : U.Ordered g s
  stored : ∀ c ∈ s.certificates, b.Stored c ∧ ¬ InChain b.ledger c.id

lemma Committable.congr {s : Subdag} (h : b'.Committable U g s) (hstorage : b'.storage = b.storage)
    (hchain : b.ledger.blocks <+: b'.ledger.blocks) : b.Committable U g s := by
  refine ⟨h.ordered, fun c hc => ?_⟩
  obtain ⟨hstored, hfresh⟩ := h.stored c hc
  refine ⟨?_, fun hin => hfresh (hin.mono hchain)⟩
  rwa [Stored, ← hstorage]

variable [StorageService S]

/-- The node is not shutting down, and `Subdag::from` and consensus accept what it can commit,
with the transmissions it collects for it, while its chain grows. -/
structure Serves [Network] (U : Universe) (g : ℕ) (b : BFT S V) : Prop where
  running : b.ledger.shutdown = false
  subdagFrom : ∀ s, b.Committable U g s → Network.subdagFrom s = .ok ()
  sender : ∃ send, b.consensusSender = some send ∧ ConsensusSender.Faithful send ∧
    ∀ l s t, b.ledger.blocks <+: l.blocks → l.shutdown = false →
      ({ b with ledger := l } : BFT S V).Committable U g s →
      ({ b with ledger := l } : BFT S V).collectTransmissions s.certificates = .ok t →
      (send l s t).1 = .callback (.ok ()) ∧ (send l s t).2.shutdown = false

lemma Serves.faithful [Network] (h : b.Serves U g) : b.FaithfulSender := by
  obtain ⟨send, hsend, hf, -⟩ := h.sender
  intro send' hsend'
  rw [hsend] at hsend'
  cases hsend'
  exact hf

lemma collectTransmissions_congr (hstorage : b'.storage = b.storage) (l : CoreLedgerService V)
    (cs : List BatchCertificate) : ({ b' with ledger := l } : BFT S V).collectTransmissions cs
      = ({ b with ledger := l } : BFT S V).collectTransmissions cs := by
  cases b
  cases b'
  cases hstorage
  rfl

lemma Serves.congr [Network] (h : b.Serves U g) (hstorage : b'.storage = b.storage)
    (hsender : b'.consensusSender = b.consensusSender)
    (hchain : b.ledger.blocks <+: b'.ledger.blocks) (hrunning : b'.ledger.shutdown = false) :
    b'.Serves U g := by
  obtain ⟨send, hsend, hfaithful, hanswers⟩ := h.sender
  refine ⟨hrunning, fun s hs => h.subdagFrom s (hs.congr hstorage hchain), send,
    hsender.trans hsend, hfaithful, fun l s t hl hshut hs ht => ?_⟩
  exact hanswers l s t (hchain.trans hl) hshut (hs.congr hstorage List.prefix_rfl)
    ((collectTransmissions_congr hstorage l _).symm.trans ht)

end Serves

variable [StorageService S] [LawfulStorageService S] [Network]

/-- The certificates that are in no block. -/
def Unblocked (l : CoreLedgerService V) (c : BatchCertificate) : Prop := ¬ InChain l c.id

/-- **The block of a stored leader is built**, and the leader is committed. -/
theorem commitLeader_ok [LawfulLedger V] (hU : U.Regular)
    (h : Consistent U committee g boot bootRound b) (hserves : b.Serves U g)
    (hcarries : b.storage.Carries (Unblocked b.ledger)) (hleader : b.Stored leader)
    (habove : b.dag.lastCommittedRound < leader.round) (heven : leader.round % 2 = 0) :
    ∃ subdag l, b.orderDagWithDfs true leader = .ok subdag ∧ b.Advanced false subdag l ∧
      l.shutdown = false ∧ b.commitLeader true false leader
        = (.committed, ({ b with ledger := l }).commitSubdag leader subdag) := by
  obtain ⟨subdag, hsub, hall, hanchor⟩ := h.orderDagWithDfs_exists hU hleader habove
  have hcommittable : b.Committable U g subdag :=
    ⟨⟨_, _, _, h.has hleader, habove, heven, h.orders hU.sourced (h.has hleader) hsub⟩, hall⟩
  have hretrieved : ∀ c ∈ subdag.certificates, ∀ t ∈ c.transmissionIds,
      (b.storage.getTransmission t).isSome ∧ t ≠ .ratification := fun c hc t ht =>
    ⟨hcarries.getTransmission (hall c hc).1 (hall c hc).2 ht,
      fun he => hU.plain c (h.has (hall c hc).1) (he ▸ ht)⟩
  obtain ⟨transmissions, ht⟩ := collectTransmissions_ok hretrieved
  obtain ⟨send, hsend, hfaithful, hanswers⟩ := hserves.sender
  obtain ⟨hok, hshut⟩ := hanswers b.ledger subdag transmissions List.prefix_rfl hserves.running
    hcommittable ht
  obtain ⟨hlatest, hblock, -⟩ := hfaithful b.ledger subdag transmissions
  obtain ⟨block, hauth, hblocks⟩ := hblock hok
  refine ⟨subdag, (send b.ledger subdag transmissions).2, hsub,
    ⟨hlatest, .inr ⟨block, hauth, hblocks⟩⟩, hshut, ?_⟩
  have hbuild : b.buildBlock leader.round subdag
      = (.committed, { b with ledger := (send b.ledger subdag transmissions).2 }) := by
    unfold buildBlock
    rw [ht, hserves.subdagFrom subdag hcommittable]
    dsimp only
    rw [if_neg (not_not.mpr hanchor)]
    unfold triggerConsensus
    rw [hsend]
    dsimp only
    rw [hok]
  unfold commitLeader
  rw [hsub]
  dsimp only
  rw [hbuild]
  rfl

/-- **Every leader of a chunk is committed.** -/
theorem commitLeaders_ok [LawfulLedger V] (hU : U.Regular)
    (h : Consistent U committee g boot bootRound b) (hserves : b.Serves U g)
    (hcarries : b.storage.Carries (Unblocked b.ledger)) {leaders : List BatchCertificate}
    (hleaders : ∀ c ∈ leaders, b.Stored c ∧ b.dag.lastCommittedRound < c.round ∧
      c.round % 2 = 0)
    (hpair : leaders.Pairwise fun p q => p.round < q.round) :
    ∃ b', b.commitLeaders true false leaders = (.committed, b') ∧
      Commits true false b leaders b' ∧ Consistent U committee g boot bootRound b' ∧
      b'.storage.Carries (Unblocked b'.ledger) ∧ b'.storage = b.storage ∧
      b'.account = b.account ∧
      ∀ x, leaders.getLast? = some x → b'.dag.lastCommittedRound = x.round := by
  induction leaders generalizing b with
  | nil => exact ⟨b, rfl, .nil b, h, hcarries, rfl, rfl, by simp⟩
  | cons leader leaders ih =>
    rw [List.forall_mem_cons] at hleaders
    rw [List.pairwise_cons] at hpair
    obtain ⟨hstored, habove, heven⟩ := hleaders.1
    obtain ⟨subdag, l, hsub, hadv, hshut, hcommit⟩ :=
      commitLeader_ok hU h hserves hcarries hstored habove heven
    obtain ⟨hnext, hround⟩ := h.commitSubdag (h.has hstored) habove heven hsub hadv
    have hchain : b.ledger.blocks <+: l.blocks := by
      obtain ⟨-, ⟨-, rfl⟩ | ⟨block, -, hblocks⟩⟩ := hadv
      · exact List.prefix_rfl
      · exact hblocks ▸ List.prefix_append _ _
    have hcarries' : b.storage.Carries (Unblocked l) :=
      hcarries.imp fun c hc hin => hc (hin.mono hchain)
    obtain ⟨b', hrun, hcommits, hb', hc', hst, hacc, hlast⟩ := ih hnext
      (hserves.congr rfl rfl hchain hshut) hcarries'
      (fun c hc => ⟨(hleaders.2 c hc).1, by rw [hround]; exact hpair.1 c hc,
        (hleaders.2 c hc).2.2⟩) hpair.2
    refine ⟨b', ?_, .cons hsub hadv hcommits, hb', hc', hst, hacc, fun x hx => ?_⟩
    · rw [commitLeaders, hcommit]
      exact hrun
    · cases leaders with
      | nil =>
        cases hcommits
        cases hx
        exact hround
      | cons z leaders =>
        rw [List.getLast?_cons_cons] at hx
        exact hlast x hx

/-! ### One call -/

omit [StorageService S] [LawfulStorageService S] [Network] in
open Classical in
lemma Consistent.chain_spec (h : Consistent U committee g boot bootRound b)
    (hleader : b.Stored leader) (habove : b.dag.lastCommittedRound < leader.round) {m n : ℕ}
    (hm : b.dag.lastCommittedRound = 2 * m) (hn : leader.round = 2 * n) :
    (∀ p ∈ LeaderChain.chain (leaderIn b) U.Path m n leader,
      b.Stored p ∧ b.dag.lastCommittedRound < p.round ∧ p.round % 2 = 0) ∧
    (LeaderChain.chain (leaderIn b) U.Path m n leader).Pairwise fun p q => p.round < q.round := by
  have hdue := (h.due_iff hm hleader hn).mpr rfl
  obtain ⟨hpair, hmem⟩ := hdue.ascending h.once.wellFormed habove
  refine ⟨fun p hp => ?_, hpair⟩
  obtain ⟨hr, -⟩ := hmem p hp
  rcases LeaderChain.mem_chain hp with rfl | ⟨s, hs, -, hget⟩
  · exact ⟨hleader, habove, by omega⟩
  · obtain ⟨hps, hround, -⟩ := (h.graph (by omega)).mp hget
    exact ⟨hps, hr, by omega⟩

open Classical in
/-- **One call of `update_dag`** for a certificate that is stored: no leader is ready and
nothing is committed, or one is and its whole chain is. -/
theorem updateDag_ok [LawfulLedger V] (hU : U.Regular)
    (h : Consistent U committee g boot bootRound { b with dag := b.dag.insert c })
    (hserves : b.Serves U g) (hcarries : b.storage.Carries (Unblocked b.ledger))
    (hlookback : b.dag.lastCommittedRound < c.round - 1 →
      ∃ com, b.ledger.getCommitteeLookbackForRound (c.round - 1) = .ok com) :
    (∃ l, Quiet b.account b.ledger l ∧
      (∀ leader, ¬ Ready { b with dag := b.dag.insert c } c leader b.account) ∧
      (b.updateDag true false c).2 = { b with dag := b.dag.insert c, ledger := l }) ∨
    (∃ leader x b', Ready { b with dag := b.dag.insert c } c leader b.account ∧
      Consistent U committee g boot bootRound
        (({ b with dag := b.dag.insert c } : BFT S V).withLeader x) ∧
      Commits true false (({ b with dag := b.dag.insert c } : BFT S V).withLeader x)
        (LeaderChain.chain (leaderIn { b with dag := b.dag.insert c }) U.Path
          (b.dag.lastCommittedRound / 2) (leader.round / 2) leader) b' ∧
      Consistent U committee g boot bootRound b' ∧
      b'.storage = b.storage ∧ b'.account = b.account ∧
      b'.storage.Carries (Unblocked b'.ledger) ∧ b'.dag.lastCommittedRound = leader.round ∧
      (b.updateDag true false c).2
        = { b' with storage := b'.storage.garbageCollectCertificates leader.round }) := by
  by_cases hex : ∃ leader, Ready { b with dag := b.dag.insert c } c leader b.account
  · right
    obtain ⟨leader, hready⟩ := hex
    have habove := hready.above
    have hlcr : (b.dag.insert c).lastCommittedRound = b.dag.lastCommittedRound :=
      DAG.lastCommittedRound_insert
    obtain ⟨x, hown, hupdate⟩ := updateDag_ready true false hready h.own
      (hlookback (by dsimp only at habove; omega))
    obtain ⟨hs, hround, -⟩ := (h.graph habove).mp hready.found
    -- the leaders due, and the loop over them
    have hquiet : ∀ y, OwnLeader b.account (b.withLeader y).ledger →
        Consistent U committee g boot bootRound
          (({ b with dag := b.dag.insert c } : BFT S V).withLeader y) := fun y hy =>
      ⟨h.once.congr rfl rfl List.prefix_rfl, h.indexed, h.closed, h.stored, h.maxGcRounds,
        h.gcRound, h.graph, h.chain, hy, h.even⟩
    have heven := h.even
    have hready_even := hready.even
    have hm : (b.dag.insert c).lastCommittedRound = 2 * (b.dag.lastCommittedRound / 2) := by
      dsimp only at heven
      omega
    have hn : leader.round = 2 * (leader.round / 2) := by omega
    obtain ⟨previous, hprev, hchain⟩ := ((hquiet x hown).due_iff hm hs hn).mpr rfl
    obtain ⟨y, hy, hown', -⟩ := previousLeaders_spec
      (({ b with dag := b.dag.insert c } : BFT S V).withLeader x) leader
      (leaderRounds (b.dag.insert c).lastCommittedRound leader.round)
    have hy' := hquiet y (hown' hown)
    obtain ⟨hmem, hpair⟩ := hy'.chain_spec hs (hround ▸ habove) hm hn
    have hserves' : BFT.Serves U g
        (({ b with dag := b.dag.insert c } : BFT S V).withLeader y) :=
      hserves.congr rfl rfl List.prefix_rfl hserves.running
    obtain ⟨b', hrun, hcommits, hb', hc', hst, hacc, hlast⟩ :=
      commitLeaders_ok hU hy' hserves' hcarries hmem hpair
    refine ⟨leader, y, b', hready, hy', hcommits, hb', hst, hacc, hc',
      hlast leader (by rw [LeaderChain.getLast?_chain]), ?_⟩
    have hpl : (({ b with dag := b.dag.insert c } : BFT S V).withLeader x).previousLeaders leader
        (leaderRounds (b.dag.insert c).lastCommittedRound leader.round)
          = (.ok previous, ({ b with dag := b.dag.insert c } : BFT S V).withLeader y) :=
      Prod.ext hprev hy
    have hrun' : (({ b with dag := b.dag.insert c } : BFT S V).withLeader y).commitLeaders true
        false (leader :: previous).reverse = (.committed, b') := by
      rw [← hchain]
      exact hrun
    rw [hupdate]
    unfold commitLeaderCertificate
    rw [show (({ b with dag := b.dag.insert c } : BFT S V).withLeader x).dag
      = b.dag.insert c from rfl, hpl]
    dsimp only
    rw [hrun']
  · rw [not_exists] at hex
    rcases updateDag_cases true false hserves.faithful c with ⟨l, hq, hres⟩ |
      ⟨leader, author, -, -, -, -, -, -, -, hauthor, hready, -⟩
    · exact .inl ⟨l, hq, hex, hres⟩
    · rw [hauthor h.own] at hready
      exact absurd hready (hex leader)

end BFT

end AmareleoChain
