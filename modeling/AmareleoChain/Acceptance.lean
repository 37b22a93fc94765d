import AmareleoChain.StorageInvariant

/-!
What the storage accepts.

A certificate is inserted when it is new, made in time by a member of the committee and signed
by a quorum of it, when its transmissions are found, and when its previous certificates, unless
they are collected already, are stored certificates of distinct authors reaching the quorum of
their round.
-/

namespace AmareleoChain

open Std

/-- The transmissions that come with a certificate are found. -/
def StorageService.FindsProvided (S : Type) [StorageService S] : Prop :=
  ∀ (s : S) (header : BatchHeader) (provided : IndexMap TransmissionID Transmission)
    (aborted : IndexSet TransmissionID), (∀ t ∈ header.transmissionIds, t ∈ provided.keys) →
    ∃ missing, StorageService.findMissingTransmissions s header provided aborted = .ok missing

lemma BFTMemoryService.findsProvided : StorageService.FindsProvided BFTMemoryService :=
  fun _ header _ _ h => findMissing_exists header.transmissionIds.nodup
    fun t ht => .inr (.inl (h t ht))

namespace Storage

variable {S V : Type} {s : Storage S} {r : ℕ} {c d : BatchCertificate}

/-! ### The certificates of a round -/

lemma mem_getCertificatesForRound (h : s.Indexed) (hr : r ≠ 0) :
    c ∈ s.getCertificatesForRound r ↔ s.certificates[c.id]? = some c ∧ c.round = r := by
  rw [getCertificatesForRound, if_neg hr, ← IndexSet.mem_def, IndexSet.mem_ofList,
    List.mem_filterMap]
  constructor
  · rintro ⟨⟨id, a⟩, he, hc⟩
    obtain ⟨d, hd, hround, -⟩ := (h.entries r id a).mp he
    rw [getCertificate, hd] at hc
    cases hc
    exact ⟨h.keyed hd ▸ hd, hround⟩
  · rintro ⟨hc, hround⟩
    exact ⟨(c.id, c.author), (h.entries r c.id c.author).mpr ⟨c, hc, hround, rfl⟩, hc⟩

lemma nodup_getCertificatesForRound (s : Storage S) (r : ℕ) :
    (s.getCertificatesForRound r).Nodup := by
  unfold getCertificatesForRound
  split
  · exact List.nodup_nil
  · exact IndexSet.nodup _

lemma nodup_map_id (h : s.Indexed) (hr : r ≠ 0) :
    ((s.getCertificatesForRound r).map BatchCertificate.id).Nodup := by
  refine (s.nodup_getCertificatesForRound r).map_on fun c hc d hd hid => ?_
  have hc' := ((mem_getCertificatesForRound h hr).mp hc).1
  have hd' := ((mem_getCertificatesForRound h hr).mp hd).1
  rw [hid, hd'] at hc'
  exact (Option.some_inj.mp hc').symm

lemma nodup_map_author (h : s.Indexed) (hr : r ≠ 0) :
    ((s.getCertificatesForRound r).map BatchCertificate.author).Nodup := by
  refine (s.nodup_getCertificatesForRound r).map_on fun c hc d hd hauthor => ?_
  obtain ⟨hc, hcr⟩ := (mem_getCertificatesForRound h hr).mp hc
  obtain ⟨hd, hdr⟩ := (mem_getCertificatesForRound h hr).mp hd
  exact h.unique hc hd (hcr.trans hdr.symm) hauthor

lemma containsCertificatesForRound_of_stored (h : s.Indexed) (hc : s.certificates[c.id]? = some c) :
    s.containsCertificatesForRound c.round = true := by
  obtain ⟨set, hset, -⟩ := mem_entries.mp ((h.entries _ _ _).mpr ⟨c, hc, rfl, rfl⟩)
  rw [containsCertificatesForRound, ExtTreeMap.contains_eq_isSome_getElem?, hset]
  rfl

/-! ### The checks -/

lemma checkPreviousCertificates_eq {round : ℕ} {gcLog : String}
    {previous : List BatchCertificate} {met : Finset Address}
    (h : ∀ p ∈ previous, s.certificates[p.id]? = some p ∧ p.round = r)
    (hnd : (previous.map BatchCertificate.author).Nodup)
    (hmet : ∀ p ∈ previous, p.author ∉ met) :
    s.checkPreviousCertificates round r gcLog (previous.map BatchCertificate.id) met
      = .ok (met ∪ authorsOf previous) := by
  induction previous generalizing met with
  | nil => simp [checkPreviousCertificates, authorsOf]
  | cons p previous ih =>
    rw [List.forall_mem_cons] at h hmet
    rw [List.map_cons, List.nodup_cons] at hnd
    obtain ⟨⟨hp, hround⟩, h⟩ := h
    have hrest : ∀ q ∈ previous, q.author ∉ insert p.author met := by
      intro q hq hin
      rcases Finset.mem_insert.mp hin with heq | hin
      · exact hnd.1 (heq ▸ List.mem_map_of_mem hq)
      · exact hmet.2 q hq hin
    rw [List.map_cons, checkPreviousCertificates, getCertificate, hp]
    dsimp only
    rw [if_neg (not_not_intro hround), if_neg hmet.1, ih h hnd.2 hrest]
    congr 1
    ext a
    simp only [Finset.mem_union, Finset.mem_insert, mem_authorsOf, List.mem_cons,
      exists_eq_or_imp]
    tauto

lemma checkSigners_eq {committee : Committee} {round : ℕ} {gcLog : String}
    {signatures : List Signature} {met : Finset Address}
    (h : ∀ x ∈ signatures, x.toAddress ∈ committee.members) :
    checkSigners committee round gcLog signatures met
      = .ok (met ∪ (signatures.map Signature.toAddress).toFinset) := by
  induction signatures generalizing met with
  | nil => simp [checkSigners]
  | cons x signatures ih =>
    rw [List.forall_mem_cons] at h
    have hmember : committee.isCommitteeMember x.toAddress = true := decide_eq_true h.1
    rw [checkSigners, if_neg (not_not_intro hmember), ih h.2]
    congr 1
    ext a
    simp only [Finset.mem_union, Finset.mem_insert, List.map_cons, List.toFinset_cons]
    tauto

variable [StorageService S] [Network] [Ledger V]

/-- The previous certificates that the storage accepts: stored certificates of the round, of
distinct authors that are members of the committee and reach its quorum. -/
structure Previous (l : CoreLedgerService V) (s : Storage S) (r : ℕ) (ids : List Field)
    (committee : Committee) (previous : List BatchCertificate) : Prop where
  lookback : l.getCommitteeLookbackForRound r = .ok committee
  ids : previous.map BatchCertificate.id = ids
  stored : ∀ p ∈ previous, s.certificates[p.id]? = some p ∧ p.round = r
  members : ∀ p ∈ previous, p.author ∈ committee.members
  distinct : (previous.map BatchCertificate.author).Nodup
  quorum : committee.isQuorumThresholdReached (authorsOf previous) = true

/-- What makes a certificate acceptable. -/
structure Acceptable (l : CoreLedgerService V) (now : ℤ) (s : Storage S) (c : BatchCertificate)
    (transmissions : IndexMap TransmissionID Transmission)
    (aborted : IndexSet TransmissionID) : Prop where
  above : s.gcRound < c.round
  fresh : s.certificates[c.id]? = none
  fresh_author : ∀ {d : BatchCertificate}, s.certificates[d.id]? = some d →
    d.round = c.round → d.author ≠ c.author
  timestamp : c.timestamp ≤ now + maxTimestampDeltaInSecs
  found : ∃ missing, StorageService.findMissingTransmissions s.transmissions c.batchHeader
    transmissions aborted = .ok missing
  endorsed : ∃ committee, l.getCommitteeLookbackForRound c.round = .ok committee ∧
    c.author ∈ committee.members ∧ (∀ x ∈ c.signatures, x.toAddress ∈ committee.members) ∧
    committee.isQuorumThresholdReached
      (insert c.author (c.signatures.toList.map Signature.toAddress).toFinset) = true
  previous : s.gcRound < c.round - 1 → ∃ committee previous,
    s.Previous l (c.round - 1) c.previousCertificateIds.toList committee previous

omit [StorageService S] in
lemma Previous.checkPreviousRound {l : CoreLedgerService V} {header : BatchHeader}
    {committee : Committee} {previous : List BatchCertificate} (hs : s.Indexed)
    (h : s.Previous l r header.previousCertificateIds.toList committee previous)
    (gcLog : String) : s.checkPreviousRound l header r gcLog = .ok () := by
  have hloop : s.checkPreviousCertificates header.round r gcLog
      (previous.map BatchCertificate.id) ∅ = .ok (∅ ∪ authorsOf previous) :=
    checkPreviousCertificates_eq h.stored h.distinct (by simp)
  rw [h.ids, Finset.empty_union] at hloop
  have hround : s.containsCertificatesForRound r = true := by
    obtain ⟨a, ha⟩ := committee.nonempty_of_quorum h.quorum
    obtain ⟨p, hp, -⟩ := mem_authorsOf.mp ha
    obtain ⟨hp, rfl⟩ := h.stored p hp
    exact containsCertificatesForRound_of_stored hs hp
  -- there are no more of them than authors, and these are members
  have hlength : header.previousCertificateIds.toList.length ≤ committee.numMembers := by
    rw [← h.ids, List.length_map, Committee.numMembers, ← List.length_map
      (f := BatchCertificate.author), ← List.toFinset_card_of_nodup h.distinct]
    refine Finset.card_le_card fun a ha => ?_
    obtain ⟨p, hp, rfl⟩ := List.mem_map.mp (List.mem_toFinset.mp ha)
    exact h.members p hp
  unfold Storage.checkPreviousRound
  rw [h.lookback]
  dsimp only
  rw [if_neg (not_not_intro hround), if_neg (Nat.not_lt.mpr hlength), hloop]
  dsimp only
  rw [if_neg (not_not_intro h.quorum)]

/-- **An acceptable certificate** is inserted. -/
theorem Acceptable.insertCertificate {l : CoreLedgerService V} {now : ℤ}
    {transmissions : IndexMap TransmissionID Transmission} {aborted : IndexSet TransmissionID}
    (hs : s.Indexed) (h : s.Acceptable l now c transmissions aborted) :
    ∃ missing, StorageService.findMissingTransmissions s.transmissions c.batchHeader
        transmissions aborted = .ok missing ∧
      s.insertCertificate l now c transmissions aborted
        = (.ok (), s.insertCertificateAtomic c aborted missing) := by
  obtain ⟨missing, hmissing⟩ := h.found
  obtain ⟨committee, hcommittee, hauthor, hsigners, hquorum⟩ := h.endorsed
  have htime : checkTimestampForLiveness now c.timestamp = .ok () :=
    if_neg (Int.not_lt.mpr h.timestamp)
  have hbatch : s.containsBatch c.batchHeader.batchId = false := by
    have hnone : s.batchIds[c.id]? = none := by rw [hs.batchIds, h.fresh]; rfl
    rw [containsBatch, ExtTreeMap.contains_eq_isSome_getElem?]
    exact Option.isSome_eq_false_iff.mpr (Option.isNone_iff_eq_none.mpr hnone)
  have hfresh : s.containsCertificate c.id = false := by
    rw [containsCertificate, ExtTreeMap.contains_eq_isSome_getElem?, h.fresh]
    rfl
  have hnew : s.containsCertificateInRoundFrom c.round c.author = false := by
    rw [Bool.eq_false_iff, Ne, containsCertificateInRoundFrom_iff hs]
    rintro ⟨d, hd, hr, ha⟩
    exact h.fresh_author hd hr ha
  have hheader : s.checkBatchHeader l now c.batchHeader transmissions aborted = .ok missing := by
    have hmember : committee.isCommitteeMember c.batchHeader.author = true := decide_eq_true hauthor
    have hlookback : l.getCommitteeLookbackForRound c.batchHeader.round = .ok committee :=
      hcommittee
    have htime' : checkTimestampForLiveness now c.batchHeader.timestamp = .ok () := htime
    unfold checkBatchHeader
    dsimp only
    rw [if_neg (by simp [hbatch]), hlookback]
    dsimp only
    rw [if_neg (not_not_intro hmember), htime']
    dsimp only
    rw [hmissing]
    dsimp only
    split
    · next habove =>
      obtain ⟨_, previous, hprevious⟩ := h.previous habove
      have hround : s.checkPreviousRound l c.batchHeader (c.batchHeader.round - 1)
          s!"(gc = {s.gcRound})" = .ok () := hprevious.checkPreviousRound hs _
      rw [hround]
    · rfl
  refine ⟨missing, hmissing, ?_⟩
  unfold Storage.insertCertificate
  rw [if_neg (Nat.not_le.mpr h.above)]
  unfold checkCertificate
  dsimp only
  rw [if_neg (by simp [hfresh]), if_neg (by simp [hnew]), hheader]
  dsimp only
  rw [htime]
  dsimp only
  rw [hcommittee]
  dsimp only
  rw [checkSigners_eq hsigners]
  dsimp only
  rw [← Finset.insert_eq, if_neg (not_not_intro hquorum)]

end Storage

end AmareleoChain
