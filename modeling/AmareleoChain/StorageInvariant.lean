import AmareleoChain.Development
import AmareleoChain.Storage

/-!
The representation invariant of the storage.

`Storage.Indexed` says that the three maps of certificates describe one set of certificates;
`Storage.Closed` that, above the garbage collection round, this set is closed under previous
certificates. Each operation is shown to keep both, by way of one lemma that says what the
operation does to the stored certificates.
-/

namespace AmareleoChain

open Std

namespace Storage

variable {S V : Type}

/-! ### The invariant -/

/-- The maps of certificates, of batch IDs and of rounds describe the same certificates, at
most one for each author and round. -/
structure Indexed (s : Storage S) : Prop where
  keyed : ∀ {id : Field} {c : BatchCertificate}, s.certificates[id]? = some c → c.id = id
  batchIds : ∀ id : Field, s.batchIds[id]? = s.certificates[id]?.map BatchCertificate.round
  nonempty : ∀ r : ℕ, s.rounds[r]? ≠ some ∅
  entries : ∀ (r : ℕ) (id : Field) (a : Address), (id, a) ∈ s.entries r ↔
    ∃ c : BatchCertificate, s.certificates[id]? = some c ∧ c.round = r ∧ c.author = a
  unique : ∀ {c d : BatchCertificate}, s.certificates[c.id]? = some c →
    s.certificates[d.id]? = some d → c.round = d.round → c.author = d.author → c = d

/-- The previous certificates of `c` are stored, are of the round just below, and have
distinct authors reaching the quorum of `committee` at that round. -/
def PreviousStored (committee : ℕ → Committee) (s : Storage S) (c : BatchCertificate) : Prop :=
  ∃ previous : List BatchCertificate,
    previous.map BatchCertificate.id = c.previousCertificateIds.toList ∧
    (∀ p ∈ previous, s.certificates[p.id]? = some p ∧ p.round + 1 = c.round) ∧
    (previous.map BatchCertificate.author).Nodup ∧
    (committee (c.round - 1)).isQuorumThresholdReached (authorsOf previous) = true

/-- Stored certificates are above the garbage collection round, and have their previous
certificates stored when these would be above it too. -/
structure Closed (committee : ℕ → Committee) (s : Storage S) : Prop where
  above : ∀ {id : Field} {c : BatchCertificate}, s.certificates[id]? = some c →
    s.gcRound < c.round
  previous : ∀ {id : Field} {c : BatchCertificate}, s.certificates[id]? = some c →
    s.gcRound < c.round - 1 → PreviousStored committee s c

/-! ### Entries of a round -/

lemma mem_entries {s : Storage S} {r : ℕ} {e : Field × Address} :
    e ∈ s.entries r ↔ ∃ set : IndexSet (Field × Address), s.rounds[r]? = some set ∧ e ∈ set := by
  unfold Storage.entries
  cases s.rounds[r]? <;> simp [IndexSet.mem_def]

lemma containsCertificateInRoundFrom_iff {s : Storage S} (h : s.Indexed) {r : ℕ} {a : Address} :
    s.containsCertificateInRoundFrom r a = true ↔
      ∃ c : BatchCertificate, s.certificates[c.id]? = some c ∧ c.round = r ∧ c.author = a := by
  have hany : s.containsCertificateInRoundFrom r a = (s.entries r).any fun e => e.2 == a := by
    unfold containsCertificateInRoundFrom Storage.entries
    cases s.rounds[r]? <;> rfl
  rw [hany, List.any_eq_true]
  constructor
  · rintro ⟨⟨id, b⟩, he, hb⟩
    obtain ⟨c, hc, hr, ha⟩ := (h.entries r id b).mp he
    refine ⟨c, ?_, hr, ha.trans (by simpa using hb)⟩
    rw [h.keyed hc]; exact hc
  · rintro ⟨c, hc, hr, ha⟩
    exact ⟨(c.id, a), (h.entries r c.id a).mpr ⟨c, hc, hr, ha⟩, by simp⟩

lemma mem_getCertificateIdsForRound {s : Storage S} (h : s.Indexed) {r : ℕ} {id : Field}
    (hr : r ≠ 0) : id ∈ s.getCertificateIdsForRound r ↔
      ∃ c : BatchCertificate, s.certificates[id]? = some c ∧ c.round = r := by
  rw [getCertificateIdsForRound, if_neg hr, ← IndexSet.mem_def, IndexSet.mem_ofList,
    List.mem_map]
  constructor
  · rintro ⟨⟨i, a⟩, he, rfl⟩
    obtain ⟨c, hc, hr, -⟩ := (h.entries r i a).mp he
    exact ⟨c, hc, hr⟩
  · rintro ⟨c, hc, hr⟩
    exact ⟨(id, c.author), (h.entries r id c.author).mpr ⟨c, hc, hr, rfl⟩, rfl⟩

/-! ### The empty storage -/

lemma indexed_of_empty {s : Storage S} (hc : s.certificates = ∅) (hb : s.batchIds = ∅)
    (hr : s.rounds = ∅) : s.Indexed where
  keyed := by simp [hc]
  batchIds := by simp [hc, hb]
  nonempty := by simp [hr]
  entries := by simp [mem_entries, hc, hr]
  unique := by simp [hc]

/-! ### Removal -/

section Removal

variable [StorageService S]

lemma getElem?_removeCertificate {s : Storage S} {id i : Field} {c : BatchCertificate} :
    (s.removeCertificate id).certificates[i]? = some c ↔
      s.certificates[i]? = some c ∧ i ≠ id := by
  unfold removeCertificate getCertificate
  split
  · next hn =>
    refine ⟨fun hc => ⟨hc, ?_⟩, And.left⟩
    rintro rfl
    rw [hn] at hc
    cases hc
  · rw [getElem?_eraseKey]
    by_cases hi : id = i
    · simp [hi]
    · simp [hi, Ne.symm hi]

@[simp] lemma gcRound_removeCertificate (s : Storage S) (id : Field) :
    (s.removeCertificate id).gcRound = s.gcRound := by
  unfold removeCertificate; split <;> rfl

@[simp] lemma maxGcRounds_removeCertificate (s : Storage S) (id : Field) :
    (s.removeCertificate id).maxGcRounds = s.maxGcRounds := by
  unfold removeCertificate; split <;> rfl

lemma getElem?_removeEntry {m : ExtTreeMap ℕ (IndexSet (Field × Address))} {r q : ℕ}
    {e : Field × Address} :
    (removeEntry m r e)[q]? = if r = q then
      (m[r]?.map (IndexSet.erase · e)).filter (fun set => !set.isEmpty) else m[q]? := by
  unfold removeEntry
  rcases eq_or_ne r q with rfl | hq
  · rw [if_pos rfl]
    cases hs : m[r]? with
    | none => exact hs
    | some set => cases he : (set.erase e).isEmpty <;> simp [he, Option.filter]
  · rw [if_neg hq]
    split
    · rfl
    · dsimp only
      split <;> simp [getElem?_eraseKey, getElem?_insertKey, hq]

lemma mem_entries_removeCertificate {s : Storage S} (h : s.Indexed) {id : Field} {r : ℕ}
    {e : Field × Address} :
    e ∈ (s.removeCertificate id).entries r ↔ e ∈ s.entries r ∧ e.1 ≠ id := by
  unfold removeCertificate getCertificate
  split
  · next hn =>
    refine ⟨fun he => ⟨he, ?_⟩, And.left⟩
    rintro rfl
    obtain ⟨c, hc, -, -⟩ := (h.entries r e.1 e.2).mp he
    rw [hn] at hc
    cases hc
  · next c hc =>
    -- an entry of this identifier is the one entry of the removed certificate
    have hone : e ∈ s.entries r → e.1 = id → r = c.round ∧ e = (id, c.author) := by
      rintro he rfl
      obtain ⟨d, hd, hr, ha⟩ := (h.entries r e.1 e.2).mp he
      rw [hc] at hd
      cases hd
      exact ⟨hr.symm, by rw [ha]⟩
    rw [mem_entries] at hone
    simp only [mem_entries, getElem?_removeEntry]
    rcases eq_or_ne c.round r with rfl | hr
    · cases hs : s.rounds[c.round]? with
      | none => simp
      | some set =>
        have hmem : e ∈ set → (e ≠ (id, c.author) ↔ e.1 ≠ id) := fun he =>
          not_congr ⟨fun h' => by rw [h'], fun h' => (hone ⟨set, hs, he⟩ h').2⟩
        have hset : (∃ t : IndexSet (Field × Address),
            (some (set.erase (id, c.author))).filter (fun t => !t.isEmpty) = some t ∧ e ∈ t) ↔
              e ∈ set.erase (id, c.author) := by
          constructor
          · rintro ⟨t, ht, he⟩
            rw [Option.filter_eq_some_iff] at ht
            rwa [Option.some_inj.mp ht.1]
          · intro he
            refine ⟨_, Option.filter_eq_some_iff.mpr ⟨rfl, ?_⟩, he⟩
            simpa using fun hz => IndexSet.eq_empty_iff.mp hz e he
        rw [if_pos rfl, Option.map_some, hset, IndexSet.mem_erase]
        simpa using hmem
    · rw [if_neg hr]
      exact ⟨fun he => ⟨he, fun hid => hr (hone he hid).1.symm⟩, And.left⟩

lemma rounds_removeCertificate_ne_empty {s : Storage S} (h : s.Indexed) (id : Field) (r : ℕ) :
    (s.removeCertificate id).rounds[r]? ≠ some ∅ := by
  unfold removeCertificate getCertificate
  split
  · exact h.nonempty r
  · rw [getElem?_removeEntry]
    split
    · simp [Option.filter_eq_some_iff]
    · exact h.nonempty r

lemma batchIds_removeCertificate {s : Storage S} (h : s.Indexed) (id i : Field) :
    (s.removeCertificate id).batchIds[i]?
      = (s.removeCertificate id).certificates[i]?.map BatchCertificate.round := by
  unfold removeCertificate getCertificate
  split
  · exact h.batchIds i
  · simp only [getElem?_eraseKey]
    split
    · rfl
    · exact h.batchIds i

lemma indexed_removeCertificate {s : Storage S} (h : s.Indexed) (id : Field) :
    (s.removeCertificate id).Indexed := by
  refine ⟨fun hc => h.keyed (getElem?_removeCertificate.mp hc).1, batchIds_removeCertificate h id,
    rounds_removeCertificate_ne_empty h id, fun r i a => ?_, fun hc hd => ?_⟩
  · rw [mem_entries_removeCertificate h, h.entries]
    simp only [getElem?_removeCertificate]
    constructor
    · rintro ⟨⟨c, hc, hr⟩, hi⟩; exact ⟨c, ⟨hc, hi⟩, hr⟩
    · rintro ⟨c, ⟨hc, hi⟩, hr⟩; exact ⟨⟨c, hc, hr⟩, hi⟩
  · exact h.unique (getElem?_removeCertificate.mp hc).1 (getElem?_removeCertificate.mp hd).1

/-! ### Garbage collection -/

lemma foldl_removeCertificate {s : Storage S} (h : s.Indexed) (ids : List Field) :
    (ids.foldl removeCertificate s).Indexed ∧
      (ids.foldl removeCertificate s).gcRound = s.gcRound ∧
      ∀ (id : Field) (c : BatchCertificate),
        (ids.foldl removeCertificate s).certificates[id]? = some c ↔
          s.certificates[id]? = some c ∧ id ∉ ids := by
  induction ids generalizing s with
  | nil => exact ⟨h, rfl, by simp⟩
  | cons i ids ih =>
    obtain ⟨hx, hg, hc⟩ := ih (indexed_removeCertificate h i)
    refine ⟨hx, hg.trans (by simp), fun id c => (hc id c).trans ?_⟩
    rw [getElem?_removeCertificate, List.mem_cons, not_or]
    tauto

/-- What removing one round does: the genesis round is skipped. -/
lemma removeRound_spec {s : Storage S} (h : s.Indexed) (r : ℕ) :
    (s.removeRound r).Indexed ∧ (s.removeRound r).gcRound = s.gcRound ∧
      ∀ (id : Field) (c : BatchCertificate), (s.removeRound r).certificates[id]? = some c ↔
        s.certificates[id]? = some c ∧ (c.round = r → r = 0) := by
  obtain ⟨hx, hg, hc⟩ := foldl_removeCertificate h (s.getCertificateIdsForRound r)
  refine ⟨hx, hg, fun id c => (hc id c).trans (and_congr_right fun hs => ?_)⟩
  rcases eq_or_ne r 0 with rfl | hr
  · simp [getCertificateIdsForRound]
  · simp [mem_getCertificateIdsForRound h hr, hs, hr]

lemma foldl_removeRound {s : Storage S} (h : s.Indexed) (rs : List ℕ) :
    (rs.foldl removeRound s).Indexed ∧ (rs.foldl removeRound s).gcRound = s.gcRound ∧
      ∀ (id : Field) (c : BatchCertificate),
        (rs.foldl removeRound s).certificates[id]? = some c ↔
          s.certificates[id]? = some c ∧ (c.round ∈ rs → c.round = 0) := by
  induction rs generalizing s with
  | nil => exact ⟨h, rfl, by simp⟩
  | cons r rs ih =>
    obtain ⟨hx₁, hg₁, hc₁⟩ := removeRound_spec h r
    obtain ⟨hx, hg, hc⟩ := ih hx₁
    refine ⟨hx, hg.trans hg₁, fun id c => (hc id c).trans ?_⟩
    rw [hc₁, List.mem_cons]
    grind

/-- **Garbage collection**: of a storage whose certificates are above the GC round, those
above the next one are left. -/
theorem garbageCollectCertificates_spec {s : Storage S} (h : s.Indexed)
    (habove : ∀ {id : Field} {c : BatchCertificate}, s.certificates[id]? = some c →
      s.gcRound < c.round) (nextRound : ℕ) :
    (s.garbageCollectCertificates nextRound).Indexed ∧
      (s.garbageCollectCertificates nextRound).gcRound
        = max s.gcRound (nextRound - s.maxGcRounds) ∧
      ∀ (id : Field) (c : BatchCertificate),
        (s.garbageCollectCertificates nextRound).certificates[id]? = some c ↔
          s.certificates[id]? = some c ∧ nextRound - s.maxGcRounds < c.round := by
  unfold garbageCollectCertificates
  dsimp only
  split
  · next hlt =>
    obtain ⟨hx, -, hc⟩ := foldl_removeRound h
      (List.range' s.gcRound (nextRound - s.maxGcRounds + 1 - s.gcRound))
    refine ⟨⟨hx.keyed, hx.batchIds, hx.nonempty, hx.entries, hx.unique⟩,
      (max_eq_right hlt.le).symm, fun id c => (hc id c).trans ?_⟩
    refine and_congr_right fun hs => ?_
    have := habove hs
    rw [List.mem_range'_1]
    omega
  · next hlt =>
    refine ⟨h, (max_eq_left (by omega)).symm, fun id c => ⟨fun hs => ⟨hs, ?_⟩, And.left⟩⟩
    have := habove hs
    omega

@[simp] lemma maxGcRounds_removeRound (s : Storage S) (r : ℕ) :
    (s.removeRound r).maxGcRounds = s.maxGcRounds := by
  unfold removeRound
  induction s.getCertificateIdsForRound r generalizing s with
  | nil => rfl
  | cons id ids ih => exact (ih _).trans (maxGcRounds_removeCertificate s id)

lemma maxGcRounds_foldl_removeRound (s : Storage S) (rs : List ℕ) :
    (rs.foldl removeRound s).maxGcRounds = s.maxGcRounds := by
  induction rs generalizing s with
  | nil => rfl
  | cons r rs ih => exact (ih _).trans (maxGcRounds_removeRound s r)

@[simp] lemma maxGcRounds_garbageCollectCertificates (s : Storage S) (nextRound : ℕ) :
    (s.garbageCollectCertificates nextRound).maxGcRounds = s.maxGcRounds := by
  unfold garbageCollectCertificates
  dsimp only
  split
  · exact maxGcRounds_foldl_removeRound s _
  · rfl

lemma closed_garbageCollectCertificates {committee : ℕ → Committee} {s : Storage S}
    (h : s.Indexed) (hc : s.Closed committee) (nextRound : ℕ) :
    (s.garbageCollectCertificates nextRound).Closed committee := by
  obtain ⟨-, hg, hm⟩ := garbageCollectCertificates_spec h hc.above nextRound
  refine ⟨fun {id c} hs => ?_, fun {id c} hs hr => ?_⟩
  · obtain ⟨hs, hn⟩ := (hm id c).mp hs
    have := hc.above hs
    omega
  · obtain ⟨hs, -⟩ := (hm id c).mp hs
    obtain ⟨previous, hids, hp, hrest⟩ := hc.previous hs (by omega)
    refine ⟨previous, hids, fun p hpm => ⟨(hm p.id p).mpr ⟨(hp p hpm).1, ?_⟩, (hp p hpm).2⟩, hrest⟩
    have := (hp p hpm).2
    omega

end Removal

/-! ### Insertion -/

lemma checkPreviousCertificates_ok {s : Storage S} (hs : s.Indexed) {round previousRound : ℕ}
    {gcLog : String} {ids : List Field} {met authors : Finset Address}
    (h : s.checkPreviousCertificates round previousRound gcLog ids met = .ok authors) :
    ∃ previous : List BatchCertificate, previous.map BatchCertificate.id = ids ∧
      (∀ p ∈ previous, s.certificates[p.id]? = some p ∧ p.round = previousRound ∧
        p.author ∉ met) ∧
      (previous.map BatchCertificate.author).Nodup ∧ authors = met ∪ authorsOf previous := by
  induction ids generalizing met with
  | nil =>
    cases h
    exact ⟨[], rfl, by simp, by simp, by simp [authorsOf]⟩
  | cons id ids ih =>
    unfold checkPreviousCertificates getCertificate at h
    split at h
    · cases h
    · next p hp =>
      split at h
      · cases h
      · next hround =>
        split at h
        · cases h
        · next hauthor =>
          obtain ⟨previous, hids, hall, hnd, heq⟩ := ih h
          have hid := hs.keyed hp
          refine ⟨p :: previous, by rw [List.map_cons, hid, hids], ?_, ?_, ?_⟩
          · rw [List.forall_mem_cons]
            refine ⟨⟨hid ▸ hp, not_not.mp hround, hauthor⟩, fun q hq => ?_⟩
            obtain ⟨hstored, hr, hnot⟩ := hall q hq
            exact ⟨hstored, hr, fun hm => hnot (Finset.mem_insert_of_mem hm)⟩
          · rw [List.map_cons, List.nodup_cons]
            refine ⟨fun hm => ?_, hnd⟩
            obtain ⟨q, hq, ha⟩ := List.mem_map.mp hm
            exact (hall q hq).2.2 (ha ▸ Finset.mem_insert_self _ _)
          · rw [heq]
            ext a
            simp only [Finset.mem_union, Finset.mem_insert, mem_authorsOf, List.mem_cons,
              exists_eq_or_imp]
            tauto

lemma PreviousStored.mono {committee : ℕ → Committee} {s t : Storage S} {c : BatchCertificate}
    (h : PreviousStored committee s c)
    (hst : ∀ {d : BatchCertificate}, s.certificates[d.id]? = some d →
      t.certificates[d.id]? = some d) : PreviousStored committee t c := by
  obtain ⟨previous, hids, hp, hrest⟩ := h
  exact ⟨previous, hids, fun p hm => ⟨hst (hp p hm).1, (hp p hm).2⟩, hrest⟩

section Insertion

variable [StorageService S]

lemma getElem?_insertCertificateAtomic {s : Storage S} {c : BatchCertificate}
    (hfresh : s.certificates[c.id]? = none) (aborted : IndexSet TransmissionID)
    (missing : IndexMap TransmissionID Transmission) (id : Field) (d : BatchCertificate) :
    (s.insertCertificateAtomic c aborted missing).certificates[id]? = some d ↔
      s.certificates[id]? = some d ∨ (id = c.id ∧ d = c) := by
  rw [show (s.insertCertificateAtomic c aborted missing).certificates
    = s.certificates.insert c.id c from rfl, getElem?_insertKey]
  split
  · next h => subst h; simp [hfresh, eq_comm]
  · next h => simp [Ne.symm h]

lemma mem_entries_insertCertificateAtomic {s : Storage S} {c : BatchCertificate}
    {aborted : IndexSet TransmissionID} {missing : IndexMap TransmissionID Transmission}
    {r : ℕ} {e : Field × Address} :
    e ∈ (s.insertCertificateAtomic c aborted missing).entries r ↔
      e ∈ s.entries r ∨ (r = c.round ∧ e = (c.id, c.author)) := by
  simp only [mem_entries, insertCertificateAtomic, getElem?_insertKey]
  rcases eq_or_ne c.round r with rfl | hr
  · cases hs : s.rounds[c.round]? <;> simp [IndexSet.mem_insert]
  · simp [hr, Ne.symm hr]

variable [Network] [Ledger V]

omit [StorageService S] in
lemma checkPreviousRound_ok {l : CoreLedgerService V} {s : Storage S} (hs : s.Indexed)
    {header : BatchHeader} {previousRound : ℕ} {gcLog : String}
    (h : s.checkPreviousRound l header previousRound gcLog = .ok ()) :
    ∃ (committee : Committee) (previous : List BatchCertificate),
      l.getCommitteeLookbackForRound previousRound = .ok committee ∧
      previous.map BatchCertificate.id = header.previousCertificateIds.toList ∧
      (∀ p ∈ previous, s.certificates[p.id]? = some p ∧ p.round = previousRound) ∧
      (previous.map BatchCertificate.author).Nodup ∧
      committee.isQuorumThresholdReached (authorsOf previous) = true := by
  unfold checkPreviousRound at h
  split at h
  · cases h
  · next committee hcommittee =>
    split at h
    · cases h
    · split at h
      · cases h
      · split at h
        · cases h
        · next authors hauthors =>
          split at h
          · cases h
          · next hq =>
            obtain ⟨previous, hids, hall, hnd, heq⟩ := checkPreviousCertificates_ok hs hauthors
            rw [Finset.empty_union] at heq
            exact ⟨committee, previous, hcommittee, hids,
              fun p hp => ⟨(hall p hp).1, (hall p hp).2.1⟩, hnd, heq ▸ not_not.mp hq⟩

/-- What an accepted certificate satisfies. -/
structure Accepts (l : CoreLedgerService V) (s : Storage S) (c : BatchCertificate) : Prop where
  above : s.gcRound < c.round
  fresh : s.certificates[c.id]? = none
  fresh_author : ∀ {d : BatchCertificate}, s.certificates[d.id]? = some d →
    d.round = c.round → d.author ≠ c.author
  lookback : ∃ committee, l.getCommitteeLookbackForRound c.round = .ok committee ∧
    c.author ∈ committee.members
  previous : s.gcRound < c.round - 1 →
    ∃ (committee : Committee) (previous : List BatchCertificate),
      l.getCommitteeLookbackForRound (c.round - 1) = .ok committee ∧
      previous.map BatchCertificate.id = c.previousCertificateIds.toList ∧
      (∀ p ∈ previous, s.certificates[p.id]? = some p ∧ p.round = c.round - 1) ∧
      (previous.map BatchCertificate.author).Nodup ∧
      committee.isQuorumThresholdReached (authorsOf previous) = true

lemma checkBatchHeader_ok {l : CoreLedgerService V} {now : ℤ} {s : Storage S} (hs : s.Indexed)
    {c : BatchCertificate} {t missing : IndexMap TransmissionID Transmission}
    {aborted : IndexSet TransmissionID}
    (h : s.checkBatchHeader l now c.batchHeader t aborted = .ok missing)
    (habove : s.gcRound < c.round) (hfresh : s.certificates[c.id]? = none)
    (hauthor : ∀ {d : BatchCertificate}, s.certificates[d.id]? = some d →
      d.round = c.round → d.author ≠ c.author) : Accepts l s c ∧
    StorageService.findMissingTransmissions s.transmissions c.batchHeader t aborted
      = .ok missing := by
  unfold checkBatchHeader at h
  dsimp only at h
  split at h
  · cases h
  · split at h
    · cases h
    · next com hcom =>
      split at h
      · cases h
      · next hmember =>
        have hlookback : ∃ committee, l.getCommitteeLookbackForRound c.round = .ok committee ∧
            c.author ∈ committee.members :=
          ⟨com, hcom, of_decide_eq_true (not_not.mp hmember)⟩
        split at h
        · cases h
        · split at h
          · cases h
          · next m hm =>
            by_cases hprev : c.batchHeader.round - 1 > s.gcRound
            · rw [if_pos hprev] at h
              split at h
              · cases h
              · next hok =>
                cases h
                exact ⟨⟨habove, hfresh, hauthor, hlookback,
                  fun _ => checkPreviousRound_ok hs hok⟩, hm⟩
            · rw [if_neg hprev] at h
              cases h
              exact ⟨⟨habove, hfresh, hauthor, hlookback, fun h => absurd h hprev⟩, hm⟩

/-- **Insertion**: a certificate is refused and the storage left as it is, or it is accepted
and recorded. -/
theorem insertCertificate_cases (l : CoreLedgerService V) (now : ℤ) {s : Storage S}
    (hs : s.Indexed) (c : BatchCertificate) (t : IndexMap TransmissionID Transmission)
    (aborted : IndexSet TransmissionID) :
    (∃ e, s.insertCertificate l now c t aborted = (.error e, s)) ∨
    (∃ missing, Accepts l s c ∧
      StorageService.findMissingTransmissions s.transmissions c.batchHeader t aborted
        = .ok missing ∧
      s.insertCertificate l now c t aborted
        = (.ok (), s.insertCertificateAtomic c aborted missing)) := by
  unfold insertCertificate
  split
  · exact .inl ⟨_, rfl⟩
  · next habove =>
    cases hcheck : s.checkCertificate l now c t aborted with
    | error e => exact .inl ⟨e, rfl⟩
    | ok missing =>
      unfold checkCertificate at hcheck
      dsimp only at hcheck
      split at hcheck
      · cases hcheck
      · next hfresh =>
        split at hcheck
        · cases hcheck
        · next hauthor =>
          split at hcheck
          · cases hcheck
          · next m hheader =>
            obtain ⟨ha, hm⟩ := checkBatchHeader_ok hs hheader (by omega)
              (by simpa [containsCertificate] using hfresh) fun {d} hd hr ha =>
                hauthor ((containsCertificateInRoundFrom_iff hs).mpr ⟨d, hd, hr, ha⟩)
            -- the remaining checks return the missing transmissions of the header
            obtain rfl : m = missing := by
              split at hcheck
              · cases hcheck
              · split at hcheck
                · cases hcheck
                · split at hcheck
                  · cases hcheck
                  · split at hcheck
                    · cases hcheck
                    · cases hcheck
                      rfl
            exact .inr ⟨m, ha, hm, rfl⟩

lemma indexed_insertCertificateAtomic {l : CoreLedgerService V} {s : Storage S} (hs : s.Indexed)
    {c : BatchCertificate} {aborted : IndexSet TransmissionID}
    {missing : IndexMap TransmissionID Transmission} (h : Accepts l s c) :
    (s.insertCertificateAtomic c aborted missing).Indexed := by
  have hget := getElem?_insertCertificateAtomic h.fresh aborted missing
  refine ⟨fun {id d} hd => ?_, fun id => ?_, fun r => ?_, fun r id a => ?_,
    fun {d d'} hd hd' hr ha => ?_⟩
  · rcases (hget _ _).mp hd with hd | ⟨rfl, rfl⟩
    · exact hs.keyed hd
    · rfl
  · simp only [insertCertificateAtomic, getElem?_insertKey]
    split
    · rfl
    · exact hs.batchIds id
  · simp only [insertCertificateAtomic, getElem?_insertKey]
    split
    · exact fun he => IndexSet.insert_ne_empty _ _ (Option.some_inj.mp he)
    · exact hs.nonempty r
  · rw [mem_entries_insertCertificateAtomic, hs.entries]
    simp only [hget, Prod.mk.injEq]
    constructor
    · rintro (⟨d, hd, hr, ha⟩ | ⟨rfl, rfl, rfl⟩)
      · exact ⟨d, .inl hd, hr, ha⟩
      · exact ⟨c, .inr ⟨rfl, rfl⟩, rfl, rfl⟩
    · rintro ⟨d, hd | ⟨rfl, rfl⟩, rfl, rfl⟩
      · exact .inl ⟨d, hd, rfl, rfl⟩
      · exact .inr ⟨rfl, rfl, rfl⟩
  · rcases (hget _ _).mp hd with hd₁ | ⟨-, rfl⟩ <;>
      rcases (hget _ _).mp hd' with hd₂ | ⟨-, rfl⟩
    · exact hs.unique hd₁ hd₂ hr ha
    · exact absurd ha (h.fresh_author hd₁ hr)
    · exact absurd ha.symm (h.fresh_author hd₂ hr.symm)
    · rfl

/-- A ledger whose answers for the committees of a round agree with `committee`. -/
def AgreesOn (committee : ℕ → Committee) (l : CoreLedgerService V) : Prop :=
  ∀ (r : ℕ) (c : Committee), l.getCommitteeLookbackForRound r = .ok c → c = committee r

lemma closed_insertCertificateAtomic {committee : ℕ → Committee} {l : CoreLedgerService V}
    (hl : AgreesOn committee l) {s : Storage S} (hc : s.Closed committee)
    {c : BatchCertificate} {aborted : IndexSet TransmissionID}
    {missing : IndexMap TransmissionID Transmission} (h : Accepts l s c) :
    (s.insertCertificateAtomic c aborted missing).Closed committee := by
  have hget := getElem?_insertCertificateAtomic h.fresh aborted missing
  have hmono : ∀ {d : BatchCertificate}, s.certificates[d.id]? = some d →
      (s.insertCertificateAtomic c aborted missing).certificates[d.id]? = some d :=
    fun hd => (hget _ _).mpr (.inl hd)
  refine ⟨fun {id d} hd => ?_, fun {id d} hd hr => ?_⟩
  · rcases (hget _ _).mp hd with hd | ⟨-, rfl⟩
    · exact hc.above hd
    · exact h.above
  · rcases (hget _ _).mp hd with hd | ⟨-, rfl⟩
    · exact (hc.previous hd hr).mono hmono
    · obtain ⟨com, previous, hcom, hids, hp, hnd, hq⟩ := h.previous hr
      refine ⟨previous, hids, fun p hm => ⟨hmono (hp p hm).1, ?_⟩, hnd, hl _ _ hcom ▸ hq⟩
      have := (hp p hm).2
      have : s.gcRound < d.round - 1 := hr
      omega

/-! ### Runs -/

/-- The operations on a storage, with the time at which those that check it run. -/
inductive Operation where
  | insertCertificate (now : ℤ) (certificate : BatchCertificate)
      (transmissions : IndexMap TransmissionID Transmission)
      (abortedTransmissions : IndexSet TransmissionID)
  | garbageCollectCertificates (nextRound : ℕ)
  | incrementToNextRound (currentRound : ℕ)
  | syncHeightWithBlock (nextHeight : ℕ)
  | syncRoundWithBlock (nextRound : ℕ)
  | syncCertificateWithBlock (now : ℤ) (block : Block) (certificate : BatchCertificate)
      (unconfirmedTransactions : TransactionID → Option Transaction)

/-- The storage an operation leaves, over the ledger it runs with. -/
def step (s : Storage S) (e : CoreLedgerService V × Operation) : Storage S :=
  match e.2 with
  | .insertCertificate now certificate transmissions aborted =>
    (s.insertCertificate e.1 now certificate transmissions aborted).2
  | .garbageCollectCertificates nextRound => s.garbageCollectCertificates nextRound
  | .incrementToNextRound currentRound => (s.incrementToNextRound e.1 currentRound).2
  | .syncHeightWithBlock nextHeight => s.syncHeightWithBlock nextHeight
  | .syncRoundWithBlock nextRound => s.syncRoundWithBlock nextRound
  | .syncCertificateWithBlock now block certificate unconfirmed =>
    s.syncCertificateWithBlock e.1 now block certificate unconfirmed

/-- `t` has the certificates and the GC round of `s`. -/
def SameCertificates (s t : Storage S) : Prop :=
  t.rounds = s.rounds ∧ t.certificates = s.certificates ∧ t.batchIds = s.batchIds ∧
    t.gcRound = s.gcRound

omit [StorageService S] [Network] in
lemma incrementToNextRound_same (l : CoreLedgerService V) (s : Storage S) (r : ℕ) :
    SameCertificates s (s.incrementToNextRound l r).2 := by
  unfold incrementToNextRound
  dsimp only
  split
  · exact ⟨rfl, rfl, rfl, rfl⟩
  · split
    · exact ⟨rfl, rfl, rfl, rfl⟩
    · split
      · simp only [syncRoundWithBlock, updateCurrentRound]
        split <;> exact ⟨rfl, rfl, rfl, rfl⟩
      · split
        · exact ⟨rfl, rfl, rfl, rfl⟩
        · split <;> exact ⟨rfl, rfl, rfl, rfl⟩

/-- **What a step does** to the certificates: nothing, garbage collection, or the insertion
of an accepted certificate. -/
theorem step_cases {s : Storage S} (hs : s.Indexed) (e : CoreLedgerService V × Operation) :
    SameCertificates s (s.step e) ∨
    (∃ nextRound, s.step e = s.garbageCollectCertificates nextRound) ∨
    (∃ c aborted missing, Accepts e.1 s c ∧
      s.step e = s.insertCertificateAtomic c aborted missing) := by
  have hinsert : ∀ now c t aborted,
      SameCertificates s (s.insertCertificate e.1 now c t aborted).2 ∨
      (∃ missing, Accepts e.1 s c ∧ (s.insertCertificate e.1 now c t aborted).2
        = s.insertCertificateAtomic c aborted missing) := by
    intro now c t aborted
    rcases insertCertificate_cases e.1 now hs c t aborted with ⟨x, hx⟩ | ⟨missing, ha, -, hx⟩
    · rw [hx]; exact .inl ⟨rfl, rfl, rfl, rfl⟩
    · exact .inr ⟨missing, ha, by rw [hx]⟩
  obtain ⟨l, op⟩ := e
  cases op with
  | insertCertificate now c t aborted =>
    rcases hinsert now c t aborted with h | ⟨missing, ha, hx⟩
    · exact .inl h
    · exact .inr (.inr ⟨c, aborted, missing, ha, hx⟩)
  | garbageCollectCertificates nextRound => exact .inr (.inl ⟨nextRound, rfl⟩)
  | incrementToNextRound currentRound => exact .inl (incrementToNextRound_same l s currentRound)
  | syncHeightWithBlock nextHeight =>
    left
    simp only [step, syncHeightWithBlock]
    split <;> exact ⟨rfl, rfl, rfl, rfl⟩
  | syncRoundWithBlock nextRound =>
    left
    simp only [step, syncRoundWithBlock, updateCurrentRound]
    split <;> exact ⟨rfl, rfl, rfl, rfl⟩
  | syncCertificateWithBlock now block c unconfirmed =>
    simp only [step, syncCertificateWithBlock]
    split
    · exact .inl ⟨rfl, rfl, rfl, rfl⟩
    · split
      · exact .inl ⟨rfl, rfl, rfl, rfl⟩
      · rcases hinsert now c _ _ with h | ⟨missing, ha, hx⟩
        · exact .inl h
        · exact .inr (.inr ⟨c, _, missing, ha, hx⟩)

omit [StorageService S] [Network] in
lemma SameCertificates.indexed {s t : Storage S} (h : SameCertificates s t) (hs : s.Indexed) :
    t.Indexed := by
  obtain ⟨hr, hc, hb, -⟩ := h
  refine ⟨?_, ?_, ?_, ?_, ?_⟩
  · rw [hc]; exact hs.keyed
  · rw [hc, hb]; exact hs.batchIds
  · rw [hr]; exact hs.nonempty
  · unfold Storage.entries
    rw [hc, hr]; exact hs.entries
  · rw [hc]; exact hs.unique

omit [StorageService S] [Network] in
lemma SameCertificates.closed {committee : ℕ → Committee} {s t : Storage S}
    (h : SameCertificates s t) (hs : s.Closed committee) : t.Closed committee := by
  obtain ⟨-, hc, -, hg⟩ := h
  refine ⟨?_, fun {id c} hd hr => ?_⟩
  · rw [hc, hg]; exact hs.above
  · rw [hc] at hd
    rw [hg] at hr
    exact (hs.previous hd hr).mono fun h => hc ▸ h

/-- **One step** keeps the invariant, and does not lower the GC round. -/
theorem step_invariant {committee : ℕ → Committee} {s : Storage S} (hs : s.Indexed)
    (hc : s.Closed committee) {e : CoreLedgerService V × Operation}
    (he : AgreesOn committee e.1) :
    (s.step e).Indexed ∧ (s.step e).Closed committee ∧ s.gcRound ≤ (s.step e).gcRound := by
  rcases step_cases hs e with h | ⟨nextRound, h⟩ | ⟨c, aborted, missing, ha, h⟩
  · exact ⟨h.indexed hs, h.closed hc, h.2.2.2.ge⟩
  · obtain ⟨hi, hg, -⟩ := garbageCollectCertificates_spec hs hc.above nextRound
    rw [h]
    exact ⟨hi, closed_garbageCollectCertificates hs hc nextRound, hg ▸ le_max_left _ _⟩
  · rw [h]
    exact ⟨indexed_insertCertificateAtomic hs ha, closed_insertCertificateAtomic he hc ha,
      Nat.le_refl _⟩

/-- **A run** keeps the invariant, and does not lower the GC round. -/
theorem run_invariant {committee : ℕ → Committee} {s : Storage S} (hs : s.Indexed)
    (hc : s.Closed committee) {ops : List (CoreLedgerService V × Operation)}
    (hops : ∀ e ∈ ops, AgreesOn committee e.1) :
    (ops.foldl step s).Indexed ∧ (ops.foldl step s).Closed committee ∧
      s.gcRound ≤ (ops.foldl step s).gcRound := by
  induction ops generalizing s with
  | nil => exact ⟨hs, hc, Nat.le_refl _⟩
  | cons e ops ih =>
    rw [List.forall_mem_cons] at hops
    obtain ⟨hs₁, hc₁, hg₁⟩ := step_invariant hs hc hops.1
    obtain ⟨hs₂, hc₂, hg₂⟩ := ih hs₁ hc₁ hops.2
    exact ⟨hs₂, hc₂, hg₁.trans hg₂⟩

omit [Network] in
lemma new_invariant (committee : ℕ → Committee) (com : Committee) (t : S) (maxGcRounds : ℕ) :
    (Storage.new com t maxGcRounds).Indexed ∧
      (Storage.new com t maxGcRounds).Closed committee := by
  have key : ∀ (s : Storage S) (r : ℕ), s.rounds = ∅ → s.certificates = ∅ → s.batchIds = ∅ →
      (s.garbageCollectCertificates r).Indexed ∧
        (s.garbageCollectCertificates r).Closed committee := by
    intro s r hr hc hb
    have hs : s.Indexed := indexed_of_empty hc hb hr
    have hcl : s.Closed committee := ⟨by simp [hc], by simp [hc]⟩
    exact ⟨(garbageCollectCertificates_spec hs hcl.above r).1,
      closed_garbageCollectCertificates hs hcl r⟩
  exact key _ _ rfl rfl rfl

/-- **The representation invariant of the storage**: after any operations on a new storage the
maps describe one set of certificates, closed above the GC round; the GC round never
decreased; and an insertion that fails changes nothing. -/
theorem storage_invariant (committee : ℕ → Committee) (com : Committee) (t : S)
    (maxGcRounds : ℕ) (ops : List (CoreLedgerService V × Operation))
    (hops : ∀ e ∈ ops, AgreesOn committee e.1) :
    (ops.foldl step (Storage.new com t maxGcRounds)).Indexed ∧
    (ops.foldl step (Storage.new com t maxGcRounds)).Closed committee ∧
    (∀ pre post : List (CoreLedgerService V × Operation), ops = pre ++ post →
      (pre.foldl step (Storage.new com t maxGcRounds)).gcRound
        ≤ (ops.foldl step (Storage.new com t maxGcRounds)).gcRound) ∧
    (∀ (l : CoreLedgerService V) (now : ℤ) (c : BatchCertificate)
      (tr : IndexMap TransmissionID Transmission) (ab : IndexSet TransmissionID) (e : String),
      ((ops.foldl step (Storage.new com t maxGcRounds)).insertCertificate l now c tr ab).1
        = .error e →
      ((ops.foldl step (Storage.new com t maxGcRounds)).insertCertificate l now c tr ab).2
        = ops.foldl step (Storage.new com t maxGcRounds)) := by
  obtain ⟨hs, hc⟩ := new_invariant committee com t maxGcRounds
  obtain ⟨hi, hcl, -⟩ := run_invariant hs hc hops
  refine ⟨hi, hcl, ?_, ?_⟩
  · rintro pre post rfl
    rw [List.foldl_append]
    rw [List.forall_mem_append] at hops
    obtain ⟨hs₁, hc₁, -⟩ := run_invariant hs hc hops.1
    exact (run_invariant hs₁ hc₁ hops.2).2.2
  · intro l now c tr ab e he
    rcases insertCertificate_cases l now hi c tr ab with ⟨x, hx⟩ | ⟨missing, -, -, hx⟩
    · rw [hx]
    · rw [hx] at he; cases he

end Insertion

section Example

/-- The certificates of round 1, one of round 2 that refers to them, and a collection that removes
those of round 1. -/
def exampleOperations : List (CoreLedgerService Chain × Operation) :=
  [.insertCertificate 0 (developmentCertificate 1 0 1 []) ∅ ∅,
   .insertCertificate 0 (developmentCertificate 2 1 1 []) ∅ ∅,
   .insertCertificate 0 (developmentCertificate 3 2 1 []) ∅ ∅,
   .insertCertificate 0 (developmentCertificate 4 3 1 []) ∅ ∅,
   .incrementToNextRound 1,
   .insertCertificate 0 (developmentCertificate 5 0 2 [1, 2, 3, 4]) ∅ ∅,
   .garbageCollectCertificates 101].map (developmentLedger [], ·)

/-- The storage that they leave. -/
def exampleStorage : Storage BFTMemoryService :=
  exampleOperations.foldl (@step BFTMemoryService Chain _ developmentNetwork _)
    (Storage.new developmentCommittee BFTMemoryService.empty 100)

theorem storage_invariant_example :
    exampleStorage.Indexed ∧ exampleStorage.Closed (fun _ => developmentCommittee) ∧
      exampleStorage.gcRound = 1 ∧ exampleStorage.getCertificatesForRound 1 = [] ∧
      exampleStorage.getCertificatesForRound 2 = [developmentCertificate 5 0 2 [1, 2, 3, 4]] := by
  let _ := developmentNetwork
  have hops : ∀ e ∈ exampleOperations, AgreesOn (fun _ => developmentCommittee) e.1 := by
    intro e _ r c hc
    rw [lookback_chain] at hc
    exact (Except.ok.inj hc).symm
  obtain ⟨hindexed, hclosed, -⟩ := storage_invariant (fun _ => developmentCommittee)
    developmentCommittee BFTMemoryService.empty 100 exampleOperations hops
  refine ⟨hindexed, hclosed, ?_⟩
  decide +kernel

end Example

end Storage

end AmareleoChain
