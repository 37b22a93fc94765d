import AmareleoChain.Bft

/-!
What `order_dag_with_dfs` returns.

`Universe` is all the certificates there may be, by identifier. Over a DAG and a storage with
certificates of a universe, an ordered subdag holds each of its certificates once, the leader
among them; and with a certificate every previous one that is above the garbage collection
horizon and not committed yet.
-/

namespace AmareleoChain

open Std

/-- Certificates by identifier; a previous certificate is of the round just below. -/
structure Universe where
  cert : Field → Option BatchCertificate
  keyed : ∀ {id : Field} {c : BatchCertificate}, cert id = some c → c.id = id
  previous_round : ∀ {id pid : Field} {c p : BatchCertificate}, cert id = some c →
    pid ∈ c.previousCertificateIds → cert pid = some p → p.round + 1 = c.round

namespace Universe

/-- The universe of some certificates. -/
def ofList (cs : List BatchCertificate) (h : ∀ c ∈ cs, ∀ p ∈ cs,
    p.id ∈ c.previousCertificateIds → p.round + 1 = c.round) : Universe where
  cert id := cs.find? fun c => c.id = id
  keyed hc := by simpa using List.find?_some hc
  previous_round {id pid c p} hc hid hp := by
    refine h c (List.mem_of_find?_eq_some hc) p (List.mem_of_find?_eq_some hp) ?_
    have hpid : p.id = pid := by simpa using List.find?_some hp
    rw [hpid]; exact hid

/-- `c` is a certificate of the universe. -/
def Has (U : Universe) (c : BatchCertificate) : Prop := U.cert c.id = some c

variable {U : Universe}

lemma has_of_cert {id : Field} {c : BatchCertificate} (h : U.cert id = some c) : U.Has c := by
  rw [Has, U.keyed h]; exact h

lemma mem_of_has {cs : List BatchCertificate} {h} {c : BatchCertificate}
    (hc : (ofList cs h).Has c) : c ∈ cs := List.mem_of_find?_eq_some hc

lemma Has.eq_of_id {c d : BatchCertificate} (hc : U.Has c) (hd : U.Has d) (h : c.id = d.id) :
    c = d := Option.some_inj.mp (hc.symm.trans ((congrArg U.cert h).trans hd))

lemma Has.round_previous {c p : BatchCertificate} (hc : U.Has c) (hp : U.Has p)
    (h : p.id ∈ c.previousCertificateIds) : p.round + 1 = c.round := U.previous_round hc h hp

end Universe

/-! ### Subdags -/

namespace Subdag

variable {s : Subdag} {c d : BatchCertificate}

/-- Certificates are filed under their round. -/
def Filed (s : Subdag) : Prop :=
  ∀ (r : ℕ) (cs : IndexSet BatchCertificate), s[r]? = some cs → ∀ c ∈ cs, c.round = r

lemma filed_empty : Filed ∅ := by intro r cs h; simp at h

lemma Filed.file (h : s.Filed) (c : BatchCertificate) : (s.file c).Filed := by
  intro r cs hcs d hd
  rw [Subdag.file, getElem?_insertKey] at hcs
  split at hcs
  · next hr =>
    cases hcs
    rcases IndexSet.mem_insert.mp hd with hd | rfl
    · cases hs : s[c.round]? with
      | none => simp [hs] at hd
      | some set =>
        rw [hs, Option.getD_some] at hd
        exact (h _ _ hs d hd).trans hr
    · exact hr
  · exact h r cs hcs d hd

lemma Filed.filter (h : s.Filed) (f : ℕ → Bool) : Filed (s.filter fun r _ => f r) := by
  intro r cs hcs
  rw [getElem?_retain, Option.filter_eq_some_iff] at hcs
  exact h r cs hcs.1

lemma mem_certificates_file : c ∈ (s.file d).certificates ↔ c ∈ s.certificates ∨ c = d := by
  simp only [mem_certificates, Subdag.file, getElem?_insertKey]
  constructor
  · rintro ⟨r, cs, hcs, hc⟩
    split at hcs
    · next hr =>
      cases hcs
      rcases IndexSet.mem_insert.mp hc with hc | rfl
      · cases hs : s[d.round]? with
        | none => simp [hs] at hc
        | some set =>
          rw [hs, Option.getD_some] at hc
          exact .inl ⟨d.round, set, hs, hc⟩
      · exact .inr rfl
    · exact .inl ⟨r, cs, hcs, hc⟩
  · rintro (⟨r, cs, hcs, hc⟩ | rfl)
    · rcases eq_or_ne d.round r with rfl | hr
      · refine ⟨d.round, _, if_pos rfl, IndexSet.mem_insert.mpr (.inl ?_)⟩
        rw [hcs]; exact hc
      · exact ⟨r, cs, by rw [if_neg hr]; exact hcs, hc⟩
    · exact ⟨c.round, _, if_pos rfl, IndexSet.mem_insert.mpr (.inr rfl)⟩

lemma mem_certificates_filter (h : s.Filed) (f : ℕ → Bool) :
    c ∈ Subdag.certificates (s.filter fun r _ => f r) ↔ c ∈ s.certificates ∧ f c.round = true := by
  simp only [mem_certificates, getElem?_retain, Option.filter_eq_some_iff]
  constructor
  · rintro ⟨r, cs, ⟨hcs, hf⟩, hc⟩
    exact ⟨⟨r, cs, hcs, hc⟩, by rw [h r cs hcs c hc]; exact hf⟩
  · rintro ⟨⟨r, cs, hcs, hc⟩, hf⟩
    exact ⟨r, cs, ⟨hcs, by rw [← h r cs hcs c hc]; exact hf⟩, hc⟩

lemma Filed.nodup (h : s.Filed) : s.certificates.Nodup := by
  rw [certificates, List.nodup_flatMap]
  refine ⟨fun e _ => e.2.nodup, ?_⟩
  have hkeys : s.toList.Pairwise fun a b => ¬ compare a.1 b.1 = .eq :=
    ExtTreeMap.distinct_keys_toList
  refine List.Pairwise.imp_of_mem (fun {a b} ha hb hab => ?_) hkeys
  intro c hc hc'
  rw [ExtTreeMap.mem_toList_iff_getElem?_eq_some] at ha hb
  refine hab (Std.compare_eq_iff_eq.mpr ?_)
  exact (h _ _ ha c hc).symm.trans (h _ _ hb c hc')

lemma foldl_file (cs : List BatchCertificate) (h : s.Filed) :
    Filed (cs.foldl Subdag.file s) ∧
      ∀ c, c ∈ Subdag.certificates (cs.foldl Subdag.file s) ↔ c ∈ s.certificates ∨ c ∈ cs := by
  induction cs generalizing s with
  | nil => exact ⟨h, by simp⟩
  | cons d cs ih =>
    obtain ⟨hf, hm⟩ := ih (h.file d)
    refine ⟨hf, fun c => (hm c).trans ?_⟩
    rw [mem_certificates_file, List.mem_cons, or_assoc]

end Subdag

/-! ### The search -/

namespace BFT

variable {S V : Type} {U : Universe} {b : BFT S V}

/-- The DAG and the storage hold certificates of the universe, where they belong. -/
structure Within (U : Universe) (b : BFT S V) : Prop where
  wellFormed : b.dag.WellFormed
  graph : ∀ {r : ℕ} {a : Address} {c : BatchCertificate},
    b.dag.getCertificateForRoundWithAuthor r a = some c → U.Has c
  storage : ∀ {id : Field} {c : BatchCertificate},
    b.storage.certificates[id]? = some c → U.cert id = some c

variable [Ledger V] {allow : Bool} {c p leader : BatchCertificate} {id : Field}
  {subdag : Subdag} {certificates : List BatchCertificate} {fuel : ℕ}

lemma search_lookup (hb : b.Within U) (h : (b.search allow).lookup c id = .ok p) :
    U.cert id = some p := by
  simp only [search] at h
  split at h
  · next q hq =>
    cases h
    obtain ⟨hid, a, ha⟩ := DAG.getCertificateForRoundWithId_some hq
    rw [← hid]; exact hb.graph ha
  · split at h
    · next q hq => cases h; exact hb.storage hq
    · cases h

lemma search_keyed (hb : b.Within U) : (b.search allow).Keyed :=
  fun _ _ _ h => U.keyed (search_lookup hb h)

/-- The certificate is neither recently committed nor, with ledger access, in the ledger. -/
def Fresh (b : BFT S V) (allow : Bool) (round : ℕ) (id : Field) : Prop :=
  b.dag.isRecentlyCommitted round id = false ∧
    (allow = true → b.ledger.containsCertificate id ≠ .ok true)

lemma search_skip : (b.search allow).skip c id = false ↔ b.Fresh allow (c.round - 1) id := by
  simp only [search, Fresh, Bool.or_eq_false_iff, Bool.and_eq_false_iff]
  refine and_congr_right fun _ => ?_
  rcases b.ledger.containsCertificate id with e | (_ | _) <;> cases allow <;> simp

lemma mem_search_children : id ∈ (b.search allow).children c ↔
    b.dag.lastCommittedRound < c.round - 1 + b.storage.maxGcRounds ∧
      id ∈ c.previousCertificateIds := by
  simp only [search]
  split
  · next h => simp [Nat.not_lt.mpr h]
  · next h => simp [Nat.not_le.mp h, IndexSet.mem_def]

/-- What a step of the search finds: a fresh previous certificate above the horizon. -/
lemma step_search (hb : b.Within U) (hc : U.Has c) (h : (b.search allow).Step c p) :
    U.Has p ∧ p.id ∈ c.previousCertificateIds ∧ p.round + 1 = c.round ∧
      b.dag.lastCommittedRound < p.round + b.storage.maxGcRounds ∧
      b.Fresh allow p.round p.id := by
  obtain ⟨i, hi, hskip, hlook⟩ := h
  have hp := search_lookup hb hlook
  obtain rfl := U.keyed hp
  rw [mem_search_children] at hi
  have hr := hc.round_previous hp hi.2
  have hr' : c.round - 1 = p.round := by omega
  rw [hr'] at hi
  rw [search_skip, hr'] at hskip
  exact ⟨hp, hi.2, hr, hi.1, hskip⟩

lemma lookup_mem_knownIds (hb : b.Within U) (h : (b.search allow).lookup c id = .ok p) :
    id ∈ b.knownIds := by
  rw [← search_keyed hb _ _ _ h]
  simp only [search] at h ⊢
  simp only [knownIds, List.mem_append, List.mem_flatMap, List.mem_map]
  split at h
  · next q hq =>
    cases h
    obtain ⟨m, hm, hf⟩ := Option.bind_eq_some_iff.mp hq
    exact .inl ⟨m, mem_mapValues.mpr ⟨_, hm⟩, p, List.mem_of_find?_eq_some hf, rfl⟩
  · split at h
    · next q hq => cases h; exact .inr ⟨p, mem_mapValues.mpr ⟨id, hq⟩, rfl⟩
    · cases h

/-- **The search does not run out of fuel.** -/
theorem run_search_isSome (hb : b.Within U) :
    ((b.search allow).run (b.knownIds.length + 2) [] [leader]).isSome := by
  have hids : ∀ n i p, (b.search allow).lookup n i = .ok p → i ∈ b.knownIds.toFinset :=
    fun n i p h => List.mem_toFinset.mpr (lookup_mem_knownIds hb h)
  have := b.knownIds.toFinset_card_le
  refine Search.run_isSome (search_keyed hb) hids ?_
  simp only [List.length_singleton, List.toFinset_nil, Finset.sdiff_empty]
  omega

lemma orderDagWithDfs_ok (h : b.orderDagWithDfs allow leader = .ok subdag) :
    ∃ certificates, (b.search allow).run (b.knownIds.length + 2) [] [leader]
        = some (.ok certificates) ∧
      subdag = (certificates.foldl Subdag.file ∅).filter fun round _ =>
        round + b.storage.maxGcRounds > b.dag.lastCommittedRound := by
  unfold orderDagWithDfs at h
  split at h
  · cases h
  · cases h
  · next cs hcs => cases h; exact ⟨cs, hcs, rfl⟩

lemma run_search (hb : b.Within U) (hleader : U.Has leader)
    (h : (b.search allow).run fuel [] [leader] = some (.ok certificates)) :
    (certificates.map BatchCertificate.id).Nodup ∧ leader ∈ certificates ∧
    (∀ c ∈ certificates, U.Has c ∧ c.round ≤ leader.round) ∧
    (∀ c ∈ certificates, c = leader ∨ ∃ d ∈ certificates, (b.search allow).Step d c) ∧
    (∀ c ∈ certificates, ∀ id ∈ (b.search allow).children c,
      (b.search allow).skip c id = false → ∃ p ∈ certificates, p.id = id) := by
  have hkeyed : (b.search allow).Keyed := search_keyed hb
  have hstep : ∀ n p, (U.Has n ∧ n.round ≤ leader.round) → (b.search allow).Step n p →
      (U.Has p ∧ p.round ≤ leader.round) ∧ p.id ∉ [leader.id] := by
    intro n p ⟨hn, hr⟩ hnp
    obtain ⟨hp, -, hpr, -⟩ := step_search hb hn hnp
    refine ⟨⟨hp, by omega⟩, fun hm => ?_⟩
    rw [hp.eq_of_id hleader (List.mem_singleton.mp hm)] at hpr
    omega
  obtain ⟨hmem, hfrom, hclosed⟩ := Search.run_spec hkeyed h
  have hall := Search.run_preserves (P := fun c => U.Has c ∧ c.round ≤ leader.round) hkeyed
    (fun n p hn hnp => (hstep n p hn hnp).1) (by simp [hleader]) h
  have hnd := (Search.run_nodup (P := fun c => U.Has c ∧ c.round ≤ leader.round) hkeyed
    [leader.id] hstep (by simp [hleader, search]) (by simp) h).1
  refine ⟨hnd, hmem leader (by simp), hall, fun c hc => ?_, fun c hc id hid hs => ?_⟩
  · exact (hfrom c hc).imp (by simp) id
  · obtain h | ⟨d, -, p, hp, hfinds⟩ := hclosed c hc id hid hs
    · cases h
    · exact ⟨p, hp, hkeyed _ _ _ hfinds.2.2⟩

/-- **What an ordered subdag holds**: the leader and fresh certificates above the horizon, each
once; and with a certificate every previous one above the horizon that is fresh. -/
theorem orderDagWithDfs_spec (hb : b.Within U) (hleader : U.Has leader)
    (habove : b.dag.lastCommittedRound < leader.round)
    (h : b.orderDagWithDfs allow leader = .ok subdag) :
    (subdag.certificates.map BatchCertificate.id).Nodup ∧ leader ∈ subdag.certificates ∧
    (∀ c ∈ subdag.certificates, U.Has c ∧ c.round ≤ leader.round ∧
      (c = leader ∨ (b.dag.lastCommittedRound < c.round + b.storage.maxGcRounds ∧
        b.Fresh allow c.round c.id))) ∧
    (∀ c ∈ subdag.certificates, ∀ id ∈ c.previousCertificateIds,
      b.dag.lastCommittedRound < c.round - 1 + b.storage.maxGcRounds →
      (∃ p ∈ subdag.certificates, p.id = id) ∨ ¬ b.Fresh allow (c.round - 1) id) := by
  obtain ⟨cs, hrun, rfl⟩ := orderDagWithDfs_ok h
  obtain ⟨hnd, hmem, hall, hfrom, hclosed⟩ := run_search hb hleader hrun
  obtain ⟨hfiled, hm⟩ := Subdag.foldl_file cs Subdag.filed_empty
  have hcert : ∀ c, c ∈ Subdag.certificates ((cs.foldl Subdag.file ∅).filter fun round _ =>
      decide (round + b.storage.maxGcRounds > b.dag.lastCommittedRound)) ↔
      c ∈ cs ∧ b.dag.lastCommittedRound < c.round + b.storage.maxGcRounds := by
    intro c
    rw [Subdag.mem_certificates_filter hfiled, hm]
    simp [Subdag.certificates]
  refine ⟨?_, (hcert leader).mpr ⟨hmem, by omega⟩, fun c hc => ?_, fun c hc id hid hr => ?_⟩
  · have hfiled' := hfiled.filter fun round =>
      decide (round + b.storage.maxGcRounds > b.dag.lastCommittedRound)
    refine List.Nodup.map_on (fun c hc d hd hcd => ?_) hfiled'.nodup
    exact (hall c ((hcert c).mp hc).1).1.eq_of_id (hall d ((hcert d).mp hd).1).1 hcd
  · obtain ⟨hc, -⟩ := (hcert c).mp hc
    refine ⟨(hall c hc).1, (hall c hc).2, (hfrom c hc).imp id ?_⟩
    rintro ⟨d, hd, hstep⟩
    exact (step_search hb (hall d hd).1 hstep).2.2.2
  · obtain ⟨hc, -⟩ := (hcert c).mp hc
    by_cases hfresh : b.Fresh allow (c.round - 1) id
    · obtain ⟨p, hp, rfl⟩ := hclosed c hc id (mem_search_children.mpr ⟨hr, hid⟩)
        (search_skip.mpr hfresh)
      have hround := (hall c hc).1.round_previous (hall p hp).1 hid
      exact .inl ⟨p, (hcert p).mpr ⟨hp, by omega⟩, rfl⟩
    · exact .inr hfresh

end BFT

end AmareleoChain
