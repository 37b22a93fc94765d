import AmareleoChain.CommitOnce

/-!
`order_dag_with_dfs` computes the uncommitted causal history of a leader.

The DAG, the storage and the ledger are arbitrary here, as long as what an identifier resolves to
carries this identifier and is of the round just below.
-/

namespace AmareleoChain

open Std Relation

namespace BFT

variable {S V : Type}

/-- What the DAG, at the round just below that of a certificate, or the storage holds under an
identifier. -/
def resolve (b : BFT S V) (c : BatchCertificate) (id : Field) : Option BatchCertificate :=
  (b.dag.getCertificateForRoundWithId (c.round - 1) id).or (b.storage.getCertificate id)

/-- The DAG, at any round, or the storage holds `p` under this identifier. -/
def Held (b : BFT S V) (id : Field) (p : BatchCertificate) : Prop :=
  (∃ round, b.dag.getCertificateForRoundWithId round id = some p) ∨
    b.storage.getCertificate id = some p

/-- Storage holds certificates under their identifiers, and every previous identifier that
resolves names a certificate of the round just below. -/
structure Layered (b : BFT S V) (leader : BatchCertificate) : Prop where
  stored : ∀ id c, b.storage.getCertificate id = some c → c.id = id
  previous : ∀ c, (c = leader ∨ ∃ id, b.Held id c) → ∀ id ∈ c.previousCertificateIds,
    ∀ p, b.Held id p → p.round + 1 = c.round

variable [Ledger V] {allow : Bool} {b b' : BFT S V} {leader c p : BatchCertificate} {id : Field}

/-- An admissible parent, by its identifier: above the horizon, not recently committed, and with
ledger access not in the ledger. -/
def Admissible (b : BFT S V) (allow : Bool) (c : BatchCertificate) (id : Field) : Prop :=
  id ∈ c.previousCertificateIds ∧
    b.dag.lastCommittedRound < c.round - 1 + b.storage.maxGcRounds ∧
    b.Fresh allow (c.round - 1) id

/-- `c` is reached from the leader by admissible parents. -/
def Reaches (b : BFT S V) (allow : Bool) (leader c : BatchCertificate) : Prop :=
  ReflTransGen (fun c p => ∃ id, b.Admissible allow c id ∧ b.resolve c id = some p) leader c

/-! ### The search in these terms -/

lemma admissible_iff : b.Admissible allow c id ↔
    id ∈ (b.search allow).children c ∧ (b.search allow).skip c id = false := by
  rw [Admissible, mem_search_children, search_skip]
  tauto

lemma search_lookup_eq : (b.search allow).lookup c id =
    match b.resolve c id with
    | some p => .ok p
    | none => .error s!"Missing previous certificate {fmtId id} for round {c.round - 1}" := by
  simp only [search, resolve]
  cases b.dag.getCertificateForRoundWithId (c.round - 1) id with
  | some q => rfl
  | none => cases b.storage.getCertificate id <;> rfl

lemma search_lookup_ok : (b.search allow).lookup c id = .ok p ↔ b.resolve c id = some p := by
  rw [search_lookup_eq]
  cases b.resolve c id <;> simp

lemma finds_iff : (b.search allow).Finds c id p ↔
    b.Admissible allow c id ∧ b.resolve c id = some p := by
  rw [Search.Finds, ← search_lookup_ok, admissible_iff, and_assoc]

lemma step_iff : (b.search allow).Step c p ↔
    ∃ id, b.Admissible allow c id ∧ b.resolve c id = some p := by
  simp only [← finds_iff]
  rfl

omit [Ledger V] in
lemma held_of_resolve (h : b.resolve c id = some p) : b.Held id p := by
  rcases Option.or_eq_some_iff.mp h with h | ⟨-, h⟩
  · exact .inl ⟨_, h⟩
  · exact .inr h

namespace Layered

lemma keyed (hb : b.Layered leader) : (b.search allow).Keyed := by
  intro c id p h
  rcases held_of_resolve (search_lookup_ok.mp h) with ⟨r, h⟩ | h
  · exact (DAG.getCertificateForRoundWithId_some h).1
  · exact hb.stored id p h

/-- Whatever is reached is the leader, or held. -/
lemma held_of_reaches (h : b.Reaches allow leader c) : c = leader ∨ ∃ id, b.Held id c := by
  rcases h.cases_tail with rfl | ⟨d, -, id, -, h⟩
  · exact .inl rfl
  · exact .inr ⟨id, held_of_resolve h⟩

lemma round_resolve (hb : b.Layered leader) (hc : b.Reaches allow leader c)
    (hid : id ∈ c.previousCertificateIds) (h : b.resolve c id = some p) :
    p.round + 1 = c.round :=
  hb.previous c (held_of_reaches hc) id hid p (held_of_resolve h)

/-- All that refer to an identifier that resolves are of one round, and it resolves to the same
certificate for all of them. -/
lemma resolve_eq (hb : b.Layered leader) {d : BatchCertificate} (hc : b.Reaches allow leader c)
    (hd : b.Reaches allow leader d) (hidc : id ∈ c.previousCertificateIds)
    (hidd : id ∈ d.previousCertificateIds) (h : b.resolve d id = some p) :
    b.resolve c id = some p := by
  have hrd := hb.round_resolve hd hidd h
  have hrc := hb.previous c (held_of_reaches hc) id hidc p (held_of_resolve h)
  rw [resolve, show c.round = d.round by omega]
  exact h

/-- **The search terminates.** -/
theorem isSome_run (hb : b.Layered leader) :
    ((b.search allow).run (b.knownIds.length + 2) [] [leader]).isSome := by
  have hids : ∀ n i p, (b.search allow).lookup n i = .ok p → i ∈ b.knownIds.toFinset := by
    intro n i p h
    rw [← hb.keyed _ _ _ h, List.mem_toFinset]
    simp only [knownIds, List.mem_append, List.mem_flatMap, List.mem_map]
    rcases held_of_resolve (search_lookup_ok.mp h) with ⟨r, h⟩ | h
    · obtain ⟨m, hm, hf⟩ := Option.bind_eq_some_iff.mp h
      exact .inl ⟨m, mem_mapValues.mpr ⟨r, hm⟩, p, List.mem_of_find?_eq_some hf, rfl⟩
    · exact .inr ⟨p, mem_mapValues.mpr ⟨i, h⟩, rfl⟩
  have := b.knownIds.toFinset_card_le
  refine Search.run_isSome hb.keyed hids ?_
  simp only [List.length_singleton, List.toFinset_nil, Finset.sdiff_empty]
  omega

/-- **What the search returns**: what is reached from the leader, all of which resolves. -/
theorem run_ok (hb : b.Layered leader) {fuel : ℕ} {out : List BatchCertificate}
    (h : (b.search allow).run fuel [] [leader] = some (.ok out)) :
    (∀ c, c ∈ out ↔ b.Reaches allow leader c) ∧
      ∀ c id, b.Reaches allow leader c → b.Admissible allow c id →
        (b.resolve c id).isSome := by
  obtain ⟨hstack, -, hclosed⟩ := Search.run_spec hb.keyed h
  have hreach : ∀ c ∈ out, b.Reaches allow leader c :=
    Search.run_preserves (P := fun c => b.Reaches allow leader c) hb.keyed
      (fun n p hn hnp => hn.tail (step_iff.mp hnp)) (by simp [Reaches, ReflTransGen.refl]) h
  -- an admissible identifier was looked up for some certificate returned, and found
  have hfound : ∀ c ∈ out, ∀ id, b.Admissible allow c id →
      ∃ p ∈ out, b.resolve c id = some p := by
    intro c hc id hid
    rw [admissible_iff] at hid
    obtain h | ⟨d, hd, p, hp, hfinds⟩ := hclosed c hc id hid.1 hid.2
    · cases h
    obtain ⟨hadm, hres⟩ := finds_iff.mp hfinds
    exact ⟨p, hp, hb.resolve_eq (hreach c hc) (hreach d hd)
      (admissible_iff.mpr hid).1 hadm.1 hres⟩
  have hmem : ∀ c, b.Reaches allow leader c → c ∈ out := by
    intro c hc
    induction hc with
    | refl => exact hstack leader List.mem_cons_self
    | @tail d p hd hstep ih =>
      obtain ⟨id, hid, hres⟩ := hstep
      obtain ⟨q, hq, hres'⟩ := hfound d ih id hid
      rw [hres] at hres'
      cases hres'
      exact hq
  refine ⟨fun c => ⟨hreach c, hmem c⟩, fun c id hc hid => ?_⟩
  obtain ⟨p, -, hres⟩ := hfound c (hmem c hc) id hid
  rw [hres]
  rfl

/-- When all that is reached resolves, the search does not fail. -/
lemma exists_run (hb : b.Layered leader) (hall : ∀ c id, b.Reaches allow leader c →
      b.Admissible allow c id → (b.resolve c id).isSome) :
    ∃ out, (b.search allow).run (b.knownIds.length + 2) [] [leader] = some (.ok out) := by
  have htotal : (b.search allow).Total fun c => b.Reaches allow leader c := by
    intro c hc id hid hskip
    have hadm := admissible_iff.mpr ⟨hid, hskip⟩
    obtain ⟨p, hp⟩ := Option.isSome_iff_exists.mp (hall c id hc hadm)
    exact ⟨p, search_lookup_ok.mpr hp, hc.tail ⟨id, hadm, hp⟩⟩
  exact htotal.run (by simp [Reaches, ReflTransGen.refl]) hb.isSome_run

end Layered

/-! ### Two searches -/

/-- `b'` answers as `b` does on the history of the leader, wherever its certificates are found. -/
structure AnswersAs (b b' : BFT S V) (allow : Bool) (leader : BatchCertificate) : Prop where
  lastCommittedRound : b'.dag.lastCommittedRound = b.dag.lastCommittedRound
  maxGcRounds : b'.storage.maxGcRounds = b.storage.maxGcRounds
  recent : ∀ round id, b'.dag.isRecentlyCommitted round id = b.dag.isRecentlyCommitted round id
  ledger : allow = true →
    ∀ id, b'.ledger.containsCertificate id = b.ledger.containsCertificate id
  resolve : ∀ c id, b.Reaches allow leader c → b.Admissible allow c id →
    b'.resolve c id = b.resolve c id

lemma AnswersAs.agreesOn (h : b.AnswersAs b' allow leader) :
    (b.search allow).AgreesOn (b'.search allow) fun c => b.Reaches allow leader c where
  key := rfl
  children c _ := by
    simp only [search]
    rw [h.maxGcRounds, h.lastCommittedRound]
  skip c _ id _ := by
    simp only [search]
    rw [h.recent]
    cases allow with
    | false => rfl
    | true => rw [h.ledger rfl]
  lookup c hc id hid hskip := by
    rw [search_lookup_eq, search_lookup_eq, h.resolve c id hc (admissible_iff.mpr ⟨hid, hskip⟩)]
  step c p hc hcp := hc.tail (step_iff.mp hcp)

/-- **The order depends on these answers only.** -/
theorem AnswersAs.orderDagWithDfs_eq (h : b.AnswersAs b' allow leader) (hb : b.Layered leader)
    (hb' : b'.Layered leader) :
    b'.orderDagWithDfs allow leader = b.orderDagWithDfs allow leader := by
  have hrun : ∀ fuel, (b'.search allow).run fuel [] [leader]
      = (b.search allow).run fuel [] [leader] := fun fuel =>
    h.agreesOn.run (by simp [Reaches, ReflTransGen.refl])
  obtain ⟨r, hr⟩ : ∃ r, (b.search allow).run (b.knownIds.length + 2) [] [leader] = some r :=
    Option.isSome_iff_exists.mp hb.isSome_run
  obtain ⟨r', hr'⟩ : ∃ r, (b'.search allow).run (b'.knownIds.length + 2) [] [leader] = some r :=
    Option.isSome_iff_exists.mp hb'.isSome_run
  rw [hrun] at hr'
  obtain rfl := Search.run_unique hr hr'
  unfold orderDagWithDfs
  rw [hrun, hr, hr', h.maxGcRounds, h.lastCommittedRound]

/-- **`order_dag_with_dfs` computes the uncommitted causal history**: it terminates, and returns
an order when all that is reached from the leader by admissible parents resolves; the subdag
holds what is reached, above the horizon, each certificate once under its round; and it depends
only on what the certificates, the commits and the ledger answer. -/
theorem orderDagWithDfs_history (allow : Bool) (b : BFT S V) (leader : BatchCertificate)
    (hb : b.Layered leader) :
    ((b.search allow).run (b.knownIds.length + 2) [] [leader]).isSome ∧
    ((∃ subdag, b.orderDagWithDfs allow leader = .ok subdag) ↔
      ∀ c id, b.Reaches allow leader c → b.Admissible allow c id → (b.resolve c id).isSome) ∧
    (∀ subdag, b.orderDagWithDfs allow leader = .ok subdag →
      subdag.Filed ∧ subdag.certificates.Nodup ∧
      ∀ c, c ∈ subdag.certificates ↔ b.Reaches allow leader c ∧
        b.dag.lastCommittedRound < c.round + b.storage.maxGcRounds) ∧
    ∀ b' : BFT S V, b'.Layered leader → b.AnswersAs b' allow leader →
      b'.orderDagWithDfs allow leader = b.orderDagWithDfs allow leader := by
  refine ⟨hb.isSome_run, ⟨?_, fun hall => ?_⟩, ?_, fun b' hb' h => h.orderDagWithDfs_eq hb hb'⟩
  · rintro ⟨subdag, h⟩
    obtain ⟨out, hrun, -⟩ := orderDagWithDfs_ok h
    exact (hb.run_ok hrun).2
  · obtain ⟨out, hrun⟩ := hb.exists_run hall
    unfold orderDagWithDfs
    rw [hrun]
    exact ⟨_, rfl⟩
  · intro subdag h
    obtain ⟨out, hrun, rfl⟩ := orderDagWithDfs_ok h
    obtain ⟨hfiled, hmem⟩ := Subdag.foldl_file out Subdag.filed_empty
    have hfiled' := hfiled.filter fun round =>
      decide (round + b.storage.maxGcRounds > b.dag.lastCommittedRound)
    refine ⟨hfiled', hfiled'.nodup, fun c => ?_⟩
    rw [Subdag.mem_certificates_filter hfiled, hmem, ← (hb.run_ok hrun).1 c]
    simp [Subdag.certificates]

omit [Ledger V] in
lemma Within.layered {U : Universe} (hb : b.Within U) (hleader : U.Has leader) :
    b.Layered leader := by
  have hheld : ∀ id p, b.Held id p → U.cert id = some p := by
    rintro id p (⟨round, h⟩ | h)
    · obtain ⟨hid, a, ha⟩ := DAG.getCertificateForRoundWithId_some h
      rw [← hid]
      exact hb.graph ha
    · exact hb.storage h
  refine ⟨fun id c h => U.keyed (hb.storage h), fun c hc id hid p hp => ?_⟩
  have hhas : U.Has c := by
    rcases hc with rfl | ⟨id', hc⟩
    · exact hleader
    · exact Universe.has_of_cert (hheld id' c hc)
  exact U.previous_round hhas hid (hheld id p hp)

section Example

lemma exampleBft_within : exampleBft.Within exampleUniverse where
  wellFormed := DAG.wellFormed_new
  graph h := by simp [exampleBft, DAG.getCertificateForRoundWithAuthor, DAG.new] at h
  storage := exampleStorage_in

/-- The leader of round 2 has a certificate of round 1 in its history. -/
theorem orderDagWithDfs_history_example :
    exampleBft.Reaches true (developmentCertificate 20 0 2 [10, 11, 12])
      (developmentCertificate 11 1 1 []) := by
  have hleader : exampleUniverse.cert ⟨20⟩ = some (developmentCertificate 20 0 2 [10, 11, 12]) := by
    decide +kernel
  obtain ⟨-, -, hspec, -⟩ := orderDagWithDfs_history true exampleBft
    (developmentCertificate 20 0 2 [10, 11, 12]) (exampleBft_within.layered hleader)
  have hordered : ((exampleBft.orderDagWithDfs true
      (developmentCertificate 20 0 2 [10, 11, 12])).map fun subdag =>
        decide (developmentCertificate 11 1 1 [] ∈ subdag.certificates)) = .ok true := by
    decide +kernel
  cases h : exampleBft.orderDagWithDfs true (developmentCertificate 20 0 2 [10, 11, 12]) with
  | error e =>
    rw [h] at hordered
    cases hordered
  | ok subdag =>
    rw [h] at hordered
    exact (((hspec subdag h).2.2 _).mp (of_decide_eq_true (Except.ok.inj hordered))).1

end Example

end BFT

end AmareleoChain
