import AmareleoChain.Acceptance
import AmareleoChain.Orderly
import AmareleoChain.Recorded

/-!
A node whose storage, DAG and ledger belong together.

What is stored was checked and would pass the checks again; what is in the blocks above the GC
round is stored; and with a certificate the blocks hold its previous certificates, in the same
block or an earlier one, down to the rounds that were out of reach when it was committed.
-/

namespace AmareleoChain

open Std

/-! ### What was checked -/

/-- The author and the signers are members of the committee of the round, and reach its
quorum. -/
def Endorsed {V : Type} [Ledger V] [Network] (l : CoreLedgerService V) (c : BatchCertificate) :
    Prop :=
  ∃ committee, l.getCommitteeLookbackForRound c.round = .ok committee ∧
    c.author ∈ committee.members ∧ (∀ x ∈ c.signatures, x.toAddress ∈ committee.members) ∧
    committee.isQuorumThresholdReached
      (insert c.author (c.signatures.toList.map Signature.toAddress).toFinset) = true

lemma Endorsed.mono {V : Type} [Ledger V] [Network] {l l' : CoreLedgerService V}
    {c : BatchCertificate} (h : Endorsed l c) (hl : l.Grows l') : Endorsed l' c := by
  obtain ⟨committee, hcommittee, hrest⟩ := h
  exact ⟨committee, hl.committees _ _ hcommittee, hrest⟩

namespace Storage

variable {S V : Type} [Network] [Ledger V] {l l' : CoreLedgerService V} {s t : Storage S}
  {c d : BatchCertificate}

/-- A stored certificate would be checked again with success. -/
structure Checked (l : CoreLedgerService V) (s : Storage S) (c : BatchCertificate) : Prop where
  endorsed : Endorsed l c
  previous : s.gcRound < c.round - 1 → ∃ committee previous,
    s.Previous l (c.round - 1) c.previousCertificateIds.toList committee previous

/-- Every stored certificate would. -/
def AllChecked (l : CoreLedgerService V) (s : Storage S) : Prop :=
  ∀ {c : BatchCertificate}, s.certificates[c.id]? = some c → s.Checked l c

/-- The checks still succeed over a ledger that grew, and a storage that kept what it has above
its GC round. -/
lemma Checked.mono (h : s.Checked l c) (hl : l.Grows l') (hgc : s.gcRound ≤ t.gcRound)
    (hkept : ∀ {d : BatchCertificate}, s.certificates[d.id]? = some d → t.gcRound < d.round →
      t.certificates[d.id]? = some d) : t.Checked l' c := by
  refine ⟨h.endorsed.mono hl, fun habove => ?_⟩
  obtain ⟨committee, previous, hprevious⟩ := h.previous (hgc.trans_lt habove)
  refine ⟨committee, previous, hl.committees _ _ hprevious.lookback, hprevious.ids, fun p hp => ?_,
    hprevious.members, hprevious.distinct, hprevious.quorum⟩
  obtain ⟨hp, hround⟩ := hprevious.stored p hp
  exact ⟨hkept hp (hround ▸ habove), hround⟩

omit [Network] in
lemma checkSigners_ok {committee : Committee} {round : ℕ} {gcLog : String}
    {signatures : List Signature} {met signers : Finset Address}
    (h : checkSigners committee round gcLog signatures met = .ok signers) :
    (∀ x ∈ signatures, x.toAddress ∈ committee.members) ∧
      signers = met ∪ (signatures.map Signature.toAddress).toFinset := by
  induction signatures generalizing met with
  | nil =>
    cases h
    simp
  | cons x signatures ih =>
    rw [checkSigners] at h
    split at h
    · cases h
    next hmember =>
    obtain ⟨hall, rfl⟩ := ih h
    refine ⟨List.forall_mem_cons.mpr ⟨of_decide_eq_true (not_not.mp hmember), hall⟩, ?_⟩
    ext a
    simp only [Finset.mem_union, Finset.mem_insert, List.map_cons, List.toFinset_cons]
    tauto

variable [StorageService S]

/-- **What an insertion that succeeds checked.** -/
lemma endorsed_of_insertCertificate {now : ℤ}
    {transmissions : IndexMap TransmissionID Transmission} {aborted : IndexSet TransmissionID}
    (h : s.insertCertificate l now c transmissions aborted = (.ok (), t)) : Endorsed l c := by
  unfold insertCertificate at h
  split at h
  · cases h
  cases hcheck : s.checkCertificate l now c transmissions aborted with
  | error e =>
    rw [hcheck] at h
    cases h
  | ok missing =>
    unfold checkCertificate at hcheck
    dsimp only at hcheck
    split at hcheck
    · cases hcheck
    split at hcheck
    · cases hcheck
    split at hcheck
    · cases hcheck
    next m hheader =>
    split at hcheck
    · cases hcheck
    split at hcheck
    · cases hcheck
    next committee hcommittee =>
    split at hcheck
    · cases hcheck
    next signers hsigners =>
    split at hcheck
    · cases hcheck
    next hquorum =>
    obtain ⟨hmembers, rfl⟩ := checkSigners_ok hsigners
    have hauthor : c.author ∈ committee.members := by
      unfold checkBatchHeader at hheader
      dsimp only at hheader
      split at hheader
      · cases hheader
      rw [show c.batchHeader.round = c.round from rfl, hcommittee] at hheader
      dsimp only at hheader
      split at hheader
      · cases hheader
      next hmember => exact of_decide_eq_true (not_not.mp hmember)
    refine ⟨committee, hcommittee, hauthor, hmembers, ?_⟩
    rw [Finset.insert_eq]
    exact not_not.mp hquorum

/-- **An insertion** keeps every stored certificate checked. -/
lemma AllChecked.insertCertificate (h : s.AllChecked l) (hs : s.Indexed) (now : ℤ)
    (transmissions : IndexMap TransmissionID Transmission) (aborted : IndexSet TransmissionID) :
    (s.insertCertificate l now c transmissions aborted).2.AllChecked l := by
  rcases insertCertificate_cases l now hs c transmissions aborted with
    ⟨e, hres⟩ | ⟨missing, haccepts, -, hres⟩
  · rw [hres]
    exact h
  have hget := getElem?_insertCertificateAtomic haccepts.fresh aborted missing
  have hkept : ∀ {d : BatchCertificate}, s.certificates[d.id]? = some d → s.gcRound < d.round →
      (s.insertCertificateAtomic c aborted missing).certificates[d.id]? = some d :=
    fun hd _ => (hget _ _).mpr (.inl hd)
  have hendorsed := endorsed_of_insertCertificate hres
  rw [hres]
  intro d hd
  rcases (hget _ _).mp hd with hd | ⟨-, rfl⟩
  · exact (h hd).mono (.refl l) (Nat.le_refl _) hkept
  -- the previous certificates are stored, so they were checked themselves
  have hchecked : s.Checked l d := by
    refine ⟨hendorsed, fun habove => ?_⟩
    obtain ⟨committee, previous, hcommittee, hids, hstored, hdistinct, hquorum⟩ :=
      haccepts.previous habove
    refine ⟨committee, previous, hcommittee, hids, hstored, fun p hp => ?_, hdistinct, hquorum⟩
    obtain ⟨hp, hround⟩ := hstored p hp
    obtain ⟨committee', hcommittee', hmember, -⟩ := (h hp).endorsed
    rw [hround, hcommittee] at hcommittee'
    cases hcommittee'
    exact hmember
  exact hchecked.mono (.refl l) (Nat.le_refl _) hkept

end Storage

/-! ### The chain -/

/-- With a certificate the blocks hold its previous certificates, up to its own block, unless
these are `g` rounds or more below another certificate. Those of a block are in the order of
their rounds. -/
structure Linked {V : Type} [Ledger V] (g : ℕ) (l : CoreLedgerService V) : Prop where
  previous : ∀ (k : ℕ) (block : Block), l.blocks[k]? = some block →
    ∀ c ∈ block.certificates, ∀ id ∈ c.previousCertificateIds,
      (∃ p ∈ chainCertificates (l.blocks.take (k + 1)), p.id = id) ∨
      ∃ d ∈ chainCertificates l.blocks, c.round - 1 + g ≤ d.round
  sorted : ∀ block ∈ l.blocks, (block.certificates.map BatchCertificate.round).Pairwise (· ≤ ·)

lemma Linked.append {V : Type} [Ledger V] {g : ℕ} {l l' : CoreLedgerService V} (h : Linked g l)
    {block : Block} (hblocks : l'.blocks = l.blocks ++ [block])
    (hprevious : ∀ c ∈ block.certificates, ∀ id ∈ c.previousCertificateIds,
      (∃ p ∈ chainCertificates l'.blocks, p.id = id) ∨
        ∃ d ∈ chainCertificates l'.blocks, c.round - 1 + g ≤ d.round)
    (hsorted : (block.certificates.map BatchCertificate.round).Pairwise (· ≤ ·)) :
    Linked g l' where
  previous k blk hblk c hc id hid := by
    rw [hblocks] at hblk
    by_cases hk : k < l.blocks.length
    · -- an earlier block
      rw [List.getElem?_append_left hk] at hblk
      rw [hblocks, List.take_append_of_le_length (by omega), chainCertificates_append]
      refine (h.previous k blk hblk c hc id hid).imp_right ?_
      rintro ⟨d, hd, hround⟩
      exact ⟨d, List.mem_append_left _ hd, hround⟩
    · rw [List.getElem?_append_right (by omega)] at hblk
      obtain rfl := List.mem_singleton.mp (List.mem_of_getElem? hblk)
      rw [List.take_of_length_le]
      · exact hprevious c hc id hid
      · rw [hblocks, List.length_append, List.length_singleton]
        omega
  sorted blk hblk := by
    rw [hblocks, List.mem_append, List.mem_singleton] at hblk
    rcases hblk with hblk | rfl
    · exact h.sorted blk hblk
    · exact hsorted

/-- The latest round of a ledger is that of a certificate in its blocks, or there is none. -/
def RoundsAttained (V : Type) [Ledger V] : Prop :=
  ∀ l : CoreLedgerService V, l.latestRound = 0 ∨
    ∃ c ∈ chainCertificates l.blocks, c.round = l.latestRound

namespace Subdag

variable {s : Subdag}

lemma Filed.sorted (h : s.Filed) :
    (s.certificates.map BatchCertificate.round).Pairwise (· ≤ ·) := by
  rw [List.pairwise_map, certificates, List.pairwise_flatMap]
  have hround : ∀ e ∈ s.toList, ∀ c ∈ e.2.toList, c.round = e.1 := fun e he c hc =>
    h e.1 e.2 (ExtTreeMap.mem_toList_iff_getElem?_eq_some.mp he) c hc
  refine ⟨fun e he => ?_, ?_⟩
  · refine List.pairwise_of_forall_mem_list fun c hc d hd => ?_
    rw [hround e he c hc, hround e he d hd]
  · have hkeys : s.toList.Pairwise fun a b => compare a.1 b.1 = .lt :=
      ExtTreeMap.ordered_keys_toList
    refine hkeys.imp_of_mem fun {a b} ha hb hab c hc d hd => ?_
    rw [hround a ha c hc, hround b hb d hd]
    exact (Nat.compare_eq_lt.mp hab).le

end Subdag

namespace DAG

variable {d : DAG} {c e : BatchCertificate} {r : ℕ} {a : Address}

lemma getCertificateForRoundWithAuthor_of_insert
    (h : (d.insert c).getCertificateForRoundWithAuthor r a = some e) :
    e = c ∨ d.getCertificateForRoundWithAuthor r a = some e := by
  cases hrecent : d.isRecentlyCommitted c.round c.id with
  | true =>
    rw [DAG.insert, if_pos hrecent] at h
    exact .inr h
  | false =>
    rw [getCertificateForRoundWithAuthor_insert hrecent] at h
    split at h
    · cases h
      exact .inl rfl
    · exact .inr h

end DAG

namespace BFT

variable {S V : Type} [Ledger V] {U : Universe} {g : ℕ} {b b' : BFT S V}
  {c leader : BatchCertificate} {subdag : Subdag}

/-! ### The certificates of a subdag -/

lemma filed_of_orderDagWithDfs {allow : Bool} (h : b.orderDagWithDfs allow leader = .ok subdag) :
    subdag.Filed := by
  obtain ⟨certificates, -, rfl⟩ := orderDagWithDfs_ok h
  exact (Subdag.foldl_file certificates Subdag.filed_empty).1.filter _

/-- A certificate of a subdag is its leader, or in the DAG, or stored. -/
lemma known_of_orderDagWithDfs {allow : Bool} (hb : b.Within U) (hleader : U.Has leader)
    (h : b.orderDagWithDfs allow leader = .ok subdag) (hc : c ∈ subdag.certificates) :
    c = leader ∨ (∃ r a, b.dag.getCertificateForRoundWithAuthor r a = some c) ∨ b.Stored c := by
  obtain ⟨certificates, hrun, rfl⟩ := orderDagWithDfs_ok h
  obtain ⟨hfiled, hmem⟩ := Subdag.foldl_file certificates Subdag.filed_empty
  rw [Subdag.mem_certificates_filter hfiled, hmem] at hc
  have hc' : c ∈ certificates := hc.1.resolve_left (by simp [Subdag.certificates])
  obtain ⟨-, -, -, hfrom, -⟩ := run_search hb hleader hrun
  rcases hfrom c hc' with rfl | ⟨d, -, id, -, -, hlook⟩
  · exact .inl rfl
  refine .inr ?_
  simp only [search] at hlook
  split at hlook
  · next q hq =>
    cases hlook
    obtain ⟨-, a, ha⟩ := DAG.getCertificateForRoundWithId_some hq
    exact .inl ⟨_, a, ha⟩
  · split at hlook
    · next q hq =>
      cases hlook
      obtain rfl := U.keyed (hb.storage hq)
      exact .inr hq
    · cases hlook

/-! ### The DAG and the ledger -/

/-- Over a storage: the DAG and the ledger have certificates of the universe, stored above the
GC round; what is recorded as committed is in the ledger; and the blocks are linked. -/
structure Traced (U : Universe) (g : ℕ) (b : BFT S V) : Prop where
  maxGcRounds : b.storage.maxGcRounds = g
  within : b.Within U
  chain : ∀ c ∈ chainCertificates b.ledger.blocks, U.Has c
  stored : ∀ c ∈ chainCertificates b.ledger.blocks, b.storage.gcRound < c.round → b.Stored c
  graph : ∀ {r : ℕ} {a : Address} {c : BatchCertificate},
    b.dag.getCertificateForRoundWithAuthor r a = some c → b.storage.gcRound < c.round → b.Stored c
  recent : ∀ (r : ℕ) (id : Field), b.dag.isRecentlyCommitted r id = true → InChain b.ledger id
  linked : Linked g b.ledger

lemma Traced.ledger (h : b.Traced U g) {l : CoreLedgerService V}
    (hl : l.blocks = b.ledger.blocks) : Traced U g { b with ledger := l } where
  maxGcRounds := h.maxGcRounds
  within := ⟨h.within.wellFormed, h.within.graph, h.within.storage⟩
  chain := by
    dsimp only
    rw [hl]
    exact h.chain
  stored := by
    dsimp only
    rw [hl]
    exact h.stored
  graph := h.graph
  recent r id hid := by
    obtain ⟨c, hc⟩ := h.recent r id hid
    exact ⟨c, by rwa [hl]⟩
  linked := by
    refine ⟨?_, ?_⟩
    · dsimp only
      rw [hl]
      exact h.linked.previous
    · dsimp only
      rw [hl]
      exact h.linked.sorted

lemma Traced.stored_of_subdag (h : b.Traced U g) (hleader : U.Has leader)
    (hstored : b.storage.gcRound < leader.round → b.Stored leader)
    (hsub : b.orderDagWithDfs true leader = .ok subdag) (hc : c ∈ subdag.certificates)
    (hgc : b.storage.gcRound < c.round) : b.Stored c := by
  rcases known_of_orderDagWithDfs h.within hleader hsub hc with rfl | ⟨r, a, hra⟩ | hc
  · exact hstored hgc
  · exact h.graph hra hgc
  · exact hc

/-- The previous certificates of a subdag are in it or in a block, or too far below its leader. -/
lemma Traced.previous_of_subdag [LawfulLedger V] (h : b.Traced U g) (hleader : U.Has leader)
    (habove : b.dag.lastCommittedRound < leader.round)
    (hsub : b.orderDagWithDfs true leader = .ok subdag) (hc : c ∈ subdag.certificates) {id : Field}
    (hid : id ∈ c.previousCertificateIds) :
    (∃ p ∈ chainCertificates b.ledger.blocks ++ subdag.certificates, p.id = id) ∨
      ∃ d ∈ chainCertificates b.ledger.blocks ++ subdag.certificates,
        c.round - 1 + g ≤ d.round := by
  obtain ⟨-, hmem, -, hclosed⟩ := orderDagWithDfs_spec h.within hleader habove hsub
  by_cases hreach : b.dag.lastCommittedRound < c.round - 1 + b.storage.maxGcRounds
  · left
    rcases hclosed c hc id hid hreach with ⟨p, hp, hpid⟩ | hold
    · exact ⟨p, List.mem_append_right _ hp, hpid⟩
    -- committed before, or in the ledger
    have hin : InChain b.ledger id := by
      by_cases hrecent : b.dag.isRecentlyCommitted (c.round - 1) id = true
      · exact h.recent _ _ hrecent
      · by_cases hledger : b.ledger.containsCertificate id = .ok true
        · exact (LawfulLedger.containsCertificate_ok hledger).mp rfl
        · exact absurd ⟨Bool.eq_false_iff.mpr hrecent, fun _ => hledger⟩ hold
    obtain ⟨p, hp, hpid⟩ := hin
    exact ⟨p, List.mem_append_left _ hp, hpid⟩
  · right
    refine ⟨leader, List.mem_append_right _ hmem, ?_⟩
    rw [← h.maxGcRounds]
    omega

/-- **A leader is committed**: a block with its subdag is added, and the DAG records it. -/
lemma Traced.commit [LawfulLedger V] (h : b.Traced U g) (hleader : U.Has leader)
    (habove : b.dag.lastCommittedRound < leader.round)
    (hstored : b.storage.gcRound < leader.round → b.Stored leader)
    (hsub : b.orderDagWithDfs true leader = .ok subdag) {block : Block}
    (hauthority : block.authority = .quorum subdag) {l : CoreLedgerService V}
    (hblocks : l.blocks = b.ledger.blocks ++ [block]) :
    Traced U g (({ b with ledger := l } : BFT S V).commitSubdag leader subdag) ∧
      leader ∈ chainCertificates l.blocks ∧
      (({ b with ledger := l } : BFT S V).commitSubdag leader subdag).dag.lastCommittedRound
        ≤ leader.round := by
  obtain ⟨-, hmem, hall, -⟩ := orderDagWithDfs_spec h.within hleader habove hsub
  have hcerts : block.certificates = subdag.certificates := by
    rw [Block.certificates, hauthority]
  have hchain : chainCertificates l.blocks
      = chainCertificates b.ledger.blocks ++ subdag.certificates := by
    rw [hblocks, chainCertificates_append, ← hcerts]
    simp [chainCertificates]
  have hold : ∀ c ∈ chainCertificates b.ledger.blocks, c ∈ chainCertificates l.blocks :=
    fun c hc => hchain ▸ List.mem_append_left _ hc
  have hnew : ∀ c ∈ subdag.certificates, c ∈ chainCertificates l.blocks :=
    fun c hc => hchain ▸ List.mem_append_right _ hc
  have hcases : ∀ c ∈ chainCertificates l.blocks,
      c ∈ chainCertificates b.ledger.blocks ∨ c ∈ subdag.certificates :=
    fun c hc => List.mem_append.mp (hchain ▸ hc)
  have hgraph : ∀ {r : ℕ} {a : Address} {c : BatchCertificate},
      (b.dag.commitAll subdag.certificates b.storage.maxGcRounds).getCertificateForRoundWithAuthor
        r a = some c → b.dag.getCertificateForRoundWithAuthor r a = some c :=
    DAG.getCertificateForRoundWithAuthor_of_commitAll
  have hlinked : Linked g l := by
    refine h.linked.append hblocks (fun c hc id hid => ?_)
      (hcerts ▸ (filed_of_orderDagWithDfs hsub).sorted)
    rw [hchain]
    exact h.previous_of_subdag hleader habove hsub (hcerts ▸ hc) hid
  refine ⟨?_, hnew leader hmem,
    DAG.lastCommittedRound_commitAll_le habove.le fun c hc => (hall c hc).2.1⟩
  exact
    { maxGcRounds := h.maxGcRounds
      within := ⟨h.within.wellFormed.commitAll _ _, fun hc => h.within.graph (hgraph hc),
        h.within.storage⟩
      chain := fun c hc => (hcases c hc).elim (h.chain c) fun hc => (hall c hc).1
      stored := fun c hc hgc => (hcases c hc).elim (fun hc => h.stored c hc hgc)
        fun hc => h.stored_of_subdag hleader hstored hsub hc hgc
      graph := fun hc hgc => h.graph (hgraph hc) hgc
      recent := fun r id hid => by
        rcases recent_commitAll hid with hid | ⟨c, hc, rfl⟩
        · obtain ⟨c, hc, hid⟩ := h.recent r id hid
          exact ⟨c, hold c hc, hid⟩
        · exact ⟨c, hnew c hc, rfl⟩
      linked := ⟨hlinked.previous, hlinked.sorted⟩ }

lemma mem_chain_of_grown {l l' : CoreLedgerService V} (h : l.blocks <+: l'.blocks)
    (hc : c ∈ chainCertificates l.blocks) : c ∈ chainCertificates l'.blocks := by
  obtain ⟨blocks, hblocks⟩ := h
  rw [← hblocks, chainCertificates_append]
  exact List.mem_append_left _ hc

lemma Commits.chain_grows {allow isSyncing : Bool} {leaders : List BatchCertificate}
    (hc : Commits allow isSyncing b leaders b') :
    b.ledger.blocks <+: b'.ledger.blocks ∧ b'.storage = b.storage := by
  induction hc with
  | nil => exact ⟨List.prefix_rfl, rfl⟩
  | cons _ hadvanced _ ih =>
    obtain ⟨-, ⟨-, rfl⟩ | ⟨block, -, hblocks⟩⟩ := hadvanced
    · exact ih
    · exact ⟨List.IsPrefix.trans ⟨[block], hblocks.symm⟩ ih.1, ih.2⟩

/-- **Leaders are committed** one after the other. -/
theorem Traced.commits [LawfulLedger V] {leaders : List BatchCertificate}
    (hc : Commits true false b leaders b') (h : b.Traced U g) (hsender : b.consensusSender ≠ none)
    (hpair : leaders.Pairwise fun p q => p.round < q.round)
    (hleaders : ∀ p ∈ leaders, U.Has p ∧ b.dag.lastCommittedRound < p.round ∧
      (b.storage.gcRound < p.round → b.Stored p)) :
    b'.Traced U g ∧ ∀ p ∈ leaders, p ∈ chainCertificates b'.ledger.blocks := by
  induction hc with
  | nil => exact ⟨h, fun _ hp => absurd hp List.not_mem_nil⟩
  | @cons b b' leader leaders subdag l hsub hadvanced hc ih =>
    rw [List.forall_mem_cons] at hleaders
    rw [List.pairwise_cons] at hpair
    obtain ⟨⟨hleader, habove, hstored⟩, hleaders⟩ := hleaders
    obtain ⟨-, ⟨hnone, -⟩ | ⟨block, hauthority, hblocks⟩⟩ := hadvanced
    · exact absurd (hnone.resolve_left (by decide)) hsender
    obtain ⟨htraced, hin, hlast⟩ :=
      h.commit hleader habove hstored hsub hauthority hblocks
    obtain ⟨htraced', hall⟩ := ih htraced hsender hpair.2 fun p hp =>
      ⟨(hleaders p hp).1, hlast.trans_lt (hpair.1 p hp), (hleaders p hp).2.2⟩
    exact ⟨htraced', List.forall_mem_cons.mpr ⟨mem_chain_of_grown hc.chain_grows.1 hin, hall⟩⟩

lemma Traced.insert (h : b.Traced U g) (hc : U.Has c)
    (hstored : b.storage.gcRound < c.round → b.Stored c) :
    Traced U g { b with dag := b.dag.insert c } where
  maxGcRounds := h.maxGcRounds
  within := by
    refine ⟨h.within.wellFormed.insert c, fun {r a e} he => ?_, h.within.storage⟩
    rcases DAG.getCertificateForRoundWithAuthor_of_insert he with rfl | he
    · exact hc
    · exact h.within.graph he
  chain := h.chain
  stored := h.stored
  graph {r a e} he hgc := by
    rcases DAG.getCertificateForRoundWithAuthor_of_insert he with rfl | he
    · exact hstored hgc
    · exact h.graph he hgc
  recent r id hid := h.recent r id (by simpa using hid)
  linked := h.linked

lemma Traced.storage (h : b.Traced U g) {s : Storage S} {X : BatchCertificate → Prop} {m : ℕ}
    (honward : b.storage.Onward X m s) (hkeyed : s.Indexed) (hX : ∀ c, X c → U.Has c) :
    Traced U g { b with storage := s } where
  maxGcRounds := honward.maxGcRounds.trans h.maxGcRounds
  within := by
    refine ⟨h.within.wellFormed, h.within.graph, fun {id e} he => ?_⟩
    obtain rfl := hkeyed.keyed he
    rcases honward.added he with he | he
    · exact h.within.storage he
    · exact hX e he
  chain := h.chain
  stored e he hgc := honward.kept (h.stored e he (honward.gc_le.trans_lt hgc)) hgc
  graph he hgc := honward.kept (h.graph he (honward.gc_le.trans_lt hgc)) hgc
  recent := h.recent
  linked := h.linked

/-! ### The whole BFT -/

variable [Network]

/-- The invariant. -/
structure Whole (U : Universe) (g : ℕ) (b : BFT S V) : Prop extends Traced U g b where
  tidy : b.storage.Tidy
  checked : b.storage.AllChecked b.ledger
  gc : b.storage.gcRound ≤ max b.ledger.latestRound 1 - g
  sender : SendersGrow b.consensusSender

omit [Network] in
lemma latestRound_mono (horder : Primary.RoundsInOrder V) (hattained : RoundsAttained V)
    {l l' : CoreLedgerService V} (h : l.blocks <+: l'.blocks) : l.latestRound ≤ l'.latestRound := by
  rcases hattained l with hzero | ⟨c, hc, hround⟩
  · omega
  · rw [← hround]
    exact horder l' c (mem_chain_of_grown h hc)

lemma Whole.same (h : b.Whole U g) (hsame : Storage.SameCertificates b.storage b'.storage)
    (hmax : b'.storage.maxGcRounds = b.storage.maxGcRounds)
    (hkeeps : ∃ latestLeader leaderCertificate leaderCertificateTimer, b' =
      { b.withLeader latestLeader with
        leaderCertificate, leaderCertificateTimer, storage := b'.storage }) : b'.Whole U g := by
  obtain ⟨x, leader, timer, hb'⟩ := hkeeps
  generalize b'.storage = s at hsame hmax hb'
  subst hb'
  have htidy := hsame.tidy h.tidy
  have hcert : ∀ id : Field, s.certificates[id]? = b.storage.certificates[id]? := fun id => by
    rw [hsame.2.1]
  have hledger := h.toTraced.ledger (l := (b.withLeader x).ledger) rfl
  refine ⟨⟨hmax.trans h.maxGcRounds, ⟨h.within.wellFormed, h.within.graph, fun hc => ?_⟩, h.chain,
    fun c hc hgc => ?_, fun hc hgc => ?_, hledger.recent, hledger.linked⟩, htidy, fun {c} hc => ?_,
    ?_, h.sender⟩
  · exact h.within.storage (hcert _ ▸ hc)
  · exact (hcert _).trans (h.stored c hc (hsame.2.2.2 ▸ hgc))
  · exact (hcert _).trans (h.graph hc (hsame.2.2.2 ▸ hgc))
  · refine (h.checked ((hcert _).symm.trans hc)).mono ⟨fun _ _ h => h, fun _ h => h⟩
      hsame.2.2.2.ge fun hd _ => (hcert _).trans hd
  · exact hsame.2.2.2.le.trans h.gc

variable [StorageService S]

/-- **A certificate is stored.** -/
lemma Whole.insertCertificate (h : b.Whole U g) (hc : U.Has c) (now : ℤ)
    (transmissions : IndexMap TransmissionID Transmission) (aborted : IndexSet TransmissionID) :
    Whole U g { b with
      storage := (b.storage.insertCertificate b.ledger now c transmissions aborted).2 } := by
  obtain ⟨htidy, honward⟩ := h.tidy.insertCertificate (m := 0) b.ledger now c transmissions aborted
  refine { h.toTraced.storage honward htidy.indexed fun d hd => hd.1 ▸ hc with
    tidy := htidy
    checked := Storage.AllChecked.insertCertificate @h.checked h.tidy.indexed now transmissions
      aborted
    gc := ?_
    sender := h.sender }
  have hgc := honward.gc
  have hold := h.gc
  dsimp only
  omega

omit [StorageService S] in
/-- What a call of `update_dag` leaves of the DAG, the chain and the GC round. -/
structure Grown (U : Universe) (g : ℕ) (b b' : BFT S V) : Prop where
  traced : b'.Traced U g
  chain : b.ledger.blocks <+: b'.ledger.blocks
  gc : b'.storage.gcRound ≤ max b'.ledger.latestRound 1 - g

omit [StorageService S] in
lemma Whole.grown (horder : Primary.RoundsInOrder V) (hattained : RoundsAttained V)
    (h : b.Whole U g) (htraced : b'.Traced U g) (hchain : b.ledger.blocks <+: b'.ledger.blocks)
    (hstorage : b'.storage = b.storage) : Grown U g b b' := by
  refine ⟨htraced, hchain, ?_⟩
  have hround := latestRound_mono horder hattained hchain
  have hgc := h.gc
  rw [hstorage]
  omega

omit [StorageService S] in
lemma Traced.commits_due [LawfulLedger V] {author : Address} {l₀ l₁ : CoreLedgerService V}
    {due done rest : List BatchCertificate}
    (hinsert : Traced U g { b with dag := b.dag.insert c }) (hnone : b.consensusSender ≠ none)
    (hready : Ready { b with dag := b.dag.insert c } c leader author)
    (hdue : Due { b with dag := b.dag.insert c, ledger := l₀ } leader due)
    (hsplit : due = done ++ rest) (hl₀ : l₀.blocks = b.ledger.blocks)
    (hl₁ : l₁.blocks = b.ledger.blocks)
    (hcommits : Commits true false { b with dag := b.dag.insert c, ledger := l₁ } done b') :
    b'.Traced U g ∧ (∀ p ∈ done, p ∈ chainCertificates b'.ledger.blocks) ∧
      b.ledger.blocks <+: b'.ledger.blocks ∧ b'.storage = b.storage := by
  have habove : (b.dag.insert c).lastCommittedRound < leader.round := by
    have hround := (hinsert.within.wellFormed.keyed hready.found).1
    have habove := hready.above
    dsimp only at habove
    omega
  obtain ⟨hpair, hall⟩ := hdue.ascending (hinsert.ledger hl₀).within.wellFormed habove
  have hleaders : ∀ p ∈ done, U.Has p ∧ (b.dag.insert c).lastCommittedRound < p.round ∧
      (b.storage.gcRound < p.round → b.Stored p) := by
    intro p hp
    obtain ⟨hp, hfound⟩ := hall p (hsplit ▸ List.mem_append_left _ hp)
    obtain ⟨r, a, hra⟩ : ∃ r a,
        (b.dag.insert c).getCertificateForRoundWithAuthor r a = some p := by
      rcases hfound with rfl | hfound
      · exact ⟨_, _, hready.found⟩
      · exact hfound
    exact ⟨hinsert.within.graph hra, hp, hinsert.graph hra⟩
  rw [hsplit, List.pairwise_append] at hpair
  obtain ⟨htraced, hin⟩ := (hinsert.ledger hl₁).commits hcommits hnone hpair.1 hleaders
  obtain ⟨hgrows, hsame⟩ := hcommits.chain_grows
  exact ⟨htraced, hin, hl₁ ▸ hgrows, hsame⟩

/-- All leaders were committed, and the last of them is in the chain: the storage is collected. -/
lemma Whole.grown_collect (horder : Primary.RoundsInOrder V) (hattained : RoundsAttained V)
    (h : b.Whole U g) (htraced : b'.Traced U g) (hchain : b.ledger.blocks <+: b'.ledger.blocks)
    (hstorage : b'.storage = b.storage) (hleader : leader ∈ chainCertificates b'.ledger.blocks)
    {l : CoreLedgerService V} (hl : l.blocks = b'.ledger.blocks) :
    Grown U g b { b' with
      ledger := l, storage := b'.storage.garbageCollectCertificates leader.round } := by
  have htidy : b'.storage.Tidy := hstorage ▸ h.tidy
  obtain ⟨htidy', honward⟩ := htidy.garbageCollectCertificates (X := fun _ => False) leader.round
  refine ⟨(htraced.storage honward htidy'.indexed fun _ h => h.elim).ledger hl, hl ▸ hchain, ?_⟩
  have hlatest := latestRound_mono horder hattained (hl ▸ hchain : b.ledger.blocks <+: l.blocks)
  have hround := horder l leader (hl ▸ hleader)
  have hold := h.gc
  obtain ⟨-, hgc, -⟩ := Storage.garbageCollectCertificates_spec htidy.indexed htidy.above
    leader.round
  dsimp only
  rw [hgc, hstorage, h.maxGcRounds]
  omega

/-- **A certificate enters the DAG** once it is stored, and the leaders that are due are
committed. There is a consensus sender then, or none is due. -/
lemma Whole.grown_updateDag [LawfulLedger V] (horder : Primary.RoundsInOrder V)
    (hattained : RoundsAttained V) (h : b.Whole U g) (hc : U.Has c)
    (hstored : b.storage.gcRound < c.round → b.Stored c) (hattended : b.Attended c) :
    Grown U g b (b.updateDag true false c).2 := by
  have hfaithful : b.FaithfulSender := fun send hsend => (h.sender send hsend).1
  have hinsert := h.toTraced.insert hc hstored
  have hidle : ∀ l : CoreLedgerService V, l.blocks = b.ledger.blocks →
      Grown U g b { b with dag := b.dag.insert c, ledger := l } := fun l hl =>
    h.grown horder hattained (hinsert.ledger hl) (by rw [hl]) rfl
  by_cases hnone : b.consensusSender = none
  · obtain ⟨x, -, ⟨r, hres⟩ | ⟨leader, hready, -⟩⟩ := updateDag_entry true false b c
    · rw [hres]
      exact hidle { b.ledger with latestLeader := x } rfl
    · exact absurd ⟨leader, hready⟩ (hattended hnone)
  rcases updateDag_cases true false hfaithful c with ⟨l, hquiet, hres⟩ |
    ⟨leader, author, l₀, due, done, rest, b', l, hquiet₀, -, hready, hdue, hsplit,
      ⟨l₁, hquiet₁, hcommits⟩, hquiet, hres⟩
  · rw [hres]
    exact hidle l hquiet.1
  obtain ⟨htraced, hin, hchain, hstorage⟩ :=
    hinsert.commits_due hnone hready hdue hsplit hquiet₀.1 hquiet₁.1 hcommits
  rcases hres with hres | ⟨rfl, hres⟩ <;> rw [hres]
  · exact h.grown horder hattained (htraced.ledger hquiet.1) (hquiet.1.symm ▸ hchain) hstorage
  · have hleader : leader ∈ done := by
      obtain ⟨previous, -, hdue⟩ := hdue
      rw [List.append_nil] at hsplit
      rw [← hsplit, hdue, List.reverse_cons]
      exact List.mem_append_right _ (List.mem_singleton_self _)
    exact h.grown_collect horder hattained htraced hchain hstorage (hin leader hleader) hquiet.1

/-- **The invariant is kept** by a call of `update_dag`, and the chain grows. -/
theorem Whole.updateDag [LawfulLedger V] (horder : Primary.RoundsInOrder V)
    (hattained : RoundsAttained V) (h : b.Whole U g) (hc : U.Has c)
    (hstored : b.storage.gcRound < c.round → b.Stored c) (hattended : b.Attended c) :
    (b.updateDag true false c).2.Whole U g ∧
      b.ledger.blocks <+: (b.updateDag true false c).2.ledger.blocks := by
  obtain ⟨htraced, hchain, hgc⟩ := h.grown_updateDag horder hattained hc hstored hattended
  have hupdated := updateDag_updated h.sender.evolves h.within.wellFormed true false c
  -- what is stored, over the grown ledger
  have hstorage : (b.updateDag true false c).2.storage.Tidy ∧
      b.storage.Onward (fun _ => False) (c.round - 1) (b.updateDag true false c).2.storage := by
    rcases hupdated.storage with heq | ⟨-, -, heq⟩ <;> rw [heq]
    · exact ⟨h.tidy, .refl _⟩
    · exact h.tidy.garbageCollectCertificates _
  obtain ⟨htidy, honward⟩ := hstorage
  have hsender : (b.updateDag true false c).2.consensusSender = b.consensusSender := by
    obtain ⟨dag, ledger, committed, storage, hkeeps⟩ := hupdated.keeps
    rw [hkeeps]
  refine ⟨{ htraced with tidy := htidy, checked := fun hd => ?_, gc := hgc, sender := ?_ }, hchain⟩
  · exact (h.checked ((honward.added hd).resolve_right id)).mono hupdated.ledger honward.gc_le
      honward.kept
  · rw [hsender]
    exact h.sender

end BFT

end AmareleoChain
