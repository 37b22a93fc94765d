import AmareleoChain.Recorded
import AmareleoChain.Restart
import AmareleoChain.Whole

/-!
The chain, over all the lives of a node.

A node starts over the first block, is stopped and starts again over the blocks it left, any number
of times. It may be stopped at any moment, also when a block was just added that the DAG does not
record. What carries the result is that after bootup the DAG records the certificates of the blocks,
as far up as the search for a subdag looks.
-/

namespace AmareleoChain

open Std

/-! ### Consensus -/

section Senders

variable {V : Type} [Ledger V]

/-- A block of a subdag is added to the chain. -/
def CoreLedgerService.Adds (l l' : CoreLedgerService V) (round : ℕ) (subdag : Subdag) : Prop :=
  ∃ block : Block, block.authority = .quorum subdag ∧ block.round = round ∧
    block.height = l.blocks.length ∧ l'.blocks = l.blocks ++ [block]

/-- A channel that adds nothing to the chain but blocks of the subdags it is sent, one by one, and
that has added one when its callback reports success. It may be cut off once the block is added. -/
def ConsensusSender.Appends (send : ConsensusSender V) : Prop :=
  ∀ l s t, ((send l s t).1 ≠ .callback (.ok ()) ∧ (send l s t).2.blocks = l.blocks) ∨
    l.Adds (send l s t).2 s.anchorRound s

/-- It adds no block without reporting it. -/
def ConsensusSender.Reports (send : ConsensusSender V) : Prop :=
  send.Appends ∧ ∀ l s t, (send l s t).1 ≠ .callback (.ok ()) → (send l s t).2.blocks = l.blocks

end Senders

namespace BFT

variable {S V : Type} [Ledger V] {A : Prop} {U : Universe} {g : ℕ} {b b' : BFT S V}
  {log : List (BatchCertificate × Subdag)} {cs : List BatchCertificate}
  {c leader : BatchCertificate} {subdag : Subdag}

/-! ### The chain and the DAG -/

/-- The blocks of the leaders `log`, after the first block: their rounds are even and ascend, each
has its leader and nothing above it, and no certificate is in two of them. In runs that are attended
(`A`), with a certificate the blocks up to its own have the previous ones above the horizon. -/
structure Built (A : Prop) (U : Universe) (g : ℕ) (l : CoreLedgerService V)
    (log : List (BatchCertificate × Subdag)) : Prop where
  records : Records l log
  ranked : Ranked log
  even : ∀ e ∈ log, e.1.round % 2 = 0
  has : ∀ c ∈ certificatesOf log, U.Has c
  nodup : ((certificatesOf log).map BatchCertificate.id).Nodup
  gapless : A → Gapless g 0 (fun _ => False) log

/-- The DAG records the certificates `cs`, those of the blocks above the horizon among them. In runs
that are attended they are all in blocks. -/
structure Reflects (A : Prop) (U : Universe) (g : ℕ) (log : List (BatchCertificate × Subdag))
    (cs : List BatchCertificate) (b : BFT S V) : Prop where
  wellFormed : b.dag.WellFormed
  graph : ∀ {r : ℕ} {a : Address} {c : BatchCertificate},
    b.dag.getCertificateForRoundWithAuthor r a = some c → U.Has c
  maxGcRounds : b.storage.maxGcRounds = g
  recents : b.dag.Recents g cs
  known : ∀ c ∈ cs, U.Has c ∧ c.round ≤ b.dag.lastCommittedRound
  covers : ∀ c ∈ certificatesOf log, c ∈ cs ∨ c.round + g ≤ b.dag.lastCommittedRound
  even : b.dag.lastCommittedRound % 2 = 0
  listed : A → ∀ c ∈ cs, c ∈ certificatesOf log
  round : A → b.dag.lastCommittedRound = roundAfter 0 log

lemma Built.congr {l l' : CoreLedgerService V} (h : Built A U g l log)
    (hblocks : l'.blocks = l.blocks) : Built A U g l' log := by
  refine ⟨⟨?_, ?_⟩, h.ranked, h.even, h.has, h.nodup, h.gapless⟩
  · rw [hblocks]
    exact h.records.blocks
  · rw [hblocks]
    exact h.records.height

lemma built_nil {l : CoreLedgerService V} (h : Records l []) : Built A U g l [] := by
  refine ⟨h, ⟨.nil, ?_, ?_⟩, ?_, ?_, .nil, fun _ pre e post hlog => ?_⟩
  iterate 4 simp [certificatesOf]
  simp at hlog

lemma Built.certificates {l : CoreLedgerService V} (h : Built A U g l log) :
    chainCertificates l.blocks = certificatesOf log := by
  simpa using h.records.certificates 0

namespace Reflects

omit [Ledger V] in
lemma congr (h : b.Reflects A U g log cs) (hdag : b'.dag = b.dag)
    (hmax : b'.storage.maxGcRounds = b.storage.maxGcRounds) : b'.Reflects A U g log cs where
  wellFormed := hdag ▸ h.wellFormed
  graph := by
    rw [hdag]
    exact h.graph
  maxGcRounds := hmax.trans h.maxGcRounds
  recents := hdag ▸ h.recents
  known := by
    rw [hdag]
    exact h.known
  covers := by
    rw [hdag]
    exact h.covers
  even := by
    rw [hdag]
    exact h.even
  listed := h.listed
  round := by
    rw [hdag]
    exact h.round

omit [Ledger V] in
lemma round_le (h : b.Reflects A U g log cs) (hc : c ∈ certificatesOf log) :
    c.round ≤ b.dag.lastCommittedRound := by
  rcases h.covers c hc with hin | hbelow
  · exact (h.known c hin).2
  · omega

omit [Ledger V] in
lemma insert (h : b.Reflects A U g log cs) (hc : U.Has c) :
    ({ b with dag := b.dag.insert c } : BFT S V).Reflects A U g log cs where
  wellFormed := h.wellFormed.insert c
  graph := by
    intro r a d hd
    rcases DAG.getCertificateForRoundWithAuthor_of_insert hd with rfl | hd
    · exact hc
    · exact h.graph hd
  maxGcRounds := h.maxGcRounds
  recents := h.recents.insert c
  known := by simpa using h.known
  covers := by simpa using h.covers
  even := by simpa using h.even
  listed := h.listed
  round := by simpa using h.round

end Reflects

/-! ### One leader -/

/-- **A block is added** for a leader. -/
theorem Built.snoc [LawfulLedger V] (hb : Built A U g b.ledger log) (h : b.Reflects A U g log cs)
    (hstorage : ∀ {id : Field} {c : BatchCertificate}, b.storage.certificates[id]? = some c →
      U.cert id = some c) (hleader : U.Has leader)
    (habove : b.dag.lastCommittedRound < leader.round) (heven : leader.round % 2 = 0)
    (hsub : b.orderDagWithDfs true leader = .ok subdag) {l : CoreLedgerService V}
    (hadds : b.ledger.Adds l leader.round subdag) :
    Built A U g l (log ++ [(leader, subdag)]) := by
  obtain ⟨block, hauthority, hround, hheight, hblocks⟩ := hadds
  have hwithin : b.Within U := ⟨h.wellFormed, h.graph, hstorage⟩
  obtain ⟨hnd, hmem, hall, hclosed⟩ := orderDagWithDfs_spec hwithin hleader habove hsub
  rw [h.maxGcRounds] at hall hclosed
  have hcertificates : certificatesOf (log ++ [(leader, subdag)])
      = certificatesOf log ++ subdag.certificates := by simp [certificatesOf]
  have hlen := hb.records.length
  obtain ⟨genesis, blocks, hchain, hbeacon, hzero, hrest⟩ := hb.records.blocks
  refine ⟨⟨⟨genesis, blocks ++ [block], ?_, hbeacon, hzero,
    List.rel_append hrest (.cons ⟨hauthority, hround⟩ .nil)⟩, fun i x hx => ?_⟩,
    ⟨?_, ?_, ?_⟩, ?_, ?_, ?_, fun hA => ?_⟩
  · rw [hblocks, hchain, List.cons_append]
  · rw [hblocks] at hx
    rcases Nat.lt_or_ge i b.ledger.blocks.length with hlt | hge
    · rw [List.getElem?_append_left hlt] at hx
      exact hb.records.height i x hx
    · rw [List.getElem?_append_right hge, List.getElem?_singleton] at hx
      split at hx
      · cases hx
        omega
      · cases hx
  · rw [List.pairwise_append]
    refine ⟨hb.ranked.ascending, List.pairwise_singleton _ _, fun e he f hf => ?_⟩
    obtain rfl := List.mem_singleton.mp hf
    -- both rounds are even
    have hle := h.round_le (List.mem_flatMap.mpr ⟨e, he, hb.ranked.leader e he⟩)
    have heven' := hb.even e he
    dsimp only
    omega
  · rw [List.forall_mem_append, List.forall_mem_singleton]
    exact ⟨hb.ranked.leader, hmem⟩
  · rw [List.forall_mem_append, List.forall_mem_singleton]
    exact ⟨hb.ranked.bounded, fun c hc => (hall c hc).2.1⟩
  · rw [List.forall_mem_append, List.forall_mem_singleton]
    exact ⟨hb.even, heven⟩
  · rw [hcertificates, List.forall_mem_append]
    exact ⟨hb.has, fun c hc => (hall c hc).1⟩
  · rw [hcertificates, List.map_append, List.nodup_append]
    refine ⟨hb.nodup, hnd, ?_⟩
    rintro _ hx _ hy rfl
    obtain ⟨d, hd, hdid⟩ := List.mem_map.mp hx
    obtain ⟨c, hc, hcid⟩ := List.mem_map.mp hy
    obtain ⟨hhas, -, hfresh⟩ := hall c hc
    obtain rfl := hhas.eq_of_id (hb.has d hd) (hcid.trans hdid.symm)
    -- the leader is of a new round, and the others are not recorded
    rcases hfresh with rfl | ⟨hr, hfresh, -⟩
    · exact absurd (h.round_le hd) (by omega)
    · have hin := (h.covers c hd).resolve_right (by omega)
      have hrec := (h.recents c.round c.id).mpr ⟨⟨c, hin, rfl, rfl⟩, hr⟩
      rw [hfresh] at hrec
      cases hrec
  · refine gapless_snoc (hb.gapless hA) fun c hc id hid hr => .inl ?_
    rw [← h.round hA] at hr
    dsimp only at hc ⊢
    rw [hcertificates]
    rcases hclosed c hc id hid hr with ⟨p, hp, hpid⟩ | hstale
    · exact ⟨p, List.mem_append_right _ hp, hpid⟩
    by_cases hrec : b.dag.isRecentlyCommitted (c.round - 1) id = true
    · obtain ⟨⟨p, hp, -, hpid⟩, -⟩ := (h.recents _ _).mp hrec
      exact ⟨p, List.mem_append_left _ (h.listed hA p hp), hpid⟩
    · have hled : b.ledger.containsCertificate id = .ok true := by
        by_contra hled
        exact hstale ⟨by simpa using hrec, fun _ => hled⟩
      obtain ⟨p, hp, hpid⟩ := (LawfulLedger.containsCertificate_ok hled).mp rfl
      have hp : p ∈ chainCertificates b.ledger.blocks := hp
      rw [hb.certificates] at hp
      exact ⟨p, List.mem_append_left _ hp, hpid⟩

/-- **The DAG records a subdag**, which is in a block, or was not sent. -/
theorem Reflects.commitSubdag (h : b.Reflects A U g log cs)
    (hstorage : ∀ {id : Field} {c : BatchCertificate}, b.storage.certificates[id]? = some c →
      U.cert id = some c) (hleader : U.Has leader)
    (habove : b.dag.lastCommittedRound < leader.round) (heven : leader.round % 2 = 0)
    (hsub : b.orderDagWithDfs true leader = .ok subdag) {l : CoreLedgerService V}
    {log' : List (BatchCertificate × Subdag)}
    (hlog : log' = log ++ [(leader, subdag)] ∨ log' = log ∧ ¬ A) :
    (({ b with ledger := l } : BFT S V).commitSubdag leader subdag).Reflects A U g log'
        (cs ++ subdag.certificates) ∧
      (({ b with ledger := l } : BFT S V).commitSubdag leader subdag).dag.lastCommittedRound
        = leader.round := by
  have hwithin : b.Within U := ⟨h.wellFormed, h.graph, hstorage⟩
  obtain ⟨-, hmem, hall, -⟩ := orderDagWithDfs_spec hwithin hleader habove hsub
  have hround : (b.dag.commitAll subdag.certificates
      b.storage.maxGcRounds).lastCommittedRound = leader.round :=
    Nat.le_antisymm (DAG.lastCommittedRound_commitAll_le habove.le fun c hc => (hall c hc).2.1)
      (DAG.round_le_lastCommittedRound_commitAll hmem)
  have hcertificates : ∀ c ∈ certificatesOf log', c ∈ certificatesOf log ∨
      c ∈ subdag.certificates := by
    rcases hlog with rfl | ⟨rfl, -⟩
    · intro c hc
      simpa [certificatesOf] using hc
    · exact fun c hc => .inl hc
  refine ⟨⟨h.wellFormed.commitAll _ _, fun hd => h.graph
    (DAG.getCertificateForRoundWithAuthor_of_commitAll hd), h.maxGcRounds, ?_, ?_, fun c hc => ?_,
    ?_, fun hA => ?_, fun hA => ?_⟩, hround⟩
  · dsimp only [BFT.commitSubdag]
    rw [h.maxGcRounds]
    exact h.recents.commitAll subdag.certificates
  · dsimp only [BFT.commitSubdag]
    rw [hround, List.forall_mem_append]
    exact ⟨fun c hc => ⟨(h.known c hc).1, (h.known c hc).2.trans habove.le⟩,
      fun c hc => ⟨(hall c hc).1, (hall c hc).2.1⟩⟩
  · dsimp only [BFT.commitSubdag]
    rw [hround, List.mem_append]
    rcases hcertificates c hc with hc | hc
    · exact (h.covers c hc).imp .inl fun hbelow => by omega
    · exact .inl (.inr hc)
  · dsimp only [BFT.commitSubdag]
    rw [hround]
    exact heven
  · obtain rfl := hlog.resolve_right fun hno => hno.2 hA
    rw [List.forall_mem_append]
    rw [certificatesOf_append]
    refine ⟨fun c hc => List.mem_append_left _ (h.listed hA c hc), fun c hc => ?_⟩
    exact List.mem_append_right _ (by simpa [certificatesOf] using hc)
  · obtain rfl := hlog.resolve_right fun hno => hno.2 hA
    dsimp only [BFT.commitSubdag]
    rw [hround, roundAfter_append_singleton]

/-- The consensus sender, if there is one, only appends. -/
def AppendingSender (b : BFT S V) : Prop :=
  ∀ send, b.consensusSender = some send → ConsensusSender.Appends send

/-- It reports what it appends. -/
def ReportingSender (b : BFT S V) : Prop :=
  ∀ send, b.consensusSender = some send → ConsensusSender.Reports send

/-- What became of the leader of a round: a block was added and the DAG is to record it, or there
was no one to build it; or nothing was done; or consensus was cut off. -/
structure Outcome (b : BFT S V) (round : ℕ) (subdag : Subdag) (r : CommitResult)
    (l : CoreLedgerService V) : Prop where
  committed : r = .committed →
    b.consensusSender = none ∧ l = b.ledger ∨ b.ledger.Adds l round subdag
  other : r ≠ .committed →
    l.blocks = b.ledger.blocks ∨ ¬ b.ReportingSender ∧ b.ledger.Adds l round subdag

lemma Outcome.same {round : ℕ} {r : CommitResult} (h : r ≠ .committed) :
    b.Outcome round subdag r b.ledger := ⟨fun hr => absurd hr h, fun _ => .inl rfl⟩

variable [StorageService S] [Network]

omit [StorageService S] [Network] in
lemma triggerConsensus_outcome (hb : b.AppendingSender) (subdag : Subdag)
    (t : IndexMap TransmissionID Transmission) :
    ∃ r l, b.triggerConsensus subdag t = (r, { b with ledger := l }) ∧
      b.Outcome subdag.anchorRound subdag r l := by
  unfold triggerConsensus
  split
  · next hsend =>
    exact ⟨.committed, b.ledger, rfl, fun _ => .inl ⟨hsend, rfl⟩, fun h => absurd rfl h⟩
  next send hsend =>
  have hcases := hb send hsend b.ledger subdag t
  have hother : ∀ r, (send b.ledger subdag t).1 ≠ .callback (.ok ()) → r ≠ .committed →
      b.Outcome subdag.anchorRound subdag r (send b.ledger subdag t).2 := by
    refine fun r hno hr => ⟨fun h => absurd h hr, fun _ => ?_⟩
    refine hcases.imp And.right fun hadds => ⟨fun hreports => ?_, hadds⟩
    -- a sender that reports has added nothing
    have hsame := (hreports send hsend).2 b.ledger subdag t hno
    obtain ⟨block, -, -, -, hblocks⟩ := hadds
    rw [hsame] at hblocks
    exact absurd hblocks (by simp)
  dsimp only
  split
  · next hok =>
    exact ⟨_, _, rfl, fun _ => .inr (hcases.resolve_left fun h => h.1 hok), fun h => absurd rfl h⟩
  all_goals
    next hreply => exact ⟨_, _, rfl, hother _ (by rw [hreply]; simp) (by simp)⟩

lemma buildBlock_outcome (hb : b.AppendingSender) (round : ℕ) (subdag : Subdag) :
    ∃ r l, b.buildBlock round subdag = (r, { b with ledger := l }) ∧
      b.Outcome round subdag r l := by
  unfold buildBlock
  split
  · exact ⟨_, _, rfl, .same (by simp)⟩
  split
  · exact ⟨_, _, rfl, .same (by simp)⟩
  dsimp only
  split
  · exact ⟨_, _, rfl, .same (by simp)⟩
  next hanchor =>
  obtain rfl : subdag.anchorRound = round := not_not.mp hanchor
  exact triggerConsensus_outcome hb subdag _

/-- **One leader.** A block is added unless there is no sender, and then the DAG records the subdag;
or the chain is as it was; or the sender was cut off. -/
theorem commitLeader_outcome (hb : b.AppendingSender) (leader : BatchCertificate) :
    (∃ r l, b.commitLeader true false leader = (r, { b with ledger := l }) ∧ r ≠ .committed ∧
      l.blocks = b.ledger.blocks) ∨
    ∃ subdag, b.orderDagWithDfs true leader = .ok subdag ∧
      ((∃ l, b.commitLeader true false leader
          = (.committed, ({ b with ledger := l } : BFT S V).commitSubdag leader subdag) ∧
          (b.consensusSender = none ∧ l = b.ledger ∨ b.ledger.Adds l leader.round subdag)) ∨
        ∃ r l, b.commitLeader true false leader = (r, { b with ledger := l }) ∧ r ≠ .committed ∧
          ¬ b.ReportingSender ∧ b.ledger.Adds l leader.round subdag) := by
  unfold commitLeader
  split
  · exact .inl ⟨_, _, rfl, by simp, rfl⟩
  next subdag hsub =>
  rw [if_neg Bool.false_ne_true]
  obtain ⟨r, l, hres, houtcome⟩ := buildBlock_outcome hb leader.round subdag
  rw [hres]
  cases r with
  | committed => exact .inr ⟨subdag, hsub, .inl ⟨l, rfl, houtcome.committed rfl⟩⟩
  | stopped =>
    rcases houtcome.other (by simp) with hsame | ⟨hcut, hadds⟩
    · exact .inl ⟨_, l, rfl, by simp, hsame⟩
    · exact .inr ⟨subdag, hsub, .inr ⟨_, l, rfl, by simp, hcut, hadds⟩⟩
  | failed e =>
    rcases houtcome.other (by simp) with hsame | ⟨hcut, hadds⟩
    · exact .inl ⟨_, l, rfl, by simp, hsame⟩
    · exact .inr ⟨subdag, hsub, .inr ⟨_, l, rfl, by simp, hcut, hadds⟩⟩

/-! ### One call of `update_dag` -/

/-- **The leaders one after the other.** -/
theorem commitLeaders_built [LawfulLedger V] (hb : Built A U g b.ledger log)
    (h : b.Reflects A U g log cs)
    (hstorage : ∀ {id : Field} {c : BatchCertificate}, b.storage.certificates[id]? = some c →
      U.cert id = some c) (hsend : b.AppendingSender) (hA : A → b.consensusSender ≠ none)
    {leaders : List BatchCertificate}
    (hleaders : ∀ c ∈ leaders, U.Has c ∧ b.dag.lastCommittedRound < c.round ∧ c.round % 2 = 0)
    (hpair : leaders.Pairwise fun p q => p.round < q.round) :
    ∃ log', Built A U g (b.commitLeaders true false leaders).2.ledger log' ∧
      (b.ReportingSender →
        ∃ cs', (b.commitLeaders true false leaders).2.Reflects A U g log' cs') := by
  induction leaders generalizing b log cs with
  | nil => exact ⟨log, hb, fun _ => ⟨cs, h⟩⟩
  | cons leader leaders ih =>
    rw [List.forall_mem_cons] at hleaders
    obtain ⟨⟨hleader, habove, heven⟩, hrest⟩ := hleaders
    rw [List.pairwise_cons] at hpair
    rw [commitLeaders]
    rcases commitLeader_outcome hsend leader with ⟨r, l, hres, hr, hsame⟩ |
      ⟨subdag, hsub, ⟨l, hres, hl⟩ | ⟨r, l, hres, hr, hcut, hadds⟩⟩
    · -- nothing was done
      rw [hres]
      split
      · next heq => exact absurd (congrArg Prod.fst heq) hr
      · next heq =>
        cases heq
        exact ⟨log, hb.congr hsame, fun _ => ⟨cs, h.congr rfl rfl⟩⟩
    · -- the leader is committed, and so are the others
      obtain ⟨log', hb', hlog⟩ : ∃ log', Built A U g l log' ∧
          (log' = log ++ [(leader, subdag)] ∨ log' = log ∧ ¬ A) := by
        rcases hl with ⟨hnone, rfl⟩ | hadds
        · exact ⟨log, hb, .inr ⟨rfl, fun hA' => hA hA' hnone⟩⟩
        · exact ⟨_, hb.snoc h hstorage hleader habove heven hsub hadds, .inl rfl⟩
      obtain ⟨h', hround⟩ := h.commitSubdag hstorage hleader habove heven hsub (l := l) hlog
      rw [hres]
      dsimp only
      exact ih hb' h' hstorage hsend hA (fun c hc => ⟨(hrest c hc).1, by
        rw [hround]; exact hpair.1 c hc, (hrest c hc).2.2⟩) hpair.2
    · -- consensus was cut off once the block was added
      rw [hres]
      split
      · next heq => exact absurd (congrArg Prod.fst heq) hr
      · next heq =>
        cases heq
        exact ⟨_, hb.snoc h hstorage hleader habove heven hsub hadds, fun h => absurd h hcut⟩

omit [Ledger V] [StorageService S] [Network] in
lemma Due.even {due : List BatchCertificate} (hb : b.dag.WellFormed) (h : b.Due leader due)
    (heven : leader.round % 2 = 0) : ∀ p ∈ due, p.round % 2 = 0 := by
  obtain ⟨previous, hprevious, rfl⟩ := h
  obtain ⟨-, -, -, hspec⟩ := previousLeaders_spec b leader
    (leaderRounds b.dag.lastCommittedRound leader.round)
  obtain ⟨rounds, hrounds, hall⟩ := hspec previous hprevious
  intro p hp
  rw [List.mem_reverse, List.mem_cons] at hp
  rcases hp with rfl | hp
  · exact heven
  obtain ⟨r, hr, a, ha⟩ : ∃ r ∈ rounds, ∃ a,
      b.dag.getCertificateForRoundWithAuthor r a = some p := by
    clear hprevious hspec hrounds
    induction hall with
    | nil => cases hp
    | cons hq _ ih =>
      rcases List.mem_cons.mp hp with rfl | hp
      · exact ⟨_, List.mem_cons_self, hq⟩
      · obtain ⟨r, hr, hfound⟩ := ih hp
        exact ⟨r, List.mem_cons_of_mem _ hr, hfound⟩
  have hmem := mem_leaderRounds.mp (hrounds.subset hr)
  rw [(hb.keyed ha).1]
  omega

/-- **One call of `update_dag`** adds blocks that are in order, and the DAG records them, unless
consensus is cut off. -/
theorem updateDag_built [LawfulLedger V] (hb : Built A U g b.ledger log)
    (h : b.Reflects A U g log cs)
    (hstorage : ∀ {id : Field} {c : BatchCertificate}, b.storage.certificates[id]? = some c →
      U.cert id = some c) (hc : U.Has c) (hsend : b.AppendingSender) (hA : A → b.Attended c) :
    ∃ log', Built A U g (b.updateDag true false c).2.ledger log' ∧
      (b.ReportingSender → ∃ cs', (b.updateDag true false c).2.Reflects A U g log' cs') := by
  have hins := h.insert hc
  obtain ⟨x, -, ⟨r, hres⟩ | ⟨leader, hready, hres⟩⟩ := updateDag_entry true false b c
  · rw [hres]
    exact ⟨log, hb.congr rfl, fun _ => ⟨cs, hins.congr rfl rfl⟩⟩
  have hround := (hins.wellFormed.keyed hready.found).1
  have habove := hready.above
  have hlisten : A → b.consensusSender ≠ none := fun hA' hnone => hA hA' hnone ⟨leader, hready⟩
  rw [hres]
  unfold commitLeaderCertificate
  obtain ⟨y, hy, -⟩ := previousLeaders_spec
    (({ b with dag := b.dag.insert c } : BFT S V).withLeader x) leader
    (leaderRounds (b.dag.insert c).lastCommittedRound leader.round)
  have hdag : ∀ y, (({ b with dag := b.dag.insert c } : BFT S V).withLeader y).Reflects A U g log
      cs := fun y => hins.congr rfl rfl
  split
  · next b₂ heq =>
    obtain rfl : b₂ = ({ b with dag := b.dag.insert c } : BFT S V).withLeader y :=
      (congrArg Prod.snd heq).symm.trans hy
    exact ⟨log, hb.congr rfl, fun _ => ⟨cs, hdag y⟩⟩
  next previous b₂ heq =>
  obtain rfl : b₂ = ({ b with dag := b.dag.insert c } : BFT S V).withLeader y :=
    (congrArg Prod.snd heq).symm.trans hy
  have hdue : (({ b with dag := b.dag.insert c } : BFT S V).withLeader x).Due leader
      (leader :: previous).reverse := ⟨previous, congrArg Prod.fst heq, rfl⟩
  obtain ⟨hpair, hmem⟩ := hdue.ascending (hdag x).wellFormed (hround ▸ habove)
  have hparity := hdue.even (hdag x).wellFormed (hround ▸ hready.even)
  have hb' : Built A U g (({ b with dag := b.dag.insert c } : BFT S V).withLeader y).ledger log :=
    hb.congr rfl
  have hhas : ∀ p ∈ (leader :: previous).reverse, U.Has p := by
    intro p hp
    rcases (hmem p hp).2 with rfl | ⟨r, a, ha⟩
    · exact hins.graph hready.found
    · exact hins.graph ha
  obtain ⟨log', hb', hreflects⟩ := commitLeaders_built hb' (hdag y) hstorage hsend hlisten
    (fun p hp => ⟨hhas p hp, (hmem p hp).1, hparity p hp⟩) hpair
  split
  · next h₂ =>
    rw [h₂] at hb' hreflects
    exact ⟨log', hb', hreflects⟩
  · next h₂ =>
    rw [h₂] at hb' hreflects
    exact ⟨log', hb', hreflects⟩
  · next h₂ =>
    rw [h₂] at hb' hreflects
    refine ⟨log', hb', fun hr => ?_⟩
    obtain ⟨cs', h'⟩ := hreflects hr
    exact ⟨cs', h'.congr rfl (by simp)⟩

/-! ### Bootup -/

omit [Network] in
lemma Ranked.le_roundAfter (h : Ranked log) {e : BatchCertificate × Subdag} (he : e ∈ log) :
    e.1.round ≤ roundAfter 0 log := by
  rcases List.eq_nil_or_concat log with rfl | ⟨init, f, rfl⟩
  · cases he
  rw [List.concat_eq_append] at h he ⊢
  rw [roundAfter_append_singleton]
  rcases List.mem_append.mp he with he | he
  · have hlt := (List.pairwise_append.mp h.ascending).2.2 e he f List.mem_cons_self
    omega
  · rw [List.mem_singleton.mp he]

omit [Network] in
lemma roundAfter_even (h : ∀ e ∈ log, e.1.round % 2 = 0) : roundAfter 0 log % 2 = 0 := by
  rcases List.eq_nil_or_concat log with rfl | ⟨init, f, rfl⟩
  · rfl
  rw [List.concat_eq_append] at h ⊢
  rw [roundAfter_append_singleton]
  exact h f (List.mem_append_right _ List.mem_cons_self)

omit [Network] in
lemma Ranked.round_le (h : Ranked log) {c : BatchCertificate} (hc : c ∈ certificatesOf log) :
    c.round ≤ roundAfter 0 log := by
  obtain ⟨e, he, hce⟩ := List.mem_flatMap.mp hc
  exact (h.bounded e he c hce).trans (h.le_roundAfter he)

/-- **After bootup** the DAG records the certificates of the latest blocks. -/
theorem Built.bootup {account : Address} {committee : Committee} {transmissions : S}
    {l : CoreLedgerService V} {now : ℤ} (hb : Built A U g l log)
    (h : (BFT.new account (Storage.new committee transmissions g) l).bootup now = .ok b) :
    b.ledger = l ∧ b.consensusSender = none ∧ ∃ cs, b.Reflects A U g log cs := by
  obtain ⟨htidy, -, -, -, hnew⟩ := Storage.new_spec committee transmissions g
  have hmax := (maxGcRounds_bootup htidy h).trans hnew
  unfold BFT.bootup at h
  split at h
  · cases h
  next storage cs hsync =>
  cases h
  have hkept : storage.maxGcRounds = g := hmax
  have hsync : (Storage.new committee transmissions g).syncStorageWithLedgerAtBootup l now
      = .ok (storage, cs) := hsync
  have hcs : cs = recentCertificates g log := by
    unfold Storage.syncStorageWithLedgerAtBootup at hsync
    split at hsync
    · cases hsync
    dsimp only at hsync
    rw [hnew, hb.records.latestBlockHeight, Storage.getBlocks_eq hb.records.length.ge] at hsync
    cases hsync
    rw [List.take_of_length_le (by rw [List.length_drop, hb.records.length])]
    exact hb.records.certificates _
  subst hcs
  refine ⟨rfl, rfl, recentCertificates g log, ?_⟩
  have hsub : ∀ c ∈ recentCertificates g log, c ∈ certificatesOf log :=
    fun c hc => mem_of_recentCertificates hc
  have hround := hb.ranked.lastCommittedRound_commitAll (g := g) fun c hc => hb.ranked.round_le hc
  have hdag : (({ BFT.new account (Storage.new committee transmissions g) l with
      storage := storage } : BFT S V).syncBftDagAtBootup (recentCertificates g log)).dag
      = DAG.new.commitAll (recentCertificates g log) g := by
    dsimp only [syncBftDagAtBootup, BFT.new]
    rw [hkept]
  refine ⟨?_, fun hc => ?_, hmax, ?_, fun c hc => ?_, fun c hc => ?_, ?_, fun _ => hsub,
    fun _ => ?_⟩
  · rw [hdag]
    exact DAG.wellFormed_new.commitAll _ _
  · rw [hdag] at hc
    have hnone := DAG.getCertificateForRoundWithAuthor_of_commitAll hc
    simp [DAG.getCertificateForRoundWithAuthor, DAG.new] at hnone
  · rw [hdag]
    exact DAG.recents_new.commitAll _
  · rw [hdag]
    exact ⟨hb.has c (hsub c hc), DAG.round_le_lastCommittedRound_commitAll hc⟩
  · rw [hdag, hround]
    by_cases hr : roundAfter 0 log < c.round + g
    · exact .inl (hb.ranked.mem_recentCertificates hc hr)
    · exact .inr (by omega)
  · rw [hdag, hround]
    exact roundAfter_even hb.even
  · rw [hdag, hround]

/-! ### The lives of a node -/

/-- The BFT of a node that starts over the first block, takes its steps, and starts again over the
blocks that it left. `G` holds of the calls of `update_dag`. -/
inductive Lives (G : BFT S V → BatchCertificate → Prop) (g : ℕ) : BFT S V → Prop
  | start {account : Address} {committee : Committee} {transmissions : S}
      {l : CoreLedgerService V} {now : ℤ} {b : BFT S V} : Records l [] →
      (BFT.new account (Storage.new committee transmissions g) l).bootup now = .ok b → Lives G g b
  | step {b b' : BFT S V} : Lives G g b → Step G b b' → Lives G g b'
  /-- The consensus sender is set, and from then on may change its answers. -/
  | attach {b : BFT S V} {send : ConsensusSender V} : Lives G g b → send.Reports →
      Lives G g { b with consensusSender := some send }
  /-- The shutdown flag is raised. -/
  | shutDown {b : BFT S V} : Lives G g b →
      Lives G g { b with ledger := { b.ledger with shutdown := true } }
  /-- The node was stopped, and starts again. -/
  | reboot {account : Address} {committee : Committee} {transmissions : S}
      {l : CoreLedgerService V} {now : ℤ} {b b' : BFT S V} : Lives G g b →
      l.blocks = b.ledger.blocks →
      (BFT.new account (Storage.new committee transmissions g) l).bootup now = .ok b' → Lives G g b'
  /-- The node is stopped in a call of `update_dag` in which consensus may be cut off, and starts
  again. -/
  | crash {account : Address} {committee : Committee} {transmissions : S} {c : BatchCertificate}
      {send : ConsensusSender V} {l : CoreLedgerService V} {now : ℤ} {b b' : BFT S V} :
      Lives G g b → send.Appends → G { b with consensusSender := some send } c →
      l.blocks = (({ b with consensusSender := some send } : BFT S V).updateDag true false
        c).2.ledger.blocks →
      (BFT.new account (Storage.new committee transmissions g) l).bootup now = .ok b' → Lives G g b'

/-- The certificate and those in storage are of the universe. -/
structure Meets (U : Universe) (b : BFT S V) (c : BatchCertificate) : Prop where
  certificate : U.Has c
  storage : ∀ {id : Field} {c : BatchCertificate}, b.storage.certificates[id]? = some c →
    U.cert id = some c

variable {G : BFT S V → BatchCertificate → Prop}

/-- **One step** adds blocks that are in order. -/
theorem Built.step [LawfulLedger V] (hG : ∀ b c, G b c → b.Meets U c ∧ (A → b.Attended c))
    (hb : Built A U g b.ledger log) (h : b.Reflects A U g log cs) (hsend : b.ReportingSender)
    (hs : Step G b b') :
    b'.ReportingSender ∧ ∃ log' cs', Built A U g b'.ledger log' ∧ b'.Reflects A U g log' cs' := by
  have hincrement : ∀ round, (b.storage.incrementToNextRound b.ledger round).2.maxGcRounds
      = b.storage.maxGcRounds := by
    intro round
    have honward := Storage.incrementToNextRound_onward (X := fun _ => True) (m := 0) b.ledger
      b.storage round
    exact honward.maxGcRounds
  cases hs with
  | insertCertificate now c transmissions =>
    refine ⟨hsend, log, cs, hb, h.congr rfl ?_⟩
    dsimp only
    unfold Storage.insertCertificate
    split
    · rfl
    split <;> rfl
  | incrementToNextRound round =>
    exact ⟨hsend, log, cs, hb, h.congr rfl (hincrement round)⟩
  | updateToNextRound now round =>
    obtain ⟨x, lc, t, s, hstorage, hres⟩ := updateToNextRound_keeps b now round
    rw [hres]
    refine ⟨hsend, log, cs, hb.congr rfl, h.congr rfl ?_⟩
    rcases hstorage with rfl | rfl
    · rfl
    · exact hincrement round
  | updateDag c hc =>
    obtain ⟨hmeets, hattended⟩ := hG b c hc
    obtain ⟨log', hb', hreflects⟩ := updateDag_built hb h hmeets.storage hmeets.certificate
      (fun send hs => (hsend send hs).1) hattended
    obtain ⟨cs', h'⟩ := hreflects hsend
    refine ⟨fun send hs => hsend send ?_, log', cs', hb', h'⟩
    obtain ⟨dag, l, log, s, -, hres⟩ := updateDag_keeps true false b c
    rw [hres] at hs
    exact hs

/-- **In every state of such lives** the blocks are in order, and the DAG records them. -/
theorem Lives.built [LawfulLedger V] (hG : ∀ b c, G b c → b.Meets U c ∧ (A → b.Attended c))
    (h : Lives G g b) :
    b.ReportingSender ∧ ∃ log cs, Built A U g b.ledger log ∧ b.Reflects A U g log cs := by
  have hboots : ∀ {account : Address} {committee : Committee} {transmissions : S}
      {l : CoreLedgerService V} {now : ℤ} {b : BFT S V} {log : List (BatchCertificate × Subdag)},
      Built A U g l log →
      (BFT.new account (Storage.new committee transmissions g) l).bootup now = .ok b →
      b.ReportingSender ∧ ∃ log cs, Built A U g b.ledger log ∧ b.Reflects A U g log cs := by
    intro account committee transmissions l now b log hb hboot
    obtain ⟨rfl, hnone, cs, h⟩ := hb.bootup hboot
    refine ⟨fun send hs => ?_, log, cs, hb, h⟩
    rw [hnone] at hs
    cases hs
  induction h with
  | start hl hboot => exact hboots (built_nil hl) hboot
  | step _ hs ih =>
    obtain ⟨hsend, log, cs, hb, h⟩ := ih
    exact hb.step hG h hsend hs
  | attach _ hreports ih =>
    obtain ⟨-, log, cs, hb, h⟩ := ih
    refine ⟨fun s hs => ?_, log, cs, hb, h.congr rfl rfl⟩
    cases hs
    exact hreports
  | shutDown _ ih =>
    obtain ⟨hsend, log, cs, hb, h⟩ := ih
    exact ⟨hsend, log, cs, hb.congr rfl, h.congr rfl rfl⟩
  | reboot _ hl hboot ih =>
    obtain ⟨-, log, -, hb, -⟩ := ih
    exact hboots (hb.congr hl) hboot
  | @crash account committee transmissions c send l now b b' _ happends hc hl hboot ih =>
    obtain ⟨-, log, cs, hb, h⟩ := ih
    obtain ⟨hmeets, hattended⟩ := hG _ c hc
    have hb : Built A U g ({ b with consensusSender := some send } : BFT S V).ledger log := hb
    have h : ({ b with consensusSender := some send } : BFT S V).Reflects A U g log cs :=
      h.congr rfl rfl
    obtain ⟨log', hb', -⟩ := updateDag_built hb h hmeets.storage hmeets.certificate
      (fun s hs => by cases hs; exact happends) hattended
    exact hboots (hb'.congr hl) hboot

/-- **The chain over all lives**: the blocks are those of some leaders, in even rounds that ascend;
each has its leader and no certificate above it, and no certificate is in two blocks. -/
theorem blocks_once [LawfulLedger V] (hG : ∀ b c, G b c → b.Meets U c) (h : Lives G g b) :
    ∃ log, Records b.ledger log ∧ Ranked log ∧ (∀ e ∈ log, e.1.round % 2 = 0) ∧
      ((certificatesOf log).map BatchCertificate.id).Nodup := by
  obtain ⟨-, log, cs, hb, -⟩ := h.built (A := False) fun b c hc => ⟨hG b c hc, False.elim⟩
  exact ⟨log, hb.records, hb.ranked, hb.even, hb.nodup⟩

/-- **The chain over lives that are attended** has no gaps: with a certificate the blocks up to its
own have all the previous ones that are above the horizon of the block before. -/
theorem blocks_gapless [LawfulLedger V] (hG : ∀ b c, G b c → b.Meets U c ∧ b.Attended c)
    (h : Lives G g b) :
    ∃ log, Records b.ledger log ∧ Gapless g 0 (fun _ => False) log := by
  obtain ⟨-, log, cs, hb, -⟩ := h.built (A := True) fun b c hc =>
    ⟨(hG b c hc).1, fun _ => (hG b c hc).2⟩
  exact ⟨log, hb.records, hb.gapless trivial⟩

end BFT

/-! ### The development node -/

section Example

open BFT

/-- The channel of the development node is cut off once it has added a block. -/
def cutOffSender : ConsensusSender Chain :=
  fun l subdag transmissions => (.dropped, (processBftSubdag l subdag transmissions).2)

/-- Certificates are sent to the BFT one after the other. -/
def sendAll (b : BFT BFTMemoryService Chain) (cs : List BatchCertificate) :
    BFT BFTMemoryService Chain :=
  let _ := developmentNetwork
  cs.foldl (fun b c => (b.updateDag true false c).2) b

/-- The node meets the certificates up to the last but one of its second block. -/
def firstLife : BFT BFTMemoryService Chain :=
  sendAll { bootedBft (developmentLedger [genesis]) with consensusSender := some processBftSubdag }
    (restartCertificates.take 13)

/-- It is stopped in the next call, when that block was just added. -/
def cutOffBft : BFT BFTMemoryService Chain :=
  let _ := developmentNetwork
  (({ firstLife with consensusSender := some cutOffSender } : BFT BFTMemoryService
    Chain).updateDag true false (developmentCertificate 51 1 5 [40, 41, 42])).2

/-- After the restart it meets all the certificates again. -/
def secondLife : BFT BFTMemoryService Chain :=
  sendAll { bootedBft ⟨cutOffBft.ledger.ledger, none, false⟩ with
    consensusSender := some processBftSubdag } restartCertificates

/-- What the calls of the two lives meet. -/
def Expected (b : BFT BFTMemoryService Chain) (c : BatchCertificate) : Prop :=
  let _ := developmentNetwork
  b.Meets restartUniverse c ∧ b.Attended c

/-- What is stored is of the universe. -/
def storesExpected (b : BFT BFTMemoryService Chain) : Bool :=
  b.storage.certificates.toList.all fun e => restartUniverse.cert e.1 == some e.2

lemma expected_of_stores {b : BFT BFTMemoryService Chain} {c : BatchCertificate}
    (hc : c ∈ restartCertificates) (hstores : storesExpected b = true)
    (hsend : b.consensusSender ≠ none) : Expected b c := by
  refine ⟨⟨restartUniverse_has.mpr hc, fun {id c} h => ?_⟩, fun hnone => absurd hnone hsend⟩
  exact eq_of_beq (List.all_eq_true.mp hstores (id, c)
    (ExtTreeMap.mem_toList_iff_getElem?_eq_some.mpr h))

lemma consensusSender_sendAll (b : BFT BFTMemoryService Chain) (cs : List BatchCertificate) :
    (sendAll b cs).consensusSender = b.consensusSender := by
  let _ := developmentNetwork
  refine List.foldlRecOn (motive := fun d : BFT BFTMemoryService Chain =>
    d.consensusSender = b.consensusSender) cs _ rfl ?_
  intro d hd c _
  obtain ⟨dag, l, log, s, -, hres⟩ := updateDag_keeps true false d c
  rw [hres]
  exact hd

lemma lives_sendAll {b : BFT BFTMemoryService Chain} {cs : List BatchCertificate}
    (hcs : cs ⊆ restartCertificates) (hsend : b.consensusSender ≠ none)
    (hstores : ∀ n < cs.length, storesExpected (sendAll b (cs.take n)) = true)
    (h : @Lives _ _ _ _ developmentNetwork Expected 100 b) :
    @Lives _ _ _ _ developmentNetwork Expected 100 (sendAll b cs) := by
  let _ := developmentNetwork
  induction cs using List.reverseRecOn with
  | nil => exact h
  | append_singleton cs c ih =>
    rw [List.append_subset, List.cons_subset] at hcs
    have hprev := ih hcs.1 fun n hn => by
      have hall := hstores n (by rw [List.length_append]; omega)
      rwa [List.take_append_of_le_length hn.le] at hall
    have hlast := hstores cs.length (by simp)
    rw [List.take_left] at hlast
    have hcall := Step.updateDag (G := Expected) (sendAll b cs) c
      (expected_of_stores hcs.2.1 hlast (by rwa [consensusSender_sendAll]))
    have hlives := hprev.step hcall
    unfold sendAll at hlives ⊢
    rwa [List.foldl_append]

lemma processBftSubdag_reports : ConsensusSender.Reports (processBftSubdag (V := Chain)) := by
  have hcases : ∀ (l : CoreLedgerService Chain) s t,
      ((processBftSubdag l s t).1 ≠ .callback (.ok ()) ∧
        (processBftSubdag l s t).2.blocks = l.blocks) ∨
      ((processBftSubdag l s t).1 = .callback (.ok ()) ∧
        l.Adds (processBftSubdag l s t).2 s.anchorRound s) := by
    intro l s t
    unfold processBftSubdag tryAdvanceToNextBlock CoreLedgerService.advanceToNextBlock
    cases hl : l.shutdown with
    | true =>
      simp only [Ledger.prepareAdvanceToNextQuorumBlock, if_true]
      exact .inl ⟨by simp, trivial⟩
    | false =>
      simp only [Ledger.prepareAdvanceToNextQuorumBlock, Ledger.advanceToNextBlock, if_true,
        Bool.false_eq_true, if_false]
      exact .inr ⟨trivial, _, rfl, rfl, rfl, rfl⟩
  exact ⟨fun l s t => (hcases l s t).imp id And.right,
    fun l s t hno => ((hcases l s t).resolve_right fun h => hno h.1).2⟩

lemma lives_secondLife : @Lives _ _ _ _ developmentNetwork Expected 100 secondLife := by
  let _ := developmentNetwork
  have hfirst : Records (developmentLedger [genesis]) [] := by
    refine ⟨⟨genesis, [], rfl, rfl, rfl, .nil⟩, fun i block h => ?_⟩
    cases i with
    | zero =>
      cases h
      rfl
    | succ i => cases h
  have hboots : ∀ l : CoreLedgerService Chain, ((newNode l).bft.bootup 0).isOk = true →
      (newNode l).bft.bootup 0 = .ok (bootedBft l) := by
    intro l hok
    obtain ⟨b, hb⟩ := exists_of_isOk hok
    unfold bootedBft
    dsimp only
    rw [hb]
  have hfirstLife : Lives Expected 100 firstLife := by
    have hstart : Lives Expected 100 (bootedBft (developmentLedger [genesis])) :=
      .start hfirst (hboots _ (by decide +kernel))
    refine lives_sendAll (List.take_subset 13 restartCertificates) (by simp) ?_
      (hstart.attach processBftSubdag_reports)
    decide +kernel
  have hcut : cutOffSender.Appends := by
    intro l s t
    rcases processBftSubdag_reports.1 l s t with ⟨-, hsame⟩ | hadds
    · exact .inl ⟨by simp [cutOffSender], hsame⟩
    · exact .inr hadds
  have hcrash : Lives Expected 100 (bootedBft ⟨cutOffBft.ledger.ledger, none, false⟩) := by
    have hcall : Expected { firstLife with consensusSender := some cutOffSender }
        (developmentCertificate 51 1 5 [40, 41, 42]) :=
      expected_of_stores (by decide +kernel) (by decide +kernel) (by simp)
    have hcutOff : cutOffBft = (({ firstLife with consensusSender := some cutOffSender } :
        BFT BFTMemoryService Chain).updateDag true false
          (developmentCertificate 51 1 5 [40, 41, 42])).2 := by
      unfold cutOffBft
      rfl
    have hboot := hboots ⟨cutOffBft.ledger.ledger, none, false⟩ (by decide +kernel)
    have hreopens : ∀ l : CoreLedgerService Chain,
        (⟨l.ledger, none, false⟩ : CoreLedgerService Chain).blocks = l.blocks := fun _ => rfl
    refine hfirstLife.crash hcut hcall ?_ hboot
    rw [← hcutOff]
    exact hreopens cutOffBft.ledger
  refine lives_sendAll (List.Subset.refl _) (by simp) ?_
    (hcrash.attach processBftSubdag_reports)
  decide +kernel

theorem blocks_once_example :
    secondLife.ledger.blocks.length = 3 ∧
    ∃ log, Records secondLife.ledger log ∧ Ranked log ∧ (∀ e ∈ log, e.1.round % 2 = 0) ∧
      ((certificatesOf log).map BatchCertificate.id).Nodup := by
  let _ := developmentNetwork
  exact ⟨by decide +kernel, blocks_once (fun b c h => h.1) lives_secondLife⟩

theorem blocks_gapless_example :
    secondLife.ledger.blocks.length = 3 ∧
    ∃ log, Records secondLife.ledger log ∧ Gapless 100 0 (fun _ => False) log := by
  let _ := developmentNetwork
  exact ⟨by decide +kernel, blocks_gapless (fun _ _ h => h) lives_secondLife⟩

end Example

end AmareleoChain
