import AmareleoChain.Anchors
import AmareleoChain.CommitOnce
import AmareleoChain.StorageInvariant
import Mathlib.Data.List.Sort

/-!
Runs that store each certificate before they deliver it to the DAG.

Above the last committed round the DAG then holds what the storage holds, and the storage holds
the history of its certificates down to the garbage collection horizon. So the two searches of
the BFT compute what they would compute on the whole universe: `is_linked` decides whether
there is a path, and `order_dag_with_dfs` orders the uncommitted history.
-/

namespace AmareleoChain

open Std

/-! ### The history of a leader -/

namespace Universe

/-- The search of `order_dag_with_dfs` over a universe, with the certificates `committed` and
the last committed round. -/
def search (U : Universe) (g lastCommittedRound : ℕ) (committed : List BatchCertificate) :
    Search Field BatchCertificate String where
  key := BatchCertificate.id
  children c := if c.round - 1 + g ≤ lastCommittedRound then []
    else c.previousCertificateIds.toList.reverse
  skip _ id := decide (id ∈ committed.map BatchCertificate.id)
  lookup _ id :=
    match U.cert id with
    | some p => .ok p
    | none => .error ""

/-- `subdag` is the uncommitted history of `leader`, in order. -/
def Orders (U : Universe) (g lastCommittedRound : ℕ) (committed : List BatchCertificate)
    (leader : BatchCertificate) (subdag : Subdag) : Prop :=
  ∃ fuel certificates,
    (U.search g lastCommittedRound committed).run fuel [] [leader] = some (.ok certificates) ∧
    subdag = (certificates.foldl Subdag.file ∅).filter fun round _ =>
      round + g > lastCommittedRound

lemma Orders.unique {U : Universe} {g r : ℕ} {cs : List BatchCertificate}
    {leader : BatchCertificate} {s t : Subdag} (hs : U.Orders g r cs leader s)
    (ht : U.Orders g r cs leader t) : s = t := by
  obtain ⟨f, xs, hx, rfl⟩ := hs
  obtain ⟨f', ys, hy, rfl⟩ := ht
  cases Search.run_unique hx hy
  rfl

end Universe

namespace BFT

variable {S V : Type}

/-! ### Runs -/

/-- A certificate that is stored and delivered, and what it is met by. -/
structure Delivery (S V : Type) where
  certificate : BatchCertificate
  now : ℤ
  transmissions : IndexMap TransmissionID Transmission
  abortedTransmissions : IndexSet TransmissionID
  ledger : CoreLedgerService V
  consensusSender : Option (ConsensusSender V)

section
variable [Ledger V] [StorageService S] [Network]

/-- The certificate is stored, and then delivered; it is not delivered when storage refuses
it. -/
def deliver (b : BFT S V) (e : Delivery S V) : Except String Unit × BFT S V :=
  match b.storage.insertCertificate e.ledger e.now e.certificate e.transmissions
      e.abortedTransmissions with
  | (.error e, _) => (.error e, b)
  | (.ok (), storage) =>
    ({ b with storage, ledger := e.ledger, consensusSender := e.consensusSender }).updateDag
      true false e.certificate

end

/-- The certificate is of the universe, nothing happened to the chain or to the cached leader,
the committees are the given ones, and the consensus channel does what it reports. -/
structure Delivers [Ledger V] [Network] (U : Universe) (committee : ℕ → Committee) (b : BFT S V)
    (e : Delivery S V) : Prop where
  certificate : U.Has e.certificate
  quiet : Quiet b.account b.ledger e.ledger
  committee : Storage.AgreesOn committee e.ledger
  sender : ∀ send, e.consensusSender = some send → ConsensusSender.Faithful send

/-- What deliveries make of `b₀`. -/
inductive Delivered [Ledger V] [StorageService S] [Network] (U : Universe)
    (committee : ℕ → Committee) (b₀ : BFT S V) : BFT S V → Prop
  | start : Delivered U committee b₀ b₀
  | deliver {b : BFT S V} (e : Delivery S V) :
      Delivered U committee b₀ b → Delivers U committee b e →
      Delivered U committee b₀ (b.deliver e).2

/-! ### The invariant -/

/-- The state along such runs, when they start with the certificates `boot` committed. -/
structure Consistent [Ledger V] (U : Universe) (committee : ℕ → Committee) (g : ℕ)
    (boot : List BatchCertificate) (bootRound : ℕ) (b : BFT S V) : Prop where
  once : Once U g boot bootRound b
  indexed : b.storage.Indexed
  closed : b.storage.Closed committee
  stored : ∀ {id : Field} {c : BatchCertificate}, b.storage.certificates[id]? = some c →
    U.cert id = some c
  maxGcRounds : b.storage.maxGcRounds = g
  gcRound : b.storage.gcRound ≤ b.dag.lastCommittedRound - g
  graph : ∀ {r : ℕ} {a : Address} {c : BatchCertificate}, b.dag.lastCommittedRound < r →
    (b.dag.getCertificateForRoundWithAuthor r a = some c ↔
      b.storage.certificates[c.id]? = some c ∧ c.round = r ∧ c.author = a)
  chain : ∀ {c : BatchCertificate}, U.Has c → InChain b.ledger c.id →
    c ∈ boot ++ certificatesOf b.committed
  own : OwnLeader b.account b.ledger
  even : b.dag.lastCommittedRound % 2 = 0

variable [Ledger V] {U : Universe} {committee : ℕ → Committee} {g bootRound : ℕ}
  {boot : List BatchCertificate} {b b' r : BFT S V} {c d p cur leader : BatchCertificate}

/-- The certificate is in storage. -/
def Stored (b : BFT S V) (c : BatchCertificate) : Prop := b.storage.certificates[c.id]? = some c

/-- The leader certificate of a slot in the DAG. -/
def leaderIn (b : BFT S V) (slot : ℕ) : Option BatchCertificate :=
  b.dag.getCertificateForRoundWithAuthor (2 * slot) b.account

namespace Consistent

lemma within (h : Consistent U committee g boot bootRound b) : b.Within U :=
  ⟨h.once.wellFormed, h.once.graph, h.stored⟩

lemma has (h : Consistent U committee g boot bootRound b) (hc : b.Stored c) : U.Has c :=
  h.stored hc

/-- Above the garbage collection round storage is closed under parents. -/
lemma stored_of_parent (h : Consistent U committee g boot bootRound b) (hc : b.Stored c)
    (hp : U.Parent c p) (hr : b.storage.gcRound < p.round) : b.Stored p := by
  have hround := hp.round
  obtain ⟨previous, hids, hall, -⟩ := h.closed.previous hc (by omega)
  have hmem : p.id ∈ previous.map BatchCertificate.id := hids ▸ hp.2.2
  obtain ⟨q, hq, hqid⟩ := List.mem_map.mp hmem
  have hqs := (hall q hq).1
  rw [hp.2.1.eq_of_id (h.stored hqs) hqid.symm]
  exact hqs

lemma stored_of_path (h : Consistent U committee g boot bootRound b) (hc : b.Stored c)
    (hp : U.Path c p) (hr : b.storage.gcRound < p.round) : b.Stored p := by
  induction hp with
  | refl => exact hc
  | tail _ hstep ih =>
    have := hstep.round
    exact h.stored_of_parent (ih (by omega)) hstep hr

lemma exists_stored_parent (h : Consistent U committee g boot bootRound b) (hc : b.Stored c)
    (hr : b.storage.gcRound < c.round - 1) : ∃ p, U.Parent c p ∧ b.Stored p := by
  obtain ⟨previous, hids, hall, -, hquorum⟩ := h.closed.previous hc hr
  obtain ⟨a, ha⟩ := (committee (c.round - 1)).nonempty_of_quorum hquorum
  obtain ⟨p, hp, -⟩ := mem_authorsOf.mp ha
  have hps := (hall p hp).1
  have hid : p.id ∈ c.previousCertificateIds.toList := hids ▸ List.mem_map_of_mem hp
  exact ⟨p, ⟨h.has hc, h.has hps, hid⟩, hps⟩

/-- Its history has stored certificates of every round above the garbage collection round. -/
lemma exists_stored_ancestor (h : Consistent U committee g boot bootRound b) (hc : b.Stored c)
    {r : ℕ} (hr : b.storage.gcRound < r) (hle : r ≤ c.round) :
    ∃ p, U.Path c p ∧ p.round = r ∧ b.Stored p := by
  induction hn : c.round - r generalizing c with
  | zero => exact ⟨c, .refl, by omega, hc⟩
  | succ n ih =>
    obtain ⟨q, hq, hqs⟩ := h.exists_stored_parent hc (by omega)
    have hround := hq.round
    obtain ⟨p, hp, hpr, hps⟩ := ih hqs (by omega) (by omega)
    exact ⟨p, .head hq hp, hpr, hps⟩

/-! ### Links -/

lemma mem_round (h : Consistent U committee g boot bootRound b) {r : ℕ}
    (hr : b.dag.lastCommittedRound < r) {m : ExtTreeMap Address BatchCertificate}
    (hm : b.dag.getCertificatesForRound r = some m) :
    c ∈ mapValues m ↔ b.Stored c ∧ c.round = r := by
  have hget : ∀ a, b.dag.getCertificateForRoundWithAuthor r a = m[a]? := fun a => by
    rw [DAG.getCertificateForRoundWithAuthor, show b.dag.graph[r]? = some m from hm]
    rfl
  rw [mem_mapValues]
  constructor
  · rintro ⟨a, ha⟩
    have := (h.graph hr).mp ((hget a).trans ha)
    exact ⟨this.1, this.2.1⟩
  · rintro ⟨hc, hround⟩
    exact ⟨c.author, (hget _).symm.trans ((h.graph hr).mpr ⟨hc, hround, rfl⟩)⟩

lemma exists_round (h : Consistent U committee g boot bootRound b)
    (hr : b.dag.lastCommittedRound < c.round) (hc : b.Stored c) :
    ∃ m, b.dag.getCertificatesForRound c.round = some m := by
  have hget := (h.graph hr).mpr ⟨hc, rfl, rfl⟩
  obtain ⟨m, hm, -⟩ := Option.bind_eq_some_iff.mp hget
  exact ⟨m, hm⟩

/-- The traversal of `is_linked` from the history of `cur` at round `q + n` down to round
`q`. -/
lemma traverse_spec (h : Consistent U committee g boot bootRound b)
    (hcur : b.Stored cur) {q n : ℕ} (hq : b.dag.lastCommittedRound < q)
    {traversal : List BatchCertificate} (hle : q + n ≤ cur.round)
    (ht : ∀ x, x ∈ traversal ↔ b.Stored x ∧ x.round = q + n ∧ U.Path cur x) :
    ∃ traversal', b.dag.traverse (List.range' q n).reverse traversal = .ok traversal' ∧
      ∀ x, x ∈ traversal' ↔ b.Stored x ∧ x.round = q ∧ U.Path cur x := by
  induction n generalizing traversal with
  | zero => exact ⟨traversal, rfl, ht⟩
  | succ n ih =>
    have hrange : (List.range' q (n + 1)).reverse = (q + n) :: (List.range' q n).reverse := by
      rw [List.range'_concat, List.reverse_append]; simp
    have hgc : b.storage.gcRound < q + n := by have := h.gcRound; omega
    obtain ⟨x₀, hx₀, hr₀, hs₀⟩ := h.exists_stored_ancestor hcur hgc (by omega)
    obtain ⟨m, hm⟩ := h.exists_round (by omega) hs₀
    rw [hr₀] at hm
    rw [hrange, DAG.traverse, hm]
    refine ih (by omega) fun x => ?_
    rw [List.mem_filter, h.mem_round (by omega) hm, List.any_eq_true]
    constructor
    · rintro ⟨⟨hx, hxr⟩, c, hc, hid⟩
      obtain ⟨hcs, -, hpath⟩ := (ht c).mp hc
      exact ⟨hx, hxr, hpath.tail ⟨h.has hcs, h.has hx, by simpa using hid⟩⟩
    · rintro ⟨hx, hxr, hpath⟩
      -- the last step of the path starts from a certificate of the traversal
      obtain ⟨c, hcp, hstep⟩ := hpath.exists_parent (by omega)
      have hround := hstep.round
      have hcs := h.stored_of_path hcur hcp (by omega)
      exact ⟨⟨hx, hxr⟩, c, (ht c).mpr ⟨hcs, by omega, hcp⟩, by simpa using hstep.2.2⟩

open Classical in
/-- **`is_linked` decides whether there is a path**, above the last committed round. -/
theorem isLinked_eq (h : Consistent U committee g boot bootRound b)
    (hcur : b.Stored cur) (hp : b.Stored p) (hr : b.dag.lastCommittedRound < p.round)
    (hle : p.round ≤ cur.round) : b.dag.isLinked p cur = .ok (decide (U.Path cur p)) := by
  have hstart : ∀ x, x ∈ [cur] ↔ b.Stored x ∧ x.round = p.round + (cur.round - p.round) ∧
      U.Path cur x := by
    intro x
    rw [List.mem_singleton]
    constructor
    · rintro rfl; exact ⟨hcur, by omega, .refl⟩
    · rintro ⟨-, hx, hpath⟩; exact hpath.eq_of_round (by omega)
  obtain ⟨t, ht, hmem⟩ := h.traverse_spec hcur hr (by omega) hstart
  rw [DAG.isLinked, ht]
  simp [hmem p, hp]

/-! ### Leaders -/

lemma leaderRounds_eq {m n : ℕ} :
    leaderRounds (2 * m) (2 * n) = (LeaderChain.slots m n).map fun s => 2 * s := by
  have hmem : ∀ r, r ∈ leaderRounds (2 * m) (2 * n) ↔
      r ∈ (LeaderChain.slots m n).map fun s => 2 * s := by
    intro r
    rw [mem_leaderRounds, List.mem_map]
    constructor
    · rintro ⟨h₁, h₂, k, hk⟩
      exact ⟨n - k, LeaderChain.mem_slots.mpr (by omega), by omega⟩
    · rintro ⟨s, hs, rfl⟩
      rw [LeaderChain.mem_slots] at hs
      exact ⟨by omega, by omega, n - s, by omega⟩
  have hpair : ((LeaderChain.slots m n).map fun s => 2 * s).Pairwise (· > ·) := by
    rw [List.pairwise_map, LeaderChain.slots, List.pairwise_reverse]
    exact (List.pairwise_lt_range' 1).imp fun h => by omega
  exact (pairwise_leaderRounds _ _).eq_of_mem_iff hpair hmem

open Classical in
/-- **The previous leaders are those of the chain.** -/
theorem previousLeaders_eq (h : Consistent U committee g boot bootRound b) (hcur : b.Stored cur)
    {ss : List ℕ} (hpair : ss.Pairwise (· > ·))
    (hss : ∀ s ∈ ss, b.dag.lastCommittedRound < 2 * s ∧ 2 * s < cur.round) :
    (b.previousLeaders cur (ss.map fun s => 2 * s)).1
      = .ok (LeaderChain.descend (leaderIn b) U.Path cur ss) := by
  induction ss generalizing b cur with
  | nil => rfl
  | cons s ss ih =>
    rw [List.forall_mem_cons] at hss
    rw [List.pairwise_cons] at hpair
    obtain ⟨x, hx, hown⟩ := electLeader_spec b (2 * s)
    obtain ⟨helected, hown⟩ := hown h.own
    have h' : Consistent U committee g boot bootRound (b.withLeader x) :=
      ⟨h.once.congr rfl rfl List.prefix_rfl, h.indexed, h.closed, h.stored, h.maxGcRounds,
        h.gcRound, h.graph, h.chain, hown, h.even⟩
    have hsame : leaderIn (b.withLeader x) = leaderIn b := rfl
    rw [List.map_cons, previousLeaders, LeaderChain.descend, leaderIn]
    dsimp only
    rw [helected, hx, ← hsame]
    rw [show (b.withLeader x).dag = b.dag from rfl]
    cases hget : b.dag.getCertificateForRoundWithAuthor (2 * s) b.account with
    | none => exact ih h' hcur hpair.2 hss.2
    | some p =>
      obtain ⟨hps, hround, -⟩ := (h.graph hss.1.1).mp hget
      have hlinked := h.isLinked_eq hcur hps (by rw [hround]; exact hss.1.1) (by omega)
      dsimp only
      rw [hlinked]
      by_cases hpath : U.Path cur p
      · simp only [hpath, decide_true, if_true]
        rw [ih h' hps hpair.2 fun t ht => ⟨(hss.2 t ht).1, by
          have := hpair.1 t ht
          omega⟩]
        rfl
      · simp only [hpath, decide_false, if_false]
        exact ih h' hcur hpair.2 hss.2

open Classical in
/-- The leaders due are the chain of the leader that is ready. -/
lemma due_iff (h : Consistent U committee g boot bootRound b) {m n : ℕ}
    (hm : b.dag.lastCommittedRound = 2 * m) (hleader : b.Stored leader)
    (hn : leader.round = 2 * n) {due : List BatchCertificate} :
    b.Due leader due ↔ due = LeaderChain.chain (leaderIn b) U.Path m n leader := by
  have hprev : (b.previousLeaders leader
      (leaderRounds b.dag.lastCommittedRound leader.round)).1
        = .ok (LeaderChain.descend (leaderIn b) U.Path leader (LeaderChain.slots m n)) := by
    rw [hm, hn, leaderRounds_eq, h.previousLeaders_eq hleader]
    · rw [LeaderChain.slots, List.pairwise_reverse]
      exact List.pairwise_lt_range' 1
    · intro s hs
      rw [LeaderChain.mem_slots] at hs
      omega
  unfold Due LeaderChain.chain
  rw [hprev]
  simp

open Classical in
lemma chain_eq (hU : U.Lawful committee) (h : Consistent U committee g boot bootRound b)
    {m n : ℕ} (hm : b.dag.lastCommittedRound = 2 * m) (hleader : b.Stored leader) :
    LeaderChain.chain (leaderIn b) U.Path m n leader
      = LeaderChain.chain (U.leaderAt b.account) U.Path m n leader := by
  have habove : ∀ s ∈ LeaderChain.slots m n, b.dag.lastCommittedRound < 2 * s := by
    intro s hs
    rw [LeaderChain.mem_slots] at hs
    omega
  unfold LeaderChain.chain
  rw [LeaderChain.descend_congr (f := U.leaderAt b.account) (P := b.Stored) _ _ hleader]
  · intro cur hcur s hs p hpath
    constructor
    · intro hget
      obtain ⟨hps, hround, hauthor⟩ := (h.graph (habove s hs)).mp hget
      exact hU.leaderAt_eq (h.has hps) hround hauthor
    · intro hp
      -- a leader in the history of a stored certificate is stored
      obtain ⟨-, hround, hauthor⟩ := Universe.leaderAt_some hp
      have hgc := h.gcRound
      have hlt := habove s hs
      have hps := h.stored_of_path hcur hpath (by omega)
      exact (h.graph hlt).mpr ⟨hps, hround, hauthor⟩
  · intro cur _ s hs p hget _
    exact ((h.graph (habove s hs)).mp hget).1

/-! ### Subdags -/

/-- What is skipped is what was committed. -/
lemma skip_eq [LawfulLedger V] (hU : U.Sourced)
    (h : Consistent U committee g boot bootRound b) (hc : U.Has c) {id : Field}
    (hid : id ∈ c.previousCertificateIds)
    (hr : b.dag.lastCommittedRound < c.round - 1 + g) :
    (b.search true).skip c id = true ↔
      id ∈ (boot ++ certificatesOf b.committed).map BatchCertificate.id := by
  rw [← not_iff_not, Bool.not_eq_true, search_skip, List.mem_map]
  constructor
  · rintro ⟨hrec, hled⟩ ⟨d, hd, rfl⟩
    have hround := hc.round_previous (h.once.known d hd).1 hid
    have := (h.once.recents (c.round - 1) d.id).mpr ⟨⟨d, hd, by omega, rfl⟩, hr⟩
    rw [hrec] at this
    cases this
  · intro hno
    refine ⟨?_, fun _ hled => ?_⟩
    · by_contra hrec
      obtain ⟨⟨d, hd, -, hdid⟩, -⟩ := (h.once.recents _ _).mp (by simpa using hrec)
      exact hno ⟨d, hd, hdid⟩
    · obtain ⟨p, hp, rfl⟩ := hU c id hc hid
      exact hno ⟨p, h.chain hp ((LawfulLedger.containsCertificate_ok hled).mp rfl), rfl⟩

/-- **`order_dag_with_dfs` orders the uncommitted history**. -/
theorem orders [LawfulLedger V] (hU : U.Sourced)
    (h : Consistent U committee g boot bootRound b) (hleader : U.Has leader) {subdag : Subdag}
    (hsub : b.orderDagWithDfs true leader = .ok subdag) :
    U.Orders g b.dag.lastCommittedRound (boot ++ certificatesOf b.committed) leader subdag := by
  obtain ⟨cs, hrun, rfl⟩ := orderDagWithDfs_ok hsub
  have href : (b.search true).RefinesOn (U.search g b.dag.lastCommittedRound
      (boot ++ certificatesOf b.committed)) U.Has := by
    refine ⟨rfl, fun c _ => ?_, fun c hc i hi => ?_, fun c _ i _ _ p hp => ?_⟩
    · simp only [Universe.search, search, h.maxGcRounds]
    · rw [mem_search_children, h.maxGcRounds] at hi
      rw [Bool.eq_iff_iff, h.skip_eq hU hc hi.2 hi.1]
      simp [Universe.search]
    · have hcert := search_lookup h.within hp
      refine ⟨?_, Universe.has_of_cert hcert⟩
      simp only [Universe.search, hcert]
  exact ⟨_, cs, href.run (by simpa using hleader) hrun, by rw [h.maxGcRounds]⟩

/-! ### Steps -/

lemma quiet (h : Consistent U committee g boot bootRound b) {l : CoreLedgerService V}
    (hl : Quiet b.account b.ledger l) (s : Option (ConsensusSender V)) :
    Consistent U committee g boot bootRound { b with ledger := l, consensusSender := s } :=
  ⟨h.once.congr rfl rfl (hl.1 ▸ List.prefix_rfl), h.indexed, h.closed, h.stored, h.maxGcRounds,
    h.gcRound, h.graph, fun hc hin => h.chain hc (InChain.mono (hl.1 ▸ List.prefix_rfl) hin),
    hl.2 h.own, h.even⟩

/-- What is committed in one step. -/
theorem commitSubdag [LawfulLedger V] (h : Consistent U committee g boot bootRound b)
    (hleader : U.Has leader) (habove : b.dag.lastCommittedRound < leader.round)
    (heven : leader.round % 2 = 0) {subdag : Subdag} {allow : Bool}
    (hsub : b.orderDagWithDfs allow leader = .ok subdag)
    {l : CoreLedgerService V} (hl : b.Advanced false subdag l) :
    Consistent U committee g boot bootRound
        (({ b with ledger := l }).commitSubdag leader subdag) ∧
      (({ b with ledger := l }).commitSubdag leader subdag).dag.lastCommittedRound
        = leader.round := by
  obtain ⟨honce, hround⟩ := h.once.commitSubdag h.stored h.maxGcRounds hleader habove hsub hl
  obtain ⟨-, -, hall, -⟩ := orderDagWithDfs_spec h.within hleader habove hsub
  refine ⟨⟨honce, h.indexed, h.closed, h.stored, h.maxGcRounds, ?_, ?_, ?_, ?_, ?_⟩, hround⟩
  · have := h.gcRound
    rw [hround]
    exact this.trans (by omega)
  · intro r a c hr
    rw [hround] at hr
    have hsame : b.dag.getCertificatesForRound r = (b.dag.commitAll subdag.certificates
        b.storage.maxGcRounds).getCertificatesForRound r :=
      (DAG.getCertificatesForRound_commitAll (by omega) fun c hc => by
        have := (hall c hc).2.1; omega).symm
    have hget : (b.dag.commitAll subdag.certificates
        b.storage.maxGcRounds).getCertificateForRoundWithAuthor r a
          = b.dag.getCertificateForRoundWithAuthor r a := by
      unfold DAG.getCertificateForRoundWithAuthor
      exact congrArg (fun o => o.bind fun m => m[a]?) hsame.symm
    dsimp only [BFT.commitSubdag]
    rw [hget]
    exact h.graph (by omega)
  · intro c hc hin
    have hcerts : certificatesOf (b.committed ++ [(leader, subdag)])
        = certificatesOf b.committed ++ subdag.certificates := by simp [certificatesOf]
    dsimp only [BFT.commitSubdag] at hin ⊢
    rw [hcerts, ← List.append_assoc]
    obtain ⟨-, ⟨-, rfl⟩ | ⟨block, hauth, hblocks⟩⟩ := hl
    · exact List.mem_append_left _ (h.chain hc hin)
    · obtain ⟨p, hp, hpid⟩ := hin
      rw [hblocks, chainCertificates_append, List.mem_append] at hp
      rcases hp with hp | hp
      · exact List.mem_append_left _ (h.chain hc ⟨p, hp, hpid⟩)
      · have hsubp : p ∈ subdag.certificates := by
          simpa [chainCertificates, Block.certificates, hauth] using hp
        rw [hc.eq_of_id (hall p hsubp).1 hpid.symm]
        exact List.mem_append_right _ hsubp
  · exact fun r a hra => h.own r a (hl.1 ▸ hra)
  · dsimp only [BFT.commitSubdag] at hround ⊢
    rw [hround]; exact heven

/-- A certificate of the universe that storage accepts, stored and inserted in the DAG. -/
theorem insert [StorageService S] [Network] (h : Consistent U committee g boot bootRound b)
    (hc : U.Has c) {l : CoreLedgerService V} (hl : Storage.AgreesOn committee l)
    (haccepts : Storage.Accepts l b.storage c) (aborted : IndexSet TransmissionID)
    (missing : IndexMap TransmissionID Transmission) :
    Consistent U committee g boot bootRound { b with
      storage := b.storage.insertCertificateAtomic c aborted missing
      dag := b.dag.insert c } := by
  have hget := Storage.getElem?_insertCertificateAtomic haccepts.fresh aborted missing
  refine ⟨?_, Storage.indexed_insertCertificateAtomic h.indexed haccepts,
    Storage.closed_insertCertificateAtomic hl h.closed haccepts, ?_, h.maxGcRounds, ?_, ?_, ?_,
    h.own, ?_⟩
  · exact (h.once.insert hc).congr rfl rfl List.prefix_rfl
  · intro id d hd
    rcases (hget id d).mp hd with hd | ⟨rfl, rfl⟩
    · exact h.stored hd
    · exact hc
  · rw [DAG.lastCommittedRound_insert]; exact h.gcRound
  · intro r a d hr
    rw [DAG.lastCommittedRound_insert] at hr
    dsimp only
    rw [hget]
    rcases eq_or_ne c.round r with rfl | hne
    · -- nothing of this round has been committed
      have hrec : b.dag.isRecentlyCommitted c.round c.id = false := by
        by_contra hrec
        obtain ⟨⟨e, he, her, -⟩, -⟩ := (h.once.recents _ _).mp (by simpa using hrec)
        have := (h.once.known e he).2
        omega
      rw [DAG.getCertificateForRoundWithAuthor_insert hrec]
      rcases eq_or_ne a c.author with rfl | ha
      · simp only [true_and, if_true, Option.some.injEq]
        constructor
        · rintro rfl; exact ⟨.inr ⟨rfl, rfl⟩, rfl, rfl⟩
        · rintro ⟨hd | ⟨-, rfl⟩, hdr, hda⟩
          · exact absurd hda (haccepts.fresh_author hd hdr)
          · rfl
      · rw [if_neg (fun hh => ha hh.2), h.graph hr]
        refine and_congr_left fun ⟨_, hda⟩ => ⟨.inl, ?_⟩
        rintro (hd | ⟨-, rfl⟩)
        · exact hd
        · exact absurd hda.symm ha
    · have hsame := DAG.getCertificatesForRound_insert_of_ne (d := b.dag) hne.symm
      have hgr : (b.dag.insert c).getCertificateForRoundWithAuthor r a
          = b.dag.getCertificateForRoundWithAuthor r a :=
        congrArg (fun o => o.bind fun m => m[a]?) hsame
      rw [hgr, h.graph hr]
      refine and_congr_left fun ⟨hdr, _⟩ => ⟨.inl, ?_⟩
      rintro (hd | ⟨-, rfl⟩)
      · exact hd
      · exact absurd hdr hne
  · exact h.chain
  · simpa using h.even

/-- The garbage collection at the end of a chunk, whose last leader was committed. -/
theorem garbageCollect [StorageService S] (h : Consistent U committee g boot bootRound b) :
    Consistent U committee g boot bootRound { b with
      storage := b.storage.garbageCollectCertificates b.dag.lastCommittedRound } := by
  obtain ⟨hi, hgc, hmem⟩ := Storage.garbageCollectCertificates_spec h.indexed h.closed.above
    b.dag.lastCommittedRound
  have hmax := h.maxGcRounds
  refine ⟨h.once.congr rfl rfl List.prefix_rfl, hi,
    Storage.closed_garbageCollectCertificates h.indexed h.closed _, fun {id c} hc =>
      h.stored ((hmem id c).mp hc).1, ?_, ?_, fun {r a c} hr => ?_, h.chain, h.own, h.even⟩
  · simpa using hmax
  · have := h.gcRound
    dsimp only
    rw [hgc, hmax]
    omega
  · dsimp only at hr ⊢
    rw [h.graph hr, hmem]
    refine and_congr_left fun ⟨hround, _⟩ => (and_iff_left ?_).symm
    omega

end Consistent

/-! ### The start of a run -/

/-- A node that has just been made: nothing is stored, delivered or committed. -/
structure New (g : ℕ) (account : Address) (b : BFT S V) : Prop where
  owner : b.account = account
  dag : b.dag = DAG.new
  committed : b.committed = []
  rounds : b.storage.rounds = ∅
  certificates : b.storage.certificates = ∅
  batchIds : b.storage.batchIds = ∅
  maxGcRounds : b.storage.maxGcRounds = g
  own : OwnLeader b.account b.ledger

/-- Such a node over a chain without certificates. -/
structure Blank (g : ℕ) (account : Address) (b : BFT S V) : Prop extends New g account b where
  gcRound : b.storage.gcRound = 0
  chain : chainCertificates b.ledger.blocks = []

omit [Ledger V] in
lemma New.getCertificate {account : Address} (h : New g account b) (q : ℕ) (a : Address) :
    b.dag.getCertificateForRoundWithAuthor q a = none := by
  rw [h.dag]
  simp [DAG.getCertificateForRoundWithAuthor, DAG.new]

lemma Blank.consistent {account : Address} (h : Blank g account b) :
    Consistent U committee g [] 0 b := by
  have hlcr : b.dag.lastCommittedRound = 0 := by rw [h.dag]; rfl
  refine ⟨⟨?_, ?_, ?_, ?_, ?_, ?_, ?_, ?_⟩, ?_, ?_, ?_, h.maxGcRounds, ?_, ?_, ?_, h.own, ?_⟩
  · exact h.dag ▸ DAG.wellFormed_new
  · intro q a c hc
    rw [h.toNew.getCertificate] at hc
    cases hc
  · rw [h.dag, h.committed]
    exact DAG.recents_new
  · simp [h.committed, certificatesOf]
  · rw [hlcr, h.committed]; rfl
  · simp [h.committed, certificatesOf]
  · simp
  · intro pre e post hlog
    simp [h.committed] at hlog
  · exact Storage.indexed_of_empty h.certificates h.batchIds h.rounds
  · exact ⟨by simp [h.certificates], by simp [h.certificates]⟩
  · simp [h.certificates]
  · rw [h.gcRound]; exact Nat.zero_le _
  · intro q a c _
    simp [h.toNew.getCertificate, h.certificates]
  · rintro c - ⟨p, hp, -⟩
    rw [h.chain] at hp
    cases hp
  · rw [hlcr]

/-! ### Elected leaders -/

/-- Stored certificates of the next round whose authors reach the availability threshold include
the leader. -/
def Backed (committee : ℕ → Committee) (b : BFT S V) (leader : BatchCertificate) : Prop :=
  ∃ authors, (committee (leader.round + 1)).isAvailabilityThresholdReached authors = true ∧
    ∀ a ∈ authors, ∃ c, b.Stored c ∧ c.round = leader.round + 1 ∧ c.author = a ∧
      leader.id ∈ c.previousCertificateIds

/-- A stored leader that is due and backed. -/
structure Elected (committee : ℕ → Committee) (b : BFT S V) (leader : BatchCertificate) : Prop where
  stored : b.Stored leader
  own : leader.author = b.account
  even : leader.round % 2 = 0
  above : b.dag.lastCommittedRound < leader.round
  backed : Backed committee b leader

omit [Ledger V] in
/-- Election depends on the certificates stored above the last committed round. -/
lemma Elected.mono (h : Elected committee b leader) (hacc : r.account = b.account)
    (hlcr : r.dag.lastCommittedRound ≤ b.dag.lastCommittedRound)
    (hstored : ∀ c, b.dag.lastCommittedRound < c.round → b.Stored c → r.Stored c) :
    Elected committee r leader := by
  have habove := h.above
  obtain ⟨authors, havail, hall⟩ := h.backed
  refine ⟨hstored _ habove h.stored, h.own.trans hacc.symm, h.even, by omega, authors,
    havail, fun a ha => ?_⟩
  obtain ⟨c, hc, hround, hauthor, hid⟩ := hall a ha
  exact ⟨c, hstored c (by omega) hc, hround, hauthor, hid⟩

lemma Consistent.elected [Network] (h : Consistent U committee g boot bootRound b)
    (hl : Storage.AgreesOn committee b.ledger) (hr : Ready b c leader b.account) :
    Elected committee b leader ∧ leader.round + 1 = c.round := by
  have heven := hr.even
  have htwo := hr.two_le
  have habove := hr.above
  obtain ⟨hs, hround, hauthor⟩ := (h.graph habove).mp hr.found
  have hsucc : leader.round + 1 = c.round := by omega
  refine ⟨⟨hs, hauthor, by omega, by omega, ?_⟩, hsucc⟩
  obtain ⟨certificates, com, hcerts, hcom, havail⟩ := hr.supported
  refine ⟨supporters certificates leader, ?_, fun a ha => ?_⟩
  · rw [hsucc, ← hl _ _ hcom]
    exact havail
  · obtain ⟨d, hd, rfl⟩ := mem_authorsOf.mp ha
    rw [List.mem_filter, h.mem_round (by omega) hcerts] at hd
    exact ⟨d, hd.1.1, by omega, rfl, by simpa using hd.2⟩

lemma Consistent.ready [Network] (h : Consistent U committee g boot bootRound b)
    (hl : Storage.AgreesOn committee b.ledger)
    (hlookback : ∃ com, b.ledger.getCommitteeLookbackForRound c.round = .ok com)
    (hc : b.Stored c) (he : Elected committee b leader) (hround : leader.round + 1 = c.round) :
    Ready b c leader b.account := by
  have habove := he.above
  have heven := he.even
  obtain ⟨authors, havail, hall⟩ := he.backed
  obtain ⟨com, hcom⟩ := hlookback
  obtain ⟨certificates, hcerts⟩ := h.exists_round (by omega) hc
  refine ⟨by omega, by omega, by omega, ?_, certificates, com, hcerts, hcom, ?_⟩
  · rw [show c.round - 1 = leader.round by omega]
    exact (h.graph habove).mpr ⟨he.stored, rfl, he.own⟩
  · rw [hl _ _ hcom, ← hround]
    refine Committee.availability_mono _ (fun a ha => ?_) havail
    obtain ⟨d, hd, hdr, hda, hid⟩ := hall a ha
    refine mem_authorsOf.mpr ⟨d, List.mem_filter.mpr ⟨?_, by simpa using hid⟩, hda⟩
    exact (h.mem_round (by omega) hcerts).mpr ⟨hd, by omega⟩

end BFT

end AmareleoChain
