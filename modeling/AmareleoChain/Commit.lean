import AmareleoChain.Ordering

/-!
What one call of `update_dag` can do.

`Commits` is a sequence of leaders committed one after the other, each with the subdag that
`order_dag_with_dfs` returns for it, and each put in a block first when there is a consensus
sender. A call of `update_dag` inserts its certificate and then either commits nothing, or
commits the first of the leaders that are due.
-/

namespace AmareleoChain

open Std

namespace BFT

variable {S V : Type}

/-- The cached leader, if any, is `account`. -/
def OwnLeader (account : Address) (l : CoreLedgerService V) : Prop :=
  ∀ r a, l.latestLeader = some (r, a) → a = account

/-- A change of the ledger that adds no block, and caches no other leader. -/
def Quiet [Ledger V] (account : Address) (l l' : CoreLedgerService V) : Prop :=
  l'.blocks = l.blocks ∧ (OwnLeader account l → OwnLeader account l')

/-- Another leader cached. -/
def withLeader (b : BFT S V) (x : Option (ℕ × Address)) : BFT S V :=
  { b with ledger := { b.ledger with latestLeader := x } }

variable {account : Address} {b b' : BFT S V} {l l' : CoreLedgerService V}
  {allow isSyncing : Bool}

section
variable [Ledger V]

lemma Quiet.refl (l : CoreLedgerService V) : Quiet account l l := ⟨rfl, id⟩

end

/-! ### Leaders -/

/-- The elected leader: only the cached leader changes, and it is the account's own one if the
cache held no other. -/
lemma electLeader_spec (b : BFT S V) (round : ℕ) :
    ∃ x, (b.electLeader round).2 = b.withLeader x ∧
      (OwnLeader b.account b.ledger →
        (b.electLeader round).1 = b.account ∧ OwnLeader b.account (b.withLeader x).ledger) := by
  unfold electLeader
  have hown : OwnLeader b.account (b.withLeader (some (round, b.account))).ledger := by
    intro r a h; cases h; rfl
  split
  · next r a hcache =>
    split
    · refine ⟨b.ledger.latestLeader, rfl, fun h => ⟨h r a hcache, h⟩⟩
    · exact ⟨some (round, b.account), rfl, fun _ => ⟨rfl, hown⟩⟩
  · exact ⟨some (round, b.account), rfl, fun _ => ⟨rfl, hown⟩⟩

lemma previousLeaders_spec (b : BFT S V) (current : BatchCertificate) (rounds : List ℕ) :
    ∃ x, (b.previousLeaders current rounds).2 = b.withLeader x ∧
      (OwnLeader b.account b.ledger → OwnLeader b.account (b.withLeader x).ledger) ∧
      ∀ previous, (b.previousLeaders current rounds).1 = .ok previous →
        ∃ rs : List ℕ, rs.Sublist rounds ∧ List.Forall₂ (fun r p =>
          ∃ a, b.dag.getCertificateForRoundWithAuthor r a = some p) rs previous := by
  induction rounds generalizing b current with
  | nil =>
    exact ⟨b.ledger.latestLeader, rfl, id, fun previous h => ⟨[], List.Sublist.refl _, by
      cases h; exact .nil⟩⟩
  | cons round rounds ih =>
    obtain ⟨y, hy, hown⟩ := electLeader_spec b round
    rw [previousLeaders]
    dsimp only
    rw [hy]
    -- the rest of the loop, for a round that adds no leader
    have hskip : ∃ x, ((b.withLeader y).previousLeaders current rounds).2 = b.withLeader x ∧
        (OwnLeader b.account b.ledger → OwnLeader b.account (b.withLeader x).ledger) ∧
        ∀ previous, ((b.withLeader y).previousLeaders current rounds).1 = .ok previous →
          ∃ rs : List ℕ, rs.Sublist (round :: rounds) ∧ List.Forall₂ (fun r p =>
            ∃ a, b.dag.getCertificateForRoundWithAuthor r a = some p) rs previous := by
      obtain ⟨x, hx, ho, hp⟩ := ih (b.withLeader y) current
      refine ⟨x, hx, fun h => ho (hown h).2, fun previous h => ?_⟩
      obtain ⟨rs, hrs, hall⟩ := hp previous h
      exact ⟨rs, hrs.trans (List.sublist_cons_self _ _), hall⟩
    split
    · exact hskip
    · next p hp =>
      split
      · exact ⟨y, rfl, fun h => (hown h).2, fun previous h => by cases h⟩
      · exact hskip
      · obtain ⟨x, hx, ho, hprev⟩ := ih (b.withLeader y) p
        refine ⟨x, hx, fun h => ho (hown h).2, fun previous h => ?_⟩
        cases hr : ((b.withLeader y).previousLeaders p rounds).1 with
        | error e => rw [hr] at h; cases h
        | ok rest =>
          rw [hr] at h
          cases h
          obtain ⟨rs, hrs, hall⟩ := hprev rest hr
          exact ⟨round :: rs, hrs.cons_cons round, .cons ⟨_, hp⟩ hall⟩

lemma mem_leaderRounds {low high r : ℕ} : r ∈ leaderRounds low high ↔
    low + 2 ≤ r ∧ r + 2 ≤ high ∧ 2 ∣ high - r := by
  unfold leaderRounds
  dsimp only
  split
  · next h =>
    simp only [List.mem_map, List.mem_range]
    constructor
    · rintro ⟨i, hi, rfl⟩
      refine ⟨by omega, by omega, i + 1, by omega⟩
    · rintro ⟨h₁, h₂, k, hk⟩
      exact ⟨k - 1, by omega, by omega⟩
  · next h =>
    simp only [List.not_mem_nil, false_iff]
    omega

lemma pairwise_leaderRounds (low high : ℕ) : (leaderRounds low high).Pairwise (· > ·) := by
  unfold leaderRounds
  dsimp only
  split
  · refine (List.pairwise_map.mpr (List.pairwise_lt_range.imp_of_mem ?_))
    intro i j hi hj hij
    rw [List.mem_range] at hi hj
    omega
  · exact .nil

/-- The leaders that are due when `leader` is committed, from the oldest to `leader`. -/
def Due (b : BFT S V) (leader : BatchCertificate) (due : List BatchCertificate) : Prop :=
  ∃ previous, (b.previousLeaders leader
      (leaderRounds b.dag.lastCommittedRound leader.round)).1 = .ok previous ∧
    due = (leader :: previous).reverse

lemma Due.ascending {leader : BatchCertificate} {due : List BatchCertificate}
    (hb : b.dag.WellFormed) (h : b.Due leader due)
    (hleader : b.dag.lastCommittedRound < leader.round) :
    due.Pairwise (fun p q => p.round < q.round) ∧
      ∀ p ∈ due, b.dag.lastCommittedRound < p.round ∧
        (p = leader ∨ ∃ r a, b.dag.getCertificateForRoundWithAuthor r a = some p) := by
  obtain ⟨previous, hprev, rfl⟩ := h
  obtain ⟨x, -, -, hspec⟩ := previousLeaders_spec b leader
    (leaderRounds b.dag.lastCommittedRound leader.round)
  obtain ⟨rs, hrs, hall⟩ := hspec previous hprev
  -- the rounds of the previous leaders are those in which they were found
  have hmap : previous.map BatchCertificate.round = rs := by
    clear hprev hspec hrs
    induction hall with
    | nil => rfl
    | cons hp _ ih =>
      obtain ⟨a, ha⟩ := hp
      rw [List.map_cons, ih, (hb.keyed ha).1]
  have hbound : ∀ p ∈ previous, b.dag.lastCommittedRound < p.round ∧ p.round < leader.round := by
    intro p hp
    have hmem := hrs.subset (hmap ▸ List.mem_map_of_mem hp)
    rw [mem_leaderRounds] at hmem
    omega
  have hpair : (previous.map BatchCertificate.round).Pairwise (· > ·) :=
    hmap ▸ (pairwise_leaderRounds _ _).sublist hrs
  refine ⟨?_, fun p hp => ?_⟩
  · rw [List.pairwise_reverse, List.pairwise_cons]
    exact ⟨fun p hp => (hbound p hp).2, List.pairwise_map.mp hpair⟩
  · rw [List.mem_reverse, List.mem_cons] at hp
    rcases hp with rfl | hp
    · exact ⟨hleader, .inl rfl⟩
    · refine ⟨(hbound p hp).1, .inr ?_⟩
      clear hprev hspec hrs hmap hbound hpair
      induction hall with
      | nil => cases hp
      | cons hq _ ih =>
        rcases List.mem_cons.mp hp with rfl | hp
        · exact ⟨_, hq⟩
        · exact ih hp

/-! ### Committing leaders -/

variable [Ledger V]

/-- The ledger after a subdag was committed: a block holds the subdag, or there was no block to
build. -/
def Advanced (b : BFT S V) (isSyncing : Bool) (subdag : Subdag) (l : CoreLedgerService V) : Prop :=
  l.latestLeader = b.ledger.latestLeader ∧
    (((isSyncing = true ∨ b.consensusSender = none) ∧ l = b.ledger) ∨
      ∃ block : Block, block.authority = .quorum subdag ∧
        l.blocks = b.ledger.blocks ++ [block])

/-- A consensus sender, if there is one, is faithful. -/
def FaithfulSender (b : BFT S V) : Prop :=
  ∀ send, b.consensusSender = some send → ConsensusSender.Faithful send

/-- Leaders committed one after the other. -/
inductive Commits (allow isSyncing : Bool) :
    BFT S V → List BatchCertificate → BFT S V → Prop
  | nil (b : BFT S V) : Commits allow isSyncing b [] b
  | cons {b b' : BFT S V} {leader : BatchCertificate} {leaders : List BatchCertificate}
      {subdag : Subdag} {l : CoreLedgerService V} :
      b.orderDagWithDfs allow leader = .ok subdag →
      b.Advanced isSyncing subdag l →
      Commits allow isSyncing (({ b with ledger := l }).commitSubdag leader subdag) leaders b' →
      Commits allow isSyncing b (leader :: leaders) b'

variable [StorageService S]

omit [StorageService S] in
lemma triggerConsensus_cases (account : Address) (hb : b.FaithfulSender)
    (subdag : Subdag) (t : IndexMap TransmissionID Transmission) :
    (∃ l, b.triggerConsensus subdag t = (.committed, { b with ledger := l }) ∧
      b.Advanced false subdag l) ∨
    (∃ r l, r ≠ .committed ∧ b.triggerConsensus subdag t = (r, { b with ledger := l }) ∧
      Quiet account b.ledger l) := by
  unfold triggerConsensus
  split
  · next hnone => exact .inl ⟨b.ledger, rfl, rfl, .inl ⟨.inr hnone, rfl⟩⟩
  · next send hsend =>
    obtain ⟨hleader, hok, hno⟩ := hb send hsend b.ledger subdag t
    have hquiet : (send b.ledger subdag t).1 ≠ .callback (.ok ()) →
        Quiet account b.ledger (send b.ledger subdag t).2 := fun h =>
      ⟨hno h, fun ho r a hra => ho r a (hleader ▸ hra)⟩
    dsimp only
    split
    · next hr =>
      obtain ⟨block, hauth, hblocks⟩ := hok hr
      exact .inl ⟨_, rfl, hleader, .inr ⟨block, hauth, hblocks⟩⟩
    · next e hr => exact .inr ⟨_, _, by simp, rfl, hquiet (by rw [hr]; simp)⟩
    · next hr => exact .inr ⟨_, _, by simp, rfl, hquiet (by rw [hr]; simp)⟩
    · next hr => exact .inr ⟨_, _, by simp, rfl, hquiet (by rw [hr]; simp)⟩

variable [Network]

lemma buildBlock_cases (account : Address) (hb : b.FaithfulSender) (round : ℕ)
    (subdag : Subdag) :
    (∃ l, b.buildBlock round subdag = (.committed, { b with ledger := l }) ∧
      b.Advanced false subdag l) ∨
    (∃ r l, r ≠ .committed ∧ b.buildBlock round subdag = (r, { b with ledger := l }) ∧
      Quiet account b.ledger l) := by
  unfold buildBlock
  have hfail : ∀ e, ∃ r l, r ≠ CommitResult.committed ∧
      (CommitResult.failed e, b) = (r, { b with ledger := l }) ∧ Quiet account b.ledger l :=
    fun e => ⟨.failed e, b.ledger, by simp, rfl, .refl _⟩
  split
  · exact .inr (hfail _)
  · split
    · exact .inr (hfail _)
    · dsimp only
      split
      · exact .inr (hfail _)
      · exact triggerConsensus_cases account hb subdag _

/-- **One leader**: it is committed, or nothing is. -/
theorem commitLeader_cases (account : Address) (allow isSyncing : Bool) (hb : b.FaithfulSender)
    (leader : BatchCertificate) :
    (∃ subdag l, b.orderDagWithDfs allow leader = .ok subdag ∧ b.Advanced isSyncing subdag l ∧
      b.commitLeader allow isSyncing leader
        = (.committed, ({ b with ledger := l }).commitSubdag leader subdag)) ∨
    (∃ r l, r ≠ .committed ∧ Quiet account b.ledger l ∧
      b.commitLeader allow isSyncing leader = (r, { b with ledger := l })) := by
  unfold commitLeader
  split
  · exact .inr ⟨_, b.ledger, by simp, .refl _, rfl⟩
  · next subdag hsub =>
    split
    · next hsync => exact .inl ⟨subdag, b.ledger, hsub, ⟨rfl, .inl ⟨.inl hsync, rfl⟩⟩, rfl⟩
    · next hsync =>
      obtain rfl : isSyncing = false := by simpa using hsync
      rcases buildBlock_cases account hb leader.round subdag with
        ⟨l, h, ha⟩ | ⟨r, l, hr, h, hq⟩
      · exact .inl ⟨subdag, l, hsub, ha, by rw [h]⟩
      · refine .inr ⟨r, l, hr, hq, ?_⟩
        rw [h]
        cases r <;> first | rfl | exact absurd rfl hr

/-- **A chunk of leaders**: the first of them are committed, all when the loop completes. -/
theorem commitLeaders_cases (account : Address) (allow isSyncing : Bool)
    (hb : b.FaithfulSender) (leaders : List BatchCertificate) :
    ∃ done rest b' l, leaders = done ++ rest ∧ Commits allow isSyncing b done b' ∧
      Quiet account b'.ledger l ∧
      (b.commitLeaders allow isSyncing leaders).2 = { b' with ledger := l } ∧
      ((b.commitLeaders allow isSyncing leaders).1 = .committed → rest = []) := by
  induction leaders generalizing b with
  | nil => exact ⟨[], [], b, b.ledger, rfl, .nil b, .refl _, rfl, fun _ => rfl⟩
  | cons leader leaders ih =>
    rw [commitLeaders]
    rcases commitLeader_cases account allow isSyncing hb leader with
      ⟨subdag, l, hsub, ha, h⟩ | ⟨r, l, hr, hq, h⟩
    · rw [h]
      have hb' : (({ b with ledger := l }).commitSubdag leader subdag).FaithfulSender := hb
      obtain ⟨done, rest, b', l', rfl, hc, hq, h₂, h₁⟩ := ih hb'
      exact ⟨leader :: done, rest, b', l', rfl, .cons hsub ha hc, hq, h₂, h₁⟩
    · rw [h]
      refine ⟨[], leader :: leaders, b, l, rfl, .nil b, hq, ?_, ?_⟩
      · cases r <;> first | rfl | exact absurd rfl hr
      · cases r <;> simp_all

/-! ### One call -/

/-- The certificate `c` makes the leader of the round below committable. -/
structure Ready (b : BFT S V) (c leader : BatchCertificate) (author : Address) : Prop where
  even : (c.round - 1) % 2 = 0
  two_le : 2 ≤ c.round - 1
  above : b.dag.lastCommittedRound < c.round - 1
  found : b.dag.getCertificateForRoundWithAuthor (c.round - 1) author = some leader
  supported : ∃ certificates committee,
    b.dag.getCertificatesForRound c.round = some certificates ∧
    b.ledger.getCommitteeLookbackForRound c.round = .ok committee ∧
    committee.isAvailabilityThresholdReached (supporters certificates leader) = true

/-- A call of `update_dag` either leaves the leaders alone, or commits the chain of the elected
leader, which is ready. -/
lemma updateDag_entry (allow isSyncing : Bool) (b : BFT S V) (c : BatchCertificate) :
    ∃ x, (OwnLeader b.account b.ledger → OwnLeader b.account (b.withLeader x).ledger) ∧
      ((∃ r, b.updateDag allow isSyncing c
          = (r, ({ b with dag := b.dag.insert c } : BFT S V).withLeader x)) ∨
        ∃ leader, Ready { b with dag := b.dag.insert c } c leader
            (({ b with dag := b.dag.insert c } : BFT S V).electLeader (c.round - 1)).1 ∧
          b.updateDag allow isSyncing c
            = (({ b with dag := b.dag.insert c } : BFT S V).withLeader x).commitLeaderCertificate
              allow isSyncing leader) := by
  unfold updateDag
  dsimp only
  split
  · exact ⟨b.ledger.latestLeader, id, .inl ⟨_, rfl⟩⟩
  next hpar =>
  split
  · exact ⟨b.ledger.latestLeader, id, .inl ⟨_, rfl⟩⟩
  next habove =>
  split
  · exact ⟨b.ledger.latestLeader, id, .inl ⟨_, rfl⟩⟩
  obtain ⟨x, hx, hown⟩ := electLeader_spec { b with dag := b.dag.insert c } (c.round - 1)
  rw [hx]
  refine ⟨x, fun h => (hown h).2, ?_⟩
  split
  · exact .inl ⟨_, rfl⟩
  next leader hleader =>
  split
  · exact .inl ⟨_, rfl⟩
  next certificates hcerts =>
  split
  · exact .inl ⟨_, rfl⟩
  next committee hcom =>
  split
  · exact .inl ⟨_, rfl⟩
  next havail =>
  exact .inr ⟨leader, ⟨by omega, by omega, Nat.not_le.mp habove, hleader, certificates,
    committee, hcerts, hcom, not_not.mp havail⟩, rfl⟩

/-- **One call of `update_dag`**: the certificate is inserted, and no leader is committed, or
the first of those that are due. Storage is garbage collected only when all of them are. -/
theorem updateDag_cases (allow isSyncing : Bool) (hb : b.FaithfulSender)
    (c : BatchCertificate) :
    (∃ l, Quiet b.account b.ledger l ∧
      (b.updateDag allow isSyncing c).2 = { b with dag := b.dag.insert c, ledger := l }) ∨
    (∃ leader author l₀ due done rest b' l, Quiet b.account b.ledger l₀ ∧
      (OwnLeader b.account b.ledger → author = b.account) ∧
      Ready { b with dag := b.dag.insert c } c leader author ∧
      Due { b with dag := b.dag.insert c, ledger := l₀ } leader due ∧ due = done ++ rest ∧
      (∃ l₁, Quiet b.account b.ledger l₁ ∧
        Commits allow isSyncing { b with dag := b.dag.insert c, ledger := l₁ } done b') ∧
      Quiet b.account b'.ledger l ∧
      ((b.updateDag allow isSyncing c).2 = { b' with ledger := l } ∨
        (rest = [] ∧ (b.updateDag allow isSyncing c).2 = { b' with
          ledger := l, storage := b'.storage.garbageCollectCertificates leader.round }))) := by
  obtain ⟨x, hown, hcall⟩ := updateDag_entry allow isSyncing b c
  have hquiet : Quiet b.account b.ledger (b.withLeader x).ledger := ⟨rfl, hown⟩
  rcases hcall with ⟨r, hres⟩ | ⟨leader, hready, hres⟩
  · exact .inl ⟨_, hquiet, by rw [hres]; rfl⟩
  rw [hres]
  have helected := (electLeader_spec { b with dag := b.dag.insert c } (c.round - 1)).choose_spec.2
  -- the loops of `commit_leader_certificate`
  obtain ⟨y, hy, hown', -⟩ := previousLeaders_spec
    (({ b with dag := b.dag.insert c } : BFT S V).withLeader x) leader
    (leaderRounds (b.dag.insert c).lastCommittedRound leader.round)
  have hquiet' : Quiet b.account b.ledger { b.ledger with latestLeader := y } :=
    ⟨rfl, fun h => hown' (hown h)⟩
  unfold commitLeaderCertificate
  split
  · next e b₂ he =>
    refine .inl ⟨_, hquiet', ?_⟩
    rw [show b₂ = _ from (congrArg Prod.snd he).symm.trans hy]
    rfl
  next previous b₂ he =>
  obtain rfl : b₂ = ({ b with dag := b.dag.insert c } : BFT S V).withLeader y :=
    (congrArg Prod.snd he).symm.trans hy
  obtain ⟨done, rest, b', l, hdue, hcommits, hq, hsnd, hrest⟩ := commitLeaders_cases b.account
    allow isSyncing (b := ({ b with dag := b.dag.insert c } : BFT S V).withLeader y) hb
    (leader :: previous).reverse
  refine .inr ⟨leader, _, _, _, done, rest, b', l, hquiet, fun h => (helected h).1, hready,
    ⟨previous, congrArg Prod.fst he, rfl⟩, hdue, ⟨_, hquiet', hcommits⟩, hq, ?_⟩
  split
  · next e b₃ h₃ => rw [h₃] at hsnd; exact .inl hsnd
  · next b₃ h₃ => rw [h₃] at hsnd; exact .inl hsnd
  · next b₃ h₃ =>
    rw [h₃] at hsnd hrest
    refine .inr ⟨hrest rfl, ?_⟩
    rw [show b₃ = _ from hsnd]

/-! ### What is left alone -/

lemma commitLeader_keeps (allow isSyncing : Bool) (b : BFT S V) (leader : BatchCertificate) :
    ∃ dag ledger committed,
      (b.commitLeader allow isSyncing leader).2 = { b with dag, ledger, committed } := by
  have hblock : ∀ round subdag, ∃ ledger,
      (b.buildBlock round subdag).2 = { b with ledger } := by
    intro round subdag
    unfold buildBlock
    split
    · exact ⟨b.ledger, rfl⟩
    split
    · exact ⟨b.ledger, rfl⟩
    dsimp only
    split
    · exact ⟨b.ledger, rfl⟩
    unfold triggerConsensus
    split
    · exact ⟨b.ledger, rfl⟩
    · dsimp only
      split <;> exact ⟨_, rfl⟩
  unfold commitLeader
  split
  · exact ⟨b.dag, b.ledger, b.committed, rfl⟩
  next subdag _ =>
  split
  · exact ⟨_, _, _, rfl⟩
  obtain ⟨ledger, hledger⟩ := hblock leader.round subdag
  split <;> next h => rw [h] at hledger; subst hledger; exact ⟨_, _, _, rfl⟩

lemma commitLeaders_keeps (allow isSyncing : Bool) (b : BFT S V)
    (leaders : List BatchCertificate) : ∃ dag ledger committed,
      (b.commitLeaders allow isSyncing leaders).2 = { b with dag, ledger, committed } := by
  induction leaders generalizing b with
  | nil => exact ⟨b.dag, b.ledger, b.committed, rfl⟩
  | cons leader leaders ih =>
    obtain ⟨dag, ledger, committed, hone⟩ := commitLeader_keeps allow isSyncing b leader
    rw [commitLeaders]
    split
    · next h =>
      rw [h] at hone
      subst hone
      exact ih _
    · next h =>
      rw [h] at hone
      exact ⟨dag, ledger, committed, hone⟩

/-- **What `update_dag` leaves alone**: all but the DAG, the ledger, the history of commits, and
the storage, which may be garbage collected. -/
theorem updateDag_keeps (allow isSyncing : Bool) (b : BFT S V) (c : BatchCertificate) :
    ∃ dag ledger committed storage,
      (storage = b.storage ∨ ∃ round, storage = b.storage.garbageCollectCertificates round) ∧
      (b.updateDag allow isSyncing c).2 = { b with dag, ledger, committed, storage } := by
  obtain ⟨x, -, ⟨r, hres⟩ | ⟨leader, -, hres⟩⟩ := updateDag_entry allow isSyncing b c
  · rw [hres]
    exact ⟨_, _, _, _, .inl rfl, rfl⟩
  rw [hres]
  unfold commitLeaderCertificate
  obtain ⟨y, hy, -⟩ := previousLeaders_spec
    (({ b with dag := b.dag.insert c } : BFT S V).withLeader x) leader
    (leaderRounds (b.dag.insert c).lastCommittedRound leader.round)
  split
  · next b₂ he =>
    obtain rfl : b₂ = ({ b with dag := b.dag.insert c } : BFT S V).withLeader y :=
      (congrArg Prod.snd he).symm.trans hy
    exact ⟨_, _, _, _, .inl rfl, rfl⟩
  next previous b₂ he =>
  obtain rfl : b₂ = ({ b with dag := b.dag.insert c } : BFT S V).withLeader y :=
    (congrArg Prod.snd he).symm.trans hy
  obtain ⟨dag, ledger, committed, hloop⟩ := commitLeaders_keeps allow isSyncing
    (({ b with dag := b.dag.insert c } : BFT S V).withLeader y) (leader :: previous).reverse
  split <;> next h => rw [h] at hloop; subst hloop; first
    | exact ⟨_, _, _, _, .inl rfl, rfl⟩
    | exact ⟨_, _, _, _, .inr ⟨leader.round, rfl⟩, rfl⟩

/-- The leader that is ready is the one whose chain is committed. -/
lemma updateDag_ready (allow isSyncing : Bool) {c leader : BatchCertificate}
    (hready : Ready { b with dag := b.dag.insert c } c leader b.account)
    (hown : OwnLeader b.account b.ledger)
    (hlookback : ∃ com, b.ledger.getCommitteeLookbackForRound (c.round - 1) = .ok com) :
    ∃ x, OwnLeader b.account (b.withLeader x).ledger ∧
      b.updateDag allow isSyncing c
        = (({ b with dag := b.dag.insert c } : BFT S V).withLeader x).commitLeaderCertificate
          allow isSyncing leader := by
  obtain ⟨com, hcom⟩ := hlookback
  obtain ⟨x, hx, hown'⟩ := electLeader_spec { b with dag := b.dag.insert c } (c.round - 1)
  obtain ⟨hauthor, hown'⟩ := hown' hown
  obtain ⟨certificates, com', hcerts, hcom', havail⟩ := hready.supported
  have hfound := hready.found
  have heven := hready.even
  have htwo := hready.two_le
  have habove := hready.above
  refine ⟨x, hown', ?_⟩
  have hfound' : (({ b with dag := b.dag.insert c } : BFT S V).withLeader
      x).dag.getCertificateForRoundWithAuthor (c.round - 1) b.account = some leader := hfound
  have hcerts' : (({ b with dag := b.dag.insert c } : BFT S V).withLeader
      x).dag.getCertificatesForRound c.round = some certificates := hcerts
  have hcom'' : (({ b with dag := b.dag.insert c } : BFT S V).withLeader
      x).ledger.getCommitteeLookbackForRound c.round = .ok com' := hcom'
  unfold updateDag
  dsimp only
  rw [if_neg (by omega), if_neg (Nat.not_le.mpr habove), hcom, hx, hauthor]
  dsimp only
  rw [hfound']
  dsimp only
  rw [hcerts']
  dsimp only
  rw [hcom'']
  dsimp only
  rw [if_neg (not_not.mpr havail)]

end BFT

end AmareleoChain
