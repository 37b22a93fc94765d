import AmareleoChain.Commit

/-!
What a call of `update_dag` leaves, whatever the certificates and wherever consensus fails.

Rounds above the last committed one keep their certificates; the ledger changes by what consensus
does to it and by the leader cached in it; and when the storage is garbage collected, it is for
the round below that of the certificate, which is then committed.
-/

namespace AmareleoChain

open Std

namespace DAG

/-- What was recently committed is not above the last committed round. -/
def RecentsBelow (d : DAG) : Prop :=
  ∀ (r : ℕ) (id : Field), d.isRecentlyCommitted r id = true → r ≤ d.lastCommittedRound

variable {d : DAG}

lemma recentsBelow_new : RecentsBelow new := by simp [RecentsBelow, isRecentlyCommitted, new]

lemma RecentsBelow.insert (h : d.RecentsBelow) (c : BatchCertificate) :
    (d.insert c).RecentsBelow := by
  simpa [RecentsBelow] using h

lemma RecentsBelow.commitAll (h : d.RecentsBelow) (cs : List BatchCertificate) (g : ℕ) :
    (d.commitAll cs g).RecentsBelow := by
  refine List.foldlRecOn (motive := RecentsBelow) _ _ h fun d hd c _ r id hr => ?_
  rw [isRecentlyCommitted_commit] at hr
  rw [lastCommittedRound_commit]
  rcases hr.1 with hr | ⟨rfl, -⟩
  · exact (hd r id hr).trans (le_max_left _ _)
  · exact le_max_right _ _

lemma RecentsBelow.getCertificateForRoundWithAuthor_insert (h : d.RecentsBelow)
    {c : BatchCertificate} {r : ℕ} {a : Address} (hr : d.lastCommittedRound < r) :
    (d.insert c).getCertificateForRoundWithAuthor r a =
      if r = c.round ∧ a = c.author then some c else d.getCertificateForRoundWithAuthor r a := by
  by_cases hround : r = c.round
  · refine DAG.getCertificateForRoundWithAuthor_insert (Bool.eq_false_iff.mpr fun hrecent => ?_)
    have := h _ _ hrecent
    omega
  · rw [if_neg fun hc => hround hc.1, getCertificateForRoundWithAuthor,
      getCertificateForRoundWithAuthor]
    exact congrArg (fun m => m.bind fun m => m[a]?)
      (getCertificatesForRound_insert_of_ne hround)

end DAG

namespace BFT

variable {S V : Type}

/-- A relation of ledgers that contains what the BFT does to its ledger. -/
structure Evolves (send : Option (ConsensusSender V))
    (Q : CoreLedgerService V → CoreLedgerService V → Prop) : Prop where
  refl : ∀ l, Q l l
  trans : ∀ {l l' l''}, Q l l' → Q l' l'' → Q l l''
  leader : ∀ l latestLeader, Q l { l with latestLeader }
  send : ∀ s, send = some s → ∀ l subdag transmissions, Q l (s l subdag transmissions).2

/-- What leaders leave alone that are committed, or that fail to be. -/
structure Committing (Q : CoreLedgerService V → CoreLedgerService V → Prop) (b b' : BFT S V) :
    Prop where
  keeps : ∃ dag ledger committed, b' = { b with dag, ledger, committed }
  ledger : Q b.ledger b'.ledger
  wellFormed : b.dag.WellFormed → b'.dag.WellFormed
  recents : b.dag.RecentsBelow → b'.dag.RecentsBelow
  le_lastCommittedRound : b.dag.lastCommittedRound ≤ b'.dag.lastCommittedRound
  graph : ∀ r, b'.dag.lastCommittedRound < r →
    b'.dag.getCertificatesForRound r = b.dag.getCertificatesForRound r

variable {Q : CoreLedgerService V → CoreLedgerService V → Prop} {b b' b'' : BFT S V}

lemma Committing.refl {send : Option (ConsensusSender V)} (hQ : Evolves send Q) (b : BFT S V) :
    Committing Q b b :=
  ⟨⟨b.dag, b.ledger, b.committed, rfl⟩, hQ.refl _, id, id, le_rfl, fun _ _ => rfl⟩

lemma Committing.trans {send : Option (ConsensusSender V)} (hQ : Evolves send Q)
    (h : Committing Q b b') (h' : Committing Q b' b'') : Committing Q b b'' where
  keeps := by
    obtain ⟨dag, ledger, committed, rfl⟩ := h.keeps
    obtain ⟨dag', ledger', committed', rfl⟩ := h'.keeps
    exact ⟨dag', ledger', committed', rfl⟩
  ledger := hQ.trans h.ledger h'.ledger
  wellFormed := h'.wellFormed ∘ h.wellFormed
  recents := h'.recents ∘ h.recents
  le_lastCommittedRound := h.le_lastCommittedRound.trans h'.le_lastCommittedRound
  graph r hr := (h'.graph r hr).trans (h.graph r (h'.le_lastCommittedRound.trans_lt hr))

lemma committing_ledger {send : Option (ConsensusSender V)} (hQ : Evolves send Q)
    {l : CoreLedgerService V} (hl : Q b.ledger l) : Committing Q b { b with ledger := l } :=
  { Committing.refl hQ b with keeps := ⟨b.dag, l, b.committed, rfl⟩, ledger := hl }

lemma committing_commitSubdag {send : Option (ConsensusSender V)} (hQ : Evolves send Q)
    (b : BFT S V) (leader : BatchCertificate) (subdag : Subdag) :
    Committing Q b (b.commitSubdag leader subdag) where
  keeps := ⟨_, b.ledger, _, rfl⟩
  ledger := hQ.refl _
  wellFormed h := h.commitAll _ _
  recents h := h.commitAll _ _
  le_lastCommittedRound := DAG.le_lastCommittedRound_commitAll _
  graph _ hr := DAG.getCertificatesForRound_commitAll
    ((DAG.le_lastCommittedRound_commitAll _).trans_lt hr)
    fun _ hc => (DAG.round_le_lastCommittedRound_commitAll hc).trans_lt hr

variable [Ledger V]

lemma mem_of_orderDagWithDfs {allow : Bool} {leader : BatchCertificate} {subdag : Subdag}
    (h : b.orderDagWithDfs allow leader = .ok subdag)
    (habove : b.dag.lastCommittedRound < leader.round) : leader ∈ subdag.certificates := by
  obtain ⟨certificates, hrun, rfl⟩ := orderDagWithDfs_ok h
  obtain ⟨-, -, rest, -, -, rfl⟩ := Search.run_cons hrun
  obtain ⟨hfiled, hmem⟩ := Subdag.foldl_file (leader :: rest) Subdag.filed_empty
  rw [Subdag.mem_certificates_filter hfiled, hmem]
  exact ⟨.inr List.mem_cons_self, decide_eq_true (by omega)⟩

variable [StorageService S] [Network]

lemma committing_buildBlock (hQ : Evolves b.consensusSender Q) (round : ℕ) (subdag : Subdag) :
    ∃ l, Q b.ledger l ∧ (b.buildBlock round subdag).2 = { b with ledger := l } := by
  have hsame : ∃ l, Q b.ledger l ∧ b = { b with ledger := l } := ⟨b.ledger, hQ.refl _, rfl⟩
  unfold buildBlock
  split
  · exact hsame
  split
  · exact hsame
  dsimp only
  split
  · exact hsame
  unfold triggerConsensus
  split
  · exact hsame
  · next s hs =>
    have hl := hQ.send s hs b.ledger subdag
    dsimp only
    split <;> exact ⟨_, hl _, rfl⟩

/-- **One leader** that is committed is not above the last committed round then. -/
lemma committing_commitLeader (hQ : Evolves b.consensusSender Q) (allow isSyncing : Bool)
    (leader : BatchCertificate) :
    Committing Q b (b.commitLeader allow isSyncing leader).2 ∧
      ((b.commitLeader allow isSyncing leader).1 = .committed →
        leader.round ≤ (b.commitLeader allow isSyncing leader).2.dag.lastCommittedRound) := by
  have hcommit : ∀ {subdag : Subdag} {l : CoreLedgerService V},
      b.orderDagWithDfs allow leader = .ok subdag → Q b.ledger l →
      Committing Q b (({ b with ledger := l } : BFT S V).commitSubdag leader subdag) ∧
        leader.round ≤ (({ b with ledger := l } : BFT S V).commitSubdag leader
          subdag).dag.lastCommittedRound := by
    intro subdag l hsub hl
    have hcommitting := (committing_ledger hQ hl).trans hQ
      (committing_commitSubdag hQ _ leader subdag)
    refine ⟨hcommitting, ?_⟩
    by_cases habove : b.dag.lastCommittedRound < leader.round
    · exact DAG.round_le_lastCommittedRound_commitAll (mem_of_orderDagWithDfs hsub habove)
    · exact (Nat.not_lt.mp habove).trans hcommitting.le_lastCommittedRound
  unfold commitLeader
  split
  · exact ⟨.refl hQ b, by simp⟩
  next subdag hsub =>
  split
  · obtain ⟨hcommitting, hle⟩ := hcommit hsub (hQ.refl _)
    exact ⟨hcommitting, fun _ => hle⟩
  obtain ⟨l, hl, hblock⟩ := committing_buildBlock hQ leader.round subdag
  split
  · next h =>
    rw [h] at hblock
    subst hblock
    obtain ⟨hcommitting, hle⟩ := hcommit hsub hl
    exact ⟨hcommitting, fun _ => hle⟩
  · next hne h =>
    rw [h] at hblock
    subst hblock
    exact ⟨committing_ledger hQ hl, fun h => absurd h hne⟩

lemma committing_commitLeaders (hQ : Evolves b.consensusSender Q) (allow isSyncing : Bool)
    (leaders : List BatchCertificate) :
    Committing Q b (b.commitLeaders allow isSyncing leaders).2 ∧
      ((b.commitLeaders allow isSyncing leaders).1 = .committed → ∀ leader ∈ leaders,
        leader.round ≤ (b.commitLeaders allow isSyncing leaders).2.dag.lastCommittedRound) := by
  induction leaders generalizing b with
  | nil => exact ⟨.refl hQ b, fun _ _ h => absurd h List.not_mem_nil⟩
  | cons leader leaders ih =>
    obtain ⟨hone, hle⟩ := committing_commitLeader hQ allow isSyncing leader
    rw [commitLeaders]
    split
    · next b' h =>
      rw [h] at hone hle
      have hQ' : Evolves b'.consensusSender Q := by
        obtain ⟨dag, ledger, committed, rfl⟩ := hone.keeps
        exact hQ
      obtain ⟨hrest, hall⟩ := ih hQ'
      refine ⟨hone.trans hQ hrest, fun hdone => List.forall_mem_cons.mpr ⟨?_, hall hdone⟩⟩
      exact (hle rfl).trans hrest.le_lastCommittedRound
    · next hne h =>
      rw [h] at hone
      exact ⟨hone, fun h => absurd h hne⟩

/-- What a call of `update_dag` leaves. -/
structure Updated (Q : CoreLedgerService V → CoreLedgerService V → Prop) (b : BFT S V)
    (c : BatchCertificate) (b' : BFT S V) : Prop where
  keeps : ∃ dag ledger committed storage, b' = { b with dag, ledger, committed, storage }
  ledger : Q b.ledger b'.ledger
  wellFormed : b'.dag.WellFormed
  recents : b.dag.RecentsBelow → b'.dag.RecentsBelow
  le_lastCommittedRound : b.dag.lastCommittedRound ≤ b'.dag.lastCommittedRound
  graph : ∀ r, b'.dag.lastCommittedRound < r →
    b'.dag.getCertificatesForRound r = (b.dag.insert c).getCertificatesForRound r
  storage : b'.storage = b.storage ∨ (2 ≤ c.round - 1 ∧
    c.round - 1 ≤ b'.dag.lastCommittedRound ∧
    b'.storage = b.storage.garbageCollectCertificates (c.round - 1))

omit [Ledger V] [Network] in
lemma Committing.updated {c : BatchCertificate} {dag : DAG} (hdag : dag = b.dag.insert c)
    (hwf : b.dag.WellFormed) (h : Committing Q { b with dag } b') : Updated Q b c b' where
  keeps := by
    obtain ⟨dag, ledger, committed, rfl⟩ := h.keeps
    exact ⟨dag, ledger, committed, b.storage, rfl⟩
  ledger := h.ledger
  wellFormed := h.wellFormed (hdag ▸ hwf.insert c)
  recents hrecents := h.recents (hdag ▸ hrecents.insert c)
  le_lastCommittedRound := by
    have hle := h.le_lastCommittedRound
    rw [hdag] at hle
    simpa using hle
  graph r hr := by rw [h.graph r hr, hdag]
  storage := by
    obtain ⟨dag, ledger, committed, rfl⟩ := h.keeps
    exact .inl rfl

/-- **A call of `update_dag`**. -/
theorem updateDag_updated (hQ : Evolves b.consensusSender Q) (hwf : b.dag.WellFormed)
    (allow isSyncing : Bool) (c : BatchCertificate) :
    Updated Q b c (b.updateDag allow isSyncing c).2 := by
  have hQ' : Evolves ({ b with dag := b.dag.insert c } : BFT S V).consensusSender Q := hQ
  have hcached : ∀ x, Committing Q { b with dag := b.dag.insert c }
      (({ b with dag := b.dag.insert c } : BFT S V).withLeader x) :=
    fun x => committing_ledger hQ' (hQ.leader _ x)
  obtain ⟨x, -, ⟨r, hres⟩ | ⟨leader, hready, hres⟩⟩ := updateDag_entry allow isSyncing b c
  · rw [hres]
    exact (hcached x).updated rfl hwf
  rw [hres]
  unfold commitLeaderCertificate
  obtain ⟨y, hy, -⟩ := previousLeaders_spec
    (({ b with dag := b.dag.insert c } : BFT S V).withLeader x) leader
    (leaderRounds (b.dag.insert c).lastCommittedRound leader.round)
  split
  · next b₂ he =>
    obtain rfl : b₂ = ({ b with dag := b.dag.insert c } : BFT S V).withLeader y :=
      (congrArg Prod.snd he).symm.trans hy
    exact (hcached y).updated rfl hwf
  next previous b₂ he =>
  obtain rfl : b₂ = ({ b with dag := b.dag.insert c } : BFT S V).withLeader y :=
    (congrArg Prod.snd he).symm.trans hy
  obtain ⟨hloop, hall⟩ := committing_commitLeaders (b :=
    ({ b with dag := b.dag.insert c } : BFT S V).withLeader y) hQ allow isSyncing
    (leader :: previous).reverse
  have hcommitting := (hcached y).trans hQ hloop
  split
  · next h =>
    rw [h] at hcommitting
    exact hcommitting.updated rfl hwf
  · next h =>
    rw [h] at hcommitting
    exact hcommitting.updated rfl hwf
  · next b₃ h =>
    rw [h] at hcommitting hall
    have hround : leader.round = c.round - 1 := ((hwf.insert c).keyed hready.found).1
    have hle := hall rfl leader (by simp)
    have hupdated := hcommitting.updated rfl hwf
    refine { hupdated with keeps := ?_, storage := .inr ⟨hready.two_le, hround ▸ hle, ?_⟩ }
    · obtain ⟨dag, ledger, committed, rfl⟩ := hcommitting.keeps
      exact ⟨dag, ledger, committed, _, rfl⟩
    · obtain ⟨dag, ledger, committed, rfl⟩ := hcommitting.keeps
      rw [hround]

end BFT

end AmareleoChain
