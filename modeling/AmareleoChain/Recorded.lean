import AmareleoChain.CommitOnce
import AmareleoChain.Lives

/-!
What the DAG records as committed is in the ledger, as long as consensus listens.

A node starts over its ledger, with a DAG that records the certificates of the latest blocks, and
starts again after it was stopped. In between the primary takes its steps on the BFT. The
consensus sender is set last, and without one a leader is committed to the DAG while no block is
built for it.
-/

namespace AmareleoChain

open Relation

/-- A channel that never shrinks the chain, and when its callback reports success has put the
subdag in a block. It may be cut off at any time, also once the block was added. -/
def ConsensusSender.Honest {V : Type} [Ledger V] (send : ConsensusSender V) : Prop :=
  ∀ l s t, l.blocks <+: (send l s t).2.blocks ∧
    ((send l s t).1 = .callback (.ok ()) →
      ∃ block ∈ (send l s t).2.blocks, block.authority = .quorum s)

lemma ConsensusSender.Faithful.honest {V : Type} [Ledger V] {send : ConsensusSender V}
    (h : send.Faithful) : send.Honest := by
  intro l s t
  obtain ⟨-, hok, hno⟩ := h l s t
  by_cases hr : (send l s t).1 = .callback (.ok ())
  · obtain ⟨block, hauth, hblocks⟩ := hok hr
    rw [hblocks]
    exact ⟨List.prefix_append _ _, fun _ => ⟨block, by simp, hauth⟩⟩
  · rw [hno hr]
    exact ⟨List.prefix_rfl, fun h => absurd h hr⟩

namespace BFT

variable {S V : Type} [Ledger V] {b b' : BFT S V}

/-- What is recorded as committed is in the ledger. -/
structure Booked (b : BFT S V) : Prop where
  recent : ∀ (r : ℕ) (id : Field), b.dag.isRecentlyCommitted r id = true → InChain b.ledger id
  committed : ∀ c ∈ certificatesOf b.committed, InChain b.ledger c.id

lemma Booked.congr (h : Booked b)
    (hrecent : ∀ r id, b'.dag.isRecentlyCommitted r id = b.dag.isRecentlyCommitted r id)
    (hlog : b'.committed = b.committed) (hchain : b.ledger.blocks <+: b'.ledger.blocks) :
    Booked b' where
  recent r id hid := (h.recent r id (hrecent r id ▸ hid)).mono hchain
  committed := by
    rw [hlog]
    exact fun c hc => (h.committed c hc).mono hchain

lemma recent_commitAll {d : DAG} {cs : List BatchCertificate} {g r : ℕ} {id : Field}
    (h : (d.commitAll cs g).isRecentlyCommitted r id = true) :
    d.isRecentlyCommitted r id = true ∨ ∃ c ∈ cs, c.id = id := by
  induction cs generalizing d with
  | nil => exact .inl h
  | cons c cs ih =>
    rcases ih h with h | ⟨p, hp, hid⟩
    · rcases (DAG.isRecentlyCommitted_commit.mp h).1 with h | ⟨-, hid⟩
      · exact .inl h
      · exact .inr ⟨c, List.mem_cons_self, hid.symm⟩
    · exact .inr ⟨p, List.mem_cons_of_mem c hp, hid⟩

lemma Booked.commitSubdag (h : Booked b) {subdag : Subdag}
    (hsub : ∀ c ∈ subdag.certificates, InChain b.ledger c.id) (leader : BatchCertificate) :
    Booked (b.commitSubdag leader subdag) where
  recent r id hid := by
    rcases recent_commitAll hid with hid | ⟨c, hc, rfl⟩
    · exact h.recent r id hid
    · exact hsub c hc
  committed := by
    intro c hc
    rcases List.mem_append.mp ((certificatesOf_append _ _) ▸ hc) with hc | hc
    · exact h.committed c hc
    · exact hsub c (by simpa [certificatesOf] using hc)

/-- The consensus sender, if there is one, is honest. -/
def HonestSender (b : BFT S V) : Prop :=
  ∀ send, b.consensusSender = some send → ConsensusSender.Honest send

/-! ### One call of `update_dag` -/

variable [StorageService S]

omit [StorageService S] in
lemma triggerConsensus_booked (hb : b.HonestSender) {send : ConsensusSender V}
    (hsend : b.consensusSender = some send) (subdag : Subdag)
    (t : IndexMap TransmissionID Transmission) :
    ∃ l, (b.triggerConsensus subdag t).2 = { b with ledger := l } ∧
      b.ledger.blocks <+: l.blocks ∧
      ((b.triggerConsensus subdag t).1 = .committed →
        ∀ c ∈ subdag.certificates, InChain l c.id) := by
  obtain ⟨hpre, hok⟩ := hb send hsend b.ledger subdag t
  have hchain : (send b.ledger subdag t).1 = .callback (.ok ()) →
      ∀ c ∈ subdag.certificates, InChain (send b.ledger subdag t).2 c.id := by
    intro hr c hc
    obtain ⟨block, hmem, hauth⟩ := hok hr
    refine ⟨c, List.mem_flatMap.mpr ⟨block, hmem, ?_⟩, rfl⟩
    rw [Block.certificates, hauth]
    exact hc
  unfold triggerConsensus
  rw [hsend]
  refine ⟨(send b.ledger subdag t).2, ?_, hpre, fun h => hchain ?_⟩
  · dsimp only
    split <;> rfl
  · dsimp only at h
    split at h
    · assumption
    all_goals cases h

variable [Network]

lemma commitLeader_booked (h : Booked b) (hb : b.HonestSender)
    (hsend : b.consensusSender ≠ none) (allow : Bool) (leader : BatchCertificate) :
    Booked (b.commitLeader allow false leader).2 ∧
      (b.commitLeader allow false leader).2.consensusSender = b.consensusSender := by
  obtain ⟨send, hsend⟩ := Option.ne_none_iff_exists'.mp hsend
  unfold commitLeader
  split
  · exact ⟨h, rfl⟩
  next subdag _ =>
  rw [if_neg Bool.false_ne_true]
  -- a block is built, or the leader is left
  have hblock : ∃ l, (b.buildBlock leader.round subdag).2 = { b with ledger := l } ∧
      b.ledger.blocks <+: l.blocks ∧ ((b.buildBlock leader.round subdag).1 = .committed →
        ∀ c ∈ subdag.certificates, InChain l c.id) := by
    have hsame : ∀ e, ∃ l, (CommitResult.failed e, b).2 = { b with ledger := l } ∧
        b.ledger.blocks <+: l.blocks ∧ ((CommitResult.failed e, b).1 = .committed →
          ∀ c ∈ subdag.certificates, InChain l c.id) := fun e =>
      ⟨b.ledger, rfl, List.prefix_rfl, fun h => by cases h⟩
    unfold buildBlock
    split
    · exact hsame _
    split
    · exact hsame _
    dsimp only
    split
    · exact hsame _
    · exact triggerConsensus_booked hb hsend subdag _
  obtain ⟨l, hsnd, hpre, hchain⟩ := hblock
  have hl : Booked { b with ledger := l } := h.congr (fun _ _ => rfl) rfl hpre
  split
  · next b₂ h₂ =>
    rw [h₂] at hsnd hchain
    obtain rfl : b₂ = { b with ledger := l } := hsnd
    exact ⟨hl.commitSubdag (hchain rfl) leader, rfl⟩
  · next r b₂ _ h₂ =>
    rw [h₂] at hsnd
    obtain rfl : b₂ = { b with ledger := l } := hsnd
    exact ⟨hl, rfl⟩

lemma commitLeaders_booked (h : Booked b) (hb : b.HonestSender)
    (hsend : b.consensusSender ≠ none) (allow : Bool) (leaders : List BatchCertificate) :
    Booked (b.commitLeaders allow false leaders).2 := by
  induction leaders generalizing b with
  | nil => exact h
  | cons leader leaders ih =>
    obtain ⟨hbooked, hsame⟩ := commitLeader_booked h hb hsend allow leader
    rw [commitLeaders]
    split
    · next b₂ h₂ =>
      rw [h₂] at hbooked hsame
      dsimp only at hsame
      exact ih hbooked (fun send hs => hb send (hsame ▸ hs)) (hsame ▸ hsend)
    · next h₂ => rw [h₂] at hbooked; exact hbooked

/-- The certificate makes the elected leader of the round below committable. -/
def Completes (b : BFT S V) (c : BatchCertificate) : Prop :=
  ∃ leader, Ready { b with dag := b.dag.insert c } c leader
    (({ b with dag := b.dag.insert c } : BFT S V).electLeader (c.round - 1)).1

/-- Consensus listens, or the certificate completes no leader. -/
def Attended (b : BFT S V) (c : BatchCertificate) : Prop :=
  b.consensusSender = none → ¬ b.Completes c

/-- **One call of `update_dag`** that is attended records what is in the ledger. -/
theorem updateDag_booked (h : Booked b) (hb : b.HonestSender) {c : BatchCertificate}
    (hc : b.Attended c) (allow : Bool) : Booked (b.updateDag allow false c).2 := by
  have hx : ∀ x, Booked (({ b with dag := b.dag.insert c } : BFT S V).withLeader x) := fun x =>
    h.congr (fun r id => DAG.isRecentlyCommitted_insert) rfl List.prefix_rfl
  obtain ⟨x, -, ⟨r, hres⟩ | ⟨leader, hready, hres⟩⟩ := updateDag_entry allow false b c
  · rw [hres]
    exact hx x
  have hsend : b.consensusSender ≠ none := fun hnone => hc hnone ⟨leader, hready⟩
  rw [hres]
  unfold commitLeaderCertificate
  obtain ⟨y, hy, -⟩ := previousLeaders_spec
    (({ b with dag := b.dag.insert c } : BFT S V).withLeader x) leader
    (leaderRounds (b.dag.insert c).lastCommittedRound leader.round)
  split
  · next b₂ he =>
    obtain rfl : b₂ = ({ b with dag := b.dag.insert c } : BFT S V).withLeader y :=
      (congrArg Prod.snd he).symm.trans hy
    exact hx y
  next previous b₂ he =>
  obtain rfl : b₂ = ({ b with dag := b.dag.insert c } : BFT S V).withLeader y :=
    (congrArg Prod.snd he).symm.trans hy
  have hloop := commitLeaders_booked (hx y) hb hsend allow (leader :: previous).reverse
  split <;> next h₂ => rw [h₂] at hloop; exact hloop.congr (fun _ _ => rfl) rfl List.prefix_rfl

/-! ### Runs of the node -/

/-- The BFT of a node that runs, is stopped and runs again. `G` holds of the calls of
`update_dag`. -/
inductive Life (G : BFT S V → BatchCertificate → Prop) : BFT S V → Prop
  /-- The first start, over any ledger. -/
  | start {account : Address} {storage : Storage S} {l : CoreLedgerService V} {now : ℤ}
      {b : BFT S V} : (BFT.new account storage l).bootup now = .ok b → Life G b
  | step {b b' : BFT S V} : Life G b → Step G b b' → Life G b'
  /-- The consensus sender is set, and from then on may change its answers. -/
  | attach {b : BFT S V} {send : ConsensusSender V} : Life G b → ConsensusSender.Honest send →
      Life G { b with consensusSender := some send }
  /-- The shutdown flag is raised. -/
  | shutDown {b : BFT S V} : Life G b →
      Life G { b with ledger := { b.ledger with shutdown := true } }
  /-- The node is started again over its chain. -/
  | reboot {account : Address} {storage : Storage S} {l : CoreLedgerService V} {now : ℤ}
      {b b' : BFT S V} : Life G b → l.blocks = b.ledger.blocks →
      (BFT.new account storage l).bootup now = .ok b' → Life G b'

lemma booked_bootup {account : Address} {storage : Storage S} {l : CoreLedgerService V} {now : ℤ}
    (h : (BFT.new account storage l).bootup now = .ok b) :
    Booked b ∧ b.consensusSender = none := by
  unfold bootup at h
  split at h
  · cases h
  next s cs hsync =>
  cases h
  refine ⟨⟨fun r id hid => ?_, ?_⟩, rfl⟩
  · rcases recent_commitAll hid with hid | ⟨c, hc, rfl⟩
    · simp [BFT.new, DAG.isRecentlyCommitted, DAG.new] at hid
    · exact ⟨c, Storage.mem_chain_of_sync hsync c hc, rfl⟩
  · intro c hc
    simp [syncBftDagAtBootup, BFT.new, certificatesOf] at hc

/-- **One step** that is attended. -/
theorem Booked.step (h : Booked b) (hb : b.HonestSender) (hs : Step Attended b b') :
    Booked b' ∧ b'.HonestSender := by
  cases hs with
  | insertCertificate => exact ⟨h.congr (fun _ _ => rfl) rfl List.prefix_rfl, hb⟩
  | incrementToNextRound => exact ⟨h.congr (fun _ _ => rfl) rfl List.prefix_rfl, hb⟩
  | updateToNextRound now round =>
    obtain ⟨x, lc, t, s, -, hres⟩ := updateToNextRound_keeps b now round
    rw [hres]
    exact ⟨h.congr (fun _ _ => rfl) rfl List.prefix_rfl, hb⟩
  | updateDag c hc =>
    refine ⟨updateDag_booked h hb hc true, ?_⟩
    obtain ⟨dag, l, log, s, -, hres⟩ := updateDag_keeps true false b c
    rw [hres]
    exact hb

/-- **What is recorded as committed is in the ledger**, in every state of a run in which no
certificate completes a leader while consensus is not listening. -/
theorem recorded_in_ledger (b : BFT S V) (hlife : Life Attended b) : Booked b := by
  suffices h : Booked b ∧ b.HonestSender from h.1
  have hnone : ∀ {b : BFT S V}, b.consensusSender = none → b.HonestSender := by
    intro b hb send hsend
    rw [hb] at hsend
    cases hsend
  induction hlife with
  | start hboot => exact (booked_bootup hboot).imp_right hnone
  | step _ hs ih => exact ih.1.step ih.2 hs
  | attach _ hsend ih =>
    refine ⟨ih.1.congr (fun _ _ => rfl) rfl List.prefix_rfl, fun s hs => ?_⟩
    cases hs
    exact hsend
  | shutDown _ ih => exact ⟨ih.1.congr (fun _ _ => rfl) rfl List.prefix_rfl, ih.2⟩
  | reboot _ _ hboot => exact (booked_bootup hboot).imp_right hnone

end BFT

/-! ### Runs of the primary -/

namespace Primary

open BFT

variable {S V : Type} [StorageService S] [Network] [Ledger V]

lemma Moves.life {p p' : Primary S V} (h : p.Moves p') (hp : Life (fun _ _ => True) p.bft) :
    Life (fun _ _ => True) p'.bft := by
  unfold Moves at h
  generalize p'.bft = b' at h ⊢
  induction h with
  | refl => exact hp
  | tail _ hs ih => exact ih.step hs

lemma Starts.life {E : Surroundings V} (hE : ∀ send, E.sender send → send.Honest)
    {account : Address} {transmissions : S} {l : CoreLedgerService V}
    {cache : Option ProposalCache} {r : Except Stop Unit} {p : Primary S V}
    (h : Starts E account transmissions l cache r p)
    (hlife : ∀ (storage : Storage S) (now : ℤ) (b : BFT S V),
      (BFT.new account storage l).bootup now = .ok b → Life (fun _ _ => True) b) :
    Life (fun _ _ => True) p.bft := by
  obtain ⟨committee, g, keepState, now, envs, send, b, -, hboot, -, hsend, hrun⟩ := h
  have hb := hlife _ _ _ hboot
  obtain ⟨r', q, hload, hcases⟩ := runBft_cases
    (p := new account (Storage.new committee transmissions g) keepState l) hboot envs cache send
  have hmoves := moves_loadProposalCache envs cache
    { new account (Storage.new committee transmissions g) keepState l with
      bftSender := true, bft := b }
  rw [hload] at hmoves
  rcases hcases with ⟨stop, -, hcases⟩ | ⟨-, hcases⟩ <;> rw [hrun] at hcases <;> cases hcases
  · exact hmoves.life hb
  · exact (hmoves.life hb).attach (hE send hsend)

/-- **A node lives such a life.** -/
theorem Lived.life {E : Surroundings V} (hE : ∀ send, E.sender send → send.Honest)
    {cache : Option ProposalCache} {p : Primary S V} (h : Lived E cache p) :
    Life (fun _ _ => True) p.bft := by
  induction h with
  | start h => exact h.life hE fun _ _ _ hboot => .start hboot
  | propose env _ _ ih => exact (moves_proposeBatch env _).life ih
  | increment env _ _ ih => exact (moves_incrementTask env _).life ih
  | submit ready _ ih => exact ih
  | flag _ ih => exact ih.shutDown
  | @shutDown cache p _ ih =>
    unfold Primary.shutDown
    split <;> exact ih
  | reboot _ hblocks h ih => exact h.life hE fun _ _ _ hboot => ih.reboot hblocks hboot

end Primary

/-! ### Two runs -/

section Example

open BFT Primary

/-- The certificates up to a committed leader, sent to a node that is up. -/
def attendedRun (n : ℕ) : BFT BFTMemoryService Chain :=
  let _ := developmentNetwork
  (exampleCertificates.take n).foldl (fun b c => (b.updateDag true false c).2)
    { bootedBft (developmentLedger [genesis]) with consensusSender := some processBftSubdag }

theorem recorded_in_ledger_example :
    (attendedRun 6).committed.length = 1 ∧ Booked (attendedRun 6) := by
  let _ := developmentNetwork
  refine ⟨by decide +kernel, recorded_in_ledger _ ?_⟩
  have hboot : (newNode (developmentLedger [genesis])).bft.bootup 0
      = .ok (bootedBft (developmentLedger [genesis])) := by
    obtain ⟨b, hb⟩ := exists_of_isOk (e := (newNode (developmentLedger [genesis])).bft.bootup 0)
      (by decide +kernel)
    unfold bootedBft
    dsimp only
    rw [hb]
  have hlife : ∀ (cs : List BatchCertificate) (b : BFT BFTMemoryService Chain),
      b.consensusSender ≠ none → Life Attended b →
      Life Attended (cs.foldl (fun b c => (b.updateDag true false c).2) b) := by
    intro cs
    induction cs with
    | nil => exact fun b _ h => h
    | cons c cs ih =>
      intro b hsend h
      obtain ⟨dag, l, log, s, -, hres⟩ := updateDag_keeps true false b c
      refine ih _ ?_ (h.step (.updateDag b c fun hnone => absurd hnone hsend))
      intro hnone
      dsimp only at hnone
      rw [hres] at hnone
      exact hsend hnone
  exact hlife _ _ (by simp) ((Life.start hboot).attach processBftSubdag_faithful.honest)

/-- A node that is asked to shut down before its first leader is committed. -/
def stoppedNode : Primary BFTMemoryService Chain :=
  proposedNode 5 (shuttingDown (proposedNode 4 (proposedNode 3 (proposedNode 2 (proposedNode 1
    (startedNode (developmentLedger [genesis]) none 1).2)))))

/-- The same node after a restart. -/
def restartedNode : Primary BFTMemoryService Chain :=
  (startedNode ⟨stoppedNode.ledger.ledger, none, false⟩ stoppedNode.shutDown.1 6).2

lemma restartedNode_lived :
    let _ := developmentNetwork
    ∃ cache, Lived (anySurroundings Chain) cache restartedNode := by
  let _ := developmentNetwork
  have hsender : (anySurroundings Chain).sender processBftSubdag := processBftSubdag_faithful
  have hstart : Lived (anySurroundings Chain) none
      (startedNode (developmentLedger [genesis]) none 1).2 :=
    .start (startedNode_starts trivial hsender (by decide +kernel) none)
  have hstopped : Lived (anySurroundings Chain) none stoppedNode :=
    lived_proposedNode trivial (lived_shuttingDown (lived_proposedNode trivial
      (lived_proposedNode trivial (lived_proposedNode trivial (lived_proposedNode trivial
        hstart)))))
  have haccount : stoppedNode.account = developmentAccount 0 := by decide +kernel
  have hboot : ((newNode ⟨stoppedNode.ledger.ledger, none, false⟩).bft.bootup 60).isOk = true := by
    decide +kernel
  have hload : (anySurroundings Chain).load (loads 6) := trivial
  have hrestart := lived_restart hload hsender haccount hboot hstopped
  rw [Option.or_none] at hrestart
  exact ⟨_, hrestart⟩

/-- The first leader is recorded as committed by the load of the proposal cache, without a
block. -/
theorem leader_lost :
    let _ := developmentNetwork
    (∃ cache, Lived (anySurroundings Chain) cache restartedNode) ∧
      restartedNode.bft.dag.isRecentlyCommitted 2 ⟨30⟩ = true ∧
      ¬ InChain restartedNode.ledger ⟨30⟩ := by
  let _ := developmentNetwork
  refine ⟨restartedNode_lived, by decide +kernel, ?_⟩
  have hnone : ∀ c ∈ chainCertificates restartedNode.ledger.blocks, c.id ≠ ⟨30⟩ := by
    decide +kernel
  rintro ⟨c, hc, hid⟩
  exact hnone c hc hid

end Example

end AmareleoChain
