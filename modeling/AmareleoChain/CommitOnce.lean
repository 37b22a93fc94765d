import AmareleoChain.Commit
import AmareleoChain.Development

/-!
Every certificate is committed at most once, and commits leave no gaps.

The runs are arbitrary: any certificates in any order, any storage of certificates of the
universe, and any consensus channel that does what it reports. What carries the result is
that the recently committed identifiers of the DAG are exactly those of the certificates
committed so far, above the garbage collection horizon.
-/

namespace AmareleoChain

open Std

namespace BFT

variable {S V : Type}

/-! ### Runs -/

/-- A call of `update_dag`, and what it finds: the storage, the ledger and the consensus sender
at that moment. -/
structure Call (S V : Type) where
  allowLedgerAccess : Bool
  isSyncing : Bool
  certificate : BatchCertificate
  storage : Storage S
  ledger : CoreLedgerService V
  consensusSender : Option (ConsensusSender V)

/-- What the call finds, before it is made. -/
def meet (b : BFT S V) (e : Call S V) : BFT S V :=
  { b with storage := e.storage, ledger := e.ledger, consensusSender := e.consensusSender }

def call [Ledger V] [StorageService S] [Network] (b : BFT S V) (e : Call S V) : BFT S V :=
  ((b.meet e).updateDag e.allowLedgerAccess e.isSyncing e.certificate).2

/-- The certificate and the storage are of the universe, the chain has not shrunk, and the
consensus channel does what it reports. -/
structure Circumstances [Ledger V] (U : Universe) (g : ℕ) (b : BFT S V) (e : Call S V) :
    Prop where
  certificate : U.Has e.certificate
  storage : ∀ {id : Field} {c : BatchCertificate}, e.storage.certificates[id]? = some c →
    U.cert id = some c
  maxGcRounds : e.storage.maxGcRounds = g
  chain : b.ledger.blocks <+: e.ledger.blocks
  sender : (b.meet e).FaithfulSender

/-- What calls of `update_dag` make of `b₀`. -/
inductive Run [Ledger V] [StorageService S] [Network] (U : Universe) (g : ℕ) (b₀ : BFT S V) :
    BFT S V → Prop
  | start : Run U g b₀ b₀
  | call {b : BFT S V} (e : Call S V) :
      Run U g b₀ b → Circumstances U g b e → Run U g b₀ (b.call e)

/-! ### The history of commits -/

/-- The certificates of some committed subdags. -/
def certificatesOf (log : List (BatchCertificate × Subdag)) : List BatchCertificate :=
  log.flatMap fun e => e.2.certificates

@[simp] lemma certificatesOf_append (log log' : List (BatchCertificate × Subdag)) :
    certificatesOf (log ++ log') = certificatesOf log ++ certificatesOf log' := by
  simp [certificatesOf]

/-- The round of the last committed leader, and `boot` before there is one. -/
def roundAfter (boot : ℕ) (log : List (BatchCertificate × Subdag)) : ℕ :=
  (log.getLast?.map fun e => e.1.round).getD boot

@[simp] lemma roundAfter_append_singleton (boot : ℕ) (log : List (BatchCertificate × Subdag))
    (e : BatchCertificate × Subdag) : roundAfter boot (log ++ [e]) = e.1.round := by
  simp [roundAfter]

/-- Every previous certificate above the horizon of a commit is in the commits so far, or in
the given others. -/
def Gapless (g boot : ℕ) (others : Field → Prop) (log : List (BatchCertificate × Subdag)) :
    Prop :=
  ∀ pre e post, log = pre ++ e :: post → ∀ c ∈ e.2.certificates,
    ∀ id ∈ c.previousCertificateIds, roundAfter boot pre < c.round - 1 + g →
      (∃ p ∈ certificatesOf (pre ++ [e]), p.id = id) ∨ others id

/-- The identifiers in a chain. -/
def InChain [Ledger V] (l : CoreLedgerService V) (id : Field) : Prop :=
  ∃ p ∈ chainCertificates l.blocks, p.id = id

lemma InChain.mono [Ledger V] {l l' : CoreLedgerService V} {id : Field}
    (h : l.blocks <+: l'.blocks) : InChain l id → InChain l' id := by
  rintro ⟨p, hp, hid⟩
  obtain ⟨bs, hbs⟩ := h
  refine ⟨p, ?_, hid⟩
  rw [← hbs, chainCertificates_append]
  exact List.mem_append_left _ hp

/-- The invariant of runs that start with the certificates `boot` committed. -/
structure Once [Ledger V] (U : Universe) (g : ℕ) (boot : List BatchCertificate) (bootRound : ℕ)
    (b : BFT S V) : Prop where
  wellFormed : b.dag.WellFormed
  graph : ∀ {r : ℕ} {a : Address} {c : BatchCertificate},
    b.dag.getCertificateForRoundWithAuthor r a = some c → U.Has c
  recents : b.dag.Recents g (boot ++ certificatesOf b.committed)
  known : ∀ c ∈ boot ++ certificatesOf b.committed,
    U.Has c ∧ c.round ≤ b.dag.lastCommittedRound
  round : b.dag.lastCommittedRound = roundAfter bootRound b.committed
  nodup : ((certificatesOf b.committed).map BatchCertificate.id).Nodup
  bootChain : ∀ c ∈ boot, InChain b.ledger c.id
  gapless : Gapless g bootRound (InChain b.ledger) b.committed

variable [Ledger V] {U : Universe} {g bootRound : ℕ} {boot : List BatchCertificate}
  {b b' : BFT S V} {allow isSyncing : Bool}

lemma Gapless.mono {others others' : Field → Prop} {log : List (BatchCertificate × Subdag)}
    (h : Gapless g bootRound others log) (ho : ∀ id, others id → others' id) :
    Gapless g bootRound others' log := fun pre e post hlog c hc id hid hr =>
  (h pre e post hlog c hc id hid hr).imp_right (ho id)

lemma Once.congr (h : Once U g boot bootRound b) (hdag : b'.dag = b.dag)
    (hlog : b'.committed = b.committed) (hchain : b.ledger.blocks <+: b'.ledger.blocks) :
    Once U g boot bootRound b' where
  wellFormed := hdag ▸ h.wellFormed
  graph := by rw [hdag]; exact h.graph
  recents := by rw [hdag, hlog]; exact h.recents
  known := by rw [hdag, hlog]; exact h.known
  round := by rw [hdag, hlog]; exact h.round
  nodup := hlog ▸ h.nodup
  bootChain := fun c hc => (h.bootChain c hc).mono hchain
  gapless := by rw [hlog]; exact h.gapless.mono fun _ => InChain.mono hchain

lemma Once.insert (h : Once U g boot bootRound b) {c : BatchCertificate} (hc : U.Has c) :
    Once U g boot bootRound { b with dag := b.dag.insert c } where
  wellFormed := h.wellFormed.insert c
  graph := by
    intro r a d hd
    dsimp only at hd
    cases hrec : b.dag.isRecentlyCommitted c.round c.id with
    | true => rw [DAG.insert, if_pos hrec] at hd; exact h.graph hd
    | false =>
      rw [DAG.getCertificateForRoundWithAuthor_insert hrec] at hd
      split at hd
      · cases hd; exact hc
      · exact h.graph hd
  recents := h.recents.insert c
  known := by simpa using h.known
  round := by simpa using h.round
  nodup := h.nodup
  bootChain := h.bootChain
  gapless := h.gapless

/-! ### One commit -/

lemma gapless_snoc {others : Field → Prop} {log : List (BatchCertificate × Subdag)}
    {e : BatchCertificate × Subdag} (h : Gapless g bootRound others log)
    (he : ∀ c ∈ e.2.certificates, ∀ id ∈ c.previousCertificateIds,
      roundAfter bootRound log < c.round - 1 + g →
        (∃ p ∈ certificatesOf (log ++ [e]), p.id = id) ∨ others id) :
    Gapless g bootRound others (log ++ [e]) := by
  intro pre f post hlog
  rcases List.eq_nil_or_concat post with rfl | ⟨post', z, rfl⟩
  · obtain ⟨rfl, hf⟩ := List.append_inj' hlog rfl
    cases hf
    exact he
  · rw [List.concat_eq_append, ← List.cons_append, ← List.append_assoc] at hlog
    obtain ⟨rfl, -⟩ := List.append_inj' hlog rfl
    exact h pre f post' rfl

/-- **One commit** keeps the invariant: its certificates were not committed before, and what it
leaves out was. -/
theorem Once.commitSubdag [LawfulLedger V] (h : Once U g boot bootRound b)
    (hstorage : ∀ {id : Field} {c : BatchCertificate}, b.storage.certificates[id]? = some c →
      U.cert id = some c) (hg : b.storage.maxGcRounds = g) {leader : BatchCertificate}
    (hleader : U.Has leader) (habove : b.dag.lastCommittedRound < leader.round)
    {subdag : Subdag} (hsub : b.orderDagWithDfs allow leader = .ok subdag)
    {l : CoreLedgerService V} (hl : b.Advanced isSyncing subdag l) :
    Once U g boot bootRound (({ b with ledger := l }).commitSubdag leader subdag) ∧
      (({ b with ledger := l }).commitSubdag leader subdag).dag.lastCommittedRound
        = leader.round := by
  subst hg
  have hwithin : b.Within U := ⟨h.wellFormed, h.graph, hstorage⟩
  obtain ⟨hnd, hmem, hall, hclosed⟩ := orderDagWithDfs_spec hwithin hleader habove hsub
  have hchain : b.ledger.blocks <+: l.blocks := by
    obtain ⟨-, ⟨-, rfl⟩ | ⟨block, -, hblocks⟩⟩ := hl
    · exact List.prefix_rfl
    · exact hblocks ▸ List.prefix_append _ _
  have hround : (b.dag.commitAll subdag.certificates
      b.storage.maxGcRounds).lastCommittedRound = leader.round :=
    Nat.le_antisymm (DAG.lastCommittedRound_commitAll_le habove.le fun c hc => (hall c hc).2.1)
      (DAG.round_le_lastCommittedRound_commitAll hmem)
  have hcommitted : certificatesOf (b.committed ++ [(leader, subdag)])
      = certificatesOf b.committed ++ subdag.certificates := by simp [certificatesOf]
  refine ⟨⟨h.wellFormed.commitAll _ _, ?_, ?_, ?_, ?_, ?_, ?_, ?_⟩, hround⟩
  · exact fun hd => h.graph (DAG.getCertificateForRoundWithAuthor_of_commitAll hd)
  · dsimp only [BFT.commitSubdag]
    rw [hcommitted, ← List.append_assoc]
    exact h.recents.commitAll subdag.certificates
  · dsimp only [BFT.commitSubdag]
    rw [hcommitted, ← List.append_assoc, hround]
    intro c hc
    rcases List.mem_append.mp hc with hc | hc
    · exact ⟨(h.known c hc).1, (h.known c hc).2.trans habove.le⟩
    · exact ⟨(hall c hc).1, (hall c hc).2.1⟩
  · dsimp only [BFT.commitSubdag]
    rw [roundAfter_append_singleton]; exact hround
  · dsimp only [BFT.commitSubdag]
    rw [hcommitted, List.map_append, List.nodup_append]
    refine ⟨h.nodup, hnd, ?_⟩
    rintro _ hx _ hy rfl
    obtain ⟨d, hd, hdid⟩ := List.mem_map.mp hx
    obtain ⟨c, hc, hcid⟩ := List.mem_map.mp hy
    obtain ⟨hhas, -, hfresh⟩ := hall c hc
    have hdk := h.known d (List.mem_append_right _ hd)
    obtain rfl := hhas.eq_of_id hdk.1 (hcid.trans hdid.symm)
    -- the leader is of a new round, and the others are not recently committed
    rcases hfresh with rfl | ⟨hr, hfresh, -⟩
    · exact absurd hdk.2 (by omega)
    · have hrec := (h.recents c.round c.id).mpr
        ⟨⟨c, List.mem_append_right _ hd, rfl, rfl⟩, hr⟩
      rw [hfresh] at hrec
      cases hrec
  · exact fun c hc => (h.bootChain c hc).mono hchain
  · dsimp only [BFT.commitSubdag]
    refine gapless_snoc (h.gapless.mono fun _ => InChain.mono hchain) fun c hc id hid hr => ?_
    rw [← h.round] at hr
    rcases hclosed c hc id hid hr with ⟨p, hp, hpid⟩ | hstale
    · exact .inl ⟨p, by rw [hcommitted]; exact List.mem_append_right _ hp, hpid⟩
    · by_cases hrec : b.dag.isRecentlyCommitted (c.round - 1) id = true
      · obtain ⟨⟨p, hp, -, hpid⟩, -⟩ := (h.recents _ _).mp hrec
        rcases List.mem_append.mp hp with hp | hp
        · exact .inr (hpid ▸ (h.bootChain p hp).mono hchain)
        · exact .inl ⟨p, by rw [hcommitted]; exact List.mem_append_left _ hp, hpid⟩
      · have hled : b.ledger.containsCertificate id = .ok true := by
          by_contra hled
          exact hstale ⟨by simpa using hrec, fun _ => hled⟩
        exact .inr (InChain.mono hchain ((LawfulLedger.containsCertificate_ok hled).mp rfl))

/-- **A chunk of commits** keeps the invariant. -/
theorem Once.commits [LawfulLedger V] {leaders : List BatchCertificate}
    (hc : Commits allow isSyncing b leaders b') (h : Once U g boot bootRound b)
    (hstorage : ∀ {id : Field} {c : BatchCertificate}, b.storage.certificates[id]? = some c →
      U.cert id = some c) (hg : b.storage.maxGcRounds = g)
    (hleaders : ∀ c ∈ leaders, U.Has c ∧ b.dag.lastCommittedRound < c.round)
    (hpair : leaders.Pairwise fun p q => p.round < q.round) :
    Once U g boot bootRound b' ∧ b.dag.lastCommittedRound ≤ b'.dag.lastCommittedRound ∧
      b.ledger.blocks <+: b'.ledger.blocks := by
  induction hc with
  | nil => exact ⟨h, Nat.le_refl _, List.prefix_rfl⟩
  | @cons b b' leader leaders subdag l hsub hl hrest ih =>
    rw [List.forall_mem_cons] at hleaders
    rw [List.pairwise_cons] at hpair
    obtain ⟨hone, hround⟩ := h.commitSubdag hstorage hg hleaders.1.1 hleaders.1.2 hsub hl
    obtain ⟨hb', hle, hpre⟩ := ih hone hstorage hg (fun c hc => ⟨(hleaders.2 c hc).1, by
      rw [hround]; exact hpair.1 c hc⟩) hpair.2
    refine ⟨hb', ?_, List.IsPrefix.trans ?_ hpre⟩
    · rw [hround] at hle
      exact hleaders.1.2.le.trans hle
    · obtain ⟨-, ⟨-, rfl⟩ | ⟨block, -, hblocks⟩⟩ := hl
      · exact List.prefix_rfl
      · exact hblocks ▸ List.prefix_append _ _

section Calls

variable [StorageService S] [Network]

/-- **One call of `update_dag`** keeps the invariant, and does not lower the last committed
round. -/
theorem Once.call [LawfulLedger V] (h : Once U g boot bootRound b) {e : Call S V}
    (he : Circumstances U g b e) :
    Once U g boot bootRound (b.call e) ∧
      b.dag.lastCommittedRound ≤ (b.call e).dag.lastCommittedRound := by
  have hmet : Once U g boot bootRound (b.meet e) := h.congr rfl rfl he.chain
  have hins := hmet.insert he.certificate
  rcases updateDag_cases e.allowLedgerAccess e.isSyncing he.sender e.certificate with
    ⟨l, hq, hres⟩ | ⟨leader, author, l₀, due, done, rest, b₂, l, -, -, hready, hdue, hsplit,
      ⟨l₁, hq₁, hcommits⟩, hq, hres⟩
  · rw [BFT.call, hres]
    exact ⟨hins.congr rfl rfl (hq.1 ▸ List.prefix_rfl), by simp [meet]⟩
  · -- the leaders committed are of the universe and above the last committed round
    have hround := (hins.wellFormed.keyed hready.found).1
    have habove := hround ▸ hready.above
    obtain ⟨hpair, hmem⟩ := hdue.ascending (by exact hins.wellFormed) habove
    have hleader := hins.graph hready.found
    have hdone : ∀ p ∈ done, U.Has p ∧ (b.meet e).dag.lastCommittedRound < p.round := by
      intro p hp
      obtain ⟨hr, hp⟩ := hmem p (hsplit ▸ List.mem_append_left _ hp)
      rw [DAG.lastCommittedRound_insert] at hr
      refine ⟨?_, hr⟩
      rcases hp with rfl | ⟨r, a, ha⟩
      · exact hleader
      · exact hins.graph ha
    have hstart : Once U g boot bootRound
        { b.meet e with dag := (b.meet e).dag.insert e.certificate, ledger := l₁ } :=
      hins.congr rfl rfl (hq₁.1 ▸ List.prefix_rfl)
    obtain ⟨hb₂, hle, -⟩ := hstart.commits hcommits he.storage he.maxGcRounds
      (by simpa using hdone) (hpair.sublist (hsplit ▸ List.sublist_append_left _ _))
    have hfinal : ∀ s, Once U g boot bootRound { b₂ with ledger := l, storage := s } ∧
        b.dag.lastCommittedRound ≤ b₂.dag.lastCommittedRound := fun s =>
      ⟨hb₂.congr rfl rfl (hq.1 ▸ List.prefix_rfl), by simpa [meet] using hle⟩
    rw [BFT.call]
    rcases hres with hres | ⟨-, hres⟩ <;> rw [hres]
    · exact hfinal b₂.storage
    · exact hfinal _

omit [StorageService S] [Network] in
lemma once_boot (hb : b.dag = DAG.new) (hlog : b.committed = [])
    (hg : b.storage.maxGcRounds = g) (hU : ∀ c ∈ boot, U.Has c)
    (hboot : ∀ c ∈ boot, InChain b.ledger c.id) :
    Once U g boot (b.syncBftDagAtBootup boot).dag.lastCommittedRound
      (b.syncBftDagAtBootup boot) where
  wellFormed := by
    dsimp only [syncBftDagAtBootup]
    rw [hb]; exact DAG.wellFormed_new.commitAll _ _
  graph := by
    intro r a c hc
    have hnew := DAG.getCertificateForRoundWithAuthor_of_commitAll hc
    rw [hb] at hnew
    simp [DAG.getCertificateForRoundWithAuthor, DAG.new] at hnew
  recents := by
    dsimp only [syncBftDagAtBootup]
    rw [hlog, hb, hg]
    simpa [certificatesOf] using DAG.recents_new.commitAll boot
  known := by
    dsimp only [syncBftDagAtBootup]
    rw [hlog]
    simpa [certificatesOf] using fun c hc =>
      ⟨hU c hc, DAG.round_le_lastCommittedRound_commitAll hc⟩
  round := by simp [syncBftDagAtBootup, hlog, roundAfter]
  nodup := by simp [syncBftDagAtBootup, hlog, certificatesOf]
  bootChain := hboot
  gapless := by
    intro pre e post h
    simp [syncBftDagAtBootup, hlog] at h

lemma once_run [LawfulLedger V] {b₀ : BFT S V} (h₀ : Once U g boot bootRound b₀)
    (hrun : Run U g b₀ b) : Once U g boot bootRound b := by
  induction hrun with
  | start => exact h₀
  | call e _ he ih => exact (ih.call he).1

/-- **Every certificate is committed at most once, and commits leave no gaps.** -/
theorem committed_once [LawfulLedger V] (U : Universe) (g : ℕ) (boot : List BatchCertificate)
    (b₀ b : BFT S V) (hdag : b₀.dag = DAG.new) (hlog : b₀.committed = [])
    (hg : b₀.storage.maxGcRounds = g) (hU : ∀ c ∈ boot, U.Has c)
    (hboot : ∀ c ∈ boot, InChain b₀.ledger c.id)
    (hrun : Run U g (b₀.syncBftDagAtBootup boot) b) :
    ((certificatesOf b.committed).map BatchCertificate.id).Nodup ∧
    (∀ e : Call S V, Circumstances U g b e →
      b.dag.lastCommittedRound ≤ (b.call e).dag.lastCommittedRound) ∧
    b.dag.lastCommittedRound
      = roundAfter (b₀.syncBftDagAtBootup boot).dag.lastCommittedRound b.committed ∧
    Gapless g (b₀.syncBftDagAtBootup boot).dag.lastCommittedRound (InChain b.ledger)
      b.committed := by
  have h := once_run (once_boot hdag hlog hg hU hboot) hrun
  exact ⟨h.nodup, fun e he => (h.call he).2, h.round, h.gapless⟩

end Calls

section Example

/-- Round 1, the leader of round 2, and two certificates of round 3 that include it. -/
def exampleCertificates : List BatchCertificate :=
  [developmentCertificate 10 0 1 [], developmentCertificate 11 1 1 [],
   developmentCertificate 12 2 1 [], developmentCertificate 20 0 2 [10, 11, 12],
   developmentCertificate 31 1 3 [20], developmentCertificate 32 2 3 [20]]

def exampleUniverse : Universe := Universe.ofList exampleCertificates (by decide +kernel)

/-- A storage that holds them. -/
def exampleStorage : Storage BFTMemoryService :=
  { Storage.new developmentCommittee BFTMemoryService.empty 100 with
    certificates := exampleCertificates.foldl (fun m c => m.insert c.id c) ∅ }

def exampleBft : BFT BFTMemoryService Chain where
  account := developmentAccount 0
  storage := exampleStorage
  ledger := developmentLedger []
  dag := DAG.new
  leaderCertificate := none
  leaderCertificateTimer := 0
  consensusSender := some processBftSubdag
  committed := []

def exampleCall (c : BatchCertificate) : Call BFTMemoryService Chain :=
  ⟨true, false, c, exampleStorage, developmentLedger [], some processBftSubdag⟩

def exampleRun (cs : List BatchCertificate) : BFT BFTMemoryService Chain :=
  cs.foldl (fun b c => @BFT.call _ _ _ _ developmentNetwork b (exampleCall c))
    (exampleBft.syncBftDagAtBootup [])

lemma exampleStorage_in {id : Field} {c : BatchCertificate}
    (h : exampleStorage.certificates[id]? = some c) : exampleUniverse.cert id = some c := by
  have hmem : (id, c) ∈ exampleStorage.certificates.toList :=
    ExtTreeMap.mem_toList_iff_getElem?_eq_some.mpr h
  have hall : ∀ e ∈ exampleStorage.certificates.toList, exampleUniverse.cert e.1 = some e.2 := by
    decide +kernel
  exact hall _ hmem

lemma example_circumstances {b : BFT BFTMemoryService Chain} (hb : b.ledger.blocks.isEmpty)
    {c : BatchCertificate} (hc : exampleUniverse.cert c.id = some c) :
    Circumstances exampleUniverse 100 b (exampleCall c) where
  certificate := hc
  storage := exampleStorage_in
  maxGcRounds := rfl
  chain := by rw [List.isEmpty_iff.mp hb]; exact List.nil_prefix
  sender := by
    intro send hsend
    cases hsend
    exact processBftSubdag_faithful

theorem committed_once_example :
    (exampleRun (exampleCertificates.drop 3)).committed.length = 1 ∧
      ((certificatesOf (exampleRun (exampleCertificates.drop 3)).committed).map
        BatchCertificate.id).Nodup := by
  refine ⟨by decide +kernel, ?_⟩
  let _ := developmentNetwork
  have hrun : Run exampleUniverse 100 (exampleBft.syncBftDagAtBootup [])
      (exampleRun (exampleCertificates.drop 3)) := by
    refine .call (exampleCall (developmentCertificate 32 2 3 [20]))
      (.call (exampleCall (developmentCertificate 31 1 3 [20]))
        (.call (exampleCall (developmentCertificate 20 0 2 [10, 11, 12])) .start ?_) ?_) ?_ <;>
      exact example_circumstances (by decide +kernel) (by decide +kernel)
  exact (committed_once exampleUniverse 100 [] exampleBft _ rfl rfl (by decide +kernel)
    (by simp) (by simp) hrun).1

end Example

end BFT

end AmareleoChain
