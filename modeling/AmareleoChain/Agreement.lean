import AmareleoChain.Consistency

/-!
Agreement of the commit rule.

Two runs on one account may deliver different certificates, in different orders, and consensus
may refuse any of their leaders; still the sequences of leaders and ordered subdags they
commit are one a prefix of the other. The leaders agree because a leader is committed only in
the chain of an anchor, and the subdags because each is determined by those before it.
-/

namespace AmareleoChain

open Std

/-- Each subdag of the log is the history of its leader that the entries before leave
uncommitted. -/
def Universe.Replayed (U : Universe) (g : ℕ) (log : List (BatchCertificate × Subdag)) : Prop :=
  ∀ pre e post, log = pre ++ e :: post →
    U.Orders g (BFT.roundAfter 0 pre) (BFT.certificatesOf pre) e.1 e.2

namespace Universe

variable {U : Universe} {g : ℕ} {log log' : List (BatchCertificate × Subdag)}

lemma Replayed.snoc {e : BatchCertificate × Subdag} (h : U.Replayed g log)
    (he : U.Orders g (BFT.roundAfter 0 log) (BFT.certificatesOf log) e.1 e.2) :
    U.Replayed g (log ++ [e]) := by
  intro pre f post hlog
  rcases List.eq_nil_or_concat post with rfl | ⟨post', z, rfl⟩
  · obtain ⟨rfl, hf⟩ := List.append_inj' hlog rfl
    cases hf
    exact he
  · rw [List.concat_eq_append, ← List.cons_append, ← List.append_assoc] at hlog
    obtain ⟨rfl, -⟩ := List.append_inj' hlog rfl
    exact h pre f post' rfl

lemma Replayed.of_append {tail : List (BatchCertificate × Subdag)}
    (h : U.Replayed g (log ++ tail)) : U.Replayed g log := by
  intro pre e post hlog
  exact h pre e (post ++ tail) (by rw [hlog]; simp)

/-- A replayed log is determined by its leaders. -/
theorem Replayed.prefix_of_leaders (h : U.Replayed g log) (h' : U.Replayed g log')
    (hl : log.map Prod.fst <+: log'.map Prod.fst) : log <+: log' := by
  induction log using List.reverseRecOn with
  | nil => exact List.nil_prefix
  | append_singleton log e ih =>
    rw [List.map_append] at hl
    obtain ⟨tail, rfl⟩ := ih h.of_append ((List.prefix_append _ _).trans hl)
    rw [List.map_append, List.prefix_append_right_inj] at hl
    obtain ⟨f, tail', rfl⟩ : ∃ f tail', tail = f :: tail' := by
      cases tail with
      | nil => simp at hl
      | cons f tail' => exact ⟨f, tail', rfl⟩
    have hfst : e.1 = f.1 := by simpa using hl
    -- the same leader after the same log has the same subdag
    have he := h log e [] rfl
    have hf := h' log f tail' rfl
    rw [hfst] at he
    have hsnd := he.unique hf
    obtain rfl : e = f := Prod.ext hfst hsnd
    exact ⟨tail', by simp⟩

end Universe

namespace BFT

variable {S V : Type} [Ledger V] {U : Universe} {committee : ℕ → Committee} {g : ℕ}
  {account : Address} {b b' : BFT S V}

open Classical in
/-- The invariant of a run from an empty DAG and an empty storage. -/
structure Agreed (U : Universe) (committee : ℕ → Committee) (g : ℕ) (account : Address)
    (b : BFT S V) : Prop where
  consistent : Consistent U committee g [] 0 b
  owner : b.account = account
  grown : LeaderChain.Grown (U.leaderAt account) U.Path (b.committed.map Prod.fst)
    (b.dag.lastCommittedRound / 2)
  replayed : U.Replayed g b.committed

namespace Consistent

variable {bootRound : ℕ} {boot : List BatchCertificate}

lemma supported (h : Consistent U committee g boot bootRound b) {leader : BatchCertificate}
    (he : Elected committee b leader) : U.Supported committee leader := by
  obtain ⟨authors, havail, hall⟩ := he.backed
  refine ⟨authors, havail, fun a ha => ?_⟩
  obtain ⟨c, hc, hrest⟩ := hall a ha
  exact ⟨c, h.has hc, hrest⟩

end Consistent

open Classical in
/-- **A chunk of commits** from the front of the chain of an anchor keeps the invariant. -/
theorem Agreed.commits [LawfulLedger V] (hU : U.Lawful committee)
    {done rest : List BatchCertificate} (hc : Commits true false b done b') {n : ℕ}
    {e : BatchCertificate} (he : LeaderChain.Anchor (U.leaderAt account) U.Path n e)
    (h : Agreed U committee g account b)
    (hdone : done = [] ∨ (b.dag.lastCommittedRound / 2 < n ∧ done ++ rest
      = LeaderChain.chain (U.leaderAt account) U.Path (b.dag.lastCommittedRound / 2) n e)) :
    Agreed U committee g account b' ∧
      ∀ x, done.getLast? = some x → b'.dag.lastCommittedRound = x.round := by
  induction hc with
  | nil => exact ⟨h, by simp⟩
  | @cons b b' x done subdag l hsub hl hrest ih =>
    obtain ⟨hlt, hchain⟩ := hdone.resolve_left (by simp)
    -- the leader is the one of a slot above the last
    have hmem : x ∈ LeaderChain.chain (U.leaderAt account) U.Path
        (b.dag.lastCommittedRound / 2) n e := hchain ▸ by simp
    obtain ⟨s, hs⟩ : ∃ s, U.leaderAt account s = some x := by
      rcases LeaderChain.mem_chain hmem with rfl | ⟨s, -, -, hs⟩
      · exact ⟨n, he.1⟩
      · exact ⟨s, hs⟩
    obtain ⟨hlow, -, htail⟩ := LeaderChain.chain_tail Universe.leaderAt_injective he.1 hs hlt
      hchain.symm
    obtain ⟨hhas, hround, -⟩ := Universe.leaderAt_some hs
    have heven := h.consistent.even
    have hconsistent := h.consistent.commitSubdag hhas (by omega) (by omega) hsub hl
    have hlast := hconsistent.2
    have hagreed : Agreed U committee g account
        (({ b with ledger := l }).commitSubdag x subdag) := by
      refine ⟨hconsistent.1, h.owner, ?_, ?_⟩
      · rw [hlast, hround, Nat.mul_div_cancel_left s Nat.two_pos]
        dsimp only [commitSubdag]
        rw [List.map_append]
        exact h.grown.snoc he hlt hchain.symm hs
      · refine h.replayed.snoc ?_
        rw [← h.consistent.once.round]
        exact h.consistent.orders hU.previous hhas hsub
    have hnext : done = [] ∨
        ((({ b with ledger := l }).commitSubdag x subdag).dag.lastCommittedRound / 2 < n ∧
          done ++ rest = LeaderChain.chain (U.leaderAt account) U.Path
            ((({ b with ledger := l }).commitSubdag x subdag).dag.lastCommittedRound / 2) n
            e) := by
      rw [hlast, hround, Nat.mul_div_cancel_left s Nat.two_pos]
      rcases htail with ⟨-, -, hnil⟩ | ⟨hsn, hrest⟩
      · exact .inl (List.append_eq_nil_iff.mp hnil).1
      · exact .inr ⟨hsn, hrest⟩
    obtain ⟨hb', hl'⟩ := ih hagreed hnext
    refine ⟨hb', fun y hy => ?_⟩
    cases done with
    | nil =>
      cases hrest
      cases hy
      exact hlast
    | cons z done =>
      rw [List.getLast?_cons_cons] at hy
      exact hl' y hy

section Deliveries

variable [StorageService S] [Network] [LawfulLedger V]

open Classical in
/-- **One delivery** keeps the invariant. -/
theorem Agreed.deliver (hU : U.Lawful committee) (h : Agreed U committee g account b)
    {e : Delivery S V} (he : Delivers U committee b e) :
    Agreed U committee g account (b.deliver e).2 := by
  rcases Storage.insertCertificate_cases e.ledger e.now h.consistent.indexed e.certificate
    e.transmissions e.abortedTransmissions with ⟨x, hx⟩ | ⟨missing, haccepts, -, hx⟩
  · rw [BFT.deliver, hx]
    exact h
  -- stored and inserted, with the ledger and the sender as they are met
  have hstored := (h.consistent.insert he.certificate he.committee haccepts
    e.abortedTransmissions missing).quiet he.quiet e.consensusSender
  rw [BFT.deliver, hx]
  dsimp only
  set b₁ : BFT S V := { b with
    storage := b.storage.insertCertificateAtomic e.certificate e.abortedTransmissions missing
    ledger := e.ledger
    consensusSender := e.consensusSender } with hb₁
  have hinserted : Agreed U committee g account
      { b₁ with dag := b₁.dag.insert e.certificate } :=
    ⟨hstored, h.owner, by simpa [hb₁] using h.grown, h.replayed⟩
  have hquiet : ∀ {b : BFT S V} {l : CoreLedgerService V}, Agreed U committee g account b →
      Quiet b.account b.ledger l → Agreed U committee g account { b with ledger := l } :=
    fun h hl => ⟨h.consistent.quiet hl _, h.owner, h.grown, h.replayed⟩
  rcases updateDag_cases (b := b₁) true false he.sender e.certificate with
    ⟨l, hq, hres⟩ | ⟨leader, author, l₀, due, done, rest, b₂, l, hq₀, hauthor, hready, hdue,
      hsplit, ⟨l₁, hq₁, hcommits⟩, hq, hres⟩
  · rw [hres]
    exact hquiet hinserted hq
  -- the leader is an anchor, and the leaders due are its chain
  rw [hauthor (he.quiet.2 h.consistent.own)] at hready
  obtain ⟨helected, hround⟩ := hstored.elected he.committee hready
  have hs := helected.stored
  have hsupported := hstored.supported helected
  have htwo := hready.even
  have habove := hready.above
  have hlcr := hinserted.consistent.even
  have hleader : U.leaderAt account ((e.certificate.round - 1) / 2) = some leader := by
    refine hU.leaderAt_eq (hstored.has hs) (by omega) ?_
    rw [helected.own, ← h.owner]
  have hanchor := hU.anchor hleader hsupported
  have hlow : (b₁.dag.insert e.certificate).lastCommittedRound
      = 2 * ((b₁.dag.insert e.certificate).lastCommittedRound / 2) := by
    dsimp only at hlcr
    omega
  have hhigh : leader.round = 2 * ((e.certificate.round - 1) / 2) := by omega
  have hmet := (hquiet hinserted hq₀).consistent
  have hchain := (hmet.due_iff hlow hs hhigh).mp hdue
  rw [hmet.chain_eq hU hlow hs] at hchain
  rw [hsplit, show b₁.account = account from h.owner] at hchain
  have hlt : (b₁.dag.insert e.certificate).lastCommittedRound / 2
      < (e.certificate.round - 1) / 2 := by
    dsimp only at habove
    omega
  obtain ⟨hb₂, hlast⟩ := Agreed.commits hU hcommits hanchor (hquiet hinserted hq₁)
    (.inr ⟨hlt, hchain⟩)
  have hl : Quiet b₂.account b₂.ledger l := by
    rw [hb₂.owner, ← h.owner]
    exact hq
  rcases hres with hres | ⟨rfl, hres⟩
  · rw [hres]
    exact hquiet hb₂ hl
  · -- all of the chain is committed, its anchor last
    rw [List.append_nil] at hchain
    have hlcr' := hlast leader (by rw [hchain, LeaderChain.getLast?_chain])
    have hgc := hquiet hb₂ hl
    rw [hres, ← hlcr']
    exact ⟨hgc.consistent.garbageCollect, hgc.owner, hgc.grown, hgc.replayed⟩

open Classical in
omit [StorageService S] [Network] [LawfulLedger V] in
lemma Blank.agreed (h : Blank g account b) : Agreed U committee g account b := by
  refine ⟨h.consistent, h.owner, ?_, fun pre e post hlog => ?_⟩
  · rw [h.committed, h.dag]
    exact LeaderChain.Grown.nil
  · simp [h.committed] at hlog

lemma agreed_delivered (hU : U.Lawful committee) {b₀ : BFT S V} (h₀ : Blank g account b₀)
    (hrun : Delivered U committee b₀ b) : Agreed U committee g account b := by
  induction hrun with
  | start => exact h₀.agreed
  | deliver e _ he ih => exact ih.deliver hU he

open Classical in
/-- **Agreement of the commit rule**: of two runs on one account, one has committed a prefix of
what the other has, the leaders and their subdags. -/
theorem committed_prefix (U : Universe) (committee : ℕ → Committee) (g : ℕ) (account : Address)
    (hU : U.Lawful committee) (b₀ b b₀' b' : BFT S V) (h₀ : Blank g account b₀)
    (hrun : Delivered U committee b₀ b) (h₀' : Blank g account b₀')
    (hrun' : Delivered U committee b₀' b') :
    b.committed <+: b'.committed ∨ b'.committed <+: b.committed := by
  have h := agreed_delivered hU h₀ hrun
  have h' := agreed_delivered hU h₀' hrun'
  rcases h.grown.prefix_or_prefix Universe.leaderAt_injective h'.grown with hp | hp
  · exact .inl (h.replayed.prefix_of_leaders h'.replayed hp)
  · exact .inr (h'.replayed.prefix_of_leaders h.replayed hp)

end Deliveries

section Example

/-- Three certificates in each of the first two rounds, and two in the third. -/
def agreementCertificates : List BatchCertificate :=
  [developmentCertificate 10 0 1 [], developmentCertificate 11 1 1 [],
   developmentCertificate 12 2 1 [], developmentCertificate 20 0 2 [10, 11, 12],
   developmentCertificate 21 1 2 [10, 11, 12], developmentCertificate 22 2 2 [10, 11, 12],
   developmentCertificate 31 1 3 [20, 21, 22], developmentCertificate 32 2 3 [20, 21, 22]]

def agreementUniverse : Universe := Universe.ofList agreementCertificates (by decide +kernel)

lemma agreementUniverse_has {c : BatchCertificate} :
    agreementUniverse.Has c ↔ c ∈ agreementCertificates := by
  have hall : ∀ c ∈ agreementCertificates, agreementUniverse.cert c.id = some c := by
    decide +kernel
  exact ⟨Universe.mem_of_has, hall c⟩

lemma agreementUniverse_lawful : agreementUniverse.Lawful fun _ => developmentCommittee := by
  have hunique : ∀ c ∈ agreementCertificates, ∀ d ∈ agreementCertificates,
      c.round = d.round → c.author = d.author → c = d := by decide +kernel
  have hprevious : ∀ c ∈ agreementCertificates, ∀ id ∈ c.previousCertificateIds.toList,
      ∃ p ∈ agreementCertificates, p.id = id := by decide +kernel
  have hquorum : ∀ c ∈ agreementCertificates, 2 ≤ c.round →
      developmentCommittee.isQuorumThresholdReached
        (authorsOf (c.previousCertificateIds.toList.filterMap agreementUniverse.cert)) = true := by
    decide +kernel
  refine ⟨fun hc hd => ?_, fun c id hc hid => ?_, fun hc => ?_⟩
  · rw [agreementUniverse_has] at hc hd
    exact hunique _ hc _ hd
  · obtain ⟨p, hp, hpid⟩ := hprevious _ (agreementUniverse_has.mp hc) _ hid
    exact ⟨p, agreementUniverse_has.mpr hp, hpid⟩
  · exact hquorum _ (agreementUniverse_has.mp hc)

/-- A node over the genesis chain. -/
def blankBft : BFT BFTMemoryService Chain where
  account := developmentAccount 0
  storage := Storage.new developmentCommittee BFTMemoryService.empty 100
  ledger := developmentLedger []
  dag := DAG.new
  leaderCertificate := none
  leaderCertificateTimer := 0
  consensusSender := none
  committed := []

lemma blankBft_blank : Blank 100 (developmentAccount 0) blankBft := by
  have hown : OwnLeader (developmentAccount 0) (developmentLedger []) := by
    intro r a h
    cases h
  refine ⟨⟨rfl, rfl, rfl, ?_, ?_, ?_, rfl, hown⟩, ?_, rfl⟩ <;> decide +kernel

/-- A certificate delivered over the ledger as it is, with consensus on the channel. -/
def delivery (b : BFT BFTMemoryService Chain) (c : BatchCertificate) :
    Delivery BFTMemoryService Chain :=
  ⟨c, 0, ∅, ∅, b.ledger, some processBftSubdag⟩

def deliveries (cs : List BatchCertificate) : BFT BFTMemoryService Chain :=
  cs.foldl (fun b c => (@BFT.deliver _ _ _ _ developmentNetwork b (delivery b c)).2) blankBft

lemma delivered_deliveries {cs : List BatchCertificate} (hcs : cs ⊆ agreementCertificates) :
    @Delivered _ _ _ _ developmentNetwork agreementUniverse (fun _ => developmentCommittee)
      blankBft (deliveries cs) := by
  let _ := developmentNetwork
  induction cs using List.reverseRecOn with
  | nil => exact .start
  | append_singleton cs c ih =>
    rw [List.append_subset, List.cons_subset] at hcs
    unfold deliveries
    rw [List.foldl_append]
    refine .deliver (delivery _ c) (ih hcs.1) ⟨agreementUniverse_has.mpr hcs.2.1, .refl _, ?_, ?_⟩
    · intro r com hcom
      rw [lookback_chain] at hcom
      exact (Except.ok.inj hcom).symm
    · intro send hsend
      cases hsend
      exact processBftSubdag_faithful

/-- The second run meets the certificates of each round in another order. -/
def reordered : List BatchCertificate :=
  [2, 0, 1, 5, 4, 3, 7, 6].filterMap fun i => agreementCertificates[i]?

theorem committed_prefix_example :
    (deliveries agreementCertificates).committed.length = 1 ∧
      (deliveries reordered).committed.length = 1 ∧
      ((deliveries agreementCertificates).committed <+: (deliveries reordered).committed ∨
        (deliveries reordered).committed <+: (deliveries agreementCertificates).committed) := by
  refine ⟨by decide +kernel, by decide +kernel, ?_⟩
  let _ := developmentNetwork
  exact committed_prefix agreementUniverse _ 100 (developmentAccount 0) agreementUniverse_lawful
    blankBft _ blankBft _ blankBft_blank (delivered_deliveries (List.Subset.refl _))
    blankBft_blank (delivered_deliveries (by decide +kernel))

end Example

end BFT

end AmareleoChain
