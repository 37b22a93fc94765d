import AmareleoChain.Reloading

/-!
The pending certificates are stored again.

They come by rounds, so when one comes its previous certificates are in a block or were loaded
before it, and what the stopped node accepted is accepted again.
-/

namespace AmareleoChain

open Std

/-- What an increment meets when nothing fails. -/
structure IncrementEnv.Succeeds (env : IncrementEnv) : Prop where
  roundSent : env.roundSent = .done
  accounts : ∃ accounts, env.propose.accounts = .ok accounts
  proposed : env.propose.lite.roundSent = .done

/-- What the loading of a certificate meets when nothing fails, and the clock is not behind it. -/
structure LoadEnv.Succeeds (env : LoadEnv) (c : BatchCertificate) : Prop where
  increment : env.increment.Succeeds
  inserted : env.receipt.inserted = .done
  sent : env.receipt.sent = .done
  inTime : c.timestamp ≤ env.receipt.insertedAt + maxTimestampDeltaInSecs

/-- The cache was left by a whole BFT: what it has above the GC round was stored, with the previous
certificates in a block or in the cache as well; and it comes by rounds, and its transmissions are
kept. -/
structure Reload.LeftBy {S V : Type} [Ledger V] [Network] (R : Reload V) (U : Universe) (g : ℕ)
    (b : BFT S V) : Prop where
  whole : b.Whole U g
  ledger : R.ledger.ledger = b.ledger.ledger
  stored : ∀ c ∈ R.cache.pendingCertificates, max R.ledger.latestRound 1 - g < c.round → b.Stored c
  closed : ∀ c ∈ R.cache.pendingCertificates, ∀ d : BatchCertificate, b.Stored d →
    d.id ∈ c.previousCertificateIds →
    d ∈ chainCertificates R.ledger.blocks ∨ d ∈ R.cache.pendingCertificates
  sorted : (R.cache.pendingCertificates.map BatchCertificate.round).Pairwise (· ≤ ·)
  kept : ∀ c ∈ R.cache.pendingCertificates, ∀ t ∈ c.transmissionIds, R.kept t

namespace Primary

variable {S V : Type} [StorageService S] [Ledger V] [Network] {U : Universe} {g : ℕ}
  {R : Reload V} {D E : BatchCertificate → Prop} {p q : Primary S V} {c : BatchCertificate}

/-- No leader is due as long as pending certificates are loaded. -/
lemma Loading.not_completes (hR : R.Sound U) (h : p.Loading R U g D)
    (hc : c ∈ R.cache.pendingCertificates) : ¬ p.bft.Completes c := by
  rintro ⟨leader, hready⟩
  obtain ⟨x, -, helected⟩ := BFT.electLeader_spec
    ({ p.bft with dag := p.bft.dag.insert c } : BFT S V) (c.round - 1)
  have hwf := h.whole.within.wellFormed.insert c
  have hgraph : ∀ {r : ℕ} {a : Address} {e : BatchCertificate},
      (p.bft.dag.insert c).getCertificateForRoundWithAuthor r a = some e →
        e ∈ R.cache.pendingCertificates := by
    intro r a e he
    rcases DAG.getCertificateForRoundWithAuthor_of_insert he with rfl | he
    · exact hc
    · exact h.graph he
  obtain ⟨hround, hauthor⟩ := hwf.keyed hready.found
  have hleader : leader.author = R.account :=
    hauthor.trans ((helected h.own).1.trans h.account)
  have heven := hready.even
  have htwo := hready.two_le
  have habove : R.ledger.latestRound < c.round - 1 := by
    have hlast := hready.above
    rw [DAG.lastCommittedRound_insert, h.committed] at hlast
    exact hlast
  obtain ⟨certificates, committee, hcertificates, hcommittee, hreached⟩ := hready.supported
  have hcommittee' : R.ledger.getCommitteeLookbackForRound (leader.round + 1) = .ok committee := by
    have hnext : leader.round + 1 = c.round := by omega
    rw [hnext]
    exact (CoreLedgerService.grows_of_eq h.ledger.symm).committees _ _ hcommittee
  have hnot := hR.finished leader (hgraph hready.found) hleader (by omega) (by omega) committee
    hcommittee'
  rw [committee.availability_mono (fun a ha => ?_) hreached] at hnot
  · cases hnot
  · -- the supporters are among the pending certificates
    obtain ⟨e, he, rfl⟩ := mem_authorsOf.mp ha
    obtain ⟨he, hsupports⟩ := List.mem_filter.mp he
    obtain ⟨k, hk⟩ := mem_mapValues.mp he
    have hfound : (p.bft.dag.insert c).getCertificateForRoundWithAuthor c.round k = some e := by
      rw [DAG.getCertificateForRoundWithAuthor]
      rw [DAG.getCertificatesForRound] at hcertificates
      rw [hcertificates]
      exact hk
    refine mem_authorsOf.mpr ⟨e, List.mem_filter.mpr ⟨hgraph hfound, ?_⟩, rfl⟩
    have heround := (hwf.keyed hfound).1
    exact decide_eq_true ⟨by omega, of_decide_eq_true hsupports⟩

/-- **A stored certificate is sent to the BFT**: nothing is committed. -/
lemma Loading.updateBft [LawfulLedger V] (hV : ChainInOrder V) (hR : R.Sound U)
    (h : p.Loading R U g D) (hc : c ∈ R.cache.pendingCertificates) (hstored : p.bft.Stored c)
    {env : Receipt} (hsent : env.sent = .done) :
    ∃ r q, p.updateBft env c = (r, q) ∧ q.Loading R U g D ∧
      ∀ stop, r = .error stop → ∃ e, stop = .error e := by
  have hnot := h.not_completes hR hc
  have hwhole := whole_updateBft hV.roundsInOrder hV.roundsAttained h.whole (hR.has c hc) hstored
    (fun _ => hnot) env
  obtain ⟨x, hown, ⟨r, hres⟩ | ⟨leader, hready, -⟩⟩ := BFT.updateDag_entry true false p.bft c
  · have hcall : ∃ r', p.updateBft env c = (r', { p with
        bft := ({ p.bft with dag := p.bft.dag.insert c } : BFT S V).withLeader x }) ∧
        ∀ stop, r' = .error stop → ∃ e, stop = .error e := by
      unfold Primary.updateBft sendPrimaryCertificateToBft
      rw [if_pos h.connected, hsent]
      dsimp only [Await.run]
      rw [hres]
      cases r with
      | error e => exact ⟨_, rfl, fun stop hstop => ⟨e, (Except.error.inj hstop).symm⟩⟩
      | ok u => exact ⟨_, rfl, fun stop hstop => by cases hstop⟩
    obtain ⟨r', hcall, herror⟩ := hcall
    rw [hcall] at hwhole
    refine ⟨r', _, hcall, ?_, herror⟩
    exact
      { whole := hwhole
        deaf := h.deaf
        connected := h.connected
        account := h.account
        lock := h.lock
        ledger := h.ledger
        own := hown h.own
        committed := DAG.lastCommittedRound_insert.trans h.committed
        graph := by
          intro r a e he
          rcases DAG.getCertificateForRoundWithAuthor_of_insert he with rfl | he
          · exact hc
          · exact h.graph he
        gcRound := h.gcRound
        stored := h.stored
        done := h.done
        round := h.round
        kept := h.kept }
  · exact absurd ⟨leader, hready⟩ hnot

/-! ### Nothing is proposed -/

/-- **A batch is not proposed** for a locked round, or one below. -/
lemma Loading.proposeBatch (hV : ChainInOrder V) (hR : R.Sound U) (h : p.Loading R U g D)
    (hlocked : p.currentRound ≤ R.cache.latestRound) {env : ProposeEnv}
    (haccounts : ∃ accounts, env.accounts = .ok accounts) (hsent : env.lite.roundSent = .done) :
    ∃ q, p.proposeBatch env true = (.ok (), q) ∧ q.Loading R U g D := by
  obtain ⟨accounts, haccounts⟩ := haccounts
  have hlite : ∃ q, p.proposeBatchLite env.lite [accounts 1, accounts 2, accounts 3] true
      = (.ok 0, q) ∧ q.Loading R U g D := by
    have hround := h.round
    have hlock := h.lock
    unfold proposeBatchLite
    dsimp only
    rw [if_neg (by omega)]
    split
    · exact ⟨p, rfl, h⟩
    split
    · exact ⟨p, rfl, h⟩
    split
    · rw [if_pos h.connected]
      obtain ⟨hloading, -, hok⟩ := h.sendPrimaryRoundToBft hV hR env.lite.roundSent
        env.lite.roundSentAt
      obtain ⟨isReady, hready⟩ := hok hsent
      rcases hres : p.sendPrimaryRoundToBft env.lite.roundSent env.lite.roundSentAt p.currentRound
        with ⟨r, q⟩
      rw [hres] at hready hloading
      dsimp only at hready
      rw [hready]
      exact ⟨q, rfl, hloading⟩
    · rw [if_pos (by omega)]
      exact ⟨p, rfl, h⟩
  obtain ⟨q, hq, hloading⟩ := hlite
  refine ⟨q, ?_, hloading⟩
  unfold Primary.proposeBatch
  rw [haccounts]
  dsimp only [orStop, Except.mapError, attempt]
  rw [hq]
  rfl

/-- **The increments up to a locked round.** -/
lemma Loading.tryIncrementToTheNextRound (hV : ChainInOrder V) (hR : R.Sound U)
    (h : p.Loading R U g D) {env : IncrementEnv} (henv : env.Succeeds) {nextRound : ℕ}
    (hlocked : nextRound ≤ R.cache.latestRound) :
    ∃ q, p.tryIncrementToTheNextRound env nextRound = (.ok (), q) ∧ q.Loading R U g D := by
  obtain ⟨hloading, hle, hok⟩ := h.tryIncrementToTheNextRoundLite hV hR env.roundSent
    env.roundSentAt nextRound
  obtain ⟨isReady, hready⟩ := hok henv.roundSent
  unfold Primary.tryIncrementToTheNextRound
  rcases hres : p.tryIncrementToTheNextRoundLite env.roundSent env.roundSentAt nextRound with ⟨r, q⟩
  rw [hres] at hready hloading
  dsimp only at hready
  subst hready
  dsimp only [andThen]
  cases isReady with
  | false => exact ⟨q, rfl, hloading⟩
  | true =>
    rw [if_pos rfl]
    exact hloading.proposeBatch hV hR ((hle q hres).trans hlocked) henv.accounts henv.proposed

/-! ### A certificate is loaded -/

variable {b : BFT S V}

/-- **A pending certificate is accepted again**, once those of the lower rounds are loaded. -/
lemma Loading.acceptable (hS : StorageService.Restores S) (hb : R.LeftBy U g b)
    (h : p.Loading R U g D) (hchain : ∀ d ∈ chainCertificates R.ledger.blocks, D d)
    (hc : c ∈ R.cache.pendingCertificates)
    (hbefore : ∀ d ∈ R.cache.pendingCertificates, d.round < c.round → D d)
    (habove : p.storage.gcRound < c.round) (hfresh : p.storage.certificates[c.id]? = none)
    {now : ℤ} (htime : c.timestamp ≤ now + maxTimestampDeltaInSecs) :
    p.storage.Acceptable p.ledger now c ∅ ∅ := by
  have hledger : p.ledger.ledger = b.ledger.ledger := h.ledger.trans hb.ledger
  have hblocks : R.ledger.blocks = b.ledger.blocks := CoreLedgerService.blocks_of_eq hb.ledger
  have hlatest : R.ledger.latestRound = b.ledger.latestRound :=
    CoreLedgerService.latestRound_of_eq hb.ledger
  have hgrows := CoreLedgerService.grows_of_eq hledger
  have hold : b.storage.gcRound ≤ p.storage.gcRound := by
    rw [h.gcRound, hlatest]
    exact hb.whole.gc
  have hcstored := hb.stored c hc (h.gcRound ▸ habove)
  have hchecked := hb.whole.checked hcstored
  refine ⟨habove, hfresh, fun {d} hd hround hauthor => ?_, htime, ?_, ?_, fun hprevious => ?_⟩
  · -- the stopped node has both certificates
    have hdstored : b.Stored d := by
      rcases h.stored hd with hd' | hd'
      · exact hb.whole.stored d (hblocks ▸ hd') (hold.trans_lt (hround ▸ habove))
      · exact hb.stored d hd' (h.gcRound ▸ hround ▸ habove)
    have heq := hb.whole.tidy.indexed.unique hcstored hdstored hround.symm hauthor.symm
    rw [heq, hd] at hfresh
    cases hfresh
  · exact hS.finds _ _ _ _ fun t ht => .inl (h.kept t (hb.kept c hc t ht))
  · exact hchecked.endorsed.mono hgrows
  · obtain ⟨committee, previous, hp⟩ := hchecked.previous (hold.trans_lt hprevious)
    refine ⟨committee, previous, hgrows.committees _ _ hp.lookback, hp.ids, fun d hd => ?_,
      hp.members, hp.distinct, hp.quorum⟩
    obtain ⟨hdstored, hround⟩ := hp.stored d hd
    refine ⟨h.done ?_ (hround ▸ hprevious), hround⟩
    have hid : d.id ∈ c.previousCertificateIds := by
      rw [IndexSet.mem_def, ← hp.ids]
      exact List.mem_map_of_mem hd
    rcases hb.closed c hc d hdstored hid with hd' | hd'
    · exact hchain d hd'
    · exact hbefore d hd' (by omega)

lemma Loading.imp (h : p.Loading R U g D)
    (hE : ∀ d, E d → p.storage.gcRound < d.round → p.bft.Stored d) : p.Loading R U g E :=
  { h with done := fun {d} hd habove => hE d hd habove }

/-- **A certificate is stored.** -/
lemma Loading.insertCertificate (hS : StorageService.Restores S) (hR : R.Sound U)
    (h : p.Loading R U g D) (hc : c ∈ R.cache.pendingCertificates) {env : Receipt}
    (hinserted : env.inserted = .done) (ha : p.storage.Acceptable p.ledger env.insertedAt c ∅ ∅) :
    ∃ q, p.insertCertificate env c ∅ = (.ok (), q) ∧ q.Loading R U g D ∧ q.bft.Stored c := by
  obtain ⟨missing, -, hinsert⟩ := ha.insertCertificate h.whole.tidy.indexed
  obtain ⟨hwhole, -⟩ := whole_insertCertificate h.whole (hR.has c hc) env ∅
  have hcall : p.insertCertificate env c ∅
      = (.ok (), p.withStorage (p.storage.insertCertificateAtomic c ∅ missing)) := by
    unfold Primary.insertCertificate
    rw [hinserted]
    dsimp only [Await.run]
    rw [hinsert]
    rfl
  have hmem : ∀ d : BatchCertificate,
      (p.storage.insertCertificateAtomic c ∅ missing).certificates[d.id]? = some d ↔
        p.bft.Stored d ∨ d = c := by
    rcases h.whole.tidy.gains p.ledger env.insertedAt c ∅ ∅ with ⟨e, he⟩ | ⟨t, ht, hgains⟩
    · cases hinsert.symm.trans he
    · cases hinsert.symm.trans ht
      exact hgains.mem
  rw [hcall] at hwhole
  refine ⟨_, hcall, ?_, (hmem c).mpr (.inr rfl)⟩
  exact
    { whole := hwhole
      deaf := h.deaf
      connected := h.connected
      account := h.account
      lock := h.lock
      ledger := h.ledger
      own := h.own
      committed := h.committed
      graph := h.graph
      gcRound := h.gcRound
      stored := by
        intro d hd
        rcases (hmem d).mp hd with hd | rfl
        · exact h.stored hd
        · exact .inr hc
      done := fun {d} hd habove => (hmem d).mpr (.inl (h.done hd habove))
      round := h.round
      kept := fun t ht => hS.keeps _ _ _ _ _ _ (h.kept t ht) }

lemma Loading.fetchMissingTransmissions (h : p.Loading R U g D)
    (hkept : ∀ t ∈ c.transmissionIds, R.kept t) :
    p.fetchMissingTransmissions c.batchHeader = .ok ∅ := by
  unfold Primary.fetchMissingTransmissions
  split
  · rfl
  split
  · rfl
  have hall : ∀ t ∈ c.batchHeader.transmissionIds.toList,
      p.storage.containsTransmission t = true := fun t ht => h.kept t (hkept t ht)
  revert hall
  generalize c.batchHeader.transmissionIds.toList = ids
  intro hall
  induction ids with
  | nil => rfl
  | cons t ts ih =>
    rw [List.forall_mem_cons] at hall
    rw [List.foldlM_cons, if_pos hall.1]
    exact ih hall.2

/-- **The header of a pending certificate of a locked round.** -/
lemma Loading.syncWithBatchHeaderFromPeer (hV : ChainInOrder V) (hR : R.Sound U)
    (hb : R.LeftBy U g b) (h : p.Loading R U g D) (hc : c ∈ R.cache.pendingCertificates)
    (habove : p.storage.gcRound < c.round) (hlocked : c.round ≤ R.cache.latestRound)
    {env : LoadEnv} (henv : env.increment.Succeeds) :
    ∃ q, p.syncWithBatchHeaderFromPeer env c.batchHeader = (.ok ∅, q) ∧ q.Loading R U g D := by
  obtain ⟨committee, hcommittee⟩ : ∃ committee,
      p.ledger.getCommitteeLookbackForRound c.round = .ok committee := by
    have hcstored := hb.stored c hc (h.gcRound ▸ habove)
    obtain ⟨committee, hcommittee, -⟩ := (hb.whole.checked hcstored).endorsed
    exact ⟨committee, (CoreLedgerService.grows_of_eq (h.ledger.trans hb.ledger)).committees _ _
      hcommittee⟩
  have hincrement : ∀ ahead : Bool, ∃ q, (if ahead then
        p.tryIncrementToTheNextRound env.increment c.round
      else (.ok (), p)) = (.ok (), q) ∧ q.Loading R U g D := by
    intro ahead
    cases ahead with
    | false => exact ⟨p, rfl, h⟩
    | true =>
      rw [if_pos rfl]
      exact h.tryIncrementToTheNextRound hV hR henv hlocked
  obtain ⟨q, hq, hloading⟩ := hincrement ((committee.isQuorumThresholdReached
    (p.storage.getCertificateAuthorsForRound c.round) && decide (c.round > p.currentRound)) ||
    decide (c.round > p.currentRound + p.storage.maxGcRounds))
  have hround : c.batchHeader.round = c.round := rfl
  refine ⟨q, ?_, hloading⟩
  unfold Primary.syncWithBatchHeaderFromPeer
  dsimp only
  rw [hround, if_neg (by omega), hcommittee]
  dsimp only [orStop, Except.mapError, attempt]
  rw [hq]
  dsimp only [andThen]
  rw [hloading.fetchMissingTransmissions (hb.kept c hc)]

/-- **A pending certificate is loaded**, once those of the lower rounds are. -/
lemma Loading.syncWithCertificateFromPeer [LawfulLedger V] (hS : StorageService.Restores S)
    (hV : ChainInOrder V) (hR : R.Sound U) (hb : R.LeftBy U g b) (h : p.Loading R U g D)
    (hchain : ∀ d ∈ chainCertificates R.ledger.blocks, D d)
    (hc : c ∈ R.cache.pendingCertificates)
    (hbefore : ∀ d ∈ R.cache.pendingCertificates, d.round < c.round → D d) {env : LoadEnv}
    (henv : env.Succeeds c) :
    ∃ r q, p.syncWithCertificateFromPeer env c = (r, q) ∧
      q.Loading R U g (fun d => D d ∨ d = c) ∧ ∀ stop, r = .error stop → ∃ e, stop = .error e := by
  -- what is stored already, or below the GC round, is left out
  have hstays : ∀ {q : Primary S V}, q.Loading R U g D →
      (q.storage.gcRound < c.round → q.bft.Stored c) → q.Loading R U g fun d => D d ∨ d = c := by
    intro q hq hstored
    refine hq.imp fun d hd habove => ?_
    rcases hd with hd | rfl
    · exact hq.done hd habove
    · exact hstored habove
  have hsame : ∀ {q : Primary S V}, q.Loading R U g D → q.storage.containsCertificate c.id = true →
      q.bft.Stored c := by
    intro q hq hcontains
    unfold Storage.containsCertificate at hcontains
    rw [ExtTreeMap.contains_eq_isSome_getElem?] at hcontains
    obtain ⟨d, hd⟩ := Option.isSome_iff_exists.mp hcontains
    have hdid := hq.whole.tidy.indexed.keyed hd
    rw [← hdid] at hd
    have hhas : U.Has d := hq.whole.within.storage hd
    rwa [hhas.eq_of_id (hR.has c hc) hdid] at hd
  unfold Primary.syncWithCertificateFromPeer
  split
  · exact ⟨_, p, rfl, hstays h fun habove => by omega, fun stop hstop => by cases hstop⟩
  next habove =>
  split
  · next hcontains =>
    exact ⟨_, p, rfl, hstays h fun _ => hsame h hcontains, fun stop hstop => by cases hstop⟩
  next hnew =>
  have habove : p.storage.gcRound < c.round := Nat.lt_of_not_le habove
  have hlocked : c.round ≤ R.cache.latestRound := by
    refine (hR.locked c hc).resolve_right fun hin => hnew ?_
    have hstored : p.storage.certificates[c.id]? = some c := h.done (hchain c hin) habove
    unfold Storage.containsCertificate
    rw [ExtTreeMap.contains_eq_isSome_getElem?, hstored]
    rfl
  obtain ⟨q, hq, hloading⟩ :=
    h.syncWithBatchHeaderFromPeer hV hR hb hc habove hlocked henv.increment
  rw [hq]
  dsimp only [andThen]
  split
  · next hcontains =>
    exact ⟨_, q, rfl, hstays hloading fun _ => hsame hloading hcontains,
      fun stop hstop => by cases hstop⟩
  next hnew =>
  have hfresh : q.storage.certificates[c.id]? = none := by
    unfold Storage.containsCertificate at hnew
    rw [ExtTreeMap.contains_eq_isSome_getElem?] at hnew
    simpa using hnew
  have habove' : q.storage.gcRound < c.round := by rwa [hloading.gcRound, ← h.gcRound]
  have ha := hloading.acceptable hS hb hchain hc hbefore habove' hfresh henv.inTime
  obtain ⟨q', hq', hloading', hstored⟩ :=
    hloading.insertCertificate hS hR hc henv.inserted ha
  rw [hq']
  dsimp only [andThen]
  exact (hstays hloading' fun _ => hstored).updateBft hV hR hc hstored henv.sent

/-- **The pending certificates are loaded**, by rounds. -/
theorem Loading.loadCertificates [LawfulLedger V] (hS : StorageService.Restores S)
    (hV : ChainInOrder V) (hR : R.Sound U) (hb : R.LeftBy U g b) {envs : ℕ → LoadEnv}
    {cs : List BatchCertificate} (hpending : ∀ c ∈ cs, c ∈ R.cache.pendingCertificates)
    (hsorted : (cs.map BatchCertificate.round).Pairwise (· ≤ ·))
    (hrest : ∀ c ∈ R.cache.pendingCertificates, D c ∨ c ∈ cs)
    (hchain : ∀ d ∈ chainCertificates R.ledger.blocks, D d)
    {i : ℕ} (henvs : ∀ k (hk : k < cs.length), (envs (i + k)).Succeeds cs[k])
    (h : p.Loading R U g D) :
    ∃ q, p.loadCertificates envs i cs = (.ok (), q) ∧
      q.Loading R U g fun d => D d ∨ d ∈ cs := by
  induction cs generalizing i p D with
  | nil => exact ⟨p, rfl, h.imp fun d hd => h.done (by simpa using hd)⟩
  | cons c cs ih =>
    rw [List.forall_mem_cons] at hpending
    rw [List.map_cons, List.pairwise_cons] at hsorted
    have hbefore : ∀ d ∈ R.cache.pendingCertificates, d.round < c.round → D d := by
      intro d hd hlt
      rcases hrest d hd with hd | hd
      · exact hd
      · exfalso
        rcases List.mem_cons.mp hd with rfl | hd
        · exact lt_irrefl _ hlt
        · exact absurd hlt (hsorted.1 d.round (List.mem_map_of_mem hd)).not_gt
    have henv : (envs i).Succeeds c := henvs 0 (Nat.succ_pos _)
    obtain ⟨r, q, hq, hloading, herror⟩ :=
      h.syncWithCertificateFromPeer hS hV hR hb hchain hpending.1 hbefore henv
    have hnext := ih hpending.2 hsorted.2 (D := fun d => D d ∨ d = c) (fun d hd => by
        rcases hrest d hd with hd | hd
        · exact .inl (.inl hd)
        · exact (List.mem_cons.mp hd).imp_left .inr)
      (fun d hd => .inl (hchain d hd)) (i := i + 1) (fun k hk => by
        have := henvs (k + 1) (Nat.succ_lt_succ hk)
        rwa [Nat.add_right_comm, Nat.add_assoc i k 1]) hloading
    obtain ⟨q', hq', hloading'⟩ := hnext
    refine ⟨q', ?_, hloading'.imp fun d hd => hloading'.done (by simpa [or_assoc] using hd)⟩
    unfold Primary.loadCertificates
    rw [hq]
    rcases r with stop | ⟨⟩
    · obtain ⟨e, rfl⟩ := herror stop rfl
      exact hq'
    · exact hq'

end Primary

end AmareleoChain
