import AmareleoChain.Reloaded
import AmareleoChain.ProposalCache
import AmareleoChain.Steady

/-!
A restart restores the storage.

A node that keeps its state and is stopped with every leader that was due committed comes back with
the certificates that it had above the GC round: those in the blocks from bootup, and the others
from the proposal cache. So its storage, its DAG and its ledger fit together again.
-/

namespace AmareleoChain

open Std

/-! ### The pending certificates -/

namespace Storage

variable {S V : Type} [Ledger V] {s : Storage S} {l : CoreLedgerService V} {c : BatchCertificate}

/-- **What is pending** is stored, and is not found in the ledger. -/
lemma mem_getPendingCertificates_iff (h : s.Indexed) : c ∈ s.getPendingCertificates l ↔
    s.certificates[c.id]? = some c ∧ l.containsCertificate c.id ≠ .ok true := by
  unfold getPendingCertificates
  rw [← IndexSet.mem_def, IndexSet.mem_ofList, List.mem_flatMap]
  constructor
  · rintro ⟨e, -, hc⟩
    obtain ⟨entry, -, hc⟩ := List.mem_filterMap.mp hc
    split at hc
    · cases hc
    · next hnot =>
      have hid : c.id = entry.1 := h.keyed hc
      rw [hid]
      exact ⟨hc, fun hok => hnot hok⟩
  · rintro ⟨hc, hnot⟩
    obtain ⟨set, hset, hin⟩ := mem_entries.mp ((h.entries c.round c.id c.author).mpr
      ⟨c, hc, rfl, rfl⟩)
    refine ⟨(c.round, set), ExtTreeMap.mem_toList_iff_getElem?_eq_some.mpr hset,
      List.mem_filterMap.mpr ⟨(c.id, c.author), hin, ?_⟩⟩
    dsimp only
    split
    · next hok => exact absurd hok hnot
    · exact hc

lemma getPendingCertificates_eq (l : CoreLedgerService V) (s : Storage S) :
    ∃ kept : Field × Address → Option BatchCertificate,
      (∀ entry c, kept entry = some c → s.getCertificate entry.1 = some c) ∧
        s.getPendingCertificates l = (IndexSet.ofList (s.rounds.toList.flatMap fun e =>
          e.2.toList.filterMap kept)).toList := by
  refine ⟨_, fun entry c hc => ?_, rfl⟩
  split at hc
  · cases hc
  · exact hc

/-- **They come by rounds.** -/
lemma pairwise_getPendingCertificates (h : s.Indexed) :
    ((s.getPendingCertificates l).map BatchCertificate.round).Pairwise (· ≤ ·) := by
  obtain ⟨kept, hkept, hpending⟩ := getPendingCertificates_eq l s
  rw [hpending, List.pairwise_map]
  refine List.Pairwise.sublist (IndexSet.toList_ofList_sublist _) ?_
  have hround : ∀ e ∈ s.rounds.toList, ∀ c ∈ e.2.toList.filterMap kept, c.round = e.1 := by
    intro e he c hc
    obtain ⟨entry, hentry, hc⟩ := List.mem_filterMap.mp hc
    have hset := ExtTreeMap.mem_toList_iff_getElem?_eq_some.mp he
    obtain ⟨d, hd, hdround, -⟩ := (h.entries e.1 entry.1 entry.2).mp
      (mem_entries.mpr ⟨e.2, hset, hentry⟩)
    cases hd.symm.trans (hkept entry c hc)
    exact hdround
  rw [List.pairwise_flatMap]
  refine ⟨fun e he => List.pairwise_of_forall_mem_list fun c hc d hd => ?_, ?_⟩
  · rw [hround e he c hc, hround e he d hd]
  · have hordered : s.rounds.toList.Pairwise fun a b => compare a.1 b.1 = .lt :=
      ExtTreeMap.ordered_keys_toList
    refine hordered.imp_of_mem fun {e e'} he he' hlt c hc d hd => ?_
    rw [hround e he c hc, hround e' he' d hd]
    exact (Nat.compare_eq_lt.mp hlt).le

end Storage

lemma BFT.Whole.listen {S V : Type} [Ledger V] [Network] {U : Universe} {g : ℕ} {b : BFT S V}
    {send : ConsensusSender V} (h : b.Whole U g) (hsend : SendersGrow (some send)) :
    BFT.Whole U g { b with consensusSender := some send } where
  maxGcRounds := h.maxGcRounds
  within := ⟨h.within.wellFormed, h.within.graph, h.within.storage⟩
  chain := h.chain
  stored := h.stored
  graph := h.graph
  recent := h.recent
  linked := h.linked
  tidy := h.tidy
  checked := h.checked
  gc := h.gc
  sender := hsend

/-! ### The cache of a stopped node -/

namespace Primary

variable {S V : Type} [StorageService S] [Ledger V] [Network] {U : Universe} {g : ℕ}
  {p q : Primary S V} {transmissions : S} {l : CoreLedgerService V} {now : ℤ} {envs : ℕ → LoadEnv}
  {committee : Committee} {c : BatchCertificate}

/-- What a node saves that has no batch in flight. -/
def savedCache (p : Primary S V) : ProposalCache where
  latestRound := p.proposeLock
  proposal := none
  signedProposals := p.signedProposals
  pendingCertificates := p.storage.getPendingCertificates p.ledger

omit [StorageService S] [Network] in
lemma shutDown_saves (hsave : p.savePending = true) (hproposal : p.proposedBatch = none) :
    p.shutDown.1 = some p.savedCache := by
  unfold shutDown
  rw [if_pos hsave, hproposal]
  rfl

/-- A node starts again over the ledger of another. -/
structure Reopens (p : Primary S V) (l : CoreLedgerService V) (now : ℤ) : Prop where
  ledger : l.ledger = p.ledger.ledger
  latestLeader : l.latestLeader = none
  resolved : BFT.Resolved now l

/-- The certificates of a cache can be loaded again: those above the GC round were stored, with the
previous certificates in a block or in the cache as well; they leave no leader due; their
transmissions are kept; and nothing fails. -/
structure Reloads (g : ℕ) (p : Primary S V) (cache : ProposalCache) (transmissions : S)
    (envs : ℕ → LoadEnv) : Prop where
  stored : ∀ c ∈ cache.pendingCertificates, max p.ledger.latestRound 1 - g < c.round →
    p.bft.Stored c
  closed : ∀ c ∈ cache.pendingCertificates, ∀ d : BatchCertificate, p.bft.Stored d →
    d.id ∈ c.previousCertificateIds →
    d ∈ chainCertificates p.ledger.blocks ∨ d ∈ cache.pendingCertificates
  finished : Finished p.account p.ledger cache.pendingCertificates
  intact : ∀ c ∈ cache.pendingCertificates, ∀ t ∈ c.transmissionIds,
    StorageService.containsTransmission transmissions t = true
  loads : ∀ i (hi : i < cache.pendingCertificates.length),
    (envs i).Succeeds cache.pendingCertificates[i]

/-- What a cache always is: it has no proposal, and certificates of the universe by rounds, each of
a locked round or in a block. -/
structure SavedOver (U : Universe) (account : Address) (l : CoreLedgerService V)
    (cache : ProposalCache) : Prop where
  proposal : cache.proposal = none
  valid : cache.isValid account = true
  has : ∀ c ∈ cache.pendingCertificates, U.Has c
  locked : ∀ c ∈ cache.pendingCertificates,
    c.round ≤ cache.latestRound ∨ c ∈ chainCertificates l.blocks
  sorted : (cache.pendingCertificates.map BatchCertificate.round).Pairwise (· ≤ ·)

/-- What is loaded. -/
abbrev reload (p : Primary S V) (cache : ProposalCache) (transmissions : S)
    (l : CoreLedgerService V) : Reload V where
  account := p.account
  ledger := l
  cache
  kept t := StorageService.containsTransmission transmissions t = true

/-- **The pending certificates are loaded** over the blocks that were synced. -/
theorem loads_over [LawfulLedger V] (hV : ChainInOrder V) (hS : StorageService.Restores S)
    (hg : g < 2 ^ 32) (h : p.bft.Whole U g) {cache : ProposalCache}
    (hsaved : SavedOver U p.account p.ledger cache) (hr : p.Reopens l now)
    (hload : Reloads g p cache transmissions envs) (hcommittee : l.currentCommittee = .ok committee)
    (keepState : Bool) :
    ∃ b q, (BFT.new p.account (Storage.new committee transmissions g) l).bootup now = .ok b ∧
      loadProposalCache envs (some cache)
        { new p.account (Storage.new committee transmissions g) keepState l with
          bftSender := true, bft := b } = (.ok (), q) ∧
      q.Loading (p.reload cache transmissions l) U g fun d =>
        d ∈ chainCertificates l.blocks ∨ d ∈ cache.pendingCertificates := by
  have hblocks := CoreLedgerService.blocks_of_eq hr.ledger
  have hlatest := CoreLedgerService.latestRound_of_eq hr.ledger
  have hb : (p.reload cache transmissions l).LeftBy U g p.bft :=
    { whole := h
      ledger := hr.ledger
      stored := fun c hc habove => hload.stored c hc (hlatest ▸ habove)
      closed := fun c hc d hd hid => hblocks ▸ hload.closed c hc d hd hid
      sorted := hsaved.sorted
      kept := hload.intact }
  have hR : (p.reload cache transmissions l).Sound U := by
    refine ⟨hsaved.has, fun c hc => hblocks ▸ hsaved.locked c hc, ?_, committee, hcommittee⟩
    intro leader hleader hauthor heven habove committee hlookback
    refine hload.finished leader hleader hauthor heven (hlatest ▸ habove) committee ?_
    exact (CoreLedgerService.grows_of_eq hr.ledger.symm).committees _ _ hlookback
  obtain ⟨s, hboot, hs, hround, hkept⟩ := h.bootup hV hS hr.ledger hr.resolved hg hcommittee
    p.account transmissions
  obtain ⟨hwhole, hcommitted, hnone⟩ := h.booted hV hr.ledger hs p.account
  set b := (BFT.new p.account s l).syncBftDagAtBootup
    (chainCertificates (l.blocks.drop (l.latestBlockHeight - g / 2))) with hbdef
  have hloading : Loading (p.reload cache transmissions l) U g (· ∈ chainCertificates l.blocks)
      ({ new p.account (Storage.new committee transmissions g) keepState l with
        bftSender := true, bft := b, proposedBatch := none
        signedProposals := cache.signedProposals, proposeLock := cache.latestRound } :
          Primary S V) :=
    { whole := hwhole
      deaf := rfl
      connected := rfl
      account := rfl
      lock := rfl
      ledger := rfl
      own := fun r a hra => by
        cases hr.latestLeader.symm.trans hra
      committed := hcommitted
      graph := fun {r a c} hc => by
        cases (hnone r a).symm.trans hc
      gcRound := hs.gcRound
      stored := fun {c} hc => .inl ((hs.mem c).mp hc).1
      done := fun {c} hc habove => (hs.mem c).mpr ⟨hc, habove⟩
      round := hround
      kept := hkept }
  obtain ⟨q, hq, hlast⟩ := hloading.loadCertificates hS hV hR hb (i := 0) (fun c hc => hc)
    hsaved.sorted (fun c hc => .inr hc) (fun d hd => hd) (fun i hi => by
      rw [Nat.zero_add]
      exact hload.loads i hi)
  refine ⟨b, q, hboot, ?_, hlast⟩
  unfold loadProposalCache
  dsimp only
  rw [if_pos (by rw [← hsaved.valid]; rfl), hsaved.proposal]
  exact hq

/-! ### What is saved -/

omit [StorageService S] in
/-- **What is stored** is in a block or pending. -/
lemma Kept.pending [LawfulLedger V] (h : p.Kept U g) (hc : p.bft.Stored c) :
    c ∈ chainCertificates p.ledger.blocks ∨ c ∈ p.savedCache.pendingCertificates := by
  by_cases hledger : p.ledger.containsCertificate c.id = .ok true
  · left
    obtain ⟨d, hd, hid⟩ := (LawfulLedger.containsCertificate_ok hledger).mp rfl
    have hhas : U.Has c := h.whole.within.storage hc
    rwa [hhas.eq_of_id (h.whole.chain d hd) hid.symm]
  · exact .inr ((Storage.mem_getPendingCertificates_iff h.whole.tidy.indexed).mpr ⟨hc, hledger⟩)

omit [StorageService S] in
lemma Kept.stored_of_pending (h : p.Kept U g) (hc : c ∈ p.savedCache.pendingCertificates) :
    p.bft.Stored c :=
  ((Storage.mem_getPendingCertificates_iff h.whole.tidy.indexed).mp hc).1

lemma Kept.reloads [LawfulLedger V] (h : p.Kept U g)
    (hfinished : Finished p.account p.ledger p.savedCache.pendingCertificates)
    (hintact : ∀ c ∈ p.savedCache.pendingCertificates, ∀ t ∈ c.transmissionIds,
      StorageService.containsTransmission transmissions t = true)
    (hloads : ∀ i (hi : i < p.savedCache.pendingCertificates.length),
      (envs i).Succeeds p.savedCache.pendingCertificates[i]) :
    Reloads g p p.savedCache transmissions envs :=
  ⟨fun _ hc _ => h.stored_of_pending hc, fun _ _ _ hd _ => h.pending hd, hfinished, hintact, hloads⟩

omit [StorageService S] [Network] in
lemma OwnSigned.savedCache_isValid (h : p.OwnSigned) : p.savedCache.isValid p.account = true := by
  simp [ProposalCache.isValid, savedCache, h.signed]

omit [StorageService S] in
lemma Kept.savedOver (h : p.Kept U g) (hp : p.Orderly) (hown : p.OwnSigned) :
    SavedOver U p.account p.ledger p.savedCache where
  proposal := rfl
  valid := hown.savedCache_isValid
  has _ hc := h.whole.within.storage (h.stored_of_pending hc)
  locked _ hc := hp.origin (h.stored_of_pending hc)
  sorted := Storage.pairwise_getPendingCertificates h.whole.tidy.indexed

/-! ### Saving -/

/-- Whether the state is saved, and is kept, stays. -/
def SavesAlike (p q : Primary S V) : Prop :=
  q.savePending = p.savePending ∧ q.keepState = p.keepState

omit [StorageService S] [Ledger V] [Network] in
lemma SameWork.savesAlike (h : p.SameWork q) : p.SavesAlike q := by
  obtain ⟨bft, rfl, -⟩ := h
  exact ⟨rfl, rfl⟩

omit [StorageService S] [Ledger V] [Network] in
lemma SavesAlike.trans {r : Primary S V} (h : p.SavesAlike q) (h' : q.SavesAlike r) :
    p.SavesAlike r := ⟨h'.1.trans h.1, h'.2.trans h.2⟩

/-- **The tasks** leave it as it is. -/
theorem savesAlike_walk : BatchWalk (S := S) (V := V) .any (fun _ => True) SavesAlike where
  refl _ := ⟨rfl, rfl⟩
  trans := .trans
  round sent now round p := (sameWork_round sent now round p).savesAlike
  increment _ _ := ⟨rfl, rfl⟩
  clear _ := ⟨rfl, rfl⟩
  work _ _ _ := ⟨rfl, rfl⟩
  lock _ _ _ := ⟨rfl, rfl⟩
  store env c t p _ _ := (sameWork_store env c t p).savesAlike
  fakes _ _ _ _ h := h.trans <| fakeProposals_rel (R := SavesAlike) .trans SameWork.savesAlike
    (fun _ _ _ => ⟨rfl, rfl⟩) _ _ _ _ _

lemma savesAlike_loadProposalCache (envs : ℕ → LoadEnv) (cache : Option ProposalCache)
    (p : Primary S V) : p.SavesAlike (p.loadProposalCache envs cache).2 := by
  unfold loadProposalCache
  split
  · exact ⟨rfl, rfl⟩
  split
  · exact savesAlike_walk.loadCertificates (fun i => (envs i).meets_any) 0 (fun _ _ => trivial) _
  · exact ⟨rfl, rfl⟩

/-! ### The runs of a node that keeps its state -/

/-- What is asked of the transmissions that are kept: at the first start, and when the node starts
again with the cache on its disk. -/
structure Guard (S V : Type) where
  start : S → Prop
  restart : Primary S V → Option ProposalCache → S → CoreLedgerService V → Prop

/-- A node that keeps its state, and the proposal cache on its disk: it starts over a chain without
certificates, its worker gets transmissions and its tasks run, and it starts again over the chain
that it left, after a shutdown or a crash, when the certificates in the cache can be loaded. -/
inductive KeepStateRun (E : Surroundings V) (U : Universe) (g : ℕ) (G : Guard S V) :
    Option ProposalCache → Primary S V → Prop
  | start {account : Address} {transmissions : S} {l : CoreLedgerService V} {committee : Committee}
      {now : ℤ} {envs : ℕ → LoadEnv} {send : ConsensusSender V} {p : Primary S V} :
      G.start transmissions → chainCertificates l.blocks = [] →
      l.currentCommittee = .ok committee → (∀ i, E.load (envs i)) → E.sender send →
      (new account (Storage.new committee transmissions g) true l).runBft now envs none send
        = (.ok (), p) → KeepStateRun E U g G none p
  | propose {cache : Option ProposalCache} {p : Primary S V} (env : ProposeEnv) :
      KeepStateRun E U g G cache p → E.propose env → MakesIn U env p →
      KeepStateRun E U g G cache (p.proposeTask env)
  | increment {cache : Option ProposalCache} {p : Primary S V} (env : IncrementEnv) :
      KeepStateRun E U g G cache p → E.increment env →
      (∀ q, p.tryIncrementToTheNextRoundLite env.roundSent env.roundSentAt (p.currentRound + 1)
        = (.ok true, q) → MakesIn U env.propose q) →
      KeepStateRun E U g G cache (p.incrementTask env)
  /-- The worker gets transmissions, or drops some. -/
  | submit {cache : Option ProposalCache} {p : Primary S V} (ready : Ready) :
      KeepStateRun E U g G cache p → KeepStateRun E U g G cache { p with ready }
  /-- The shutdown flag is raised. -/
  | flag {cache : Option ProposalCache} {p : Primary S V} : KeepStateRun E U g G cache p →
      KeepStateRun E U g G cache { p with
        bft := { p.bft with ledger := { p.ledger with shutdown := true } } }
  /-- The node starts again, with the state that it saves when it is shut down, or with the cache
  that is on its disk when it crashes. -/
  | restart {cache disk : Option ProposalCache} {p q : Primary S V} {transmissions : S}
      {l : CoreLedgerService V} {committee : Committee} {now : ℤ} {envs : ℕ → LoadEnv}
      {send : ConsensusSender V} : KeepStateRun E U g G cache p →
      disk = p.shutDown.1.or cache ∨ disk = cache → p.Reopens l now →
      (∀ c, disk = some c → Reloads g p c transmissions envs) → G.restart p disk transmissions l →
      l.currentCommittee = .ok committee → (∀ i, E.load (envs i)) → E.sender send →
      (new p.account (Storage.new committee transmissions g) true l).runBft now envs disk send
        = (.ok (), q) → KeepStateRun E U g G disk q

variable {E : Surroundings V} {G : Guard S V} {send : ConsensusSender V}
  {cache disk : Option ProposalCache}

lemma lt_of_bootup {account : Address} {b : BFT S V}
    (h : (BFT.new account (Storage.new committee transmissions g) l).bootup now = .ok b) :
    g < 2 ^ 32 := by
  obtain ⟨-, -, -, -, hmax⟩ := Storage.new_spec committee transmissions g
  by_contra hwide
  have hsync : (Storage.new committee transmissions g).syncStorageWithLedgerAtBootup l now
      = .error "out of range integral type conversion attempted" := by
    unfold Storage.syncStorageWithLedgerAtBootup
    rw [hmax, if_pos (Nat.not_lt.mp hwide)]
  unfold BFT.bootup at h
  dsimp only [BFT.new] at h
  rw [hsync] at h
  cases h

lemma runBft_ok (h : p.runBft now envs cache send = (.ok (), q)) :
    ∃ b, p.bft.bootup now = .ok b := by
  unfold runBft run at h
  dsimp only at h
  cases hboot : p.bft.bootup now with
  | ok b => exact ⟨b, rfl⟩
  | error e =>
    rw [hboot] at h
    cases h

/-- **A start that succeeds**: after bootup the cache is loaded, and then the state can be saved and
consensus listens. -/
lemma runBft_eq_ok {b : BFT S V} (hboot : p.bft.bootup now = .ok b)
    (h : p.runBft now envs cache send = (.ok (), q)) :
    ∃ r, ({ p with bftSender := true, bft := b } : Primary S V).loadProposalCache envs cache
        = (.ok (), r) ∧ q = { r with
          savePending := p.keepState
          bft := { r.bft with consensusSender := some send } } := by
  obtain ⟨x, r, hr, hcases⟩ := runBft_cases hboot envs cache send
  have halike := savesAlike_loadProposalCache envs cache { p with bftSender := true, bft := b }
  rw [hr] at halike
  rw [h] at hcases
  rcases hcases with ⟨stop, -, hcases⟩ | ⟨rfl, hcases⟩ <;> cases hcases
  refine ⟨r, hr, ?_⟩
  rw [halike.2]

/-- What holds along such runs. -/
structure Keeps (E : Surroundings V) (U : Universe) (g : ℕ) (cache : Option ProposalCache)
    (p : Primary S V) : Prop where
  narrow : g < 2 ^ 32
  kept : p.Kept U g
  saves : p.savePending = true
  lived : Lived E cache p
  saved : ∀ c, cache = some c → (∀ d ∈ c.pendingCertificates, U.Has d) ∧
    (c.pendingCertificates.map BatchCertificate.round).Pairwise (· ≤ ·)

/-- **A first start.** -/
lemma keeps_start (hE : ∀ send, E.sender send → send.Faithful ∧ send.KeepsCommittees)
    (hV : ChainInOrder V) (hS : StorageService.Restores S) {account : Address}
    (hl : chainCertificates l.blocks = []) (hcommittee : l.currentCommittee = .ok committee)
    (hload : ∀ i, E.load (envs i)) (hsend : E.sender send)
    (hrun : (new account (Storage.new committee transmissions g) true l).runBft now envs none send
      = (.ok (), p)) : Keeps E U g none p := by
  have hzero : l.latestRound = 0 := by
    obtain ⟨block, hblock, hround⟩ := hV.latest l
    rcases hV.anchor l block (List.mem_of_getElem? hblock) with hzero | ⟨c, hc, -⟩
    · omega
    · have hin : c ∈ chainCertificates l.blocks :=
        List.mem_flatMap.mpr ⟨block, List.mem_of_getElem? hblock, hc⟩
      rw [hl] at hin
      cases hin
  have hnew := BFT.whole_new (S := S) U (g := g) hl hzero (hV.committee l committee hcommittee)
    account transmissions
  have hresolved : BFT.Resolved now l := by
    refine ⟨fun c hc => ?_, fun block hblock c hc => ?_⟩
    · rw [hl] at hc
      cases hc
    · have hin : c ∈ chainCertificates l.blocks := List.mem_flatMap.mpr ⟨block, hblock, hc⟩
      rw [hl] at hin
      cases hin
  obtain ⟨b, hboot⟩ := runBft_ok hrun
  have hg := lt_of_bootup hboot
  obtain ⟨s, hboot, hs, -⟩ := hnew.bootup hV hS rfl hresolved hg hcommittee account transmissions
  obtain ⟨hwhole, -⟩ := hnew.booted hV rfl hs account
  have hlived : Lived E none p := .start ⟨committee, g, true, now, envs, send, _, hcommittee, hboot,
    hload, hsend, hrun⟩
  obtain ⟨r, hr, rfl⟩ := runBft_eq_ok hboot hrun
  cases hr
  exact ⟨hg, ⟨hwhole.listen fun s hs => by cases hs; exact hE send hsend, nofun⟩, rfl, hlived,
    fun c hc => by cases hc⟩

lemma Keeps.savedOver (hE : ∀ send, E.sender send → send.Faithful ∧ send.KeepsCommittees)
    (hsign : E.Meets ownSignatures) (hV : ChainInOrder V) (h : Keeps E U g cache p)
    (hdisk : disk = p.shutDown.1.or cache ∨ disk = cache) {c : ProposalCache}
    (hc : disk = some c) : SavedOver U p.account p.ledger c := by
  obtain ⟨horderly, hcache⟩ := h.lived.orderly hE hV.roundsInOrder
  obtain ⟨hown, hvalid⟩ := h.lived.valid hsign
  have hold : cache = some c → SavedOver U p.account p.ledger c := fun hc =>
    ⟨(hcache c hc).1, (hvalid c hc).2, (h.saved c hc).1, (hcache c hc).2, (h.saved c hc).2⟩
  rcases hdisk with rfl | rfl
  · rw [shutDown_saves h.saves horderly.proposal, Option.some_or] at hc
    cases hc
    exact h.kept.savedOver horderly hown
  · exact hold hc

/-- What a restart reaches: the blocks are synced and the cache is loaded. -/
structure Reloaded (U : Universe) (g : ℕ) (disk : Option ProposalCache)
    (l : CoreLedgerService V) (r : Primary S V) : Prop where
  whole : r.bft.Whole U g
  gcRound : r.storage.gcRound = max l.latestRound 1 - g
  stored : ∀ {c : BatchCertificate}, r.bft.Stored c → c ∈ chainCertificates l.blocks ∨
    ∃ cache, disk = some cache ∧ c ∈ cache.pendingCertificates
  done : ∀ {c : BatchCertificate}, (c ∈ chainCertificates l.blocks ∨
    ∃ cache, disk = some cache ∧ c ∈ cache.pendingCertificates) → r.storage.gcRound < c.round →
    r.bft.Stored c

/-- **A restart**, with or without a cache. -/
theorem Keeps.reloaded [LawfulLedger V]
    (hE : ∀ send, E.sender send → send.Faithful ∧ send.KeepsCommittees)
    (hsign : E.Meets ownSignatures) (hV : ChainInOrder V) (hS : StorageService.Restores S)
    (h : Keeps E U g cache p) (hdisk : disk = p.shutDown.1.or cache ∨ disk = cache)
    (hr : p.Reopens l now) (hloads : ∀ c, disk = some c → Reloads g p c transmissions envs)
    (hcommittee : l.currentCommittee = .ok committee) (keepState : Bool) :
    ∃ b r, (BFT.new p.account (Storage.new committee transmissions g) l).bootup now = .ok b ∧
      loadProposalCache envs disk
        { new p.account (Storage.new committee transmissions g) keepState l with
          bftSender := true, bft := b } = (.ok (), r) ∧ Reloaded U g disk l r := by
  cases disk with
  | none =>
    obtain ⟨s, hboot, hs, -⟩ := h.kept.whole.bootup hV hS hr.ledger hr.resolved h.narrow hcommittee
      p.account transmissions
    obtain ⟨hwhole, -⟩ := h.kept.whole.booted hV hr.ledger hs p.account
    exact ⟨_, _, hboot, rfl, hwhole, hs.gcRound, fun hc => .inl ((hs.mem _).mp hc).1,
      fun hc habove => (hs.mem _).mpr ⟨hc.resolve_right (by simp), habove⟩⟩
  | some c =>
    obtain ⟨b, r, hboot, hload, hlast⟩ := loads_over hV hS h.narrow h.kept.whole
      (h.savedOver hE hsign hV hdisk rfl) hr (hloads c rfl) hcommittee keepState
    exact ⟨b, r, hboot, hload, hlast.whole, hlast.gcRound, fun hc => (hlast.stored hc).imp_right
      fun hin => ⟨c, rfl, hin⟩, fun hc habove => hlast.done (hc.imp_right fun ⟨d, hd, hin⟩ => by
        cases hd
        exact hin) habove⟩

lemma Keeps.restart [LawfulLedger V]
    (hE : ∀ send, E.sender send → send.Faithful ∧ send.KeepsCommittees)
    (hsign : E.Meets ownSignatures) (hV : ChainInOrder V) (hS : StorageService.Restores S)
    (h : Keeps E U g cache p) (hdisk : disk = p.shutDown.1.or cache ∨ disk = cache)
    (hr : p.Reopens l now) (hloads : ∀ c, disk = some c → Reloads g p c transmissions envs)
    (hcommittee : l.currentCommittee = .ok committee) (hload : ∀ i, E.load (envs i))
    (hsend : E.sender send)
    (hrun : (new p.account (Storage.new committee transmissions g) true l).runBft now envs disk
      send = (.ok (), q)) : Keeps E U g disk q := by
  obtain ⟨b, r, hboot, hloaded, hlast⟩ :=
    h.reloaded hE hsign hV hS hdisk hr hloads hcommittee true
  have hsaved := fun c hc => h.savedOver (c := c) hE hsign hV hdisk hc
  have hblocks := CoreLedgerService.blocks_of_eq hr.ledger
  have hstarts : Starts E p.account transmissions l disk (.ok ()) q :=
    ⟨committee, g, true, now, envs, send, b, hcommittee, hboot, hload, hsend, hrun⟩
  -- the life goes on after the shutdown, or the crash
  have hlived : Lived E disk q := by
    rcases hdisk with rfl | rfl
    · have hshut : p.shutDown.2.ledger = p.ledger ∧ p.shutDown.2.account = p.account := by
        unfold shutDown
        split <;> exact ⟨rfl, rfl⟩
      exact h.lived.shutDown.reboot (hblocks.trans (by rw [hshut.1])) (hshut.2 ▸ hstarts)
    · exact h.lived.reboot hblocks hstarts
  obtain ⟨r', hr', rfl⟩ := runBft_eq_ok hboot hrun
  cases hr'.symm.trans hloaded
  exact ⟨h.narrow, ⟨hlast.whole.listen fun s hs => by cases hs; exact hE send hsend, nofun⟩, rfl,
    hlived, fun c hc => ⟨(hsaved c hc).has, (hsaved c hc).sorted⟩⟩

/-- **A run of a node that keeps its state** keeps its storage, its DAG and its ledger together. -/
theorem KeepStateRun.keeps [LawfulLedger V]
    (hE : ∀ send, E.sender send → send.Faithful ∧ send.KeepsCommittees)
    (hsign : E.Meets ownSignatures) (hV : ChainInOrder V) (hS : StorageService.Restores S)
    (h : KeepStateRun E U g G cache p) : Keeps E U g cache p := by
  induction h with
  | start _ hl hcommittee hload hsend hrun =>
    exact keeps_start hE hV hS hl hcommittee hload hsend hrun
  | @propose cache p env _ henv hmakes ih =>
    exact ⟨ih.narrow, ih.kept.proposeBatch hV.roundsInOrder hV.roundsAttained hmakes,
      (savesAlike_walk.proposeBatch env.meets_any p).1.trans ih.saves, ih.lived.propose env henv,
      ih.saved⟩
  | @increment cache p env _ henv hmakes ih =>
    exact ⟨ih.narrow, ih.kept.incrementTask hV.roundsInOrder hV.roundsAttained hmakes,
      (savesAlike_walk.incrementTask env.propose.meets_any p).1.trans ih.saves,
      ih.lived.increment env henv, ih.saved⟩
  | submit ready _ ih =>
    exact ⟨ih.narrow, ih.kept.of_bft rfl, ih.saves, ih.lived.submit ready, ih.saved⟩
  | @flag cache p _ ih =>
    have hwhole := ih.kept.whole
    refine ⟨ih.narrow, ⟨?_, ih.kept.listens⟩, ih.saves, ih.lived.flag, ih.saved⟩
    exact { hwhole.toTraced.ledger (l := { p.ledger with shutdown := true }) rfl with
      tidy := hwhole.tidy
      checked := fun {c} hc => (hwhole.checked hc).mono ⟨fun _ _ h => h, fun _ h => h⟩ le_rfl
        fun hd _ => hd
      gc := hwhole.gc
      sender := hwhole.sender }
  | restart _ hdisk hr hloads _ hcommittee hload hsend hrun ih =>
    exact ih.restart hE hsign hV hS hdisk hr hloads hcommittee hload hsend hrun

/-- **A reboot restores the storage.** -/
theorem storage_restored [LawfulLedger V]
    (hE : ∀ send, E.sender send → send.Faithful ∧ send.KeepsCommittees)
    (hsign : E.Meets ownSignatures) (hV : ChainInOrder V) (hS : StorageService.Restores S)
    (hrun : KeepStateRun E U g G cache p)
    (hfinished : Finished p.account p.ledger p.savedCache.pendingCertificates)
    (hr : p.Reopens l now)
    (hintact : ∀ c ∈ p.savedCache.pendingCertificates, ∀ t ∈ c.transmissionIds,
      StorageService.containsTransmission transmissions t = true)
    (hloads : ∀ i (hi : i < p.savedCache.pendingCertificates.length),
      (envs i).Succeeds p.savedCache.pendingCertificates[i])
    (hcommittee : l.currentCommittee = .ok committee) (keepState : Bool) :
    p.shutDown.1 = some p.savedCache ∧
    ∃ b q, (BFT.new p.account (Storage.new committee transmissions g) l).bootup now = .ok b ∧
      loadProposalCache envs p.shutDown.1
        { new p.account (Storage.new committee transmissions g) keepState l with
          bftSender := true, bft := b } = (.ok (), q) ∧
      q.storage.gcRound = max l.latestRound 1 - g ∧
      (∀ c : BatchCertificate, q.storage.gcRound < c.round →
        (q.bft.Stored c ↔ p.bft.Stored c)) ∧
      ∀ (k : ℕ) (block : Block) (c : BatchCertificate), l.blocks[k]? = some block →
        c ∈ block.certificates → q.storage.gcRound < c.round →
        l.latestBlockHeight - g / 2 ≤ k := by
  have h := hrun.keeps hE hsign hV hS
  have hsaved : p.shutDown.1 = some p.savedCache :=
    shutDown_saves h.saves (h.lived.orderly hE hV.roundsInOrder).1.proposal
  have hdisk : some p.savedCache = p.shutDown.1.or cache := by rw [hsaved, Option.some_or]
  obtain ⟨b, q, hboot, hloaded, hlast⟩ := h.reloaded hE hsign hV hS (.inl hdisk) hr
    (fun c hc => by cases hc; exact h.kept.reloads hfinished hintact hloads) hcommittee keepState
  have hblocks := CoreLedgerService.blocks_of_eq hr.ledger
  have hgc := hlast.gcRound
  refine ⟨hsaved, b, q, hboot, by rw [hsaved]; exact hloaded, hgc, fun c habove => ⟨fun hc => ?_,
    fun hc => ?_⟩, fun k block c hk hc habove => ?_⟩
  · rcases hlast.stored hc with hin | ⟨d, hd, hin⟩
    · refine h.kept.whole.stored c (hblocks ▸ hin) ?_
      have hold := h.kept.whole.gc
      rw [hgc, CoreLedgerService.latestRound_of_eq hr.ledger] at habove
      exact hold.trans_lt habove
    · cases hd
      exact h.kept.stored_of_pending hin
  · refine hlast.done ?_ habove
    rw [hblocks]
    exact (h.kept.pending hc).imp_right fun hin => ⟨_, rfl, hin⟩
  · refine hV.le_of_above l hk hc ?_
    rw [hgc] at habove
    omega

end Primary

/-! ### The development node -/

/-- A chain whose rounds are two or more apart, each that of the last certificates of its block. -/
structure SpacedChain where
  chain : Chain
  height : (chain.blocks.getLast?.map Block.height).getD 0 + 1 = chain.blocks.length
  apart : (chain.blocks.map Block.round).Pairwise fun m n => m + 2 ≤ n
  anchored : ∀ block ∈ chain.blocks, (∀ c ∈ block.certificates, c.round ≤ block.round) ∧
    (block.round = 0 ∨ ∃ c ∈ block.certificates, c.round = block.round)

namespace SpacedChain

instance : Ledger SpacedChain where
  blocks v := v.chain.blocks
  latestCommittee v := Ledger.latestCommittee v.chain
  getCommitteeForRound v := Ledger.getCommitteeForRound v.chain
  containsCertificate v := Ledger.containsCertificate v.chain
  containsSolutionId v := Ledger.containsSolutionId v.chain
  containsTransactionId v := Ledger.containsTransactionId v.chain
  getSolution v := Ledger.getSolution v.chain
  getUnconfirmedTransaction v := Ledger.getUnconfirmedTransaction v.chain
  prepareAdvanceToNextQuorumBlock v := Ledger.prepareAdvanceToNextQuorumBlock v.chain
  advanceToNextBlock v block :=
    match Ledger.advanceToNextBlock v.chain block with
    | .error e => .error e
    | .ok chain =>
      if h : (chain.blocks.getLast?.map Block.height).getD 0 + 1 = chain.blocks.length ∧
          ((chain.blocks.map Block.round).Pairwise fun m n => m + 2 ≤ n) ∧
          ∀ block ∈ chain.blocks, (∀ c ∈ block.certificates, c.round ≤ block.round) ∧
            (block.round = 0 ∨ ∃ c ∈ block.certificates, c.round = block.round) then
        .ok ⟨chain, h.1, h.2.1, h.2.2⟩
      else .error s!"Block {block.height} does not fit its round"

instance : LawfulLedger SpacedChain where
  containsCertificate_ok h := LawfulLedger.containsCertificate_ok (V := Chain) h
  prepare_authority h := LawfulLedger.prepare_authority (V := Chain) h
  advance_blocks {v w b} h := by
    simp only [Ledger.advanceToNextBlock] at h
    split at h
    · cases h
    next chain hchain =>
    split at h
    · cases h
      exact LawfulLedger.advance_blocks (V := Chain) hchain
    · cases h

lemma chainInOrder : ChainInOrder SpacedChain where
  height l := l.ledger.height
  apart l := l.ledger.apart
  round_le l block hblock := (l.ledger.anchored block hblock).1
  anchor l block hblock := (l.ledger.anchored block hblock).2
  committee l committee h := by
    cases h
    exact Nat.zero_le _

lemma processBftSubdag_keepsCommittees :
    let _ := developmentNetwork
    ConsensusSender.KeepsCommittees (processBftSubdag (V := SpacedChain)) :=
  fun _ _ _ _ _ h => h

end SpacedChain

section Example

/-- The ledger service over the first block. -/
def spacedLedger : CoreLedgerService SpacedChain :=
  ⟨⟨⟨[genesis]⟩, by decide +kernel, by decide +kernel, by decide +kernel⟩, none, false⟩

/-- The development node, new over a chain. -/
def newKeeper (g : ℕ) (transmissions : BFTPersistentStorage) (l : CoreLedgerService SpacedChain) :
    Primary BFTPersistentStorage SpacedChain :=
  Primary.new (developmentAccount 0) (Storage.new developmentCommittee transmissions g) true l

/-- It is started with a proposal cache. -/
def startedKeeper (g : ℕ) (transmissions : BFTPersistentStorage)
    (l : CoreLedgerService SpacedChain) (cache : Option ProposalCache) (round : ℕ) :
    Except Stop Unit × Primary BFTPersistentStorage SpacedChain :=
  let _ := developmentNetwork
  (newKeeper g transmissions l).runBft (10 * round) (fun _ => loads round) cache processBftSubdag

/-- It is started over the first block. -/
def firstKeeper (g : ℕ) : Except Stop Unit × Primary BFTPersistentStorage SpacedChain :=
  startedKeeper g (BFTPersistentStorage.new 4 50) spacedLedger none 0

/-- The node after some calls of `propose_batch`. -/
def keeperCalls (n : ℕ) : Primary BFTPersistentStorage SpacedChain :=
  let _ := developmentNetwork
  (List.range n).foldl (fun p i => p.proposeTask (proposes (i + 1))) (firstKeeper 100).2

/-- The node after the block of round 2. -/
def keeper : Primary BFTPersistentStorage SpacedChain := keeperCalls 5

/-- The surroundings of the node. -/
def keeperSurroundings : Surroundings SpacedChain :=
  ⟨fun env => env.Meets ownSignatures, fun env => env.propose.Meets ownSignatures,
    fun env => env.Meets ownSignatures, fun send => send = processBftSubdag⟩

/-- Nothing is asked of the transmissions that are kept. -/
def anyGuard : Primary.Guard BFTPersistentStorage SpacedChain :=
  ⟨fun _ => True, fun _ _ _ _ => True⟩

lemma firstKeeper_run {g : ℕ} {G : Primary.Guard BFTPersistentStorage SpacedChain}
    (hG : G.start (BFTPersistentStorage.new 4 50)) (hok : (firstKeeper g).1 = .ok ()) :
    let _ := developmentNetwork
    Primary.KeepStateRun keeperSurroundings steadyUniverse g G none (firstKeeper g).2 := by
  intro _
  have hrun : (newKeeper g (BFTPersistentStorage.new 4 50) spacedLedger).runBft 0
      (fun _ => loads 0) none processBftSubdag = (.ok (), (firstKeeper g).2) := Prod.ext hok rfl
  exact .start hG (by decide +kernel) rfl (fun _ => ⟨proposes_meets 0, trivial⟩) rfl hrun

lemma keeperCalls_run : let _ := developmentNetwork
    ∀ n ≤ 5, Primary.KeepStateRun keeperSurroundings steadyUniverse 100 anyGuard none
      (keeperCalls n) := by
  intro _ n hn
  have hok : (firstKeeper 100).1 = .ok () := by decide +kernel
  have hmakes : ∀ i < 5, makesSteadily (i + 1) (keeperCalls i) = true ∧
      (keeperCalls i).account = developmentAccount 0 ∧
      (keeperCalls i).ready.numTransmissions = 0 := by decide +kernel
  induction n with
  | zero => exact firstKeeper_run trivial hok
  | succ n ih =>
    obtain ⟨hsteady, haccount, hready⟩ := hmakes n hn
    have hmakesIn := makesIn_of_makesSteadily hsteady haccount hready
      fun _ _ _ hcommittee => (Except.ok.inj hcommittee).symm
    have hnext : keeperCalls (n + 1) = (keeperCalls n).proposeTask (proposes (n + 1)) := by
      rw [keeperCalls, List.range_succ, List.foldl_append]
      rfl
    rw [hnext]
    exact (ih (by omega)).propose (proposes (n + 1)) (proposes_meets (n + 1)) hmakesIn

lemma reopens_again {p : Primary BFTPersistentStorage SpacedChain} {now : ℤ}
    (hchain : ∀ c ∈ chainCertificates p.ledger.blocks,
      c.timestamp ≤ now ∧ c.transmissionIds.toList = []) :
    p.Reopens ⟨p.ledger.ledger, none, false⟩ now := by
  refine ⟨rfl, rfl, fun c hc => ?_, fun block hblock c hc t ht => ?_⟩
  · have hle := (hchain c hc).1
    rw [maxTimestampDeltaInSecs]
    omega
  · rw [IndexSet.mem_def, (hchain c (List.mem_flatMap.mpr ⟨block, hblock, hc⟩)).2] at ht
    cases ht

/-- The node is stopped after its block. The three certificates of round 2 that are in no block and
those of round 3 are pending, and all are stored again. -/
theorem storage_restored_example :
    let _ := developmentNetwork
    (chainCertificates keeper.ledger.blocks).map BatchCertificate.round = [1, 1, 1, 1, 2] ∧
    keeper.savedCache.pendingCertificates.map BatchCertificate.round = [2, 2, 2, 3, 3, 3, 3] ∧
    ∃ b q, (newKeeper 100 (keeper.storage.transmissions.reopen 4 50)
        ⟨keeper.ledger.ledger, none, false⟩).bft.bootup 60 = .ok b ∧
      Primary.loadProposalCache (fun _ => loads 6) keeper.shutDown.1
        { newKeeper 100 (keeper.storage.transmissions.reopen 4 50)
            ⟨keeper.ledger.ledger, none, false⟩ with
          bftSender := true, bft := b } = (.ok (), q) ∧
      q.storage.gcRound = 0 ∧
      ∀ c : BatchCertificate, 0 < c.round → (q.bft.Stored c ↔ keeper.bft.Stored c) := by
  let _ := developmentNetwork
  have hrun : Primary.KeepStateRun keeperSurroundings steadyUniverse 100 anyGuard none keeper :=
    keeperCalls_run 5 le_rfl
  obtain ⟨hblocks, hrounds, hpending, hchain, hlatest, haccount⟩ :
      (chainCertificates keeper.ledger.blocks).map BatchCertificate.round = [1, 1, 1, 1, 2] ∧
      keeper.savedCache.pendingCertificates.map BatchCertificate.round = [2, 2, 2, 3, 3, 3, 3] ∧
      (∀ c ∈ keeper.savedCache.pendingCertificates,
        c.timestamp ≤ 60 ∧ c.transmissionIds.toList = []) ∧
      (∀ c ∈ chainCertificates keeper.ledger.blocks,
        c.timestamp ≤ 60 ∧ c.transmissionIds.toList = []) ∧
      keeper.ledger.latestRound = 2 ∧ keeper.account = developmentAccount 0 := by
    decide +kernel
  have hfinished : Finished keeper.account keeper.ledger keeper.savedCache.pendingCertificates := by
    intro leader hleader _ heven hlater
    have hround : leader.round ∈ keeper.savedCache.pendingCertificates.map BatchCertificate.round :=
      List.mem_map_of_mem hleader
    rw [hrounds] at hround
    simp at hround
    omega
  have hintact : ∀ c ∈ keeper.savedCache.pendingCertificates, ∀ t ∈ c.transmissionIds,
      StorageService.containsTransmission (keeper.storage.transmissions.reopen 4 50) t = true := by
    intro c hc t ht
    rw [IndexSet.mem_def, (hpending c hc).2] at ht
    cases ht
  have hloads : ∀ i (hi : i < keeper.savedCache.pendingCertificates.length),
      (loads 6).Succeeds keeper.savedCache.pendingCertificates[i] := by
    refine fun i hi => ⟨⟨rfl, ⟨_, rfl⟩, rfl⟩, rfl, rfl, ?_⟩
    have hle := (hpending _ (List.getElem_mem hi)).1
    rw [maxTimestampDeltaInSecs]
    dsimp only [loads]
    omega
  obtain ⟨-, b, q, hboot, hload, hgc, hstored, -⟩ := Primary.storage_restored
    (fun send hsend => by
      rw [show send = processBftSubdag from hsend]
      exact ⟨processBftSubdag_faithful, SpacedChain.processBftSubdag_keepsCommittees⟩)
    ⟨fun _ h => h, fun _ h => h, fun _ h => h⟩ SpacedChain.chainInOrder
    BFTPersistentStorage.restores hrun hfinished (reopens_again hchain) hintact hloads rfl true
  have hlatest' : (⟨keeper.ledger.ledger, none, false⟩ :
      CoreLedgerService SpacedChain).latestRound = 2 := hlatest
  have hzero : q.storage.gcRound = 0 := by
    rw [hgc, hlatest']
    rfl
  rw [haccount] at hboot hload
  exact ⟨hblocks, hrounds, b, q, hboot, hload, hzero, fun c hc => hstored c (hzero ▸ hc)⟩

/-- Where no round is kept, the GC round after a restart over the first block is `1`. -/
theorem gcRound_of_no_rounds :
    let _ := developmentNetwork
    Primary.KeepStateRun keeperSurroundings steadyUniverse 0 anyGuard none (firstKeeper 0).2 ∧
    (firstKeeper 0).2.savedCache.pendingCertificates = [] ∧
    (firstKeeper 0).2.Reopens ⟨(firstKeeper 0).2.ledger.ledger, none, false⟩ 20 ∧
    (startedKeeper 0 ((firstKeeper 0).2.storage.transmissions.reopen 4 50)
      ⟨(firstKeeper 0).2.ledger.ledger, none, false⟩ (firstKeeper 0).2.shutDown.1 2).1 = .ok () ∧
    (startedKeeper 0 ((firstKeeper 0).2.storage.transmissions.reopen 4 50)
      ⟨(firstKeeper 0).2.ledger.ledger, none, false⟩
      (firstKeeper 0).2.shutDown.1 2).2.storage.gcRound = 1 ∧
    (firstKeeper 0).2.ledger.latestRound - 0 = 0 := by
  intro _
  obtain ⟨hok, hpending, hchain⟩ : (firstKeeper 0).1 = .ok () ∧
      (firstKeeper 0).2.savedCache.pendingCertificates = [] ∧
      chainCertificates (firstKeeper 0).2.ledger.blocks = [] := by
    decide +kernel
  refine ⟨firstKeeper_run trivial hok, hpending, reopens_again fun c hc => ?_, ?_⟩
  · cases hchain ▸ hc
  decide +kernel

end Example

end AmareleoChain
