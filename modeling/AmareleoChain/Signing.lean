import AmareleoChain.Persisting
import AmareleoChain.Restored

/-!
The headers that are asked for.

A call of `propose_batch` asks `BatchHeader::new` for a header of the node, and then for one of
each other validator. The round is locked before the first is asked for, and a restart takes the
lock from the proposal cache. So nobody is the author of two headers of one round, whatever fails
or is aborted.
-/

namespace AmareleoChain

/-- The four accounts are different, and only the first can be that of the node. -/
def Manner.separate (account : Address) : Manner where
  receipt _ := True
  sign _ _ := True
  accounts allAcc := Function.Injective allAcc ∧ ∀ vid, vid.val ≠ 0 → allAcc vid ≠ account

namespace Primary

variable {S V : Type} [StorageService S] [Network] [Ledger V] {p q r : Primary S V}
  {account : Address}

/-! ### From one lock to the next -/

/-- Between the two primaries headers were asked for: each is of a round that was locked, and those
of one author are of higher and higher rounds. -/
structure Asks (p q : Primary S V) : Prop where
  headers : ∃ h, q.headers = p.headers ++ h ∧
    (∀ x ∈ h, p.proposeLock < x.round ∧ x.round ≤ q.proposeLock) ∧
    h.Pairwise fun x y => x.author = y.author → x.round < y.round
  lock : p.proposeLock ≤ q.proposeLock
  account : q.account = p.account
  idle : p.KeepsIdle q

omit [StorageService S] [Network] [Ledger V] in
lemma Asks.trans (hpq : Asks p q) (hqr : Asks q r) : Asks p r where
  headers := by
    obtain ⟨h, hheaders, hlocked, honce⟩ := hpq.headers
    obtain ⟨h', hheaders', hlocked', honce'⟩ := hqr.headers
    have hlock := hpq.lock
    have hlock' := hqr.lock
    refine ⟨h ++ h', by rw [hheaders', hheaders, List.append_assoc], fun x hx => ?_, ?_⟩
    · rcases List.mem_append.mp hx with hx | hx
      · have hround := hlocked x hx
        omega
      · have hround := hlocked' x hx
        omega
    · refine List.pairwise_append.mpr ⟨honce, honce', fun x hx y hy _ => ?_⟩
      exact (hlocked x hx).2.trans_lt (hlocked' y hy).1
  lock := hpq.lock.trans hqr.lock
  account := hqr.account.trans hpq.account
  idle := hqr.idle ∘ hpq.idle

omit [StorageService S] [Network] [Ledger V] in
lemma SameBatches.asks (hsame : p.SameBatches q) (hidle : p.KeepsIdle q) : Asks p q where
  headers := ⟨[], by rw [hsame.headers, List.append_nil],
    fun _ hx => absurd hx List.not_mem_nil, .nil⟩
  lock := hsame.lock.ge
  account := hsame.account
  idle := hidle

omit [StorageService S] [Network] [Ledger V] in
lemma SameWork.asks (hsame : p.SameWork q) : Asks p q := hsame.sameBatches.asks hsame.keepsIdle

/-! ### The empty batches -/

lemma headers_signProposal (env : Certification) (primaryAcc : Address) (round : ℕ)
    (batchId : Field) (ourSign : Signature) (c : BatchCertificate) (p : Primary S V) :
    (p.signProposal env primaryAcc round batchId ourSign c).2.headers = p.headers := by
  unfold signProposal
  split
  · rfl
  · exact (sameWork_updateBft env.toReceipt c _).sameBatches.headers

/-- Headers of a round are asked for: of some accounts, in their order, one of each at most. -/
def Requests (round : ℕ) (authors : List Address) (p q : Primary S V) : Prop :=
  ∃ h, q.headers = p.headers ++ h ∧ (∀ x ∈ h, x.round = round) ∧
    (h.map HeaderRequest.author).Sublist authors

omit [StorageService S] [Network] [Ledger V] in
lemma Requests.of_same {round : ℕ} (authors : List Address) (h : q.headers = p.headers) :
    Requests round authors p q :=
  ⟨[], by rw [h, List.append_nil], fun _ hx => absurd hx List.not_mem_nil, List.nil_sublist _⟩

omit [StorageService S] [Network] [Ledger V] in
lemma Requests.trans {round : ℕ} {authors authors' : List Address} {r : Primary S V}
    (h : Requests round authors p q) (h' : Requests round authors' q r) :
    Requests round (authors ++ authors') p r := by
  obtain ⟨hs, hheaders, hround, hauthors⟩ := h
  obtain ⟨hs', hheaders', hround', hauthors'⟩ := h'
  refine ⟨hs ++ hs', ?_, ?_, ?_⟩
  · rw [hheaders', hheaders, List.append_assoc]
  · exact List.forall_mem_append.mpr ⟨hround, hround'⟩
  · rw [List.map_append]
    exact hauthors.append hauthors'

lemma requests_fakeProposal (env : Certification) (primaryAcc : Address) (otherAcc : List Address)
    (round : ℕ) (p : Primary S V) :
    Requests round [primaryAcc] p (p.fakeProposal env primaryAcc otherAcc round).2 := by
  have hasked : Requests round [primaryAcc] p (p.askHeader primaryAcc round) :=
    ⟨[⟨primaryAcc, round⟩], rfl, List.forall_mem_singleton.mpr rfl, List.Sublist.refl _⟩
  rcases fakeProposal_cases env primaryAcc otherAcc round p with
    ⟨stop, q, hres, rfl | rfl⟩ | ⟨c, t, signature, -, hres⟩ <;> rw [hres]
  · exact .of_same _ rfl
  · exact hasked
  -- the certificate is stored, and the batch is signed
  have hinserted := (sameWork_insertCertificate env.toReceipt c t
    (p.askHeader primaryAcc round)).sameBatches.headers
  exact hasked.trans (.of_same [] (andThen_rel (R := fun p q : Primary S V =>
    q.headers = p.headers) (fun h h' => h'.trans h) hinserted fun _ q _ =>
      headers_signProposal _ _ _ _ _ _ q))

lemma requests_fakeProposals (env : ProposeEnv) (allAcc : Fin 4 → Address) (round : ℕ)
    (vids : List (Fin 4)) (p : Primary S V) :
    Requests round (vids.map allAcc) p (p.fakeProposals env allAcc round vids).2 := by
  induction vids generalizing p with
  | nil => exact .of_same _ rfl
  | cons vid vids ih =>
    have hone := requests_fakeProposal (env.fake vid) (allAcc vid)
      ((List.ofFn allAcc).filter (· ≠ allAcc vid)) round p
    rw [fakeProposals]
    rcases hres : p.fakeProposal (env.fake vid) (allAcc vid)
      ((List.ofFn allAcc).filter (· ≠ allAcc vid)) round with ⟨_ | _, q⟩ <;> rw [hres] at hone
    · exact hone.trans (.of_same _ rfl)
    · exact hone.trans (ih q)

/-- **The batches of the validators** ask for headers of the round that is locked, one of each
validator at most. -/
theorem asks_fakeProposals {allAcc : Fin 4 → Address} {round : ℕ} (env : ProposeEnv)
    (haccounts : (Manner.separate p.account).accounts allAcc) (hround : round ≠ 0)
    (hlite : p.proposeBatchLite env.lite [allAcc 1, allAcc 2, allAcc 3] true = (.ok round, q))
    (hpq : Asks p q) : Asks p (q.fakeProposals env allAcc round [1, 2, 3]).2 := by
  obtain ⟨hinjective, hother⟩ := haccounts
  obtain ⟨-, hahead, hlock, -, -, hown, -⟩ := proposeBatchLite_ok hround hlite
  obtain ⟨h, hheaders, hrounds, hauthors⟩ := requests_fakeProposals env allAcc round [1, 2, 3] q
  obtain ⟨hkept, haccount, hidle⟩ := fakeProposals_rel (R := fun p q : Primary S V =>
      q.proposeLock = p.proposeLock ∧ q.account = p.account ∧ p.KeepsIdle q)
    (fun h h' => ⟨h'.1.trans h.1, h'.2.1.trans h.2.1, h'.2.2 ∘ h.2.2⟩)
    (fun h => ⟨h.sameBatches.lock, h.sameBatches.account, h.keepsIdle⟩)
    (fun _ _ _ => ⟨rfl, rfl, id⟩) env allAcc round [1, 2, 3] q
  have hall : ∀ x ∈ (⟨p.account, round⟩ :: h : List HeaderRequest), x.round = round :=
    List.forall_mem_cons.mpr ⟨rfl, hrounds⟩
  refine ⟨⟨⟨p.account, round⟩ :: h, ?_, fun x hx => ?_, ?_⟩, ?_, haccount.trans hpq.account,
    hidle ∘ hpq.idle⟩
  · rw [hheaders, hown, List.append_assoc, List.singleton_append]
  · have hx := hall x hx
    omega
  · -- the authors are different
    have hnd : ((⟨p.account, round⟩ :: h : List HeaderRequest).map HeaderRequest.author).Nodup := by
      rw [List.map_cons, List.nodup_cons]
      refine ⟨fun hmem => ?_, hauthors.nodup ?_⟩
      · obtain ⟨vid, hvid, heq⟩ := List.mem_map.mp (hauthors.subset hmem)
        refine hother vid (fun hzero => ?_) heq
        obtain rfl : vid = 0 := Fin.ext hzero
        simp at hvid
      · exact (by decide : ([1, 2, 3] : List (Fin 4)).Nodup).map hinjective
    exact (List.pairwise_map.mp hnd).imp fun hne heq => absurd heq hne
  · omega

/-- **Every step of the primary** asks for headers of the rounds that it locks. -/
theorem asks_walk : BatchWalk (S := S) (V := V) (.separate account) (fun _ => True)
    fun p q => p.account = account → Asks p q where
  refl p _ := SameWork.asks (.refl p)
  trans h h' ha := (h ha).trans (h' ((h ha).account.trans ha))
  round sent now round p _ := (sameWork_round sent now round p).asks
  increment _ _ _ := SameBatches.asks ⟨rfl, rfl, rfl, rfl⟩ id
  clear _ _ := SameBatches.asks ⟨rfl, rfl, rfl, rfl⟩ fun _ => rfl
  work _ _ _ _ := SameBatches.asks ⟨rfl, rfl, rfl, rfl⟩ id
  lock p round hround _ := by
    refine ⟨⟨[⟨p.account, round⟩], rfl, fun x hx => ?_, List.pairwise_singleton _ _⟩, hround.le,
      rfl, id⟩
    rw [List.mem_singleton.mp hx]
    exact ⟨hround, le_rfl⟩
  store env c t p _ _ _ := (sameWork_store env c t p).asks
  fakes {env _ _ _ _} _ haccounts hround hlite hpq ha :=
    asks_fakeProposals env (ha ▸ haccounts) hround hlite (hpq ha)

/-! ### Runs -/

/-- A node that keeps its state, with the headers that were asked for before its last start. It
starts without a cache, its worker gets transmissions and its tasks run, and it is stopped at any
moment and starts again with the cache that it saved. -/
inductive SigningRun (E : Surroundings V) (account : Address) :
    List HeaderRequest → Primary S V → Prop
  | start {committee : Committee} {transmissions : S} {maxGcRounds : ℕ} {l : CoreLedgerService V}
      {now : ℤ} {envs : ℕ → LoadEnv} {send : ConsensusSender V} {p : Primary S V} :
      (new account (Storage.new committee transmissions maxGcRounds) true l).runBft now envs none
        send = (.ok (), p) → SigningRun E account [] p
  | propose {h : List HeaderRequest} {p : Primary S V} (env : ProposeEnv) :
      SigningRun E account h p → E.propose env → SigningRun E account h (p.proposeTask env)
  | increment {h : List HeaderRequest} {p : Primary S V} (env : IncrementEnv) :
      SigningRun E account h p → E.increment env → SigningRun E account h (p.incrementTask env)
  /-- The worker gets transmissions, or drops some. -/
  | submit {h : List HeaderRequest} {p : Primary S V} (ready : Ready) :
      SigningRun E account h p → SigningRun E account h { p with ready }
  /-- The shutdown flag is raised. -/
  | flag {h : List HeaderRequest} {p : Primary S V} : SigningRun E account h p →
      SigningRun E account h { p with
        bft := { p.bft with ledger := { p.ledger with shutdown := true } } }
  | restart {h : List HeaderRequest} {p q : Primary S V} {cache : ProposalCache}
      {committee : Committee} {transmissions : S} {maxGcRounds : ℕ} {l : CoreLedgerService V}
      {now : ℤ} {envs : ℕ → LoadEnv} {send : ConsensusSender V} :
      SigningRun E account h p → p.shutDown.1 = some cache → (∀ i, E.load (envs i)) →
      (new account (Storage.new committee transmissions maxGcRounds) true l).runBft now envs
        (some cache) send = (.ok (), q) →
      SigningRun E account (h ++ p.headers) q

/-- What holds along such runs: no header is above the lock, and those of one author are of higher
and higher rounds. -/
structure Signs (account : Address) (h : List HeaderRequest) (p : Primary S V) : Prop where
  locked : ∀ x ∈ h ++ p.headers, x.round ≤ p.proposeLock
  once : (h ++ p.headers).Pairwise fun x y => x.author = y.author → x.round < y.round
  account : p.account = account
  idle : p.proposedBatch = none

variable {E : Surroundings V} {h : List HeaderRequest}

omit [StorageService S] [Network] [Ledger V] in
lemma Signs.asks (hs : Signs account h p) (ha : Asks p q) : Signs account h q := by
  obtain ⟨h', hheaders, hlocked, honce⟩ := ha.headers
  refine ⟨fun x hx => ?_, ?_, ha.account.trans hs.account, ha.idle hs.idle⟩
  · rw [hheaders, ← List.append_assoc] at hx
    rcases List.mem_append.mp hx with hx | hx
    · exact (hs.locked x hx).trans ha.lock
    · exact (hlocked x hx).2
  · rw [hheaders, ← List.append_assoc]
    refine List.pairwise_append.mpr ⟨hs.once, honce, fun x hx y hy _ => ?_⟩
    exact (hs.locked x hx).trans_lt (hlocked y hy).1

lemma account_bootup {b b' : BFT S V} {now : ℤ} (h : b.bootup now = .ok b') :
    b'.account = b.account := by
  unfold BFT.bootup at h
  split at h
  · cases h
  · cases h
    rfl

/-- A restart takes over the lock. -/
lemma Signs.restart (hs : Signs account h p) {cache : ProposalCache}
    (hsaved : p.shutDown.1 = some cache) {r : Primary S V} {now : ℤ} {envs : ℕ → LoadEnv}
    {send : ConsensusSender V} (henvs : ∀ i, (envs i).Meets (.separate account))
    (haccount : r.account = account) (hnone : r.headers = [])
    (hstart : r.runBft now envs (some cache) send = (.ok (), q)) :
    Signs account (h ++ p.headers) q := by
  obtain ⟨b, hboot⟩ := runBft_ok hstart
  obtain ⟨q₀, hload, rfl⟩ := runBft_eq_ok hboot hstart
  have hlock : cache.latestRound = p.proposeLock ∧ cache.proposal = none := by
    unfold shutDown at hsaved
    split at hsaved
    · cases hsaved
      rw [hs.idle]
      exact ⟨rfl, rfl⟩
    · cases hsaved
  unfold loadProposalCache at hload
  dsimp only at hload
  split at hload
  swap
  · cases hload
  have htaken : Signs account (h ++ p.headers) { r with
      bft := b, bftSender := true, proposedBatch := cache.proposal
      signedProposals := cache.signedProposals, proposeLock := cache.latestRound } := by
    refine ⟨fun x hx => ?_, ?_, (account_bootup hboot).trans haccount, hlock.2⟩
    · rw [hnone, List.append_nil] at hx
      exact (hs.locked x hx).trans hlock.1.ge
    · rw [hnone, List.append_nil]
      exact hs.once
  have hasks := asks_walk.loadCertificates henvs 0
    (fun _ (_ : _ ∈ cache.pendingCertificates) => trivial) _ htaken.account
  rw [hload] at hasks
  have hsigns := htaken.asks hasks
  exact ⟨hsigns.locked, hsigns.once, hsigns.account, hsigns.idle⟩

/-- **Nobody is the author of two headers of one round.** Of the headers that `BatchHeader::new` is
asked for along the run of a node that keeps its state, those of one author are of higher and
higher rounds, whatever fails or is aborted, and over any number of restarts. -/
theorem signs_once (hE : E.Meets (.separate account)) (hrun : SigningRun E account h p) :
    (h ++ p.headers).Pairwise fun x y => x.author = y.author → x.round < y.round := by
  suffices hsigns : Signs account h p from hsigns.once
  induction hrun with
  | start hstart =>
    obtain ⟨b, hboot⟩ := runBft_ok hstart
    obtain ⟨q, hload, rfl⟩ := runBft_eq_ok hboot hstart
    cases hload
    exact ⟨fun _ hx => absurd hx List.not_mem_nil, .nil, account_bootup hboot, rfl⟩
  | @propose h p env _ henv ih =>
    exact ih.asks (asks_walk.proposeBatch (hE.propose env henv) p ih.account)
  | @increment h p env _ henv ih =>
    exact ih.asks (asks_walk.incrementTask (hE.increment env henv) p ih.account)
  | submit ready _ ih => exact ⟨ih.locked, ih.once, ih.account, ih.idle⟩
  | flag _ ih => exact ⟨ih.locked, ih.once, ih.account, ih.idle⟩
  | restart _ hsaved henvs hstart ih =>
    exact ih.restart hsaved (fun i => hE.load _ (henvs i)) rfl rfl hstart

end Primary

section Example

/-- What the development node meets. -/
def signingSurroundings : Surroundings Chain :=
  ⟨fun env => ∃ round, env = proposes round, fun _ => False, fun env => ∃ round, env = loads round,
    fun _ => True⟩

lemma signingSurroundings_meets : signingSurroundings.Meets (.separate (developmentAccount 0)) := by
  have hproposes : ∀ round, (proposes round).Meets (.separate (developmentAccount 0)) := by
    refine fun round => ⟨fun allAcc h => ?_, ⟨trivial, fun _ _ _ => trivial⟩,
      fun _ => ⟨trivial, fun _ _ _ => trivial⟩⟩
    cases h
    exact ⟨by decide, by decide⟩
  constructor
  · rintro env ⟨round, rfl⟩
    exact hproposes round
  · exact fun _ h => (h : False).elim
  · rintro env ⟨round, rfl⟩
    exact ⟨hproposes round, trivial⟩

/-- A node that asked for the headers of the first round. -/
def signedNode : Primary BFTMemoryService Chain :=
  proposedNode 1 (startedNode (developmentLedger [genesis]) none 1).2

/-- The same node after a restart. -/
def signedAgainNode : Primary BFTMemoryService Chain :=
  (startedNode ⟨signedNode.ledger.ledger, none, false⟩ (some signedNode.savedCache) 2).2

theorem signs_once_example :
    ((signedNode.headers ++ (proposedNode 4 (proposedNode 3 signedAgainNode)).headers).map
      fun x => (x.author.val, x.round))
      = [(0, 1), (1, 1), (2, 1), (3, 1), (0, 2), (1, 2), (2, 2), (3, 2)] ∧
    (signedNode.headers ++ (proposedNode 4 (proposedNode 3 signedAgainNode)).headers).Pairwise
      fun x y => x.author = y.author → x.round < y.round := by
  let _ := developmentNetwork
  have hstarts : (newNode (developmentLedger [genesis])).runBft 10 (fun _ => loads 1) none
      processBftSubdag = (.ok (), (startedNode (developmentLedger [genesis]) none 1).2) :=
    Prod.ext (by decide +kernel) rfl
  have hstart : Primary.SigningRun signingSurroundings (developmentAccount 0) [] _ := .start hstarts
  have hsigned : Primary.SigningRun signingSurroundings (developmentAccount 0) _ signedNode :=
    hstart.propose (proposes 1) ⟨1, rfl⟩
  have hsaved : signedNode.shutDown.1 = some signedNode.savedCache :=
    Primary.shutDown_saves (by decide +kernel) (Option.isNone_iff_eq_none.mp (by decide +kernel))
  have hrestarts : (newNode ⟨signedNode.ledger.ledger, none, false⟩).runBft 20 (fun _ => loads 2)
      (some signedNode.savedCache) processBftSubdag = (.ok (), signedAgainNode) :=
    Prod.ext (by decide +kernel) rfl
  have hrestart := hsigned.restart hsaved (fun _ => ⟨2, rfl⟩) hrestarts
  have hrun := (hrestart.propose (proposes 3) ⟨3, rfl⟩).propose (proposes 4) ⟨4, rfl⟩
  exact ⟨by decide +kernel, Primary.signs_once signingSurroundings_meets hrun⟩

end Example

end AmareleoChain
