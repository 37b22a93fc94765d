import AmareleoChain.Onward
import AmareleoChain.Producing

/-!
What holds of a node at any time of its life.

Each stored certificate is by a member of the committee of its round, and is of a round that was
locked, or in a block. Of a saved proposal cache the same holds.
-/

namespace AmareleoChain

open Std

/-! ### Ledgers that grow -/

/-- The committees that were known stay, and so do the certificates in the blocks. -/
structure CoreLedgerService.Grows {V : Type} [Ledger V] [Network] (l l' : CoreLedgerService V) :
    Prop where
  committees : ∀ (r : ℕ) (committee : Committee), l.getCommitteeLookbackForRound r = .ok committee →
    l'.getCommitteeLookbackForRound r = .ok committee
  blocks : ∀ c ∈ chainCertificates l.blocks, c ∈ chainCertificates l'.blocks

/-- Consensus keeps the committees of the rounds. -/
def ConsensusSender.KeepsCommittees {V : Type} [Ledger V] [Network] (send : ConsensusSender V) :
    Prop :=
  ∀ l subdag transmissions (r : ℕ) (committee : Committee),
    l.getCommitteeLookbackForRound r = .ok committee →
    (send l subdag transmissions).2.getCommitteeLookbackForRound r = .ok committee

section Grows

variable {V : Type} [Ledger V] [Network]

lemma CoreLedgerService.Grows.refl (l : CoreLedgerService V) : l.Grows l :=
  ⟨fun _ _ h => h, fun _ h => h⟩

lemma CoreLedgerService.Grows.trans {l l' l'' : CoreLedgerService V} (h : l.Grows l')
    (h' : l'.Grows l'') : l.Grows l'' :=
  ⟨fun r c hc => h'.committees r c (h.committees r c hc), fun c hc => h'.blocks c (h.blocks c hc)⟩

lemma ConsensusSender.Faithful.grows {send : ConsensusSender V} (h : send.Faithful)
    (hk : send.KeepsCommittees) (l : CoreLedgerService V) (subdag : Subdag)
    (transmissions : IndexMap TransmissionID Transmission) :
    l.Grows (send l subdag transmissions).2 := by
  refine ⟨hk l subdag transmissions, fun c hc => ?_⟩
  obtain ⟨-, hok, hother⟩ := h l subdag transmissions
  by_cases hreply : (send l subdag transmissions).1 = .callback (.ok ())
  · obtain ⟨block, -, hblocks⟩ := hok hreply
    rw [hblocks, chainCertificates_append]
    exact List.mem_append_left _ hc
  · rwa [hother hreply]

/-- Every sender there is is faithful and keeps the committees. -/
def SendersGrow (send : Option (ConsensusSender V)) : Prop :=
  ∀ s, send = some s → s.Faithful ∧ s.KeepsCommittees

lemma SendersGrow.evolves {send : Option (ConsensusSender V)} (h : SendersGrow send) :
    BFT.Evolves send CoreLedgerService.Grows where
  refl := .refl
  trans := .trans
  leader _ _ := ⟨fun _ _ h => h, fun _ h => h⟩
  send s hs := (h s hs).1.grows (h s hs).2

end Grows

/-! ### The primary -/

namespace Primary

variable {S V : Type} [Ledger V] [Network]

/-- The invariant of a primary. -/
structure Orderly (p : Primary S V) : Prop where
  tidy : p.storage.Tidy
  members : ∀ {c : BatchCertificate}, p.storage.certificates[c.id]? = some c →
    Storage.ByMember p.ledger c
  origin : ∀ {c : BatchCertificate}, p.storage.certificates[c.id]? = some c →
    c.round ≤ p.proposeLock ∨ c ∈ chainCertificates p.ledger.blocks
  first : 0 < p.storage.maxGcRounds → p.currentRound ≤ 1 → p.proposeLock = 0 →
    p.storage.gcRound = 0
  wellFormed : p.bft.dag.WellFormed
  sender : SendersGrow p.bft.consensusSender
  proposal : p.proposedBatch = none

/-- From one primary to another that is orderly: certificates with `X` came, and commits went no
further than the locked round, or than `n`. -/
structure Advances (X : BatchCertificate → Prop) (n : ℕ) (p q : Primary S V) : Prop where
  orderly : q.Orderly
  lock : p.proposeLock ≤ q.proposeLock
  account : q.account = p.account
  grows : p.ledger.Grows q.ledger
  onward : p.storage.Onward X (max q.proposeLock n - 1) q.storage

variable {X Y : BatchCertificate → Prop} {m n : ℕ} {p q r : Primary S V}

lemma Orderly.advances (h : p.Orderly) : Advances X n p p :=
  ⟨h, le_rfl, rfl, .refl _, .refl _⟩

lemma Advances.mono (h : Advances X n p q) (hX : ∀ c, X c → Y c) : Advances Y n p q :=
  { h with onward := h.onward.mono hX le_rfl }

lemma Advances.trans (h : Advances X n p q) (h' : Advances X n q r) : Advances X n p r where
  orderly := h'.orderly
  lock := h.lock.trans h'.lock
  account := h'.account.trans h.account
  grows := h.grows.trans h'.grows
  onward := by
    have hlock := h'.lock
    exact (h.onward.mono (fun _ hc => hc) (by omega)).trans h'.onward

lemma Orderly.same (h : p.Orderly) {storage : Storage S}
    (hsame : Storage.SameCertificates p.storage storage)
    (hround : p.currentRound ≤ storage.currentRound)
    (hmax : storage.maxGcRounds = p.storage.maxGcRounds)
    (hstorage : q.storage = storage) (hledger : ∃ latestLeader,
      q.ledger = { p.ledger with latestLeader }) (hdag : q.bft.dag = p.bft.dag)
    (hsender : q.bft.consensusSender = p.bft.consensusSender)
    (haccount : q.account = p.account) (hlock : p.proposeLock ≤ q.proposeLock)
    (hproposal : q.proposedBatch = none) : Advances X n p q := by
  subst hstorage
  obtain ⟨x, hx⟩ := hledger
  have hcommittee : ∀ r, q.ledger.getCommitteeLookbackForRound r
      = p.ledger.getCommitteeLookbackForRound r := by
    intro r
    rw [hx]
    rfl
  have hblocks : q.ledger.blocks = p.ledger.blocks := by
    rw [hx]
    rfl
  refine ⟨⟨hsame.tidy h.tidy, fun {c} hc => ?_, fun {c} hc => ?_, fun hpos hone hzero => ?_,
    hdag ▸ h.wellFormed, hsender ▸ h.sender, hproposal⟩, hlock, haccount, ⟨fun r com hr => ?_,
      fun c hc => ?_⟩, hsame.onward hround hmax⟩
  · rw [hsame.2.1] at hc
    rw [Storage.ByMember, hcommittee]
    exact h.members hc
  · rw [hsame.2.1] at hc
    rw [hblocks]
    exact (h.origin hc).imp_left hlock.trans'
  · rw [hsame.2.2.2]
    rw [hmax] at hpos
    exact h.first hpos (hround.trans hone) (by omega)
  · rw [hcommittee, hr]
  · rw [hblocks]
    exact hc

lemma Orderly.keep (h : p.Orderly) (hbft : q.bft = p.bft) (hlock : p.proposeLock ≤ q.proposeLock)
    (hproposal : q.proposedBatch = none) : Advances X n p q :=
  h.same ⟨rfl, rfl, rfl, rfl⟩ (Nat.le_refl _) rfl (congrArg BFT.storage hbft)
    ⟨p.ledger.latestLeader, congrArg BFT.ledger hbft⟩ (congrArg BFT.dag hbft)
    (congrArg BFT.consensusSender hbft) (congrArg BFT.account hbft) hlock hproposal

lemma Orderly.run {α : Type} (h : p.Orderly) (a : Await)
    {step : Primary S V → Except Stop α × Primary S V} (hstep : Advances X n p (step p).2) :
    Advances X n p (a.run step p).2 := by
  cases a with
  | done => exact hstep
  | stopped stop effect =>
    cases effect
    · exact h.advances
    · exact hstep

lemma Orderly.sendPrimaryRoundToBft (h : p.Orderly) (sent : Await) (now : ℤ) (round : ℕ) :
    Advances X n p (p.sendPrimaryRoundToBft sent now round).2 := by
  refine h.run sent ?_
  obtain ⟨x, leader, timer, storage, hstorage, hstep⟩ := p.bft.updateToNextRound_keeps now round
  have hincrement : Storage.Onward (fun _ => False) 0 p.storage storage ∧
      Storage.SameCertificates p.storage storage := by
    rcases hstorage with rfl | rfl
    · exact ⟨.refl _, rfl, rfl, rfl, rfl⟩
    · exact ⟨Storage.incrementToNextRound_onward p.ledger p.storage round,
        Storage.incrementToNextRound_same p.ledger p.storage round⟩
  dsimp only
  rw [hstep]
  exact h.same hincrement.2 hincrement.1.currentRound hincrement.1.maxGcRounds rfl ⟨x, rfl⟩ rfl
    rfl rfl le_rfl h.proposal

lemma Orderly.incrementToNextRound (h : p.Orderly) (round : ℕ) :
    Advances X n p (p.incrementToNextRound round).2 := by
  have hincrement : Storage.Onward (fun _ => False) 0 p.storage
      (p.storage.incrementToNextRound p.ledger round).2 :=
    Storage.incrementToNextRound_onward p.ledger p.storage round
  exact h.same (Storage.incrementToNextRound_same p.ledger p.storage round)
    hincrement.currentRound hincrement.maxGcRounds rfl ⟨p.ledger.latestLeader, rfl⟩ rfl rfl rfl
    le_rfl h.proposal

variable [StorageService S] {c : BatchCertificate}

/-- **Storing a certificate** of a locked round, or of a block. -/
lemma Orderly.insertCertificate (h : p.Orderly) (env : Receipt)
    (hc : c.round ≤ p.proposeLock ∨ c ∈ chainCertificates p.ledger.blocks)
    (transmissions : IndexMap TransmissionID Transmission) :
    Advances (fun d => d = c) n p (p.insertCertificate env c transmissions).2 := by
  refine h.run env.inserted ?_
  obtain ⟨htidy, honward⟩ := h.tidy.insertCertificate (m := max p.proposeLock n - 1) p.ledger
    env.insertedAt c transmissions ∅
  refine ⟨⟨htidy, fun {d} hd => ?_, fun {d} hd => ?_, fun hpos hone hzero => ?_, h.wellFormed,
    h.sender, h.proposal⟩, le_rfl, rfl, .refl _, honward.mono (fun d hd => hd.1) le_rfl⟩
  · rcases honward.added hd with hd | ⟨rfl, hmember⟩
    · exact h.members hd
    · exact hmember
  · rcases honward.added hd with hd | ⟨rfl, -⟩
    · exact h.origin hd
    · exact hc
  · have hsame : (p.storage.insertCertificate p.ledger env.insertedAt c transmissions ∅).2.gcRound
        = p.storage.gcRound ∧ (p.storage.insertCertificate p.ledger env.insertedAt c transmissions
          ∅).2.currentRound = p.storage.currentRound := by
      rcases Storage.insertCertificate_cases p.ledger env.insertedAt h.tidy.indexed c transmissions
        ∅ with ⟨e, hx⟩ | ⟨missing, -, -, hx⟩ <;> rw [hx] <;> exact ⟨rfl, rfl⟩
    have hone' : p.storage.currentRound ≤ 1 := hsame.2.symm.le.trans hone
    exact hsame.1.trans (h.first (honward.maxGcRounds.symm ▸ hpos) hone' hzero)

/-- **Sending a certificate** to the BFT, of a locked round or of one up to the current round. -/
lemma Orderly.updateBft (h : p.Orderly) (env : Receipt) (hn : n ≤ p.currentRound)
    (hc : c.round ≤ max p.proposeLock n) :
    Advances (fun _ => False) n p (p.updateBft env c).2 := by
  unfold Primary.updateBft
  split
  swap
  · exact h.advances
  refine h.run env.sent ?_
  have hupdated := BFT.updateDag_updated h.sender.evolves h.wellFormed true false c
  have hbft : Advances (fun _ => False) n p { p with bft := (p.bft.updateDag true false c).2 } := by
    obtain ⟨dag, ledger, committed, storage, hkeeps⟩ := hupdated.keeps
    obtain ⟨hgrows, hwellFormed, hstorage⟩ :=
      And.intro hupdated.ledger (And.intro hupdated.wellFormed hupdated.storage)
    rw [hkeeps] at hgrows hwellFormed hstorage ⊢
    dsimp only at hgrows hwellFormed hstorage
    -- the storage is collected at most up to the round below
    have honward : storage.Tidy ∧ Storage.Onward (fun _ => False) (max p.proposeLock n - 1)
        p.storage storage ∧ (storage = p.storage ∨ 2 ≤ c.round - 1) := by
      rcases hstorage with rfl | ⟨htwo, -, rfl⟩
      · exact ⟨h.tidy, .refl _, .inl rfl⟩
      · obtain ⟨htidy, honward⟩ := h.tidy.garbageCollectCertificates (X := fun _ => False)
          (c.round - 1)
        exact ⟨htidy, honward.mono (fun _ hd => hd) (by omega), .inr htwo⟩
    obtain ⟨htidy, honward, hcollected⟩ := honward
    refine ⟨⟨htidy, fun {d} hd => ?_, fun {d} hd => ?_, fun hpos hone hzero => ?_, hwellFormed,
      h.sender, h.proposal⟩, le_rfl, rfl, hgrows, honward⟩
    · obtain ⟨committee, hcommittee, hmember⟩ :=
        h.members ((honward.added hd).resolve_right id)
      exact ⟨committee, hgrows.committees _ _ hcommittee, hmember⟩
    · exact (h.origin ((honward.added hd).resolve_right id)).imp_right (hgrows.blocks d)
    · rcases hcollected with rfl | htwo
      · exact h.first hpos hone hzero
      · have hround := honward.currentRound
        have hone' : storage.currentRound ≤ 1 := hone
        have hzero' : p.proposeLock = 0 := hzero
        have hn' : n ≤ p.storage.currentRound := hn
        omega
  rcases hresult : p.bft.updateDag true false c with ⟨_ | _, bft⟩ <;> rw [hresult] at hbft <;>
    exact hbft

/-- **An empty batch** of another validator, of the locked round. -/
lemma Orderly.fakeProposal (h : p.Orderly) (hn : n ≤ p.currentRound) {round : ℕ}
    (hround : round ≤ p.proposeLock) (env : Certification) (primaryAcc : Address)
    (otherAcc : List Address) :
    Advances (fun d => d.author = primaryAcc) n p
      (p.fakeProposal env primaryAcc otherAcc round).2 := by
  have hasked : Advances (fun d => d.author = primaryAcc) n p (p.askHeader primaryAcc round) :=
    h.keep rfl le_rfl h.proposal
  rcases fakeProposal_cases env primaryAcc otherAcc round p with
    ⟨stop, q, hres, rfl | rfl⟩ | ⟨c, transmissions, signature, ⟨⟨committee, -, hc⟩, -⟩, hres⟩
  · rw [hres]
    exact h.advances
  · rw [hres]
    exact hasked
  obtain ⟨⟨-, hauthor, -, hcround, -, -, -, -⟩, -⟩ := hc.certified
  have hlock : c.round ≤ p.proposeLock := hcround.le.trans hround
  have hinserted := (hasked.orderly.insertCertificate (n := n) env.toReceipt (.inl hlock)
    transmissions).mono (Y := fun d => d.author = primaryAcc) fun d hd => hd ▸ hauthor
  rw [hres]
  refine hasked.trans ?_
  rcases hstored : (p.askHeader primaryAcc round).insertCertificate env.toReceipt c transmissions
    with ⟨_ | _, q⟩ <;> rw [hstored] at hinserted
  · exact hinserted
  refine hinserted.trans ?_
  unfold AmareleoChain.andThen signProposal
  dsimp only
  split
  · exact hinserted.orderly.advances
  · have hsigned : Advances (fun d => d.author = primaryAcc) n q
        { q with
          signedProposals := q.signedProposals.insert primaryAcc (round, c.id, signature) } :=
      hinserted.orderly.keep rfl le_rfl hinserted.orderly.proposal
    have hcurrent : n ≤ q.currentRound := hn.trans hinserted.onward.currentRound
    have hlock' : p.proposeLock ≤ q.proposeLock := hinserted.lock
    exact hsigned.trans ((hsigned.orderly.updateBft env.toReceipt hcurrent
      (by dsimp only; omega)).mono fun _ hd => hd.elim)

/-- What the primary is past when it loads certificates: the locked round of its cache, the
latest round of its ledger, and the certificates in the blocks. -/
structure Past (m n : ℕ) (cs : List BatchCertificate) (p : Primary S V) : Prop where
  lock : m ≤ p.proposeLock
  round : n ≤ p.currentRound
  chain : ∀ c ∈ cs, c ∈ chainCertificates p.ledger.blocks

/-- A certificate that may be loaded then. -/
def Loadable (m n : ℕ) (cs : List BatchCertificate) (c : BatchCertificate) : Prop :=
  c.round ≤ m ∨ (c ∈ cs ∧ c.round ≤ n)

omit [StorageService S] in
lemma Past.advance {cs : List BatchCertificate} (h : Past m n cs p) (hpq : Advances X n p q) :
    Past m n cs q :=
  ⟨h.lock.trans hpq.lock, h.round.trans hpq.onward.currentRound,
    fun c hc => hpq.grows.blocks c (h.chain c hc)⟩

/-- The primary with an account advances, as long as it is past what it loads. -/
def AdvancesFrom (a : Address) (m n : ℕ) (cs : List BatchCertificate) (X : BatchCertificate → Prop)
    (p q : Primary S V) : Prop :=
  p.account = a → p.Orderly → Past m n cs p → Advances X n p q

/-- **A batch of the node** advances its primary. -/
theorem advances_walk (a : Address) (m n : ℕ) (cs : List BatchCertificate)
    {X : BatchCertificate → Prop} (hown : ∀ c, c.author = a → X c)
    (hload : ∀ c, Loadable m n cs c → X c) :
    Walk (S := S) (V := V) .any (Loadable m n cs) (AdvancesFrom a m n cs X) where
  refl _ _ h _ := h.advances
  trans h h' ha hp hpast := by
    have hone := h ha hp hpast
    exact hone.trans (h' (hone.account.trans ha) hone.orderly (hpast.advance hone))
  round sent now round _ _ h _ := h.sendPrimaryRoundToBft sent now round
  increment round _ _ h _ := h.incrementToNextRound round
  clear _ _ h _ := h.keep rfl le_rfl rfl
  work _ _ _ _ h _ := h.keep rfl le_rfl h.proposal
  lock _ _ hlock _ h _ := h.keep rfl hlock.le h.proposal
  store env c transmissions p _ hc ha h hpast := by
    have hX : X c := by
      rcases hc with ⟨hauthor, -⟩ | hc
      · exact hown c (hauthor.trans ha)
      · exact hload c hc
    have horigin : c.round ≤ p.proposeLock ∨ c ∈ chainCertificates p.ledger.blocks := by
      rcases hc with ⟨-, hround⟩ | hc | ⟨hc, -⟩
      · exact .inl hround.le
      · exact .inl (hc.trans hpast.lock)
      · exact .inr (hpast.chain c hc)
    have hbound : c.round ≤ max p.proposeLock n := by
      rcases hc with ⟨-, hround⟩ | hc | ⟨-, hc⟩
      · omega
      · have := hpast.lock
        omega
      · omega
    have hinserted := (h.insertCertificate (n := n) env horigin transmissions).mono
      (Y := X) fun d hd => hd ▸ hX
    rcases hstored : p.insertCertificate env c transmissions with ⟨_ | _, q⟩ <;>
      rw [hstored] at hinserted
    · exact hinserted
    · have hlock : p.proposeLock ≤ q.proposeLock := hinserted.lock
      exact hinserted.trans ((hinserted.orderly.updateBft env
        (hpast.round.trans hinserted.onward.currentRound) (by dsimp only; omega)).mono
          fun _ hd => hd.elim)

lemma Orderly.fakeProposals (h : p.Orderly) (hn : n ≤ p.currentRound) {round : ℕ}
    (hround : round ≤ p.proposeLock) (env : ProposeEnv) (allAcc : Fin 4 → Address)
    (vids : List (Fin 4)) :
    Advances (fun d => ∃ vid ∈ vids, d.author = allAcc vid) n p
      (p.fakeProposals env allAcc round vids).2 := by
  induction vids generalizing p with
  | nil => exact h.advances
  | cons vid vids ih =>
    have hone := (h.fakeProposal hn hround (env.fake vid) (allAcc vid)
      ((List.ofFn allAcc).filter (· ≠ allAcc vid))).mono
      (Y := fun d => ∃ v ∈ vid :: vids, d.author = allAcc v)
      fun d hd => ⟨vid, List.mem_cons_self, hd⟩
    rw [Primary.fakeProposals]
    rcases hres : p.fakeProposal (env.fake vid) (allAcc vid)
      ((List.ofFn allAcc).filter (· ≠ allAcc vid)) round with ⟨_ | _, q⟩ <;> rw [hres] at hone
    · exact hone
    · have hrest := ih hone.orderly (hn.trans hone.onward.currentRound) (hround.trans hone.lock)
      refine hone.trans (hrest.mono fun d hd => ?_)
      obtain ⟨v, hv, hd⟩ := hd
      exact ⟨v, List.mem_cons_of_mem _ hv, hd⟩

/-- **The batches of all validators** advance the primary. -/
theorem advances_batchWalk (a : Address) (m n : ℕ) (cs : List BatchCertificate) :
    BatchWalk (S := S) (V := V) .any (Loadable m n cs) (AdvancesFrom a m n cs fun _ => True) where
  toWalk := advances_walk a m n cs (fun _ _ => trivial) fun _ _ => trivial
  fakes {env allAcc round p q} _ _ hround hlite hpq ha h hpast := by
    have hone := hpq ha h hpast
    obtain ⟨-, -, hlock, -⟩ := proposeBatchLite_ok hround hlite
    exact hone.trans ((hone.orderly.fakeProposals (hpast.advance hone).round hlock.ge env allAcc
      [1, 2, 3]).mono fun _ _ => trivial)

/-! ### Over a life -/

omit [Network] [StorageService S] in
lemma mem_getPendingCertificates {l : CoreLedgerService V} {s : Storage S}
    (hc : c ∈ s.getPendingCertificates l) :
    ∃ id : Field, s.certificates[id]? = some c := by
  unfold Storage.getPendingCertificates at hc
  rw [← IndexSet.mem_def, IndexSet.mem_ofList, List.mem_flatMap] at hc
  obtain ⟨e, -, hc⟩ := hc
  obtain ⟨entry, -, hc⟩ := List.mem_filterMap.mp hc
  split at hc
  · cases hc
  · exact ⟨entry.1, hc⟩

/-- A proposal cache over a chain: there is no proposal, and its certificates are of a round that
was locked, or in a block. -/
def CacheOrderly (l : CoreLedgerService V) (cache : Option ProposalCache) : Prop :=
  ∀ c, cache = some c → c.proposal = none ∧ ∀ d ∈ c.pendingCertificates,
    d.round ≤ c.latestRound ∨ d ∈ chainCertificates l.blocks

/-- The certificates in the blocks of a ledger are not above its latest round. -/
def RoundsInOrder (V : Type) [Ledger V] : Prop :=
  ∀ l : CoreLedgerService V, ∀ c ∈ chainCertificates l.blocks, c.round ≤ l.latestRound

lemma orderly_booted {account : Address} {committee : Committee} {transmissions : S} {g : ℕ}
    {l : CoreLedgerService V} {now : ℤ} {b : BFT S V}
    (hboot : (BFT.new account (Storage.new committee transmissions g) l).bootup now = .ok b)
    (keepState bftSender : Bool) (signedProposals : SignedProposals) (proposeLock : ℕ) :
    Orderly { new account (Storage.new committee transmissions g) keepState l with
        bft := b, bftSender, signedProposals, proposeLock, proposedBatch := none } ∧
      max l.latestRound 1 ≤ b.storage.currentRound ∧ b.ledger = l := by
  unfold BFT.bootup at hboot
  split at hboot
  · cases hboot
  next storage cs hsync =>
  cases hboot
  have hsync : (Storage.new committee transmissions g).syncStorageWithLedgerAtBootup l now
      = .ok (storage, cs) := hsync
  obtain ⟨htidy, hnone, hgc, hcurrent, hmax⟩ := Storage.new_spec committee transmissions g
  obtain ⟨htidy', honward, hlatest, hgc'⟩ := htidy.bootup hsync
  have hchain := Storage.mem_chain_of_sync hsync
  have hstored : ∀ {c : BatchCertificate}, storage.certificates[c.id]? = some c →
      c ∈ cs ∧ Storage.ByMember l c := by
    intro c hc
    rcases honward.added hc with hc | hc
    · exact absurd hc (hnone _ _)
    · exact hc
  refine ⟨⟨htidy', fun hc => (hstored hc).2, fun hc => .inr (hchain _ (hstored hc).1),
    fun hpos hone _ => ?_, DAG.wellFormed_new.commitAll _ _, fun s hs => (by cases hs), rfl⟩,
    hlatest, rfl⟩
  -- no round is collected as long as the current round is the first
  have hmax' : storage.maxGcRounds = g := honward.maxGcRounds.trans hmax
  have hmono := honward.currentRound
  have hpos' : 0 < storage.maxGcRounds := hpos
  have hone' : storage.currentRound ≤ 1 := hone
  change storage.gcRound = 0
  rw [hgc', hgc, hmax]
  omega

/-- **A started primary** is orderly. -/
lemma Starts.orderly {E : Surroundings V} {account : Address} {transmissions : S}
    {l : CoreLedgerService V} {cache : Option ProposalCache} {result : Except Stop Unit}
    (hE : ∀ send, E.sender send → send.Faithful ∧ send.KeepsCommittees) (hV : RoundsInOrder V)
    (hcache : CacheOrderly l cache) (h : Starts E account transmissions l cache result p) :
    p.Orderly ∧ ∀ c ∈ chainCertificates l.blocks, c ∈ chainCertificates p.ledger.blocks := by
  obtain ⟨committee, g, keepState, now, envs, send, b, -, hboot, -, hsend, hrun⟩ := h
  obtain ⟨result', q, hload, hcases⟩ := runBft_cases
    (p := new account (Storage.new committee transmissions g) keepState l) hboot envs cache send
  have hq : q.Orderly ∧
      ∀ c ∈ chainCertificates l.blocks, c ∈ chainCertificates q.ledger.blocks := by
    unfold loadProposalCache at hload
    cases cache with
    | none =>
      cases hload
      obtain ⟨h, -, hledger⟩ := orderly_booted hboot keepState true ∅ 0
      exact ⟨h, fun c hc => by rw [← hledger] at hc; exact hc⟩
    | some c =>
      obtain ⟨hproposal, hpending⟩ := hcache c rfl
      obtain ⟨h, hround, hledger⟩ := orderly_booted hboot keepState true c.signedProposals
        c.latestRound
      dsimp only at hload
      split at hload
      · rw [hproposal] at hload
        -- the cached certificates are not above what the primary is past
        have hadvance := (advances_batchWalk (S := S) (V := V) b.account c.latestRound
          l.latestRound (chainCertificates l.blocks)).loadCertificates
          (fun i => (envs i).meets_any) 0 (fun d hd => (hpending d hd).imp_right
            fun hin => ⟨hin, hV l d hin⟩) _ rfl h ⟨le_rfl, le_of_max_le_left hround,
            fun d hd => by rw [← hledger] at hd; exact hd⟩
        rw [hload] at hadvance
        exact ⟨hadvance.orderly, fun d hd => hadvance.grows.blocks d (by
          rw [← hledger] at hd; exact hd)⟩
      · cases hload
        obtain ⟨h, -, hledger⟩ := orderly_booted hboot keepState true ∅ 0
        exact ⟨h, fun c hc => by rw [← hledger] at hc; exact hc⟩
  rcases hcases with ⟨stop, -, hcases⟩ | ⟨-, hcases⟩ <;> rw [hrun] at hcases <;> cases hcases
  · exact hq
  · refine ⟨{ hq.1 with sender := fun s hs => ?_ }, hq.2⟩
    cases hs
    exact hE send hsend

omit [Network] [StorageService S] in
lemma CacheOrderly.grows {l l' : CoreLedgerService V} {cache : Option ProposalCache}
    (h : CacheOrderly l cache) (hl : ∀ c ∈ chainCertificates l.blocks,
      c ∈ chainCertificates l'.blocks) : CacheOrderly l' cache :=
  fun c hc => ⟨(h c hc).1, fun d hd => ((h c hc).2 d hd).imp_right (hl d)⟩

omit [StorageService S] in
lemma Orderly.task {cache : Option ProposalCache} (h : p.Orderly)
    (hcache : CacheOrderly p.ledger cache)
    (hpq : AdvancesFrom p.account 0 0 [] (fun _ => True) p q) :
    q.Orderly ∧ CacheOrderly q.ledger cache := by
  have hadvance := hpq rfl h ⟨Nat.zero_le _, Nat.zero_le _, fun _ hc => absurd hc List.not_mem_nil⟩
  exact ⟨hadvance.orderly, hcache.grows hadvance.grows.blocks⟩

/-- **A node is orderly** at any time of its life, and so is the cache on its disk. -/
theorem Lived.orderly {E : Surroundings V}
    (hE : ∀ send, E.sender send → send.Faithful ∧ send.KeepsCommittees) (hV : RoundsInOrder V)
    {cache : Option ProposalCache} (h : Lived E cache p) :
    p.Orderly ∧ CacheOrderly p.ledger cache := by
  induction h with
  | start h => exact ⟨(h.orderly hE hV fun _ hc => by cases hc).1, fun _ hc => by cases hc⟩
  | @propose cache p env _ _ ih =>
    exact ih.1.task ih.2 ((advances_batchWalk p.account 0 0 []).proposeBatch env.meets_any p)
  | @increment cache p env _ _ ih =>
    exact ih.1.task ih.2
      ((advances_batchWalk p.account 0 0 []).incrementTask env.propose.meets_any p)
  | submit ready _ ih => exact ⟨{ ih.1 with }, ih.2⟩
  | flag _ ih => exact ⟨⟨ih.1.tidy, ih.1.members, ih.1.origin, ih.1.first, ih.1.wellFormed,
      ih.1.sender, ih.1.proposal⟩, ih.2⟩
  | @shutDown cache p _ ih =>
    obtain ⟨h, hcache⟩ := ih
    unfold Primary.shutDown
    split
    · refine ⟨⟨h.tidy, h.members, h.origin, h.first, h.wellFormed, h.sender, rfl⟩,
        fun c hc => ?_⟩
      cases hc
      rw [h.proposal]
      refine ⟨rfl, fun d hd => ?_⟩
      obtain ⟨id, hid⟩ := mem_getPendingCertificates hd
      exact h.origin (h.tidy.indexed.keyed hid ▸ hid)
    · exact ⟨h, hcache⟩
  | reboot _ hblocks hstarts ih =>
    obtain ⟨h, hchain⟩ := hstarts.orderly hE hV (ih.2.grows fun c hc => by rwa [hblocks])
    exact ⟨h, ih.2.grows fun c hc => hchain c (by rwa [hblocks])⟩

end Primary

end AmareleoChain
