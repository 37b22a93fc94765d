import AmareleoChain.Onward
import AmareleoChain.Producing

/-!
The storage and the DAG agree above the last committed round.

A certificate is stored first, and sent to the DAG then. As long as no task stops in between, the
DAG gets what the storage gets, and what commits take out of either is not above the last
committed round.
-/

namespace AmareleoChain

open Std

variable {S V : Type}

/-! ### One certificate -/

/-- One certificate came, of an author that had none of its round. -/
structure Storage.Gains (s : Storage S) (c : BatchCertificate) (t : Storage S) : Prop where
  above : s.gcRound < c.round
  fresh : ∀ {d : BatchCertificate}, s.certificates[d.id]? = some d → d.round = c.round →
    d.author ≠ c.author
  tidy : t.Tidy
  mem : ∀ d : BatchCertificate, t.certificates[d.id]? = some d ↔
    s.certificates[d.id]? = some d ∨ d = c
  onward : s.Onward (fun d => d = c) 0 t

/-- An insertion fails, or the certificate came. -/
lemma Storage.Tidy.gains [StorageService S] [Network] [Ledger V] {s : Storage S} (hs : s.Tidy)
    (l : CoreLedgerService V) (now : ℤ) (c : BatchCertificate)
    (transmissions : IndexMap TransmissionID Transmission) (aborted : IndexSet TransmissionID) :
    (∃ e, s.insertCertificate l now c transmissions aborted = (.error e, s)) ∨
    ∃ t, s.insertCertificate l now c transmissions aborted = (.ok (), t) ∧ s.Gains c t := by
  obtain ⟨htidy, honward⟩ := hs.insertCertificate (m := 0) l now c transmissions aborted
  rcases insertCertificate_cases l now hs.indexed c transmissions aborted with
    ⟨e, hx⟩ | ⟨missing, haccepts, -, hx⟩
  · exact .inl ⟨e, hx⟩
  · rw [hx] at htidy honward
    refine .inr ⟨_, hx, haccepts.above, haccepts.fresh_author, htidy, fun d => ?_,
      honward.mono (fun d hd => hd.1) le_rfl⟩
    rw [getElem?_insertCertificateAtomic haccepts.fresh]
    refine or_congr_right ⟨And.right, ?_⟩
    rintro rfl
    exact ⟨rfl, rfl⟩

/-- Above its last committed round, the DAG has the stored certificates under their authors. -/
def DAG.Mirrors (d : DAG) (s : Storage S) : Prop :=
  ∀ r, d.lastCommittedRound < r → ∀ (a : Address) (c : BatchCertificate),
    d.getCertificateForRoundWithAuthor r a = some c ↔
      s.certificates[c.id]? = some c ∧ c.round = r ∧ c.author = a

namespace BFT

variable {Q : CoreLedgerService V → CoreLedgerService V → Prop} {b b' : BFT S V}
  {c : BatchCertificate} {s : Storage S}

/-- **A certificate that is sent to the DAG once it is stored.** -/
theorem Updated.mirrors [StorageService S] (h : Updated Q b c b') (hrecents : b.dag.RecentsBelow)
    (hgains : s.Gains c b.storage) (hmirrors : b.dag.Mirrors s) :
    b'.storage.Tidy ∧ b'.dag.Mirrors b'.storage := by
  have hinserted : ∀ r, b'.dag.lastCommittedRound < r → ∀ a d,
      b'.dag.getCertificateForRoundWithAuthor r a = some d ↔
        b.storage.certificates[d.id]? = some d ∧ d.round = r ∧ d.author = a := by
    intro r hr a d
    have hr' := h.le_lastCommittedRound.trans_lt hr
    have hget : b'.dag.getCertificateForRoundWithAuthor r a
        = (b.dag.insert c).getCertificateForRoundWithAuthor r a :=
      congrArg (fun m => m.bind fun m => m[a]?) (h.graph r hr)
    rw [hget, hrecents.getCertificateForRoundWithAuthor_insert hr', hgains.mem]
    split
    · next hc =>
      obtain ⟨rfl, rfl⟩ := hc
      constructor
      · intro hd
        cases hd
        exact ⟨.inr rfl, rfl, rfl⟩
      · rintro ⟨hd | rfl, hround, hauthor⟩
        · exact absurd hauthor (hgains.fresh hd hround)
        · rfl
    · next hc =>
      rw [hmirrors r hr' a d]
      constructor
      · rintro ⟨hd, hrest⟩
        exact ⟨.inl hd, hrest⟩
      · rintro ⟨hd | rfl, hround, hauthor⟩
        · exact ⟨hd, hround, hauthor⟩
        · exact absurd ⟨hround.symm, hauthor.symm⟩ hc
  rcases h.storage with hsame | ⟨-, hle, hcollected⟩
  · rw [hsame]
    exact ⟨hgains.tidy, hinserted⟩
  · rw [hcollected]
    obtain ⟨-, -, hmem⟩ := Storage.garbageCollectCertificates_spec hgains.tidy.indexed
      hgains.tidy.above (c.round - 1)
    refine ⟨(hgains.tidy.garbageCollectCertificates (X := fun _ => True) _).1,
      fun r hr a d => ?_⟩
    -- what is collected is not above the last committed round
    rw [hinserted r hr a d, hmem]
    constructor
    · rintro ⟨hd, hround, hauthor⟩
      exact ⟨⟨hd, by omega⟩, hround, hauthor⟩
    · rintro ⟨⟨hd, -⟩, hrest⟩
      exact ⟨hd, hrest⟩

end BFT

/-! ### The primary -/

/-- A certificate is not stored without being sent to the DAG: the task does not stop while it is
stored, nor before the BFT has it. -/
def Receipt.Delivers (r : Receipt) : Prop :=
  (∃ stop, r.inserted = .stopped stop false) ∨
    (r.inserted = .done ∧ ∀ stop, r.sent ≠ .stopped stop false)

/-- Every certificate that is stored is sent to the DAG. -/
def Manner.delivering : Manner := ⟨Receipt.Delivers, fun _ _ => True, fun _ => True⟩

namespace Primary

/-- The invariant: the DAG mirrors the storage, and no batch was signed of a round above the
locked one. -/
structure Mirrored (p : Primary S V) : Prop where
  tidy : p.storage.Tidy
  wellFormed : p.bft.dag.WellFormed
  recents : p.bft.dag.RecentsBelow
  mirrors : p.bft.dag.Mirrors p.storage
  connected : p.bftSender = true
  signed : ∀ (a : Address) e, p.signedProposals.get? a = some e → e.1 ≤ p.proposeLock
  proposal : p.proposedBatch = none

variable {p q : Primary S V} {env : Receipt} {c : BatchCertificate}
  {transmissions : IndexMap TransmissionID Transmission}

lemma Mirrored.same (h : p.Mirrored) (hstorage : Storage.SameCertificates p.storage q.storage)
    (hdag : q.bft.dag = p.bft.dag) (hsender : q.bftSender = p.bftSender)
    (hsigned : q.signedProposals = p.signedProposals) (hlock : p.proposeLock ≤ q.proposeLock)
    (hproposal : q.proposedBatch = none) : q.Mirrored where
  tidy := hstorage.tidy h.tidy
  wellFormed := hdag ▸ h.wellFormed
  recents := hdag ▸ h.recents
  mirrors := by
    intro r hr a c
    rw [hdag, hstorage.2.1]
    exact h.mirrors r (hdag ▸ hr) a c
  connected := hsender.trans h.connected
  signed a e he := (h.signed a e (hsigned ▸ he)).trans hlock
  proposal := hproposal

section

variable [Network] [Ledger V]

lemma Mirrored.sendPrimaryRoundToBft (h : p.Mirrored) (sent : Await) (now : ℤ) (round : ℕ) :
    (p.sendPrimaryRoundToBft sent now round).2.Mirrored := by
  have hstep : Mirrored { p with bft := (p.bft.updateToNextRound now round).2 } := by
    obtain ⟨x, leader, timer, storage, hstorage, hstep⟩ := p.bft.updateToNextRound_keeps now round
    rw [hstep]
    refine h.same ?_ rfl rfl rfl le_rfl h.proposal
    rcases hstorage with rfl | rfl
    · exact ⟨rfl, rfl, rfl, rfl⟩
    · exact Storage.incrementToNextRound_same p.ledger p.storage round
  cases sent with
  | done => exact hstep
  | stopped stop effect =>
    cases effect
    · exact h
    · exact hstep

variable [StorageService S]

/-- **Storing a certificate** fails, or is followed by sending it to the DAG. -/
lemma Mirrored.insertCertificate (h : p.Mirrored) (henv : env.Delivers) :
    (∃ stop, p.insertCertificate env c transmissions = (.error stop, p)) ∨
    ∃ storage, p.storage.Gains c storage ∧ (∀ stop, env.sent ≠ .stopped stop false) ∧
      p.insertCertificate env c transmissions = (.ok (), p.withStorage storage) := by
  unfold Primary.insertCertificate
  rcases henv with ⟨stop, hstop⟩ | ⟨hdone, hsent⟩
  · rw [hstop]
    exact .inl ⟨stop, rfl⟩
  · rw [hdone]
    rcases h.tidy.gains p.ledger env.insertedAt c transmissions ∅ with
      ⟨e, hres⟩ | ⟨storage, hres, hgains⟩ <;> dsimp only [Await.run] <;> rw [hres]
    · exact .inl ⟨.error e, rfl⟩
    · exact .inr ⟨storage, hgains, hsent, rfl⟩

lemma Mirrored.updateBft (h : p.Mirrored) {storage : Storage S} (hgains : p.storage.Gains c storage)
    (hsent : ∀ stop, env.sent ≠ .stopped stop false)
    (hbft : q.bft = { p.bft with storage }) (hsender : q.bftSender = true)
    (hsigned : ∀ (a : Address) e, q.signedProposals.get? a = some e → e.1 ≤ q.proposeLock)
    (hproposal : q.proposedBatch = none) : (q.updateBft env c).2.Mirrored ∧
      q.storage.Onward (fun _ => False) c.round (q.updateBft env c).2.storage := by
  have hdag : q.bft.dag = p.bft.dag := by rw [hbft]
  have hstorage : q.bft.storage = storage := by rw [hbft]
  have hupdated : Mirrored { q with bft := (q.bft.updateDag true false c).2 } ∧
      q.storage.Onward (fun _ => False) c.round (q.bft.updateDag true false c).2.storage := by
    have hupdated := BFT.updateDag_updated (Q := fun _ _ => True) (b := q.bft)
      ⟨fun _ => trivial, fun _ _ => trivial, fun _ _ => trivial, fun _ _ _ _ _ => trivial⟩
      (hdag ▸ h.wellFormed) true false c
    obtain ⟨htidy, hmirrors⟩ := hupdated.mirrors (hdag ▸ h.recents) (hstorage ▸ hgains)
      (hdag ▸ h.mirrors)
    refine ⟨⟨htidy, hupdated.wellFormed, hupdated.recents (hdag ▸ h.recents), hmirrors, hsender,
      hsigned, hproposal⟩, ?_⟩
    rcases hupdated.storage with hsame | ⟨-, -, hcollected⟩
    · rw [hsame]
      exact .refl _
    · rw [hcollected]
      have htidy' : q.bft.storage.Tidy := hstorage ▸ hgains.tidy
      exact (htidy'.garbageCollectCertificates (c.round - 1)).2.mono (fun _ hd => hd)
        (Nat.sub_le _ _)
  unfold Primary.updateBft
  rw [if_pos hsender]
  unfold sendPrimaryCertificateToBft
  rcases hsend : env.sent with _ | ⟨stop, effect⟩
  · dsimp only [Await.run]
    rcases hresult : q.bft.updateDag true false c with ⟨_ | _, bft⟩ <;>
      rw [hresult] at hupdated <;> exact hupdated
  · cases effect
    · exact absurd hsend (hsent stop)
    · dsimp only [Await.run]
      rcases hresult : q.bft.updateDag true false c with ⟨_ | _, bft⟩ <;>
        rw [hresult] at hupdated <;> exact hupdated

/-- **A certificate that is stored and sent to the DAG.** -/
lemma Mirrored.store (h : p.Mirrored) (henv : env.Delivers) :
    (andThen (p.insertCertificate env c transmissions) fun _ p =>
      p.updateBft env c).2.Mirrored := by
  rcases h.insertCertificate henv with ⟨stop, hres⟩ | ⟨storage, hgains, hsent, hres⟩ <;> rw [hres]
  · exact h
  · exact (h.updateBft (q := p.withStorage storage) hgains hsent rfl h.connected h.signed
      h.proposal).1

/-! ### Empty batches -/

/-- While the empty batches of a round are proposed: a validator that signed a batch of the round
has a certificate of it, unless the round is collected. -/
structure Faking (r : ℕ) (p : Primary S V) : Prop where
  mirrored : p.Mirrored
  lock : p.proposeLock = r
  stored : ∀ (a : Address) e, p.signedProposals.get? a = some e → e.1 = r →
    p.storage.gcRound < r → ∃ d : BatchCertificate, p.storage.certificates[d.id]? = some d ∧
      d.round = r ∧ d.author = a

lemma Faking.updateBft {r : ℕ} (h : p.Faking r) {storage : Storage S}
    (hgains : p.storage.Gains c storage) (hsent : ∀ stop, env.sent ≠ .stopped stop false)
    (hround : c.round = r) {id : Field} {signature : Signature}
    (hbft : q.bft = { p.bft with storage }) (hsender : q.bftSender = p.bftSender)
    (hlock : q.proposeLock = p.proposeLock) (hproposal : q.proposedBatch = p.proposedBatch)
    (hsigned : q.signedProposals = p.signedProposals.insert c.author (r, id, signature)) :
    (q.updateBft env c).2.Faking r := by
  have hcases : ∀ (a : Address) e, q.signedProposals.get? a = some e →
      (e.1 = r ∧ a = c.author) ∨ p.signedProposals.get? a = some e := by
    intro a e he
    rw [hsigned, IndexMap.get?_insert] at he
    split at he
    · next ha =>
      cases he
      exact .inl ⟨rfl, ha⟩
    · exact .inr he
  have hstorage : q.storage = storage := congrArg BFT.storage hbft
  have hqlock : q.proposeLock = r := hlock.trans h.lock
  obtain ⟨hmirrored, honward⟩ := h.mirrored.updateBft hgains hsent hbft
    (hsender.trans h.mirrored.connected) (fun a e he => by
      rcases hcases a e he with ⟨he, -⟩ | he
      · exact he.le.trans hqlock.ge
      · exact (h.mirrored.signed a e he).trans hlock.ge) (hproposal.trans h.mirrored.proposal)
  obtain ⟨hsame, hsigned', -⟩ := (sameWork_updateBft env c q).sameBatches
  rw [hstorage] at honward
  refine ⟨hmirrored, hsame.trans hqlock, fun a e he hr hgc => ?_⟩
  rw [hsigned'] at he
  rcases hcases a e he with ⟨-, rfl⟩ | he
  · exact ⟨c, honward.kept ((hgains.mem c).mpr (.inr rfl)) (hround ▸ hgc), hround, rfl⟩
  · obtain ⟨d, hd, hdround, hdauthor⟩ := h.stored a e he hr
      ((hgains.onward.gc_le.trans honward.gc_le).trans_lt hgc)
    exact ⟨d, honward.kept ((hgains.mem d).mpr (.inl hd)) (hdround ▸ hgc), hdround, hdauthor⟩

/-- **An empty batch**: the early return for a validator that has already signed one of the round
is not taken, since the certificate would not have been stored. -/
lemma Faking.fakeProposal {r : ℕ} (h : p.Faking r) {env : Certification}
    (henv : env.toReceipt.Delivers) (primaryAcc : Address) (otherAcc : List Address) :
    (p.fakeProposal env primaryAcc otherAcc r).2.Faking r := by
  have hasked : (p.askHeader primaryAcc r).Faking r := ⟨h.mirrored.same ⟨rfl, rfl, rfl, rfl⟩ rfl
    rfl rfl le_rfl h.mirrored.proposal, h.lock, h.stored⟩
  rcases fakeProposal_cases env primaryAcc otherAcc r p with
    ⟨stop, q, hres, rfl | rfl⟩ | ⟨c, transmissions, signature, ⟨⟨committee, -, hc⟩, -⟩, hres⟩
  · rw [hres]
    exact h
  · rw [hres]
    exact hasked
  obtain ⟨⟨-, rfl, -, hround, -, -, -, -⟩, -⟩ := hc.certified
  rcases hasked.mirrored.insertCertificate henv with ⟨stop, hstop⟩ | ⟨storage, hgains, hsent, hok⟩
  · rw [hres, hstop]
    exact hasked
  rw [hres, hok]
  have hnew : ¬ (((p.askHeader c.author r).withStorage storage).signedProposals.get? c.author).any
      (fun signed => signed.1 == r) = true := by
    rw [Option.any_eq_true]
    rintro ⟨e, he, hr⟩
    obtain ⟨d, hd, hdround, hdauthor⟩ :=
      h.stored c.author e he (beq_iff_eq.mp hr) (hround ▸ hgains.above)
    exact hgains.fresh hd (hdround.trans hround.symm) hdauthor
  unfold AmareleoChain.andThen signProposal
  dsimp only
  rw [if_neg hnew]
  exact hasked.updateBft hgains hsent hround rfl rfl rfl rfl rfl

lemma Faking.fakeProposals {r : ℕ} (h : p.Faking r) {env : ProposeEnv}
    (henv : env.Meets .delivering) (allAcc : Fin 4 → Address) (vids : List (Fin 4)) :
    (p.fakeProposals env allAcc r vids).2.Faking r := by
  induction vids generalizing p with
  | nil => exact h
  | cons vid vids ih =>
    have hone := h.fakeProposal (henv.fake vid).receipt (allAcc vid)
      ((List.ofFn allAcc).filter (· ≠ allAcc vid))
    rw [Primary.fakeProposals]
    rcases hres : p.fakeProposal (env.fake vid) (allAcc vid)
      ((List.ofFn allAcc).filter (· ≠ allAcc vid)) r with ⟨_ | _, q⟩ <;> rw [hres] at hone
    · exact hone
    · exact ih hone

/-- **Every step of the primary** keeps the DAG in agreement with the storage. -/
theorem mirrored_walk : BatchWalk (S := S) (V := V) .delivering (fun _ => True)
    fun p q => p.Mirrored → q.Mirrored where
  refl _ := id
  trans h h' := h' ∘ h
  round sent now round _ h := h.sendPrimaryRoundToBft sent now round
  increment round p h := h.same (Storage.incrementToNextRound_same p.ledger p.storage round) rfl
    rfl rfl le_rfl h.proposal
  clear _ h := h.same ⟨rfl, rfl, rfl, rfl⟩ rfl rfl rfl le_rfl rfl
  work _ _ _ h := h.same ⟨rfl, rfl, rfl, rfl⟩ rfl rfl rfl le_rfl h.proposal
  lock _ _ hlock h := h.same ⟨rfl, rfl, rfl, rfl⟩ rfl rfl rfl hlock.le h.proposal
  store _ _ _ _ henv _ h := h.store henv
  fakes {env allAcc round p q} henv _ hround hlite hpq h := by
    obtain ⟨-, hahead, hlock, hsigned, -⟩ := proposeBatchLite_ok hround hlite
    have hfaking : q.Faking round := by
      refine ⟨hpq h, hlock, fun a e he hr => ?_⟩
      -- before the call no batch of this round was signed
      have := h.signed a e (hsigned ▸ he)
      omega
    exact (hfaking.fakeProposals henv allAcc [1, 2, 3]).mirrored

/-! ### Over a life -/

/-- In a saved proposal cache there is no proposal, and no batch was signed of a round above the
latest. -/
def CacheSigned (cache : Option ProposalCache) : Prop :=
  ∀ c, cache = some c → c.proposal = none ∧
    ∀ (a : Address) e, c.signedProposals.get? a = some e → e.1 ≤ c.latestRound

/-- After bootup all that is stored is committed in the DAG. -/
lemma mirrored_booted {account : Address} {committee : Committee} {transmissions : S} {g : ℕ}
    {l : CoreLedgerService V} {now : ℤ} {b : BFT S V}
    (hboot : (BFT.new account (Storage.new committee transmissions g) l).bootup now = .ok b)
    (keepState : Bool) {signedProposals : SignedProposals} {proposeLock : ℕ}
    (hsigned : ∀ (a : Address) e, signedProposals.get? a = some e → e.1 ≤ proposeLock) :
    Mirrored { new account (Storage.new committee transmissions g) keepState l with
        bft := b, bftSender := true, signedProposals, proposeLock, proposedBatch := none } := by
  unfold BFT.bootup at hboot
  split at hboot
  · cases hboot
  next storage cs hsync =>
  cases hboot
  obtain ⟨htidy, hnone, -, -, -⟩ := Storage.new_spec committee transmissions g
  obtain ⟨htidy', honward, -, -⟩ := htidy.bootup hsync
  refine ⟨htidy', DAG.wellFormed_new.commitAll _ _, DAG.recentsBelow_new.commitAll _ _,
    fun r hr a c => ?_, rfl, hsigned, rfl⟩
  have hgraph : (DAG.new.commitAll cs storage.maxGcRounds).getCertificateForRoundWithAuthor r a
      = none := by
    have hkept := DAG.getCertificatesForRound_commitAll (d := DAG.new) (g := storage.maxGcRounds)
      ((DAG.le_lastCommittedRound_commitAll cs).trans_lt hr)
      fun d hd => (DAG.round_le_lastCommittedRound_commitAll hd).trans_lt hr
    refine (congrArg (fun m => m.bind fun m => m[a]?) hkept).trans ?_
    simp [DAG.getCertificatesForRound, DAG.new]
  constructor
  · intro hc
    exact absurd (hgraph.symm.trans hc) (by simp)
  · rintro ⟨hc, rfl, -⟩
    rcases honward.added hc with hc | ⟨hc, -⟩
    · exact absurd hc (hnone _ _)
    · have hle := DAG.round_le_lastCommittedRound_commitAll (d := DAG.new)
        (g := storage.maxGcRounds) hc
      exact absurd hr (Nat.not_lt.mpr hle)

lemma Starts.mirrored {E : Surroundings V} (hE : E.Meets .delivering) {account : Address}
    {transmissions : S} {l : CoreLedgerService V} {cache : Option ProposalCache}
    {result : Except Stop Unit} (hcache : CacheSigned cache)
    (h : Starts E account transmissions l cache result p) : p.Mirrored := by
  obtain ⟨committee, g, keepState, now, envs, send, b, -, hboot, henvs, -, hrun⟩ := h
  obtain ⟨result', q, hload, hcases⟩ := runBft_cases
    (p := new account (Storage.new committee transmissions g) keepState l) hboot envs cache send
  have hnone : Mirrored { new account (Storage.new committee transmissions g) keepState l with
      bft := b, bftSender := true, signedProposals := ∅, proposeLock := 0
      proposedBatch := none } :=
    mirrored_booted hboot keepState fun _ _ he => (by cases he)
  have hq : q.Mirrored := by
    unfold loadProposalCache at hload
    cases cache with
    | none =>
      cases hload
      exact hnone
    | some c =>
      obtain ⟨hproposal, hsigned⟩ := hcache c rfl
      dsimp only at hload
      split at hload
      · rw [hproposal] at hload
        have hloaded := mirrored_walk.loadCertificates (fun i => hE.load _ (henvs i)) 0
          (fun d (_ : d ∈ c.pendingCertificates) => trivial) _
          (mirrored_booted hboot keepState hsigned)
        rw [hload] at hloaded
        exact hloaded
      · cases hload
        exact hnone
  rcases hcases with ⟨stop, -, hcases⟩ | ⟨-, hcases⟩ <;> rw [hrun] at hcases <;> cases hcases
  · exact hq
  · exact { hq with }

lemma Lived.mirrored {E : Surroundings V} (hE : E.Meets .delivering)
    {cache : Option ProposalCache} (h : Lived E cache p) : p.Mirrored ∧ CacheSigned cache := by
  induction h with
  | start h => exact ⟨h.mirrored hE fun _ hc => (by cases hc), fun _ hc => (by cases hc)⟩
  | @propose cache p env _ henv ih =>
    exact ⟨mirrored_walk.proposeBatch (hE.propose env henv) p ih.1, ih.2⟩
  | @increment cache p env _ henv ih =>
    exact ⟨mirrored_walk.incrementTask (hE.increment env henv) p ih.1, ih.2⟩
  | submit ready _ ih => exact ⟨{ ih.1 with }, ih.2⟩
  | flag _ ih => exact ⟨{ ih.1 with }, ih.2⟩
  | @shutDown cache p _ ih =>
    obtain ⟨h, hcache⟩ := ih
    unfold Primary.shutDown
    split
    · refine ⟨h.same ⟨rfl, rfl, rfl, rfl⟩ rfl rfl rfl le_rfl rfl, fun c hc => ?_⟩
      cases hc
      rw [h.proposal]
      exact ⟨rfl, h.signed⟩
    · exact ⟨h, hcache⟩
  | reboot _ _ hstarts ih => exact ⟨hstarts.mirrored hE ih.2, ih.2⟩

/-- **Storage and DAG agree above the last committed round**, at any time of a life in which every
certificate that is stored is sent to the DAG. -/
theorem dag_mirrors_storage {E : Surroundings V} (hE : E.Meets .delivering)
    {cache : Option ProposalCache} (h : Lived E cache p) (r : ℕ)
    (hr : p.bft.dag.lastCommittedRound < r) (a : Address) (c : BatchCertificate) :
    ((p.bft.dag.getCertificatesForRound r).bind fun m => m[a]?) = some c ↔
      c ∈ p.storage.getCertificatesForRound r ∧ c.author = a := by
  obtain ⟨hp, -⟩ := h.mirrored hE
  rw [Storage.mem_getCertificatesForRound hp.tidy.indexed (by omega), and_assoc]
  exact hp.mirrors r hr a c

end

end Primary

section Example

/-- Every certificate that is stored is sent to the DAG. -/
def deliveringSurroundings : Surroundings Chain :=
  ⟨fun env => env.Meets .delivering, fun env => env.propose.Meets .delivering,
    fun env => env.Meets .delivering, fun _ => True⟩

lemma proposes_delivering (round : ℕ) : (proposes round).Meets .delivering :=
  have hcertifies : ∀ author, (certifies round author).Meets .delivering := fun _ =>
    ⟨.inr ⟨rfl, fun _ h => (by cases h)⟩, fun _ _ _ => trivial⟩
  ⟨fun _ _ => trivial, hcertifies 0, fun i => hcertifies i⟩

/-- The node after its first batches. -/
def firstRoundNode : Primary BFTMemoryService Chain :=
  proposedNode 1 (startedNode (developmentLedger [genesis]) none 1).2

theorem dag_mirrors_storage_example :
    firstRoundNode.bft.dag.lastCommittedRound = 0 ∧
    (firstRoundNode.storage.getCertificatesForRound 1).map (fun c => c.author.val) = [0, 1, 2, 3] ∧
    ∀ a c, ((firstRoundNode.bft.dag.getCertificatesForRound 1).bind fun m => m[a]?) = some c ↔
      c ∈ firstRoundNode.storage.getCertificatesForRound 1 ∧ c.author = a := by
  let _ := developmentNetwork
  have hload : deliveringSurroundings.load (loads 1) :=
    ⟨proposes_delivering 1, .inr ⟨rfl, fun _ h => (by cases h)⟩⟩
  have hlived : Primary.Lived deliveringSurroundings none firstRoundNode :=
    lived_proposedNode (proposes_delivering 1)
      (.start (startedNode_starts hload trivial (by decide +kernel) none))
  have hnone : firstRoundNode.bft.dag.lastCommittedRound = 0 := by decide +kernel
  exact ⟨hnone, by decide +kernel, Primary.dag_mirrors_storage
    ⟨fun _ h => h, fun _ h => h, fun _ h => h⟩ hlived 1 (by rw [hnone]; decide)⟩

/-- The batch proposer is aborted, by the shutdown of the node, while its certificate is stored. -/
def abandons : ProposeEnv :=
  { proposes 1 with lite :=
    { (proposes 1).lite with certification :=
      { (certifies 1 0) with inserted := .stopped .aborted true } } }

def abandonedNode : Primary BFTMemoryService Chain :=
  let _ := developmentNetwork
  ((startedNode (developmentLedger [genesis]) none 1).2.proposeTask abandons).shutDown.2

/-- The certificate of an aborted batch is stored, and the DAG does not get it. -/
theorem abandoned_not_in_dag :
    let _ := developmentNetwork
    ¬ ∀ cache (p : Primary BFTMemoryService Chain),
      Primary.Lived (Primary.anySurroundings Chain) cache p →
      ∀ r, p.bft.dag.lastCommittedRound < r → ∀ a c,
        ((p.bft.dag.getCertificatesForRound r).bind fun m => m[a]?) = some c ↔
          c ∈ p.storage.getCertificatesForRound r ∧ c.author = a := by
  let _ := developmentNetwork
  intro _ hall
  have hstarted : Primary.Lived (Primary.anySurroundings Chain) none
      (startedNode (developmentLedger [genesis]) none 1).2 :=
    .start (startedNode_starts trivial processBftSubdag_faithful (by decide +kernel) none)
  have hlived := (hstarted.propose abandons trivial).shutDown
  have hgraph : ((abandonedNode.bft.dag.getCertificatesForRound 1).bind fun m =>
      m[developmentAccount 0]?) = none := by decide +kernel
  have hstored : ∃ c ∈ abandonedNode.storage.getCertificatesForRound 1,
      c.author = developmentAccount 0 := by decide +kernel
  obtain ⟨c, hc⟩ := hstored
  have hmem := (hall _ abandonedNode hlived 1 (by decide +kernel) (developmentAccount 0) c).mpr hc
  rw [hgraph] at hmem
  cases hmem

end Example

end AmareleoChain
