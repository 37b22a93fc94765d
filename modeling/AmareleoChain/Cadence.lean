import AmareleoChain.Flawless
import AmareleoChain.Keeping
import AmareleoChain.Retrying

/-!
The cadence of calls of `propose_batch` in which nothing fails: two calls for each round.

The first call of a round fills it, with the certificate of the node and those of the other
validators; the second finds the round full, and moves to the next.
-/

namespace AmareleoChain

open Std

/-! ### The round moves on, or not -/

namespace BFT

variable {S V : Type} [Ledger V] [StorageService S] [LawfulStorageService S] [Network]
  {U : Universe} {committee : ℕ → Committee} {g : ℕ} {acc : Fin 4 → Address} {past : List Block}
  {made : List BatchCertificate} {n k : ℕ} {b : BFT S V}

lemma Running.same (h : b.Running U committee g acc past made n k) {x : Option (ℕ × Address)}
    (hx : OwnLeader b.account (b.withLeader x).ledger) (leaderCertificate : Option BatchCertificate)
    (leaderCertificateTimer : ℤ) (round : ℕ) :
    ({ b.withLeader x with
        leaderCertificate, leaderCertificateTimer
        storage := b.storage.updateCurrentRound round } : BFT S V).Running U committee g acc past
      made n k := by
  have hquiet := h.filled.withLeader hx
  have hcon := hquiet.sound.consistent
  have hindexed := hcon.indexed
  have hclosed := hcon.closed
  have hcarries := hquiet.sound.carries
  refine ⟨?_, h.shutdown, h.sender, h.agrees⟩
  refine hquiet.congr ⟨?_, ?_⟩ rfl rfl rfl rfl rfl rfl
  · exact ⟨hcon.once.congr rfl rfl List.prefix_rfl,
      ⟨hindexed.keyed, hindexed.batchIds, hindexed.nonempty, hindexed.entries, hindexed.unique⟩,
      ⟨hclosed.above, hclosed.previous⟩, hcon.stored, hcon.maxGcRounds, hcon.gcRound, hcon.graph,
      hcon.chain, hcon.own, hcon.even⟩
  · exact ⟨hcarries.valid, hcarries.keeps⟩

omit [StorageService S] [LawfulStorageService S] [Network] in
lemma incrementToNextRound_updateCurrentRound (l : CoreLedgerService V) (s : Storage S) (r : ℕ) :
    ∃ round, (s.incrementToNextRound l r).2 = s.updateCurrentRound round := by
  unfold Storage.incrementToNextRound Storage.syncRoundWithBlock
  dsimp only
  split
  · exact ⟨s.currentRound, rfl⟩
  split
  · exact ⟨s.currentRound, rfl⟩
  split
  · split
    · exact ⟨_, rfl⟩
    · exact ⟨s.currentRound, rfl⟩
  · split
    · exact ⟨_, rfl⟩
    · split <;> exact ⟨_, rfl⟩

lemma Running.updateToNextRound (h : b.Running U committee g acc past made n k) (now : ℤ)
    (round : ℕ) :
    (b.updateToNextRound now round).2.Running U committee g acc past made n k ∧
      (b.updateToNextRound now round).2.ledger.ledger = b.ledger.ledger := by
  have hown := ownLeader_updateToNextRound h.filled.sound.consistent.own now round
  obtain ⟨x, leaderCertificate, timer, storage, hstorage, hres⟩ :=
    b.updateToNextRound_keeps now round
  obtain ⟨current, rfl⟩ : ∃ current, storage = b.storage.updateCurrentRound current := by
    rcases hstorage with rfl | rfl
    · exact ⟨b.storage.currentRound, rfl⟩
    · exact incrementToNextRound_updateCurrentRound b.ledger b.storage round
  rw [hres] at hown ⊢
  exact ⟨h.same hown leaderCertificate timer current, rfl⟩

omit [StorageService S] [LawfulStorageService S] in
lemma updateToNextRound_waits {round : ℕ} {com : Committee}
    (hround : b.storage.currentRound = round)
    (hlookback : b.ledger.getCommitteeLookbackForRound round = .ok com)
    (hquorum : com.isQuorumThresholdReached
      (authorsOf (b.storage.getCertificatesForRound round)) = false) (now : ℤ) :
    (b.updateToNextRound now round).1 = false ∧
      (b.updateToNextRound now round).2.storage = b.storage := by
  subst hround
  have hfew : ¬ com.isQuorumThresholdReached
      (authorsOf (b.storage.getCertificatesForRound b.storage.currentRound)) = true :=
    Bool.eq_false_iff.mp hquorum
  have heven : (b.updateLeaderCertificateToEvenRound now b.storage.currentRound).1 = false ∧
      (b.updateLeaderCertificateToEvenRound now b.storage.currentRound).2.storage = b.storage := by
    unfold updateLeaderCertificateToEvenRound
    dsimp only
    rw [if_neg (not_not_intro rfl)]
    split
    · exact ⟨rfl, rfl⟩
    split
    · exact ⟨rfl, rfl⟩
    obtain ⟨x, hx, -⟩ := electLeader_spec b b.storage.currentRound
    rw [hlookback, hx]
    exact ⟨if_pos hfew, rfl⟩
  have hodd : b.isLeaderQuorumOrNonleadersAvailable now b.storage.currentRound = false := by
    unfold isLeaderQuorumOrNonleadersAvailable
    dsimp only
    rw [if_neg (not_not_intro rfl)]
    split
    · rfl
    rw [hlookback]
    exact if_pos hfew
  have hready : (if b.storage.currentRound % 2 = 0 then
        b.updateLeaderCertificateToEvenRound now b.storage.currentRound
      else (false, b)).1 = false ∧
      (if b.storage.currentRound % 2 = 0 then
        b.updateLeaderCertificateToEvenRound now b.storage.currentRound
      else (false, b)).2.storage = b.storage := by
    split
    · exact heven
    · exact ⟨rfl, rfl⟩
  rw [BFT.updateToNextRound, if_neg (Nat.lt_irrefl _), hodd]
  generalize (if b.storage.currentRound % 2 = 0 then
      b.updateLeaderCertificateToEvenRound now b.storage.currentRound
    else (false, b)) = r at hready ⊢
  obtain ⟨isReady, b'⟩ := r
  obtain ⟨rfl, hstorage⟩ := hready
  exact ⟨rfl, hstorage⟩

/-- **The first certificate of a round** does not move it on. -/
lemma Running.waits (F : Favourable S U committee g acc)
    (h : b.Running U committee g acc past made n 1) (hround : b.storage.currentRound = n + 1)
    (hknows : Knows committee (n + 1) b.ledger) (now : ℤ) :
    (b.updateToNextRound now (n + 1)).1 = false ∧
      (b.updateToNextRound now (n + 1)).2.storage = b.storage := by
  refine updateToNextRound_waits hround (hknows (n + 1) (by omega) le_rfl) ?_ now
  have hindexed := h.filled.sound.consistent.indexed
  -- its author is the only one
  have hsubset : authorsOf (b.storage.getCertificatesForRound (n + 1))
      ⊆ ({0} : Finset (Fin 4)).image acc := by
    intro a ha
    obtain ⟨c, hc, rfl⟩ := AmareleoChain.mem_authorsOf.mp ha
    obtain ⟨hc, hcround⟩ := (Storage.mem_getCertificatesForRound hindexed (by omega)).mp hc
    obtain ⟨w, hw, -, hle | ⟨-, hlt⟩⟩ := h.filled.rows.only c ((h.filled.stored c).mp hc).1
    · omega
    · obtain rfl : w = 0 := Fin.ext (Nat.lt_one_iff.mp hlt)
      rw [hw]
      exact Finset.mem_image_of_mem acc (Finset.mem_singleton_self 0)
  by_contra hquorum
  rw [Bool.not_eq_false] at hquorum
  have hthree := ((F.equal (n + 1) (by omega)).quorum_iff F.injective).mp
    ((committee (n + 1)).quorum_mono hsubset hquorum)
  simp at hthree

/-- **A full round** moves on. -/
lemma Running.moves (F : Favourable S U committee g acc)
    (h : b.Running U committee g acc past made n 0) (hn : 0 < n)
    (hround : b.storage.currentRound = n) (hknows : Knows committee n b.ledger)
    {current : Committee} (hcurrent : b.ledger.currentCommittee = .ok current)
    (hstarting : current.startingRound ≤ n) (now : ℤ) :
    (b.updateToNextRound now n).1 = true ∧
      (b.updateToNextRound now n).2.storage.currentRound = n + 1 := by
  have hcon := h.filled.sound.consistent
  have hgc := h.gcRound_lt F.positive hn
  have hequal := F.equal n hn
  have hmember : b.account ∈ (committee n).members := by
    rw [h.filled.account]
    exact hequal.mem_members 0
  refine updateToNextRound_of_full ⟨hcon.indexed, hround, hn, hknows n hn le_rfl, hequal.quorum,
    hequal.bound, fun a ha => ?_⟩ hmember (fun leader hl => hcon.own _ _ hl) hcurrent (by omega)
    (by omega) now
  rw [hequal.members] at ha
  obtain ⟨vid, -, rfl⟩ := Finset.mem_image.mp ha
  obtain ⟨c, hc, hcround, hauthor, -⟩ := h.filled.rows.one n vid ⟨hn, .inl le_rfl⟩
  exact ⟨c, (h.filled.stored c).mpr ⟨hc, by omega⟩, hcround, hauthor⟩

lemma Running.next (h : b.Running U committee g acc past made n 4) :
    b.Running U committee g acc past made (n + 1) 0 := by
  have hfilled := h.filled
  rw [lastFilled_four] at hfilled
  exact ⟨{ hfilled with rows := hfilled.rows.next }, h.shutdown, h.sender, h.agrees⟩

end BFT

/-! ### Calls -/

namespace Primary

variable {S V : Type} [Ledger V] [StorageService S] [LawfulStorageService S] [Network]
  {U : Universe} {committee : ℕ → Committee} {g : ℕ} {acc : Fin 4 → Address} {past : List Block}
  {made : List BatchCertificate} {n k : ℕ} {T : ℤ} {p : Primary S V} {c : BatchCertificate}
  {vid : Fin 4} {signers : List Address}

/-- A call of `propose_batch` in which nothing fails: the ledger service, the signatures, the
storage service and the channels answer. -/
structure Undisturbed (U : Universe) (committee : ℕ → Committee) (acc : Fin 4 → Address)
    (env : ProposeEnv) (p : Primary S V) : Prop where
  accounts : env.accounts = .ok acc
  roundSent : env.lite.roundSent = .done
  answered : Answered env.lite.checks p.ready
  own : env.lite.certification.Flawless (acc 0) [acc 1, acc 2, acc 3]
  fake : ∀ vid : Fin 4, vid.val ≠ 0 →
    (env.fake vid).Flawless (acc vid) ((List.ofFn acc).filter (· ≠ acc vid))
  knows : Knows committee p.currentRound p.ledger
  current : ∃ current, p.ledger.currentCommittee = .ok current ∧
    current.startingRound ≤ p.currentRound
  makes : MakesIn U env p

/-- The primary of a node for which the rounds fill up. No batch of those who are yet to come was
signed, and the own batches were made up to the time `T`. -/
structure AtRow (U : Universe) (committee : ℕ → Committee) (g : ℕ) (acc : Fin 4 → Address)
    (past : List Block) (made : List BatchCertificate) (n k : ℕ) (T : ℤ) (p : Primary S V) :
    Prop where
  bft : p.bft.Running U committee g acc past made n k
  bftSender : p.bftSender = true
  proposedBatch : p.proposedBatch = none
  signed : ∀ (a : Address) x, p.signedProposals.get? a = some x → x.1 ≤ n + 1 ∧
    ∀ vid : Fin 4, acc vid = a → k ≤ vid.val → x.1 ≤ n
  stamps : ∀ c ∈ made, c.author = acc 0 → 0 ≤ c.timestamp ∧ c.timestamp ≤ T
  latest : 0 ≤ p.latestProposedBatchTimestamp ∧ p.latestProposedBatchTimestamp ≤ T

omit [LawfulStorageService S] in
lemma fakeProposal_eq {env : Certification} {primaryAcc : Address} {round : ℕ}
    {transmissions : IndexMap TransmissionID Transmission}
    (h : FakeStores env primaryAcc signers round p c transmissions) :
    ∃ signature, p.fakeProposal env primaryAcc signers round
      = andThen ((p.askHeader primaryAcc round).insertCertificate env.toReceipt c transmissions)
        fun _ p => p.signProposal env primaryAcc round c.id signature c := by
  obtain ⟨⟨committee, hlookback, proposal, signed, hproposal, hsigned, hcertificate⟩, signature,
    hsign⟩ := h
  obtain ⟨-, rfl, -⟩ := Proposal.toCertificate_spec hcertificate
  refine ⟨signature, ?_⟩
  rw [fakeProposal, hlookback]
  dsimp only [attempt, orStop, Except.mapError]
  rw [hproposal]
  dsimp only
  rw [hsigned]
  dsimp only
  rw [show ourSign env signers (p.askHeader primaryAcc round).account = _ from hsign]
  dsimp only
  rw [hcertificate]
  rfl

/-- **The batch of another validator**: it is the next certificate. -/
theorem AtRow.fakeProposal [LawfulLedger V] (F : Favourable S U committee g acc)
    (h : p.AtRow U committee g acc past made n k T) (hknows : Knows committee (n + 1) p.ledger)
    (hlock : p.proposeLock = n + 1) (hvid : vid.val = k) (hother : vid.val ≠ 0)
    {env : Certification} (henv : env.Flawless (acc vid) signers) (hothers : Others acc vid signers)
    (hhas : ∀ c transmissions, FakeStores env (acc vid) signers (n + 1) p c transmissions →
      U.Has c) :
    ∃ c q, p.fakeProposal env (acc vid) signers (n + 1) = (.ok (), q) ∧
      q.AtRow U committee g acc past (made ++ [c]) n (k + 1) T ∧
      Knows committee (n + 1) q.ledger ∧ q.proposeLock = n + 1 ∧
      q.currentRound = p.currentRound := by
  have hpos : 1 ≤ n + 1 := by omega
  have hlookback := hknows (n + 1) hpos le_rfl
  obtain ⟨c, hc⟩ := certifies_of_flawless (p.storage.getCertificatesForRound n) ∅ F.accepts
    F.injective (F.equal (n + 1) hpos) (F.starting (n + 1) hpos) henv hothers
  obtain ⟨signature, hsign⟩ : ∃ signature, ourSign env signers p.account = .ok signature := by
    obtain ⟨batchId, x, -, -, hall⟩ := henv.header
    have hmem : acc 0 ∈ signers :=
      (hothers.mem _).mpr ⟨0, fun heq => hother (heq ▸ rfl), rfl⟩
    obtain ⟨y, hy, -⟩ := hall (acc 0) hmem
    refine ⟨y, ?_⟩
    rw [show p.account = acc 0 from h.bft.filled.account, ourSign, if_pos hmem, hy]
  have hstores : FakeStores env (acc vid) signers (n + 1) p c ∅ :=
    ⟨⟨committee (n + 1), hlookback, hc⟩, signature, hsign⟩
  obtain ⟨storage, b, hinsert, hupdate, hb, hknows', hround, -, hauthor, -⟩ :=
    stores_next (p := p.askHeader (acc vid) (n + 1)) F h.bft hknows hlock h.proposedBatch hvid henv
      (hhas c ∅ hstores) hc
  obtain ⟨signature, heq⟩ := fakeProposal_eq hstores
  set q := (p.askHeader (acc vid) (n + 1)).withStorage storage with hq
  have hfree : ¬ (q.signedProposals.get? (acc vid)).any
      (fun signed => signed.1 == n + 1) = true := by
    rw [Option.any_eq_true]
    rintro ⟨x, hx, hxround⟩
    have hle := (h.signed (acc vid) x hx).2 vid rfl hvid.ge
    have := beq_iff_eq.mp hxround
    omega
  have hsent := hupdate { q with
    signedProposals := p.signedProposals.insert (acc vid) (n + 1, c.id, signature) } rfl
    h.bftSender
  refine ⟨c, { q with
    signedProposals := p.signedProposals.insert (acc vid) (n + 1, c.id, signature), bft := b },
    ?_, ⟨hb, h.bftSender, h.proposedBatch, fun a x hx => ?_, fun d hd hown => ?_,
    h.latest⟩, hknows', hlock, hround⟩
  · rw [heq, hinsert]
    dsimp only [AmareleoChain.andThen]
    rw [signProposal, if_neg hfree]
    exact hsent
  · have hx' : (p.signedProposals.insert (acc vid) (n + 1, c.id, signature)).get? a = some x := hx
    rw [IndexMap.get?_insert] at hx'
    split at hx'
    · next ha =>
      cases hx'
      refine ⟨le_rfl, fun w hw hle => ?_⟩
      obtain rfl := F.injective (hw.trans ha)
      omega
    · exact (h.signed a x hx').imp_right fun hnext w hw hle => hnext w hw (by omega)
  · rcases List.mem_append.mp hd with hd | hd
    · exact h.stamps d hd hown
    · rw [List.mem_singleton.mp hd, hauthor] at hown
      exact absurd (congrArg Fin.val (F.injective hown)) hother

/-- **The batches of the other validators**, one after the other. -/
lemma AtRow.fakeProposals [LawfulLedger V] (F : Favourable S U committee g acc) {p₀ : Primary S V}
    {env : ProposeEnv} (hfake : ∀ vid : Fin 4, vid.val ≠ 0 →
      (env.fake vid).Flawless (acc vid) ((List.ofFn acc).filter (· ≠ acc vid)))
    (vids pre : List (Fin 4)) (hsplit : [1, 2, 3] = pre ++ vids)
    (hhas : ∀ {q : Primary S V} {pre post : List (Fin 4)} {vid : Fin 4} {c : BatchCertificate}
      {transmissions : IndexMap TransmissionID Transmission}, [1, 2, 3] = pre ++ vid :: post →
      p₀.fakeProposals env acc (n + 1) pre = (.ok (), q) →
      FakeStores (env.fake vid) (acc vid) ((List.ofFn acc).filter (· ≠ acc vid)) (n + 1) q c
        transmissions → U.Has c)
    (hpre : p₀.fakeProposals env acc (n + 1) pre = (.ok (), p))
    (h : p.AtRow U committee g acc past made n (pre.length + 1) T)
    (hknows : Knows committee (n + 1) p.ledger) (hlock : p.proposeLock = n + 1) :
    ∃ made' q, p.fakeProposals env acc (n + 1) vids = (.ok (), q) ∧
      q.AtRow U committee g acc past made' n 4 T ∧ q.proposeLock = n + 1 ∧
      q.currentRound = p.currentRound ∧ made <+: made' := by
  induction vids generalizing pre p made with
  | nil =>
    have hlength := congrArg List.length hsplit
    rw [List.append_nil] at hlength
    refine ⟨made, p, rfl, ?_, hlock, rfl, List.prefix_rfl⟩
    rwa [← hlength] at h
  | cons vid vids ih =>
    have hvid : vid.val = pre.length + 1 := by
      have hget : ([1, 2, 3] : List (Fin 4))[pre.length]? = some vid := by
        rw [hsplit, List.getElem?_append_right le_rfl, Nat.sub_self]
        rfl
      have hall : ∀ i < 3, ∀ w : Fin 4, ([1, 2, 3] : List (Fin 4))[i]? = some w →
          w.val = i + 1 := by decide
      exact hall _ (List.getElem?_eq_some_iff.mp hget).1 vid hget
    have hother : vid.val ≠ 0 := by omega
    obtain ⟨c, q, hres, hq, hknows', hlock', hround⟩ := h.fakeProposal F hknows hlock hvid hother
      (hfake vid hother) (others_fake F.injective vid) fun c t hstores => hhas hsplit hpre hstores
    have hpre' : p₀.fakeProposals env acc (n + 1) (pre ++ [vid]) = (.ok (), q) := by
      rw [fakeProposals_append, hpre]
      dsimp only [AmareleoChain.andThen, Primary.fakeProposals]
      rw [hres]
    obtain ⟨made', r, hres', hr, hlock'', hround', hmade⟩ := ih (pre ++ [vid])
      (by rw [hsplit, List.append_assoc]; rfl) hpre'
      (by rw [List.length_append, List.length_singleton]; exact hq) hknows' hlock'
    refine ⟨made', r, ?_, hr, hlock'', hround'.trans hround,
      (List.prefix_append _ _).trans hmade⟩
    rw [Primary.fakeProposals, hres]
    exact hres'

/-! ### The batch of the node -/

omit [LawfulStorageService S] in
lemma signAndComplete_eq (env : LiteEnv) {round : ℕ} {com : Committee}
    {previous : List BatchCertificate} {given transmissions : IndexMap TransmissionID Transmission}
    (h : Certifies env.certification p.account signers round com previous given c transmissions) :
    p.signAndComplete env signers true round com previous given
      = afterLite env round c transmissions
        (({ p with
            proposeLock := round
            latestProposedBatchTimestamp := env.certification.currentTimestamp
            headers := p.headers ++ [⟨p.account, round⟩] } :
          Primary S V).insertCertificate env.certification.toReceipt c transmissions) := by
  obtain ⟨proposal, signed, hproposal, hsigned, hcertificate⟩ := h
  obtain ⟨-, -, htransmissions⟩ := Proposal.toCertificate_spec hcertificate
  have htimestamp : proposal.timestamp = env.certification.currentTimestamp := by
    obtain ⟨_, _, -, -, rfl⟩ := newProposal_spec hproposal
    rfl
  unfold signAndComplete
  dsimp only
  rw [hproposal]
  dsimp only
  rw [if_pos rfl, completeBatchLite, hsigned, htimestamp]
  dsimp only [attempt]
  unfold storeAndBroadcastCertificateLite
  rw [hcertificate, htransmissions]
  rfl

omit [StorageService S] [LawfulStorageService S] in
lemma tryIncrement_eq (hsender : p.bftSender = true) {round : ℕ} (hround : p.currentRound = round)
    (now : ℤ) :
    p.tryIncrementToTheNextRoundLite .done now (round + 1)
      = (.ok (p.bft.updateToNextRound now round).1,
        { p with bft := (p.bft.updateToNextRound now round).2 }) := by
  subst hround
  have hstay : (if p.currentRound + p.storage.maxGcRounds ≥ p.currentRound + 1 then
      p.fastForward (p.currentRound + 1) (2 * (p.currentRound + 1) + 2) p.currentRound
      else (.ok (), p)) = (.ok (), p) := by
    split
    · exact if_neg (by omega)
    · rfl
  rw [tryIncrementToTheNextRoundLite, hstay]
  dsimp only [AmareleoChain.andThen]
  rw [if_pos (Nat.lt_succ_self _), if_pos hsender]
  rfl

lemma AtRow.checkProposalTimestamp (h : p.AtRow U committee g acc past made n k T) {round : ℕ}
    {checkedAt : ℤ} (hT : T + minBatchDelayInSecs ≤ checkedAt) (hsmall : checkedAt < 2 ^ 63) :
    p.checkProposalTimestamp round p.account checkedAt = .ok () := by
  have haccount : p.account = acc 0 := h.bft.filled.account
  have hindexed := h.bft.filled.sound.consistent.indexed
  have hdelay : minBatchDelayInSecs = 1 := rfl
  have hcertificate : ∀ c, p.storage.getCertificateForRoundWithAuthor round p.account = some c →
      0 ≤ c.timestamp ∧ c.timestamp ≤ T := by
    intro c hc
    obtain ⟨⟨id, a⟩, he, hget⟩ := List.exists_of_findSome?_eq_some hc
    split at hget
    swap
    · cases hget
    next ha =>
    obtain ⟨d, hd, -, hauthor⟩ := (hindexed.entries _ _ _).mp he
    obtain rfl : d = c := Option.some_inj.mp (hd.symm.trans hget)
    have hstored : p.bft.Stored d := by
      rw [BFT.Stored, hindexed.keyed hd]
      exact hd
    exact h.stamps d ((h.bft.filled.stored d).mp hstored).1 ((hauthor.trans ha).trans haccount)
  have hprevious : ∀ previous : ℤ, 0 ≤ previous ∧ previous ≤ T →
      (if checkedAt - previous < -2 ^ 63 ∨ 2 ^ 63 ≤ checkedAt - previous then
        (.error s!"Timestamp cannot be before the previous certificate at round {round}" :
          Except String Unit)
      else if checkedAt - previous < minBatchDelayInSecs then
        .error s!"Timestamp is too soon after the previous certificate at round {round}"
      else .ok ()) = .ok () := by
    intro previous hbounds
    rw [if_neg (by omega), if_neg (by omega)]
  unfold Primary.checkProposalTimestamp
  dsimp only
  split
  · next c hc => exact hprevious c.timestamp (hcertificate c hc)
  · exact hprevious p.latestProposedBatchTimestamp h.latest

lemma AtRow.builds (F : Favourable S U committee g acc)
    (h : p.AtRow U committee g acc past made n 0 T) (hround : p.currentRound = n + 1)
    (hlock : p.proposeLock ≤ n) {env : ProposeEnv} (hcall : Undisturbed U committee acc env p)
    (hT : T + minBatchDelayInSecs ≤ env.lite.checkedAt) (hsmall : env.lite.checkedAt < 2 ^ 63) :
    p.Builds env.lite [acc 1, acc 2, acc 3] (committee (n + 1)) := by
  have hindexed := h.bft.filled.sound.consistent.indexed
  have haccount : p.account = acc 0 := h.bft.filled.account
  have hknows := hcall.knows
  rw [hround] at hknows
  refine ⟨by omega, by omega, h.checkProposalTimestamp hT hsmall, ?_, ?_, ?_, ?_⟩
  · rw [Bool.eq_false_iff, Ne, Storage.containsCertificateInRoundFrom_iff hindexed, hround,
      haccount]
    rintro ⟨d, hd, hr, ha⟩
    exact h.bft.author_ne F.injective hd hr (Nat.zero_le _) ha
  · rw [hround]
    exact hknows (n + 1) (by omega) le_rfl
  · rw [haccount, (others_own F.injective).insert_eq,
      (F.equal (n + 1) (by omega)).quorum_iff F.injective]
    decide
  · rw [hround, isReady, Nat.add_sub_cancel]
    split
    · next hn =>
      rw [hknows n hn (Nat.le_succ n)]
      dsimp only
      rw [h.bft.quorum F.positive hn F.injective (F.equal n hn)]
    · rfl

/-- **The batch of the node**: it is the first certificate of the round. -/
theorem AtRow.proposeBatchLite [LawfulLedger V] (F : Favourable S U committee g acc)
    (h : p.AtRow U committee g acc past made n 0 T) (hround : p.currentRound = n + 1)
    (hlock : p.proposeLock ≤ n) {env : ProposeEnv} (hcall : Undisturbed U committee acc env p)
    (hT : T + minBatchDelayInSecs ≤ env.lite.checkedAt) (hsmall : env.lite.checkedAt < 2 ^ 63)
    (hstamp : 0 ≤ env.lite.certification.currentTimestamp) {T' : ℤ} (hle : T ≤ T')
    (hT' : env.lite.certification.currentTimestamp ≤ T') :
    ∃ c q, p.proposeBatchLite env.lite [acc 1, acc 2, acc 3] true = (.ok (n + 1), q) ∧
      q.AtRow U committee g acc past (made ++ [c]) n 1 T' ∧ Knows committee (n + 1) q.ledger ∧
      q.proposeLock = n + 1 ∧ q.currentRound = n + 1 := by
  have hbuilds := h.builds F hround hlock hcall hT hsmall
  have haccount : p.account = acc 0 := h.bft.filled.account
  have hpos : 1 ≤ n + 1 := by omega
  have hknows := hcall.knows
  rw [hround] at hknows
  obtain ⟨d, hdrain⟩ := hcall.answered.drain_ok p p.ready.numTransmissions (d := ⟨p.ready, ∅, 0, 0⟩)
    fun e he => he
  obtain ⟨c, hc⟩ := certifies_of_flawless (p.storage.getCertificatesForRound n) d.transmissions
    F.accepts F.injective (F.equal (n + 1) hpos) (F.starting (n + 1) hpos) hcall.own
    (others_own F.injective)
  -- the state in which the certificate is stored
  let q : Primary S V :=
    { p with
      ready := d.ready
      latestProposedBatchTimestamp := env.lite.certification.currentTimestamp
      proposeLock := n + 1
      headers := p.headers ++ [⟨p.account, n + 1⟩] }
  have hlite : LiteBuilds env.lite [acc 1, acc 2, acc 3] p c d.transmissions q := by
    have hcertifies : Certifies env.lite.certification p.account [acc 1, acc 2, acc 3]
        p.currentRound (committee (n + 1))
        (p.storage.getCertificatesForRound (p.currentRound - 1)) d.transmissions c
        d.transmissions := by
      rw [haccount, hround]
      exact hc
    exact ⟨⟨hbuilds.round_ne, hbuilds.ahead, hbuilds.fresh, hbuilds.ready,
      ⟨_, _, hbuilds.lookback, hcertifies⟩, ⟨_, _, by rw [hround]⟩⟩,
      ⟨_, d, hbuilds.lookback, hdrain, hcertifies⟩⟩
  obtain ⟨storage, b, hinsert, hupdate, hb, hknows', hround', hcround, hauthor, htimestamp⟩ :=
    stores_next (p := q) F h.bft hknows rfl h.proposedBatch rfl hcall.own
      (hcall.makes.lite hcall.accounts hlite) hc
  have hsent := hupdate (q.withStorage storage) rfl h.bftSender
  have hcurrent : Primary.currentRound { q.withStorage storage with bft := b } = n + 1 :=
    hround'.trans hround
  obtain ⟨hwaits, hstorage⟩ := hb.waits F hcurrent hknows' env.lite.roundSentAt
  obtain ⟨hrunning, hledger⟩ := hb.updateToNextRound env.lite.roundSentAt (n + 1)
  refine ⟨c, { q.withStorage storage with
    bft := (b.updateToNextRound env.lite.roundSentAt (n + 1)).2 }, ?_,
    ⟨hrunning, h.bftSender, h.proposedBatch,
      fun a x hx => ⟨(h.signed a x hx).1, fun w hw hle' => ?_⟩,
      fun e he hown => ?_, hstamp, hT'⟩, fun r hr hle' => ?_, rfl, ?_⟩
  · rcases proposeBatchLite_builds env.lite [acc 1, acc 2, acc 3] p with
      ⟨com, hcom, heq⟩ | ⟨hnot, -⟩
    swap
    · exact absurd hbuilds (hnot _)
    obtain rfl : com = committee (n + 1) :=
      Except.ok.inj (hcom.lookback.symm.trans hbuilds.lookback)
    have hcomplete := signAndComplete_eq (p := { p with ready := d.ready }) env.lite
      (haccount.symm ▸ hc)
    rw [heq, hround, buildBatch, hdrain]
    dsimp only [attempt]
    rw [Nat.add_sub_cancel, hcomplete, afterLite]
    rw [show ({ p with
        ready := d.ready
        latestProposedBatchTimestamp := env.lite.certification.currentTimestamp
        proposeLock := n + 1
        headers := p.headers ++ [⟨p.account, n + 1⟩] } : Primary S V) = q from rfl, hinsert]
    dsimp only [AmareleoChain.andThen]
    rw [hsent]
    dsimp only [AmareleoChain.andThen]
    rw [hcround, hcall.roundSent,
      tryIncrement_eq (p := { q.withStorage storage with bft := b }) h.bftSender hcurrent]
  · exact (h.signed a x hx).2 w hw (Nat.zero_le _)
  · rcases List.mem_append.mp he with he | he
    · exact (h.stamps e he hown).imp_right fun hle' => hle'.trans hle
    · rw [List.mem_singleton.mp he, htimestamp]
      exact ⟨hstamp, hT'⟩
  · exact hknows'.of_ledger hledger r hr hle'
  · exact (congrArg Storage.currentRound hstorage).trans hcurrent

/-! ### The two calls of a round -/

/-- **The first call of a round** fills it. -/
theorem AtRow.fills [LawfulLedger V] (F : Favourable S U committee g acc)
    (h : p.AtRow U committee g acc past made n 0 T) (hround : p.currentRound = n + 1)
    (hlock : p.proposeLock ≤ n) {env : ProposeEnv} (hcall : Undisturbed U committee acc env p)
    (hT : T + minBatchDelayInSecs ≤ env.lite.checkedAt) (hsmall : env.lite.checkedAt < 2 ^ 63)
    (hstamp : 0 ≤ env.lite.certification.currentTimestamp) {T' : ℤ} (hle : T ≤ T')
    (hT' : env.lite.certification.currentTimestamp ≤ T') :
    ∃ made' q, p.proposeBatch env true = (.ok (), q) ∧
      q.AtRow U committee g acc past made' (n + 1) 0 T' ∧ q.currentRound = n + 1 ∧
      q.proposeLock = n + 1 ∧ made <+: made' := by
  obtain ⟨c, q, hlite, hq, hknows, hlocked, hcurrent⟩ :=
    h.proposeBatchLite F hround hlock hcall hT hsmall hstamp hle hT'
  obtain ⟨made', r, hfakes, hr, hlocked', hcurrent', hmade⟩ :=
    hq.fakeProposals F hcall.fake [1, 2, 3] [] rfl
      (fun hsplit hpre hstores =>
        hcall.makes.fakes hcall.accounts hlite (Nat.succ_ne_zero n) hsplit hpre hstores)
      rfl hknows hlocked
  refine ⟨made', r, ?_, ⟨hr.bft.next, hr.bftSender, hr.proposedBatch, fun a x hx => ?_, hr.stamps,
    hr.latest⟩, hcurrent'.trans hcurrent, hlocked', (List.prefix_append _ _).trans hmade⟩
  · rw [proposeBatch_of_accounts hcall.accounts, hlite]
    dsimp only [AmareleoChain.andThen]
    rw [if_neg (by simp)]
    exact hfakes
  · have hx' := (hr.signed a x hx).1
    exact ⟨by omega, fun _ _ _ => hx'⟩

/-- **The second call of a round** moves to the next. -/
theorem AtRow.advances (F : Favourable S U committee g acc)
    (h : p.AtRow U committee g acc past made n 0 T) (hn : 0 < n) (hround : p.currentRound = n)
    (hlock : p.proposeLock = n) {env : ProposeEnv} (hcall : Undisturbed U committee acc env p)
    (hT : T + minBatchDelayInSecs ≤ env.lite.checkedAt) (hsmall : env.lite.checkedAt < 2 ^ 63) :
    ∃ q, p.proposeBatch env true = (.ok (), q) ∧ q.AtRow U committee g acc past made n 0 T ∧
      q.currentRound = n + 1 ∧ q.proposeLock = n := by
  have hindexed := h.bft.filled.sound.consistent.indexed
  have haccount : p.account = acc 0 := h.bft.filled.account
  have hgc := h.bft.gcRound_lt F.positive hn
  have hknows := hcall.knows
  rw [hround] at hknows
  obtain ⟨current, hcurrent, hstarting⟩ := hcall.current
  rw [hround] at hstarting
  obtain ⟨hmoves, hnext⟩ :=
    h.bft.moves F hn hround hknows hcurrent hstarting env.lite.roundSentAt
  obtain ⟨hrunning, -⟩ := h.bft.updateToNextRound env.lite.roundSentAt n
  have hown : p.storage.containsCertificateInRoundFrom p.currentRound p.account = true := by
    obtain ⟨c, hc, hcround, hauthor, -⟩ := h.bft.filled.rows.one n 0 ⟨hn, .inl le_rfl⟩
    rw [Storage.containsCertificateInRoundFrom_iff hindexed, hround, haccount]
    exact ⟨c, (h.bft.filled.stored c).mpr ⟨hc, by omega⟩, hcround, hauthor⟩
  refine ⟨{ p with bft := (p.bft.updateToNextRound env.lite.roundSentAt n).2 }, ?_,
    ⟨hrunning, h.bftSender, h.proposedBatch, h.signed, h.stamps, h.latest⟩, hnext, hlock⟩
  have hlite : p.proposeBatchLite env.lite [acc 1, acc 2, acc 3] true
      = (.ok 0, { p with bft := (p.bft.updateToNextRound env.lite.roundSentAt n).2 }) := by
    unfold Primary.proposeBatchLite
    dsimp only
    rw [if_neg (by omega), if_neg (by omega), h.checkProposalTimestamp hT hsmall]
    dsimp only
    rw [if_pos hown, if_pos h.bftSender, hcall.roundSent, hround]
    rfl
  rw [proposeBatch_of_accounts hcall.accounts, hlite]
  dsimp only [AmareleoChain.andThen]
  rw [if_pos (.inr rfl)]

/-! ### Runs of calls -/

/-- The primary before each of some calls. The worker gets transmissions in between. -/
def beforeCall (envs : ℕ → ProposeEnv) (ready : ℕ → Ready) (p : Primary S V) : ℕ → Primary S V
  | 0 => { p with ready := ready 0 }
  | n + 1 => { ((p.beforeCall envs ready n).proposeBatch (envs n) true).2 with
      ready := ready (n + 1) }

/-- The time of the last batch that was made before a call, at most. -/
def latestStamp (envs : ℕ → ProposeEnv) : ℕ → ℤ
  | 0 => 0
  | n + 1 => max (latestStamp envs n) (envs n).lite.certification.currentTimestamp

/-- The clock advances between the calls. -/
structure OnTime (envs : ℕ → ProposeEnv) (n : ℕ) : Prop where
  delayed : latestStamp envs n + minBatchDelayInSecs ≤ (envs n).lite.checkedAt
  small : (envs n).lite.checkedAt < 2 ^ 63
  stamp : 0 ≤ (envs n).lite.certification.currentTimestamp

lemma AtRow.withReady (h : p.AtRow U committee g acc past made n k T) (ready : Ready) :
    ({ p with ready } : Primary S V).AtRow U committee g acc past made n k T :=
  ⟨h.bft, h.bftSender, h.proposedBatch, h.signed, h.stamps, h.latest⟩

/-- The primary before a call: with the first call of a round the round is to be filled, with the
second it has just been. -/
structure AtCall (U : Universe) (committee : ℕ → Committee) (g : ℕ) (acc : Fin 4 → Address)
    (past : List Block) (envs : ℕ → ProposeEnv) (made : List BatchCertificate) (n : ℕ)
    (p : Primary S V) : Prop where
  row : p.AtRow U committee g acc past made ((n + 1) / 2) 0 (latestStamp envs n)
  currentRound : p.currentRound = n / 2 + 1
  proposeLock : p.proposeLock = (n + 1) / 2

lemma AtCall.withReady {envs : ℕ → ProposeEnv} (h : p.AtCall U committee g acc past envs made n)
    (ready : Ready) : ({ p with ready } : Primary S V).AtCall U committee g acc past envs made n :=
  ⟨h.row.withReady ready, h.currentRound, h.proposeLock⟩

/-- **A call** succeeds. -/
theorem AtCall.call [LawfulLedger V] (F : Favourable S U committee g acc) {envs : ℕ → ProposeEnv}
    (h : p.AtCall U committee g acc past envs made n) (htime : OnTime envs n)
    (hcall : Undisturbed U committee acc (envs n) p) :
    ∃ made' q, p.proposeBatch (envs n) true = (.ok (), q) ∧
      q.AtCall U committee g acc past envs made' (n + 1) ∧ made <+: made' := by
  obtain ⟨hrow, hcurrent, hlocked⟩ := h
  rcases Nat.mod_two_eq_zero_or_one n with heven | hodd
  · -- the first call of a round
    obtain ⟨made', q, hres, hq, hround, hlock, hmade⟩ := hrow.fills F (by omega) (by omega) hcall
      htime.delayed htime.small htime.stamp (le_max_left _ _) (le_max_right _ _)
    have hnext : (n + 1 + 1) / 2 = (n + 1) / 2 + 1 := by omega
    refine ⟨made', q, hres, ⟨?_, hround, ?_⟩, hmade⟩
    · rw [hnext]
      exact hq
    · rw [hnext]
      exact hlock
  · -- the second
    obtain ⟨q, hres, hq, hround, hlock⟩ := hrow.advances F (by omega) (by omega) hlocked hcall
      htime.delayed htime.small
    have hsame : (n + 1 + 1) / 2 = (n + 1) / 2 := by omega
    refine ⟨made, q, hres, ⟨?_, hround, ?_⟩, List.prefix_rfl⟩
    · rw [hsame]
      exact ⟨hq.bft, hq.bftSender, hq.proposedBatch, hq.signed,
        fun c hc hown => (hq.stamps c hc hown).imp_right fun hle => hle.trans (le_max_left _ _),
        hq.latest.imp_right fun hle => hle.trans (le_max_left _ _)⟩
    · rw [hsame]
      exact hlock

/-- **Before each call** the rounds are full that were filled, and the round is the one that is to
be filled, or has just been. What was made so far grows from call to call. -/
theorem AtRow.beforeCall [LawfulLedger V] (F : Favourable S U committee g acc)
    (h : p.AtRow U committee g acc past [] 0 0 0) (hround : p.currentRound = 1)
    (hlock : p.proposeLock = 0) {envs : ℕ → ProposeEnv} {ready : ℕ → Ready}
    (hcalls : ∀ i < n, OnTime envs i ∧
      Undisturbed U committee acc (envs i) (p.beforeCall envs ready i)) :
    (∀ i < n, ((p.beforeCall envs ready i).proposeBatch (envs i) true).1 = .ok ()) ∧
      ∃ made : ℕ → List BatchCertificate, (∀ i ≤ n, made i <+: made n) ∧
        ∀ i ≤ n, (p.beforeCall envs ready i).AtCall U committee g acc past envs (made i) i := by
  induction n with
  | zero =>
    refine ⟨fun i hi => absurd hi (Nat.not_lt_zero i), fun _ => [], fun _ _ => List.prefix_rfl,
      fun i hi => ?_⟩
    obtain rfl := Nat.le_zero.mp hi
    exact ⟨h.withReady _, hround, hlock⟩
  | succ n ih =>
    obtain ⟨hok, made, hgrows, hat⟩ := ih fun i hi => hcalls i (by omega)
    obtain ⟨htime, hcall⟩ := hcalls n (Nat.lt_succ_self n)
    obtain ⟨made', q, hres, hq, hmade⟩ := (hat n le_rfl).call F htime hcall
    have hnext : p.beforeCall envs ready (n + 1) = { q with ready := ready (n + 1) } := by
      rw [Primary.beforeCall, hres]
    have hold : ∀ i ≤ n, Function.update made (n + 1) made' i = made i := fun i hi =>
      Function.update_of_ne (Nat.ne_of_lt (Nat.lt_succ_of_le hi)) made' made
    have hnew : Function.update made (n + 1) made' (n + 1) = made' :=
      Function.update_self (n + 1) made' made
    refine ⟨fun i hi => ?_, Function.update made (n + 1) made', fun i hi => ?_, fun i hi => ?_⟩
    · rcases Nat.lt_succ_iff_lt_or_eq.mp hi with hi | rfl
      · exact hok i hi
      · rw [hres]
    · rcases Nat.le_succ_iff.mp hi with hi | rfl
      · rw [hold i hi, hnew]
        exact (hgrows i hi).trans hmade
      · exact List.prefix_rfl
    · rcases Nat.le_succ_iff.mp hi with hi | rfl
      · rw [hold i hi]
        exact hat i hi
      · rw [hnew, hnext]
        exact hq.withReady _

end Primary

end AmareleoChain
