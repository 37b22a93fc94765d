import AmareleoChain.Orderly

/-!
What the primary builds, the storage accepts.

A certificate is built from the certificates of the round before that are stored then, and it is
checked when it is stored. For the certificate of the node nothing happens in between. For those
of the other validators, commits may have collected certificates since the batch was found to be
ready; then those of the round before are still there, or the storage does not ask for them.
-/

namespace AmareleoChain

open Std

/-- What `BatchHeader::new` and the clock do: a header is signed by its author, and a certificate
is stored no earlier than it is made. -/
structure Certification.Makes (env : Certification) (author : Address) : Prop where
  signed : ∀ batchId signature, env.header = .ok (batchId, signature) →
    signature.toAddress = author
  clock : env.currentTimestamp ≤ env.insertedAt

/-- The batch ID is a hash of the header: a stored certificate with it is of the same author and
round. -/
def Storage.HashesApart {S : Type} (s : Storage S) (c : BatchCertificate) : Prop :=
  ∀ d, s.certificates[c.id]? = some d → d.author = c.author ∧ d.round = c.round

namespace Primary

variable {S V : Type} [StorageService S] [Network] [Ledger V]

/-! ### Calls -/

/-- A call of `propose_batch` in the life of a node: by the batch proposer, by the task that
increments the round, or while a cached certificate is loaded. -/
inductive ProposeCall (E : Surroundings V) : Primary S V → ProposeEnv → Prop
  | proposer {cache : Option ProposalCache} {p : Primary S V} {env : ProposeEnv} :
      Lived E cache p → E.propose env → ProposeCall E p env
  | increment {cache : Option ProposalCache} {p q : Primary S V} {env : IncrementEnv} :
      Lived E cache p → E.increment env →
      p.tryIncrementToTheNextRoundLite env.roundSent env.roundSentAt (p.currentRound + 1)
        = (.ok true, q) → ProposeCall E q env.propose
  | load {cache : ProposalCache} {p p₁ q : Primary S V} {transmissions : S}
      {l : CoreLedgerService V} {committee : Committee} {maxGcRounds : ℕ} {keepState : Bool}
      {now : ℤ} {b : BFT S V} {envs : ℕ → LoadEnv} {pre post : List BatchCertificate}
      {c : BatchCertificate} : Lived E (some cache) p → l.blocks = p.ledger.blocks →
      (∀ i, E.load (envs i)) → cache.isValid p.account = true →
      (BFT.new p.account (Storage.new committee transmissions maxGcRounds) l).bootup now = .ok b →
      cache.pendingCertificates = pre ++ c :: post →
      ({ new p.account (Storage.new committee transmissions maxGcRounds) keepState l with
          bft := b, bftSender := true, proposedBatch := cache.proposal
          signedProposals := cache.signedProposals, proposeLock := cache.latestRound } :
        Primary S V).loadCertificates envs 0 pre = (.ok (), p₁) →
      p₁.tryIncrementToTheNextRoundLite (envs pre.length).increment.roundSent
        (envs pre.length).increment.roundSentAt c.round = (.ok true, q) →
      ProposeCall E q (envs pre.length).increment.propose

variable {E : Surroundings V} {p q : Primary S V}

/-- The primary is orderly at each call. -/
theorem ProposeCall.orderly {env : ProposeEnv}
    (hE : ∀ send, E.sender send → send.Faithful ∧ send.KeepsCommittees) (hV : RoundsInOrder V)
    (h : ProposeCall E p env) : p.Orderly := by
  have hround : ∀ {m n : ℕ} {cs : List BatchCertificate} {p q : Primary S V} {sent : Await}
      {now : ℤ} {round : ℕ}, p.Orderly → Past m n cs p →
      p.tryIncrementToTheNextRoundLite sent now round = (.ok true, q) → q.Orderly := by
    intro m n cs p q sent now round hp hpast hres
    have hadvance := (advances_batchWalk p.account m n cs).tryIncrementToTheNextRoundLite sent now
      round p rfl hp hpast
    rw [hres] at hadvance
    exact hadvance.orderly
  cases h with
  | proposer hp _ => exact (hp.orderly hE hV).1
  | @increment cache p q env hp _ hres =>
    have hpast : Past 0 0 [] p :=
      ⟨Nat.zero_le _, Nat.zero_le _, fun _ hc => absurd hc List.not_mem_nil⟩
    exact hround (hp.orderly hE hV).1 hpast hres
  | @load cache p p₁ q transmissions l committee g keepState now b envs pre post c hp hblocks _ _
      hboot hsplit hload hres =>
    obtain ⟨hproposal, hpending⟩ := (hp.orderly hE hV).2 cache rfl
    obtain ⟨h, hcurrent, hledger⟩ := orderly_booted hboot keepState true cache.signedProposals
      cache.latestRound
    rw [hproposal] at hload
    have hpast : Past cache.latestRound l.latestRound (chainCertificates l.blocks)
        ({ new p.account (Storage.new committee transmissions g) keepState l with
            bft := b, bftSender := true, proposedBatch := none
            signedProposals := cache.signedProposals, proposeLock := cache.latestRound } :
          Primary S V) :=
      ⟨le_rfl, le_of_max_le_left hcurrent, fun d hd => by rw [← hledger] at hd; exact hd⟩
    have hadvance := (advances_batchWalk (S := S) (V := V) b.account cache.latestRound
      l.latestRound (chainCertificates l.blocks)).loadCertificates
      (fun i => (envs i).meets_any) 0 (fun d (hd : d ∈ pre) => ?_) _ rfl h hpast
    · rw [hload] at hadvance
      exact hround hadvance.orderly (hpast.advance hadvance) hres
    · have hd' : d ∈ cache.pendingCertificates := by
        rw [hsplit]
        exact List.mem_append_left _ hd
      exact (hpending d hd').imp_right fun hin => ⟨by rwa [hblocks],
        hV l d (by rwa [hblocks])⟩

/-! ### What is built -/

/-- **A certificate built from the round before** is acceptable, when the storage has what it
asks for of that round. -/
theorem Orderly.acceptable (h : q.Orderly) (hfinds : StorageService.FindsProvided S)
    (hverify : ∀ x a id, Network.verify x a id = true → x.toAddress = a) {env : Certification}
    {a : Address} {signers : List Address} {r : ℕ} {committee : Committee}
    {given transmissions : IndexMap TransmissionID Transmission} {c : BatchCertificate}
    (hc : Certifies env a signers r committee (q.storage.getCertificatesForRound (r - 1)) given c
      transmissions) (hmakes : env.Makes a)
    (hlookback : q.ledger.getCommitteeLookbackForRound r = .ok committee)
    (hgc : q.storage.gcRound < r)
    (hnew : ∀ {d : BatchCertificate}, q.storage.certificates[d.id]? = some d → d.round = r →
      d.author ≠ a) (hhash : q.storage.HashesApart c)
    (hready : q.storage.gcRound < r - 1 → ∃ previousCommittee,
      q.ledger.getCommitteeLookbackForRound (r - 1) = .ok previousCommittee ∧
      previousCommittee.isQuorumThresholdReached
        (authorsOf (q.storage.getCertificatesForRound (r - 1))) = true) :
    q.storage.Acceptable q.ledger env.insertedAt c transmissions ∅ := by
  obtain ⟨⟨⟨signature, hheader, hquorum⟩, rfl, hmember, rfl, htimestamp, hids, hprevious,
    hsignatures⟩, rfl⟩ := hc.certified
  rw [hmakes.signed _ _ hheader] at hquorum
  refine ⟨hgc, ?_, hnew, ?_, hfinds _ _ _ _ fun t ht => ?_, ⟨committee, hlookback, hmember,
    fun x hx => ?_, hquorum⟩, fun habove => ?_⟩
  · cases hd : q.storage.certificates[c.id]? with
    | none => rfl
    | some d =>
      have hid := h.tidy.indexed.keyed hd
      obtain ⟨hauthor, hround⟩ := hhash d hd
      exact absurd hauthor (hnew (hid ▸ hd) hround)
  · have hclock := hmakes.clock
    rw [htimestamp, maxTimestampDeltaInSecs]
    omega
  · have ht' : t ∈ c.transmissionIds := ht
    rw [hids] at ht'
    exact ht'
  · obtain ⟨signer, hsigner, hverified⟩ := hsignatures x hx
    rw [hverify x signer c.id hverified]
    exact hsigner
  · obtain ⟨previousCommittee, hcommittee, hreached⟩ := hready habove
    have hne : c.round - 1 ≠ 0 := by omega
    refine ⟨previousCommittee, q.storage.getCertificatesForRound (c.round - 1), hcommittee, ?_,
      fun d hd => (Storage.mem_getCertificatesForRound h.tidy.indexed hne).mp hd,
      fun d hd => ?_, Storage.nodup_map_author h.tidy.indexed hne, hreached⟩
    · rw [hprevious, IndexSet.toList_ofList (Storage.nodup_map_id h.tidy.indexed hne)]
    · obtain ⟨hd, hround⟩ := (Storage.mem_getCertificatesForRound h.tidy.indexed hne).mp hd
      obtain ⟨committee', hcommittee', hmember'⟩ := h.members hd
      rw [hround, hcommittee] at hcommittee'
      cases hcommittee'
      exact hmember'

omit [StorageService S] in
/-- A batch is proposed in a round above the GC round, and when the round is not the first, on
a quorum of certificates of the round before. -/
lemma Orderly.of_isReady (h : p.Orderly) (hpos : 0 < p.storage.maxGcRounds)
    (hahead : p.proposeLock < p.currentRound)
    (hready : p.isReady p.currentRound = .ok true) :
    p.storage.gcRound < p.currentRound ∧ (0 < p.currentRound - 1 → ∃ committee,
      p.ledger.getCommitteeLookbackForRound (p.currentRound - 1) = .ok committee ∧
      committee.isQuorumThresholdReached
        (authorsOf (p.storage.getCertificatesForRound (p.currentRound - 1))) = true) := by
  unfold isReady at hready
  dsimp only at hready
  by_cases hone : 0 < p.currentRound - 1
  · rw [if_pos hone] at hready
    split at hready
    · cases hready
    next committee hcommittee =>
    have hquorum := Except.ok.inj hready
    refine ⟨?_, fun _ => ⟨committee, hcommittee, hquorum⟩⟩
    -- the certificates of the round before are above the GC round
    obtain ⟨a, ha⟩ := committee.nonempty_of_quorum hquorum
    obtain ⟨c, hc, -⟩ := mem_authorsOf.mp ha
    obtain ⟨hc, hcround⟩ :=
      (Storage.mem_getCertificatesForRound h.tidy.indexed (by omega)).mp hc
    have habove := h.tidy.above hc
    omega
  · refine ⟨?_, fun h => absurd h hone⟩
    have hzero := h.first hpos (by omega) (by omega)
    omega

lemma proposeLock_fakeProposals (env : ProposeEnv) (allAcc : Fin 4 → Address) (round : ℕ)
    (vids : List (Fin 4)) (p : Primary S V) :
    (p.fakeProposals env allAcc round vids).2.proposeLock = p.proposeLock :=
  fakeProposals_rel (R := fun p q : Primary S V => q.proposeLock = p.proposeLock)
    (fun h h' => h'.trans h) (fun h => h.sameBatches.lock) (fun _ _ _ => rfl) env allAcc round
    vids p

lemma Orderly.inserts (h : q.Orderly) {now : ℤ} {c : BatchCertificate}
    {transmissions : IndexMap TransmissionID Transmission}
    (hc : q.storage.Acceptable q.ledger now c transmissions ∅) :
    (q.storage.insertCertificate q.ledger now c transmissions ∅).1 = .ok () := by
  obtain ⟨missing, -, hres⟩ := hc.insertCertificate h.tidy.indexed
  rw [hres]

lemma Orderly.acceptable_lite (h : p.Orderly) (hpos : 0 < p.storage.maxGcRounds)
    (hfinds : StorageService.FindsProvided S)
    (hverify : ∀ x a id, Network.verify x a id = true → x.toAddress = a) {env : LiteEnv}
    (hlite : env.certification.Makes p.account) {otherAcc : List Address} {c : BatchCertificate}
    {transmissions : IndexMap TransmissionID Transmission}
    (hstores : LiteStores env otherAcc p c transmissions q) (hhash : q.storage.HashesApart c) :
    q.Orderly ∧
      q.storage.Acceptable q.ledger env.certification.insertedAt c transmissions ∅ := by
  obtain ⟨hgc, hready⟩ := h.of_isReady hpos hstores.ahead hstores.ready
  obtain ⟨committee, given, hlookback, hc⟩ := hstores.certifies
  obtain ⟨ready, stamp, rfl⟩ := hstores.state
  have hnext : Advances (fun _ => True) 0 p { p with
      ready, latestProposedBatchTimestamp := stamp, proposeLock := p.currentRound
      headers := p.headers ++ [⟨p.account, p.currentRound⟩] } :=
    h.keep rfl hstores.ahead.le h.proposal
  have hq := hnext.orderly
  refine ⟨hq, hq.acceptable hfinds hverify hc hlite hlookback hgc (fun {d} hd hr ha => ?_)
    hhash fun habove => hready (by omega)⟩
  have hcontains := (Storage.containsCertificateInRoundFrom_iff h.tidy.indexed).mpr
    ⟨d, hd, hr, ha⟩
  rw [hstores.fresh] at hcontains
  cases hcontains

omit [Network] in
lemma ourSign_ne {env : Certification} {allAcc : Fin 4 → Address} {vid : Fin 4} {account : Address}
    {signature : Signature}
    (h : ourSign env ((List.ofFn allAcc).filter (· ≠ allAcc vid)) account = .ok signature) :
    account ≠ allAcc vid := by
  unfold ourSign at h
  split at h
  · next hother =>
    rw [List.mem_filter] at hother
    simpa using hother.2
  · cases h

/-- From a call of `propose_batch_lite` to the batches of the validators after `pre`: the
certificates that came are of the node, or of these validators. -/
lemma Orderly.advances_between (h : p.Orderly) {env : ProposeEnv} {allAcc : Fin 4 → Address}
    {round : ℕ} {pre : List (Fin 4)} {q₀ : Primary S V} (hlock : q₀.proposeLock = round)
    (hres : p.proposeBatchLite env.lite [allAcc 1, allAcc 2, allAcc 3] true = (.ok round, q₀))
    (hpre : q₀.fakeProposals env allAcc round pre = (.ok (), q)) :
    Advances (fun d => d.author = p.account ∨ d.round ≤ 0 ∨ ∃ v ∈ pre, d.author = allAcc v) 0 p q ∧
      q.proposeLock = round := by
  have hnode := (advances_walk (S := S) (V := V) p.account 0 0 [] (X := fun d =>
    d.author = p.account ∨ d.round ≤ 0 ∨ ∃ v ∈ pre, d.author = allAcc v) (fun _ hd => .inl hd)
    fun d hd => .inr (.inl (hd.elim id And.right))).proposeBatchLite
    env.lite.certification.meets_any [allAcc 1, allAcc 2, allAcc 3] true p rfl h
    ⟨Nat.zero_le _, Nat.zero_le _, fun _ hc => absurd hc List.not_mem_nil⟩
  rw [hres] at hnode
  have hothers := hnode.orderly.fakeProposals (Nat.zero_le _) hlock.ge env allAcc pre
  have hkept := proposeLock_fakeProposals env allAcc round pre q₀
  rw [hpre] at hothers hkept
  exact ⟨hnode.trans (hothers.mono fun d hd => .inr (.inr hd)), hkept.trans hlock⟩

omit [StorageService S] in
lemma Advances.stored_before {allAcc : Fin 4 → Address} {pre : List (Fin 4)} {vid : Fin 4}
    {n : ℕ} {c : BatchCertificate}
    (h : Advances (fun d => d.author = p.account ∨ d.round ≤ 0 ∨ ∃ v ∈ pre, d.author = allAcc v) n
      p q) (hdistinct : Function.Injective allAcc) (hother : q.account ≠ allAcc vid)
    (hvid : vid ∉ pre) (hround : 0 < c.round) (hauthor : c.author = allAcc vid)
    (hc : q.storage.certificates[c.id]? = some c) : p.storage.certificates[c.id]? = some c := by
  rcases h.onward.added hc with hc | hown | hzero | ⟨v, hv, hv'⟩
  · exact hc
  · exact absurd (h.account.trans (hown.symm.trans hauthor)) hother
  · omega
  · exact absurd (hdistinct (hv'.symm.trans hauthor) ▸ hv) hvid

omit [StorageService S] in
/-- The certificates of the round before that reached the quorum are still stored. -/
lemma Advances.quorum_kept {X : BatchCertificate → Prop} {n r : ℕ} (h : Advances X n p q)
    (htidy : p.storage.Tidy) (hr : 0 < r) (habove : q.storage.gcRound < r)
    (hready : ∃ committee, p.ledger.getCommitteeLookbackForRound r = .ok committee ∧
      committee.isQuorumThresholdReached (authorsOf (p.storage.getCertificatesForRound r))
        = true) :
    ∃ committee, q.ledger.getCommitteeLookbackForRound r = .ok committee ∧
      committee.isQuorumThresholdReached (authorsOf (q.storage.getCertificatesForRound r))
        = true := by
  obtain ⟨committee, hcommittee, hquorum⟩ := hready
  refine ⟨committee, h.grows.committees _ _ hcommittee, committee.quorum_mono (fun a ha => ?_)
    hquorum⟩
  obtain ⟨d, hd, rfl⟩ := mem_authorsOf.mp ha
  obtain ⟨hd, hround⟩ := (Storage.mem_getCertificatesForRound htidy.indexed (by omega)).mp hd
  exact mem_authorsOf.mpr ⟨d, (Storage.mem_getCertificatesForRound h.orderly.tidy.indexed
    (by omega)).mpr ⟨h.onward.kept hd (by omega), hround⟩, rfl⟩

/-- **What the primary builds, the storage accepts**: whenever a call of `propose_batch` gets to
storing the certificate of the node, or then that of another validator, the certificate is
acceptable to the storage as it is then, and it is inserted. No block has a certificate that
another writer made for a validator and this round. -/
theorem built_accepted (hE : ∀ send, E.sender send → send.Faithful ∧ send.KeepsCommittees)
    (hV : RoundsInOrder V) (hfinds : StorageService.FindsProvided S)
    (hverify : ∀ x a id, Network.verify x a id = true → x.toAddress = a) {env : ProposeEnv}
    (hcall : ProposeCall E p env) (hpos : 0 < p.storage.maxGcRounds) {allAcc : Fin 4 → Address}
    (hdistinct : Function.Injective allAcc)
    (hwriter : ∀ c ∈ chainCertificates p.ledger.blocks, c.round = p.currentRound →
      ∀ vid, vid ≠ 0 → c.author ≠ allAcc vid)
    (hlite : env.lite.certification.Makes p.account)
    (hfake : ∀ vid, (env.fake vid).Makes (allAcc vid)) :
    (∀ c transmissions q, LiteStores env.lite [allAcc 1, allAcc 2, allAcc 3] p c transmissions q →
      q.storage.HashesApart c →
      q.storage.Acceptable q.ledger env.lite.certification.insertedAt c transmissions ∅ ∧
        (q.storage.insertCertificate q.ledger env.lite.certification.insertedAt c transmissions
          ∅).1 = .ok ()) ∧
    ∀ round q₀ pre vid post q c transmissions,
      p.proposeBatchLite env.lite [allAcc 1, allAcc 2, allAcc 3] true = (.ok round, q₀) →
      round ≠ 0 → [1, 2, 3] = pre ++ vid :: post →
      q₀.fakeProposals env allAcc round pre = (.ok (), q) →
      FakeStores (env.fake vid) (allAcc vid) ((List.ofFn allAcc).filter (· ≠ allAcc vid)) round q c
        transmissions → q.storage.HashesApart c →
      q.storage.Acceptable q.ledger (env.fake vid).insertedAt c transmissions ∅ ∧
        (q.storage.insertCertificate q.ledger (env.fake vid).insertedAt c transmissions ∅).1
          = .ok () := by
  have h := hcall.orderly hE hV
  refine ⟨fun c transmissions q hstores hhash => ?_,
    fun round q₀ pre vid post q c transmissions hres hround hsplit hpre hstores hhash => ?_⟩
  · obtain ⟨hq, hc⟩ := h.acceptable_lite hpos hfinds hverify hlite hstores hhash
    exact ⟨hc, hq.inserts hc⟩
  · obtain ⟨hcurrent, hahead, hlock₀, -, -, -, c₀, t₀, r₀, hlite₀⟩ :=
      proposeBatchLite_ok hround hres
    obtain ⟨hgc, hready⟩ := h.of_isReady hpos hlite₀.ahead hlite₀.ready
    rw [← hcurrent] at hgc hready
    obtain ⟨hpq, hlock⟩ := h.advances_between hlock₀ hres hpre
    have hother : q.account ≠ allAcc vid := by
      obtain ⟨-, signature, hsign⟩ := hstores
      exact ourSign_ne hsign
    obtain ⟨⟨committee, hlookback, hc⟩, -⟩ := hstores
    have hqgc : q.storage.gcRound < round := by
      have hbound : q.storage.gcRound ≤ max p.storage.gcRound (max q.proposeLock 0 - 1) :=
        hpq.onward.gc
      omega
    have hvid : vid ≠ 0 ∧ vid ∉ pre := by
      have hnd : (0 :: (pre ++ vid :: post)).Nodup :=
        hsplit ▸ (by decide : ([0, 1, 2, 3] : List (Fin 4)).Nodup)
      grind
    have hnew : ∀ {d : BatchCertificate}, q.storage.certificates[d.id]? = some d →
        d.round = round → d.author ≠ allAcc vid := by
      intro d hd hr ha
      -- stored before the call, it would be in a block
      have hold := hpq.stored_before hdistinct hother hvid.2 (by omega) ha hd
      rcases h.origin hold with hle | hin
      · omega
      · exact hwriter d hin (hr.trans hcurrent) vid hvid.1 ha
    have hacceptable := hpq.orderly.acceptable hfinds hverify hc (hfake vid) hlookback hqgc hnew
      hhash fun habove => hpq.quorum_kept h.tidy (by omega) habove (hready (by omega))
    exact ⟨hacceptable, hpq.orderly.inserts hacceptable⟩

end Primary

/-! ### A chain in order -/

/-- A chain whose certificates are not above the round of its latest block. -/
structure OrderedChain where
  chain : Chain
  ordered : ∀ c ∈ chainCertificates chain.blocks,
    c.round ≤ (chain.blocks.getLast?.map Block.round).getD 0

namespace OrderedChain

instance : Ledger OrderedChain where
  blocks v := v.chain.blocks
  latestCommittee v := Ledger.latestCommittee v.chain
  getCommitteeForRound v := Ledger.getCommitteeForRound v.chain
  containsCertificate v := Ledger.containsCertificate v.chain
  containsSolutionId v := Ledger.containsSolutionId v.chain
  containsTransactionId v := Ledger.containsTransactionId v.chain
  getSolution v := Ledger.getSolution v.chain
  getUnconfirmedTransaction v := Ledger.getUnconfirmedTransaction v.chain
  prepareAdvanceToNextQuorumBlock v := Ledger.prepareAdvanceToNextQuorumBlock v.chain
  advanceToNextBlock v block :=
    match Ledger.advanceToNextBlock v.chain block with
    | .error e => .error e
    | .ok chain =>
      if ordered : ∀ c ∈ chainCertificates chain.blocks,
          c.round ≤ (chain.blocks.getLast?.map Block.round).getD 0 then .ok ⟨chain, ordered⟩
      else .error s!"Block {block.height} has a certificate above its round"

instance : LawfulLedger OrderedChain where
  containsCertificate_ok h := LawfulLedger.containsCertificate_ok (V := Chain) h
  prepare_authority h := LawfulLedger.prepare_authority (V := Chain) h
  advance_blocks {v w b} h := by
    simp only [Ledger.advanceToNextBlock] at h
    split at h
    · cases h
    next chain hchain =>
    split at h
    · cases h
      exact LawfulLedger.advance_blocks (V := Chain) hchain
    · cases h

lemma roundsInOrder : Primary.RoundsInOrder OrderedChain :=
  fun l c hc => l.ledger.ordered c hc

lemma processBftSubdag_keepsCommittees :
    let _ := developmentNetwork
    ConsensusSender.KeepsCommittees (processBftSubdag (V := OrderedChain)) :=
  fun _ _ _ _ _ h => h

end OrderedChain

section Example

/-- The ledger service over the first block. -/
def genesisLedger : CoreLedgerService OrderedChain :=
  ⟨⟨⟨[genesis]⟩, by decide +kernel⟩, none, false⟩

/-- The development node, started over the first block. -/
def genesisNode : Primary BFTMemoryService OrderedChain :=
  let _ := developmentNetwork
  ((Primary.new (developmentAccount 0) (Storage.new developmentCommittee BFTMemoryService.empty
    developmentNetwork.maxGcRounds) true genesisLedger).runBft 0 (fun _ => loads 0) none
    processBftSubdag).2

/-- Consensus processes the subdags. -/
def processedSurroundings : Surroundings OrderedChain :=
  ⟨fun _ => True, fun _ => True, fun _ => True, fun send => send = processBftSubdag⟩

lemma genesisNode_lived :
    let _ := developmentNetwork
    Primary.Lived processedSurroundings none genesisNode := by
  let _ := developmentNetwork
  have hboot : ((Primary.new (developmentAccount 0) (Storage.new developmentCommittee
      BFTMemoryService.empty developmentNetwork.maxGcRounds) true genesisLedger).bft.bootup
      0).isOk = true := by decide +kernel
  obtain ⟨b, hb⟩ := exists_of_isOk hboot
  have hstarts : Primary.Starts processedSurroundings (developmentAccount 0)
      BFTMemoryService.empty genesisLedger none _ genesisNode :=
    ⟨developmentCommittee, developmentNetwork.maxGcRounds, true, 0, fun _ => loads 0,
      processBftSubdag, b, rfl, hb, fun _ => trivial, rfl, rfl⟩
  exact .start hstarts

/-- The four batches of the first round are stored. -/
theorem built_accepted_example :
    let _ := developmentNetwork
    ((genesisNode.proposeBatch (proposes 1) true).2.storage.certificates.toList.map fun e =>
      (e.2.author.val, e.2.round)) = [(0, 1), (1, 1), (2, 1), (3, 1)] ∧
    ∀ c transmissions q, Primary.LiteStores (proposes 1).lite ([1, 2, 3].map developmentAccount)
        genesisNode c transmissions q → q.storage.HashesApart c →
      (q.storage.insertCertificate q.ledger 10 c transmissions ∅).1 = .ok () := by
  let _ := developmentNetwork
  have hmakes : ∀ vid : Fin 4, (certifies 1 vid).Makes (developmentAccount vid) := fun vid =>
    ⟨fun _ _ h => by cases h; rfl, le_rfl⟩
  have haccount : genesisNode.account = developmentAccount 0 := by decide +kernel
  have hchain : chainCertificates genesisNode.ledger.blocks = [] := by decide +kernel
  have hcall : Primary.ProposeCall processedSurroundings genesisNode (proposes 1) :=
    .proposer genesisNode_lived trivial
  have hdistinct : Function.Injective fun i : Fin 4 => developmentAccount i := by decide
  have haccepted := Primary.built_accepted
    (fun send hsend => by
      rw [show send = processBftSubdag from hsend]
      exact ⟨processBftSubdag_faithful, OrderedChain.processBftSubdag_keepsCommittees⟩)
    OrderedChain.roundsInOrder BFTMemoryService.findsProvided (fun _ _ _ h => of_decide_eq_true h)
    hcall (by decide +kernel) hdistinct (fun c hc => by rw [hchain] at hc; cases hc)
    (haccount ▸ hmakes 0) hmakes
  exact ⟨by decide +kernel, fun c transmissions q hstores hhash =>
    (haccepted.1 c transmissions q hstores hhash).2⟩

end Example

end AmareleoChain
