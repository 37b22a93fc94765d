import AmareleoChain.Agreement
import AmareleoChain.Sync

/-!
Restarts do not change what is committed.

A node that is rebooted from its ledger, and is given again the certificates that were stored
but in no block, goes on as the node would have that was not rebooted: it commits the same
leaders with the same subdags. The two nodes differ in their DAGs and storages, but agree above
the last committed round and on the certificates committed above the horizon.
-/

namespace AmareleoChain

open Std

namespace BFT

variable {S V : Type} [Ledger V] {U : Universe} {committee : ℕ → Committee} {g bootRound : ℕ}
  {boot : List BatchCertificate} {account : Address} {b b' r r' : BFT S V}
  {c leader : BatchCertificate}

/-! ### The chain of a run -/

/-- The ledger holds, after its genesis block, one block for each committed leader with its
subdag. -/
structure Records (l : CoreLedgerService V) (log : List (BatchCertificate × Subdag)) : Prop where
  blocks : ∃ genesis blocks, l.blocks = genesis :: blocks ∧ genesis.authority = .beacon ∧
    genesis.round = 0 ∧
    List.Forall₂ (fun block e => block.authority = .quorum e.2 ∧ block.round = e.1.round) blocks log
  height : ∀ (i : ℕ) (block : Block), l.blocks[i]? = some block → block.height = i

section Chain

variable {l : CoreLedgerService V} {log : List (BatchCertificate × Subdag)}

omit [Ledger V] in
lemma chainCertificates_of_forall₂ {blocks : List Block}
    (h : List.Forall₂ (fun block e => block.authority = .quorum e.2 ∧ block.round = e.1.round)
      blocks log) : chainCertificates blocks = certificatesOf log := by
  induction h with
  | nil => rfl
  | cons hb _ ih =>
    rw [chainCertificates, certificatesOf, List.flatMap_cons, List.flatMap_cons]
    congr 1
    simp [Block.certificates, hb.1]

lemma Records.certificates (h : Records l log) (k : ℕ) :
    chainCertificates (l.blocks.drop k) = certificatesOf (log.drop (k - 1)) := by
  obtain ⟨genesis, blocks, hblocks, hbeacon, -, hall⟩ := h.blocks
  rw [hblocks]
  cases k with
  | zero =>
    have hg : genesis.certificates = [] := by simp [Block.certificates, hbeacon]
    rw [List.drop_zero, Nat.zero_sub, List.drop_zero, ← chainCertificates_of_forall₂ hall,
      chainCertificates, List.flatMap_cons, hg]
    rfl
  | succ k =>
    rw [List.drop_succ_cons, Nat.add_sub_cancel]
    exact chainCertificates_of_forall₂ (List.forall₂_drop k hall)

lemma Records.length (h : Records l log) : l.blocks.length = log.length + 1 := by
  obtain ⟨genesis, blocks, hblocks, -, -, hall⟩ := h.blocks
  rw [hblocks, List.length_cons, hall.length_eq]

lemma Records.latestBlockHeight (h : Records l log) : l.latestBlockHeight = log.length := by
  have hlen := h.length
  have hlast : l.blocks.getLast? = l.blocks[log.length]? := by
    rw [List.getLast?_eq_getElem?, hlen, Nat.add_sub_cancel]
  have hlt : log.length < l.blocks.length := by omega
  rw [CoreLedgerService.latestBlockHeight, CoreLedgerService.latestBlock, hlast,
    List.getElem?_eq_getElem hlt]
  exact h.height log.length _ (List.getElem?_eq_getElem hlt)

lemma Records.latestRound (h : Records l log) : l.latestRound = roundAfter 0 log := by
  obtain ⟨genesis, blocks, hblocks, -, hround, hall⟩ := h.blocks
  rw [CoreLedgerService.latestRound, CoreLedgerService.latestBlock, hblocks]
  rcases List.eq_nil_or_concat log with rfl | ⟨init, e, rfl⟩
  · cases hall
    exact hround
  · rw [List.concat_eq_append] at hall ⊢
    -- the last block is the one of the last leader
    have hdrop := List.forall₂_drop_append blocks init [e] hall
    obtain ⟨block, tail, hb, htail, hlast⟩ := List.forall₂_cons_right_iff.mp hdrop
    cases htail
    rw [roundAfter_append_singleton, ← List.take_append_drop init.length blocks, hlast,
      ← List.cons_append, List.getLast?_concat]
    exact hb.2

end Chain

/-! ### Deliveries with all callbacks succeeding -/

section Deliveries

variable [StorageService S] [LawfulStorageService S] [Network]

/-- The certificate stored. -/
def store (b : BFT S V) (e : Delivery S V) : BFT S V :=
  { b with
    storage := (b.storage.insertCertificate e.ledger e.now e.certificate e.transmissions
      e.abortedTransmissions).2
    ledger := e.ledger
    consensusSender := e.consensusSender }

omit [LawfulStorageService S] in
/-- The certificate comes with its transmissions and storage accepts it, nothing happened to the
chain or to the cached leader, and its blocks get built. -/
structure Served (U : Universe) (committee : ℕ → Committee) (g : ℕ) (b : BFT S V)
    (e : Delivery S V) : Prop where
  certificate : U.Has e.certificate
  quiet : Quiet b.account b.ledger e.ledger
  committee : Storage.AgreesOn committee e.ledger
  serves : (b.store e).Serves U g
  aborted : e.abortedTransmissions = ∅
  accepted : (b.storage.insertCertificate e.ledger e.now e.certificate e.transmissions
    e.abortedTransmissions).1 = .ok ()

/-- The deliveries of some certificates, one after the other. -/
inductive Deliveries (U : Universe) (committee : ℕ → Committee) (g : ℕ) (b₀ : BFT S V) :
    List BatchCertificate → BFT S V → Prop
  | nil : Deliveries U committee g b₀ [] b₀
  | snoc {cs : List BatchCertificate} {b : BFT S V} (e : Delivery S V) :
      Deliveries U committee g b₀ cs b → Served U committee g b e →
      Deliveries U committee g b₀ (cs ++ [e.certificate]) (b.deliver e).2

/-- The certificate stored and inserted. -/
def received (b : BFT S V) (e : Delivery S V) : BFT S V :=
  { b.store e with dag := (b.store e).dag.insert e.certificate }

/-- The invariant of such deliveries. -/
structure Sound (U : Universe) (committee : ℕ → Committee) (g : ℕ) (boot : List BatchCertificate)
    (bootRound : ℕ) (b : BFT S V) : Prop where
  consistent : Consistent U committee g boot bootRound b
  carries : b.storage.Carries (Unblocked b.ledger)

omit [Network] in
lemma Sound.quiet (h : Sound U committee g boot bootRound b) {l : CoreLedgerService V}
    (hl : Quiet b.account b.ledger l) :
    Sound U committee g boot bootRound { b with ledger := l } := by
  refine ⟨h.consistent.quiet hl _, h.carries.imp fun c hc hin => hc ?_⟩
  exact InChain.mono (hl.1 ▸ List.prefix_rfl) hin

omit [Network] in
lemma Sound.garbageCollect (h : Sound U committee g boot bootRound b) {n : ℕ}
    (hn : b.dag.lastCommittedRound = n) :
    Sound U committee g boot bootRound
        { b with storage := b.storage.garbageCollectCertificates n } ∧
      ∀ c, ({ b with storage := b.storage.garbageCollectCertificates n } : BFT S V).Stored c ↔
        b.Stored c ∧ n - g < c.round := by
  subst hn
  refine ⟨⟨h.consistent.garbageCollect, h.carries.garbageCollectCertificates _⟩, fun c => ?_⟩
  have hmem := (Storage.garbageCollectCertificates_spec h.consistent.indexed
    h.consistent.closed.above b.dag.lastCommittedRound).2.2 c.id c
  rw [h.consistent.maxGcRounds] at hmem
  exact hmem

omit [Ledger V] [LawfulStorageService S] [Network] in
@[simp] lemma lastCommittedRound_received [Ledger V] [Network] {e : Delivery S V} :
    (b.received e).dag.lastCommittedRound = b.dag.lastCommittedRound :=
  DAG.lastCommittedRound_insert

lemma Sound.received (h : Sound U committee g boot bootRound b) {e : Delivery S V}
    (he : Served U committee g b e) :
    Sound U committee g boot bootRound (b.received e) ∧
      b.storage.certificates[e.certificate.id]? = none ∧
      (∀ d, (b.received e).Stored d ↔ b.Stored d ∨ d = e.certificate) ∧
      (b.storage.gcRound < e.certificate.round) ∧
      (∃ com, e.ledger.getCommitteeLookbackForRound e.certificate.round = .ok com) ∧
      (b.dag.lastCommittedRound < e.certificate.round - 1 →
        ∃ com, e.ledger.getCommitteeLookbackForRound (e.certificate.round - 1) = .ok com) := by
  have haccepted := he.accepted
  rcases Storage.insertCertificate_cases e.ledger e.now h.consistent.indexed e.certificate
    e.transmissions e.abortedTransmissions with ⟨x, hx⟩ | ⟨missing, haccepts, hm, hx⟩
  · rw [hx] at haccepted
    cases haccepted
  have hreceived : b.received e = { b with
      storage := b.storage.insertCertificateAtomic e.certificate e.abortedTransmissions missing
      dag := b.dag.insert e.certificate
      ledger := e.ledger
      consensusSender := e.consensusSender } := by
    unfold BFT.received store
    rw [hx]
  have hget := Storage.getElem?_insertCertificateAtomic haccepts.fresh e.abortedTransmissions
    missing
  refine ⟨⟨?_, ?_⟩, haccepts.fresh, fun d => ?_, haccepts.above,
    haccepts.lookback.imp fun _ => And.left, fun hr => ?_⟩
  · rw [hreceived]
    exact (h.consistent.insert he.certificate he.committee haccepts e.abortedTransmissions
      missing).quiet he.quiet e.consensusSender
  · rw [hreceived]
    have hcarries : b.storage.Carries (Unblocked e.ledger) :=
      h.carries.imp fun c hc hin => hc (InChain.mono (he.quiet.1 ▸ List.prefix_rfl) hin)
    exact hcarries.insertCertificateAtomic haccepts.fresh hm he.aborted
  · rw [hreceived]
    unfold Stored
    rw [hget]
    exact or_congr_right ⟨And.right, fun hd => ⟨by rw [hd], hd⟩⟩
  · have hgc := h.consistent.gcRound
    obtain ⟨com, -, hcom, -⟩ := haccepts.previous (by omega)
    exact ⟨com, hcom⟩

open Classical in
/-- **One delivery**: no leader of the round below is elected and nothing is committed, or one is
and its chain is. -/
theorem Sound.deliver [LawfulLedger V] (hU : U.Regular)
    (h : Sound U committee g boot bootRound b) {e : Delivery S V}
    (he : Served U committee g b e) :
    (∃ l, Quiet b.account e.ledger l ∧
      (∀ leader, Elected committee (b.received e) leader →
        leader.round + 1 ≠ e.certificate.round) ∧
      (b.deliver e).2 = { b.received e with ledger := l }) ∨
    (∃ leader x b', Elected committee (b.received e) leader ∧
      leader.round + 1 = e.certificate.round ∧
      Sound U committee g boot bootRound ((b.received e).withLeader x) ∧
      Commits true false ((b.received e).withLeader x)
        (LeaderChain.chain (leaderIn (b.received e)) U.Path (b.dag.lastCommittedRound / 2)
          (leader.round / 2) leader) b' ∧
      Sound U committee g boot bootRound b' ∧
      b'.storage = (b.received e).storage ∧ b'.account = b.account ∧
      b'.dag.lastCommittedRound = leader.round ∧
      (b.deliver e).2
        = { b' with storage := b'.storage.garbageCollectCertificates leader.round }) := by
  obtain ⟨hsound, -, hstored, -, hlookback, hprevious⟩ := h.received he
  have hcertificate : (b.received e).Stored e.certificate := (hstored _).mpr (.inr rfl)
  have haccepted := he.accepted
  have hdeliver : (b.deliver e).2 = ((b.store e).updateDag true false e.certificate).2 := by
    unfold BFT.deliver store
    split
    · next hx => rw [hx] at haccepted; cases haccepted
    · next hx => rw [hx]
  rw [hdeliver]
  rcases updateDag_ok (b := b.store e) (c := e.certificate) hU hsound.consistent he.serves
    hsound.carries hprevious with ⟨l, hq, hno, hres⟩ |
      ⟨leader, x, b', hready, hx, hcommits, hb', hst, hacc, hc', hlast, hres⟩
  · refine .inl ⟨l, hq, fun leader helected hround => ?_, hres⟩
    exact hno leader (hsound.consistent.ready he.committee hlookback hcertificate helected hround)
  · obtain ⟨helected, hround⟩ := hsound.consistent.elected he.committee hready
    exact .inr ⟨leader, x, b', helected, hround, ⟨hx, hsound.carries⟩, hcommits, ⟨hb', hc'⟩, hst,
      hacc, hlast, hres⟩

/-! ### The run before the restart -/

/-- The rounds of the committed leaders differ by two at least, and each leader is the newest
certificate of its subdag. -/
structure Ranked (log : List (BatchCertificate × Subdag)) : Prop where
  ascending : log.Pairwise fun e f => e.1.round + 2 ≤ f.1.round
  leader : ∀ e ∈ log, e.1 ∈ e.2.certificates
  bounded : ∀ e ∈ log, ∀ c ∈ e.2.certificates, c.round ≤ e.1.round

/-- No leader that is due is backed. -/
def Settled (committee : ℕ → Committee) (b : BFT S V) : Prop :=
  ∀ leader, ¬ Elected committee b leader

omit [StorageService S] [LawfulStorageService S] [Network] in
lemma Ranked.commits [LawfulLedger V] {leaders : List BatchCertificate} {allow : Bool}
    (hc : Commits allow false b leaders b')
    (h : Consistent U committee g [] 0 b) (hr : Ranked b.committed)
    (hleaders : ∀ c ∈ leaders, b.Stored c ∧ b.dag.lastCommittedRound < c.round ∧
      c.round % 2 = 0)
    (hpair : leaders.Pairwise fun p q => p.round < q.round) : Ranked b'.committed := by
  induction hc with
  | nil => exact hr
  | @cons b b' leader leaders subdag l hsub hl _ ih =>
    rw [List.forall_mem_cons] at hleaders
    rw [List.pairwise_cons] at hpair
    obtain ⟨hstored, habove, heven⟩ := hleaders.1
    obtain ⟨hnext, hround⟩ := h.commitSubdag (h.has hstored) habove heven hsub hl
    obtain ⟨-, hin, hall, -⟩ := orderDagWithDfs_spec h.within (h.has hstored) habove hsub
    refine ih hnext ⟨?_, ?_, ?_⟩ (fun c hc => ⟨(hleaders.2 c hc).1, by
      rw [hround]; exact hpair.1 c hc, (hleaders.2 c hc).2.2⟩) hpair.2
    · refine List.pairwise_append.mpr ⟨hr.ascending, List.pairwise_singleton _ _, ?_⟩
      intro e he f hf
      rw [List.mem_singleton] at hf
      subst hf
      -- the leader of an earlier entry is committed, and rounds of leaders are even
      have hknown := (h.once.known e.1 (List.mem_append_right _
        (List.mem_flatMap.mpr ⟨e, he, hr.leader e he⟩))).2
      have hlcr := h.even
      dsimp only
      omega
    · intro e he
      rcases List.mem_append.mp he with he | he
      · exact hr.leader e he
      · rw [List.mem_singleton] at he
        subst he
        exact hin
    · intro e he
      rcases List.mem_append.mp he with he | he
      · exact hr.bounded e he
      · rw [List.mem_singleton] at he
        subst he
        exact fun c hc => (hall c hc).2.1

omit [LawfulStorageService S] in
/-- After a certificate is received only the leader of the round below can be elected. -/
lemma Settled.received [LawfulStorageService S] (h : Sound U committee g boot bootRound b)
    (hs : Settled committee b) {e : Delivery S V} (he : Served U committee g b e)
    (helected : Elected committee (b.received e) leader) :
    leader.round + 1 = e.certificate.round := by
  obtain ⟨-, hfresh, hstored, hgc, -, -⟩ := h.received he
  by_contra hne
  have habove := helected.above
  rw [lastCommittedRound_received] at habove
  obtain ⟨authors, havail, hall⟩ := helected.backed
  have hall' : ∀ a ∈ authors, ∃ c, b.Stored c ∧ c.round = leader.round + 1 ∧ c.author = a ∧
      leader.id ∈ c.previousCertificateIds := by
    intro a ha
    obtain ⟨c, hc, hround, hrest⟩ := hall a ha
    refine ⟨c, ((hstored c).mp hc).resolve_right ?_, hround, hrest⟩
    rintro rfl
    exact hne hround.symm
  rcases (hstored leader).mp helected.stored with hl | rfl
  · exact hs leader ⟨hl, helected.own, helected.even, habove, authors, havail, hall'⟩
  · -- a certificate that others include is stored before them
    obtain ⟨a, ha⟩ := (committee (e.certificate.round + 1)).nonempty_of_availability havail
    obtain ⟨c, hc, -, -, hid⟩ := hall' a ha
    have hparent := h.consistent.stored_of_parent hc
      ⟨h.consistent.has hc, he.certificate, hid⟩ hgc
    rw [Stored, hfresh] at hparent
    cases hparent

/-- The state of a run before the restart. -/
structure Steady (U : Universe) (committee : ℕ → Committee) (g : ℕ) (account : Address)
    (b : BFT S V) : Prop where
  owner : b.account = account
  sound : Sound U committee g [] 0 b
  ranked : Ranked b.committed
  settled : Settled committee b

/-- **One delivery before the restart.** -/
theorem Steady.deliver [LawfulLedger V] (hU : U.Regular) (h : Steady U committee g account b)
    {e : Delivery S V} (he : Served U committee g b e) :
    Steady U committee g account (b.deliver e).2 := by
  obtain ⟨hsound, -, hstored, -, -, -⟩ := h.sound.received he
  rcases h.sound.deliver hU he with ⟨l, hq, hno, hres⟩ |
    ⟨leader, x, b', helected, hround, hx, hcommits, hb', hst, hacc, hlast, hres⟩
  · rw [hres]
    refine ⟨h.owner, hsound.quiet hq, h.ranked, fun leader hel => ?_⟩
    have hel' : Elected committee (b.received e) leader :=
      ⟨hel.stored, hel.own, hel.even, hel.above, hel.backed⟩
    exact hno leader hel' (Settled.received h.sound h.settled he hel')
  · have habove := helected.above
    have hm : (b.received e).dag.lastCommittedRound
        = 2 * (b.dag.lastCommittedRound / 2) := by
      have := h.sound.consistent.even
      rw [lastCommittedRound_received]
      omega
    have hn : leader.round = 2 * (leader.round / 2) := by
      have := helected.even
      omega
    obtain ⟨hmem, hpair⟩ := hsound.consistent.chain_spec helected.stored habove hm hn
    have hranked := Ranked.commits hcommits hx.consistent h.ranked hmem hpair
    obtain ⟨hfinal, hkept⟩ := hb'.garbageCollect hlast
    rw [hres]
    refine ⟨hacc.trans h.owner, hfinal, hranked, fun M hel => ?_⟩
    -- what is elected now was elected before, above the leader just committed
    have hMabove := hel.above
    dsimp only at hMabove
    have hel' : Elected committee (b.received e) M := by
      refine hel.mono ?_ ?_ fun c _ hc => ?_
      · exact hacc.symm
      · dsimp only
        omega
      · have hold := ((hkept c).mp hc).1
        rw [Stored, hst] at hold
        exact hold
    have := Settled.received h.sound h.settled he hel'
    omega

lemma steady_deliveries [LawfulLedger V] (hU : U.Regular) {b₀ : BFT S V}
    {cs : List BatchCertificate} (h₀ : Steady U committee g account b₀)
    (hrun : Deliveries U committee g b₀ cs b) :
    Steady U committee g account b := by
  induction hrun with
  | nil => exact h₀
  | snoc e _ he ih => exact ih.deliver hU he

/-! ### Bootup -/

omit [StorageService S] [LawfulStorageService S] [Network] [Ledger V] in
/-- Leaders that are some places apart in the log are twice as many rounds apart. -/
lemma Ranked.apart {log : List (BatchCertificate × Subdag)} (h : Ranked log) {i n : ℕ}
    {e f : BatchCertificate × Subdag} (he : log[i]? = some e) (hf : log[i + n]? = some f) :
    e.1.round + 2 * n ≤ f.1.round := by
  induction n generalizing f with
  | zero =>
    rw [Nat.add_zero, he] at hf
    cases hf
    omega
  | succ n ih =>
    obtain ⟨hlt, hf⟩ := List.getElem?_eq_some_iff.mp hf
    have hlt' : i + n < log.length := by omega
    have hstep := List.pairwise_iff_getElem.mp h.ascending (i + n) (i + (n + 1)) hlt' hlt
      (by omega)
    have hprev := ih (List.getElem?_eq_getElem hlt')
    rw [hf] at hstep
    omega

/-- The certificates of the blocks that bootup reads. -/
def recentCertificates (g : ℕ) (log : List (BatchCertificate × Subdag)) : List BatchCertificate :=
  certificatesOf (log.drop (log.length - g / 2 - 1))

omit [Network] in
lemma mem_of_recentCertificates {log : List (BatchCertificate × Subdag)}
    (hc : c ∈ recentCertificates g log) : c ∈ certificatesOf log := by
  obtain ⟨e, he, hce⟩ := List.mem_flatMap.mp hc
  exact List.mem_flatMap.mpr ⟨e, List.mem_of_mem_drop he, hce⟩

omit [Network] in
/-- **Half as many blocks as rounds are enough**: they hold every certificate above the
horizon. -/
theorem Ranked.mem_recentCertificates {log : List (BatchCertificate × Subdag)} (h : Ranked log)
    (hc : c ∈ certificatesOf log) (hr : roundAfter 0 log < c.round + g) :
    c ∈ recentCertificates g log := by
  obtain ⟨e, he, hce⟩ := List.mem_flatMap.mp hc
  have hle := h.bounded e he c hce
  obtain ⟨i, hi⟩ := List.mem_iff_getElem?.mp he
  obtain ⟨hlt, -⟩ := List.getElem?_eq_some_iff.mp hi
  refine List.mem_flatMap.mpr ⟨e, ?_, hce⟩
  rw [List.mem_iff_getElem?]
  refine ⟨i - (log.length - g / 2 - 1), ?_⟩
  rw [List.getElem?_drop, ← hi]
  congr 1
  -- otherwise its leader is too many rounds below the last one
  by_contra hne
  obtain ⟨f, hf⟩ : ∃ f, log[log.length - 1]? = some f :=
    ⟨_, List.getElem?_eq_getElem (by omega)⟩
  have hround : roundAfter 0 log = f.1.round := by
    rw [roundAfter, List.getLast?_eq_getElem?, hf]
    rfl
  have hidx : log.length - 1 = i + (log.length - 1 - i) := by omega
  rw [hidx] at hf
  have hapart := h.apart hi hf
  omega

omit [Network] in
lemma Ranked.lastCommittedRound_commitAll {log : List (BatchCertificate × Subdag)} (h : Ranked log)
    (hbound : ∀ c ∈ certificatesOf log, c.round ≤ roundAfter 0 log) :
    (DAG.new.commitAll (recentCertificates g log) g).lastCommittedRound = roundAfter 0 log := by
  refine Nat.le_antisymm (DAG.lastCommittedRound_commitAll_le (Nat.zero_le _)
    fun c hc => hbound c (mem_of_recentCertificates hc)) ?_
  rcases List.eq_nil_or_concat log with rfl | ⟨init, e, rfl⟩
  · exact Nat.zero_le _
  · -- the last leader is in the last block
    rw [List.concat_eq_append] at h ⊢
    have hmem : e ∈ (init ++ [e]).drop ((init ++ [e]).length - g / 2 - 1) := by
      rw [List.drop_append_of_le_length (by simp)]
      exact List.mem_append_right _ (List.mem_singleton_self e)
    rw [roundAfter_append_singleton]
    exact DAG.round_le_lastCommittedRound_commitAll
      (List.mem_flatMap.mpr ⟨e, hmem, h.leader e (List.mem_of_mem_drop hmem)⟩)

omit [Network] in
lemma Ranked.recents_commitAll {log : List (BatchCertificate × Subdag)} (h : Ranked log)
    (hbound : ∀ c ∈ certificatesOf log, c.round ≤ roundAfter 0 log) :
    (DAG.new.commitAll (recentCertificates g log) g).Recents g (certificatesOf log) := by
  intro q id
  rw [(DAG.recents_new.commitAll (recentCertificates g log)) q id,
    h.lastCommittedRound_commitAll hbound]
  refine and_congr_left fun hr => ?_
  constructor
  · rintro ⟨c, hc, hcr, hcid⟩
    exact ⟨c, mem_of_recentCertificates hc, hcr, hcid⟩
  · rintro ⟨c, hc, hcr, hcid⟩
    exact ⟨c, h.mem_recentCertificates hc (by rw [hcr]; exact hr), hcr, hcid⟩

/-- A node made anew over a ledger that holds what was committed. -/
structure Rebooted (committee : ℕ → Committee) (g : ℕ) (account : Address)
    (log : List (BatchCertificate × Subdag)) (b : BFT S V) : Prop where
  new : New g account b
  valid : LawfulStorageService.Valid b.storage.transmissions
  gcRound : b.storage.gcRound ≤ b.ledger.latestRound - g
  records : Records b.ledger log
  committee : Storage.AgreesOn committee b.ledger
  syncable : Storage.Syncable S b.ledger

lemma Rebooted.bootup {log : List (BatchCertificate × Subdag)} {r₀ : BFT S V}
    (h : Rebooted committee g account log r₀) (hg : g < 2 ^ 32) (now : ℤ) :
    ∃ storage, r₀.bootup now
        = .ok (({ r₀ with storage }).syncBftDagAtBootup (recentCertificates g log)) ∧
      storage.Synced committee r₀.ledger g
        (max r₀.storage.gcRound (r₀.ledger.latestRound - g)) := by
  obtain ⟨hnew, hvalid, -, hrecords, hl, hsyncable⟩ := h
  have hblank : r₀.storage.Synced committee r₀.ledger g r₀.storage.gcRound :=
    ⟨Storage.indexed_of_empty hnew.certificates hnew.batchIds hnew.rounds,
      ⟨by simp [hnew.certificates], by simp [hnew.certificates]⟩, hnew.maxGcRounds, rfl, hvalid,
      by simp [hnew.certificates]⟩
  obtain ⟨storage, hsync, hsynced⟩ := Storage.syncStorageWithLedgerAtBootup_ok hl hsyncable now hg
    (by rw [hrecords.latestBlockHeight, hrecords.length]) hblank
  rw [hrecords.latestBlockHeight, hrecords.certificates] at hsync
  refine ⟨storage, ?_, hsynced⟩
  unfold BFT.bootup
  rw [hsync]
  rfl

omit [Network] in
lemma Steady.once_bootup (h : Steady U committee g account b)
    (hdag : r.dag = DAG.new.commitAll (recentCertificates g b.committed) g)
    (hcommitted : r.committed = [])
    (hchain : chainCertificates r.ledger.blocks = certificatesOf b.committed) :
    Once U g (certificatesOf b.committed) b.dag.lastCommittedRound r ∧
      r.dag.lastCommittedRound = b.dag.lastCommittedRound ∧
      ∀ q a, r.dag.getCertificateForRoundWithAuthor q a = none := by
  have hlcr : b.dag.lastCommittedRound = roundAfter 0 b.committed := h.sound.consistent.once.round
  have hknown : ∀ c ∈ certificatesOf b.committed,
      U.Has c ∧ c.round ≤ b.dag.lastCommittedRound := by
    simpa using h.sound.consistent.once.known
  have hbound : ∀ c ∈ certificatesOf b.committed, c.round ≤ roundAfter 0 b.committed :=
    fun c hc => hlcr ▸ (hknown c hc).2
  have hround : r.dag.lastCommittedRound = b.dag.lastCommittedRound := by
    rw [hdag, hlcr]
    exact h.ranked.lastCommittedRound_commitAll hbound
  have hnone : ∀ q a, r.dag.getCertificateForRoundWithAuthor q a = none := by
    intro q a
    rw [hdag, Option.eq_none_iff_forall_ne_some]
    intro c hc
    have hc' := DAG.getCertificateForRoundWithAuthor_of_commitAll hc
    simp [DAG.getCertificateForRoundWithAuthor, DAG.new] at hc'
  refine ⟨⟨?_, fun hc => ?_, ?_, ?_, ?_, ?_, fun c hc => ?_, fun pre e post hlog => ?_⟩, hround,
    hnone⟩
  · rw [hdag]
    exact DAG.wellFormed_new.commitAll _ _
  · rw [hnone] at hc
    cases hc
  · rw [hdag, hcommitted]
    simpa [certificatesOf] using h.ranked.recents_commitAll hbound
  · rw [hcommitted, hround]
    simpa [certificatesOf] using hknown
  · rw [hcommitted, hround]
    rfl
  · rw [hcommitted]
    simp [certificatesOf]
  · exact ⟨c, hchain ▸ hc, rfl⟩
  · rw [hcommitted] at hlog
    simp at hlog

/-- **The node after bootup**: its storage holds certificates of the ledger only, and it has the
last committed round and the recent commits of the node before. -/
theorem Steady.bootup (h : Steady U committee g account b) {r₀ : BFT S V}
    (hr₀ : Rebooted committee g b.account b.committed r₀) (hg : g < 2 ^ 32) (now : ℤ) :
    ∃ r, r₀.bootup now = .ok r ∧
      Sound U committee g (certificatesOf b.committed) b.dag.lastCommittedRound r ∧
      r.committed = [] ∧ r.account = b.account ∧
      r.dag.lastCommittedRound = b.dag.lastCommittedRound ∧
      ∀ c, r.Stored c → c ∈ certificatesOf b.committed := by
  obtain ⟨storage, hboot, hsynced⟩ := hr₀.bootup hg now
  obtain ⟨hnew, -, hgc, hrecords, -, -⟩ := hr₀
  have hlatest : r₀.ledger.latestRound = b.dag.lastCommittedRound :=
    hrecords.latestRound.trans h.sound.consistent.once.round.symm
  have hall : chainCertificates r₀.ledger.blocks = certificatesOf b.committed := by
    simpa using hrecords.certificates 0
  have hstored : ∀ (id : Field) (c : BatchCertificate), storage.certificates[id]? = some c →
      c ∈ certificatesOf b.committed := fun id c hc => hall ▸ hsynced.chain id c hc
  have hknown : ∀ c ∈ certificatesOf b.committed,
      U.Has c ∧ c.round ≤ b.dag.lastCommittedRound := by
    simpa using h.sound.consistent.once.known
  obtain ⟨honce, hround, hnone⟩ := h.once_bootup
    (r := ({ r₀ with storage }).syncBftDagAtBootup (recentCertificates g b.committed))
    (by dsimp only [syncBftDagAtBootup]; rw [hnew.dag, hsynced.maxGcRounds]) hnew.committed hall
  refine ⟨_, hboot, ⟨⟨honce, hsynced.indexed, hsynced.closed, fun {id c} hc => ?_,
    hsynced.maxGcRounds, ?_, fun {q a c} hq => ?_, ?_, hnew.own, ?_⟩, hsynced.valid, ?_⟩,
    hnew.committed, hnew.owner, hround, fun c hc => hstored c.id c hc⟩
  · have hhas := (hknown c (hstored id c hc)).1
    rw [← hsynced.indexed.keyed hc]
    exact hhas
  · rw [hround, ← hlatest]
    exact hsynced.gcRound.le.trans (max_le hgc (Nat.le_refl _))
  · rw [hround] at hq
    rw [hnone]
    simp only [reduceCtorEq, false_iff]
    rintro ⟨hc, rfl, -⟩
    have := (hknown c (hstored c.id c hc)).2
    omega
  · rintro c hc ⟨p, hp, hpid⟩
    have hmem : p ∈ certificatesOf b.committed := hall ▸ hp
    rw [hc.eq_of_id (hknown p hmem).1 hpid.symm]
    exact List.mem_append_left _ hmem
  · rw [hround]
    exact h.sound.consistent.even
  · intro c hc hunblocked
    exact absurd ⟨c, hall ▸ hstored c.id c hc, rfl⟩ hunblocked

/-! ### Redelivery -/

/-- **Redelivery commits nothing**: the certificates were stored without any leader elected. -/
theorem Steady.redeliver [LawfulLedger V] (hU : U.Regular) (h : Steady U committee g account b)
    {r₁ : BFT S V} (hsound : Sound U committee g (certificatesOf b.committed)
      b.dag.lastCommittedRound r₁) (hnone : r₁.committed = [])
    (hacc : r₁.account = b.account)
    (hlcr : r₁.dag.lastCommittedRound = b.dag.lastCommittedRound)
    (hold : ∀ c, r₁.Stored c → c ∈ certificatesOf b.committed) {ps : List BatchCertificate}
    (hps : ∀ c ∈ ps, b.Stored c) (hrun : Deliveries U committee g r₁ ps r) :
    Sound U committee g (certificatesOf b.committed) b.dag.lastCommittedRound r ∧
      r.committed = [] ∧ r.account = b.account ∧
      r.dag.lastCommittedRound = b.dag.lastCommittedRound ∧
      ∀ c, r.Stored c ↔ r₁.Stored c ∨ c ∈ ps := by
  induction hrun with
  | nil => exact ⟨hsound, hnone, hacc, hlcr, by simp⟩
  | @snoc cs r e hcs he ih =>
    rw [List.forall_mem_append] at hps
    obtain ⟨hr, hcommitted, hracc, hrlcr, hrstored⟩ := ih hps.1
    obtain ⟨hreceived, -, hstored, -, -, -⟩ := hr.received he
    have hno : ∀ leader, ¬ Elected committee (r.received e) leader := by
      intro leader hel
      refine h.settled leader (hel.mono hracc.symm ?_ fun c habove hc => ?_)
      · rw [lastCommittedRound_received, hrlcr]
      · rw [lastCommittedRound_received, hrlcr] at habove
        rcases (hstored c).mp hc with hc | rfl
        · rcases (hrstored c).mp hc with hc | hc
          · have hknown : c.round ≤ b.dag.lastCommittedRound := by
              simpa using (h.sound.consistent.once.known c (by simpa using hold c hc)).2
            omega
          · exact hps.1 c hc
        · exact hps.2 _ (List.mem_singleton_self _)
    rcases hr.deliver hU he with ⟨l, hq, -, hres⟩ | ⟨leader, x, b', hel, -⟩
    · rw [hres]
      refine ⟨hreceived.quiet hq, hcommitted, hracc, ?_, fun c => ?_⟩
      · rw [← hrlcr]
        exact lastCommittedRound_received
      · rw [List.mem_append, List.mem_singleton, ← or_assoc, ← hrstored]
        exact hstored c
    · exact absurd hel (hno leader)

/-! ### The runs after the restart -/

/-- Two nodes that go on alike: the second was rebooted when `log` was committed. -/
structure Alike (U : Universe) (committee : ℕ → Committee) (g bootRound : ℕ)
    (log : List (BatchCertificate × Subdag)) (b r : BFT S V) : Prop where
  left : Sound U committee g [] 0 b
  right : Sound U committee g (certificatesOf log) bootRound r
  account : r.account = b.account
  committed : b.committed = log ++ r.committed
  lastCommittedRound : r.dag.lastCommittedRound = b.dag.lastCommittedRound
  stored : ∀ c, c ∉ certificatesOf b.committed → (r.Stored c ↔ b.Stored c)

variable {log : List (BatchCertificate × Subdag)}

omit [StorageService S] [LawfulStorageService S] [Network] in
/-- Two chunks of the same leaders commit the same subdags. -/
lemma commits_alike [LawfulLedger V] (hU : U.Regular) {leaders : List BatchCertificate}
    (hc : Commits true false b leaders b') (hc' : Commits true false r leaders r')
    (hb : Consistent U committee g [] 0 b)
    (hr : Consistent U committee g (certificatesOf log) bootRound r)
    (hlog : b.committed = log ++ r.committed)
    (hlcr : r.dag.lastCommittedRound = b.dag.lastCommittedRound)
    (hleaders : ∀ c ∈ leaders, U.Has c ∧ b.dag.lastCommittedRound < c.round ∧ c.round % 2 = 0)
    (hpair : leaders.Pairwise fun p q => p.round < q.round) :
    b'.committed = log ++ r'.committed ∧ b.committed <+: b'.committed := by
  induction hc generalizing r with
  | nil =>
    cases hc'
    exact ⟨hlog, List.prefix_rfl⟩
  | @cons b b' leader leaders subdag l hsub hl _ ih =>
    cases hc' with
    | @cons _ _ _ _ subdag' l' hsub' hl' hrest' =>
    rw [List.forall_mem_cons] at hleaders
    rw [List.pairwise_cons] at hpair
    obtain ⟨hhas, habove, heven⟩ := hleaders.1
    -- both subdags are the uncommitted history of the leader
    have horders := hb.orders hU.sourced hhas hsub
    have horders' := hr.orders hU.sourced hhas hsub'
    rw [hlcr, ← certificatesOf_append, ← hlog] at horders'
    rw [List.nil_append] at horders
    obtain rfl := horders.unique horders'
    obtain ⟨hb', hround⟩ := hb.commitSubdag hhas habove heven hsub hl
    obtain ⟨hr', hround'⟩ := hr.commitSubdag hhas (hlcr ▸ habove) heven hsub' hl'
    have hlog' : (({ b with ledger := l }).commitSubdag leader subdag).committed
        = log ++ (({ r with ledger := l' }).commitSubdag leader subdag).committed := by
      dsimp only [commitSubdag]
      rw [hlog, List.append_assoc]
    obtain ⟨hfinal, hpre⟩ := ih hrest' hb' hr' hlog' (hround'.trans hround.symm)
      (fun c hc => ⟨(hleaders.2 c hc).1, by rw [hround]; exact hpair.1 c hc,
        (hleaders.2 c hc).2.2⟩) hpair.2
    exact ⟨hfinal, (List.prefix_append _ _).trans hpre⟩

omit [StorageService S] [LawfulStorageService S] [Network] in
lemma Consistent.not_mem_committed (h : Consistent U committee g boot bootRound b)
    (hc : b.dag.lastCommittedRound < c.round) : c ∉ boot ++ certificatesOf b.committed := by
  intro hmem
  have := (h.once.known c hmem).2
  omega

omit [StorageService S] [LawfulStorageService S] [Network] in
open Classical in
/-- Two nodes with the same certificates above the last committed round have the same chains. -/
lemma chain_alike {log' : List BatchCertificate} {m n R : ℕ}
    (hb : Consistent U committee g boot bootRound b) (hr : Consistent U committee g log' R r)
    (hacc : r.account = b.account)
    (hlcr : r.dag.lastCommittedRound = b.dag.lastCommittedRound)
    (hm : b.dag.lastCommittedRound = 2 * m)
    (hstored : ∀ c, b.dag.lastCommittedRound < c.round → (r.Stored c ↔ b.Stored c)) :
    LeaderChain.chain (leaderIn b) U.Path m n leader
      = LeaderChain.chain (leaderIn r) U.Path m n leader := by
  unfold LeaderChain.chain
  rw [LeaderChain.descend_congr (f := leaderIn r) (P := fun _ => True) _
    (fun _ _ _ _ _ _ _ => trivial) trivial]
  intro _ _ s hs p _
  rw [LeaderChain.mem_slots] at hs
  have habove : b.dag.lastCommittedRound < 2 * s := by omega
  rw [leaderIn, leaderIn, hb.graph habove, hr.graph (hlcr ▸ habove), hacc]
  refine and_congr_left fun h => ?_
  have hround : p.round = 2 * s := h.1
  exact (hstored p (hround ▸ habove)).symm

open Classical in
/-- **One delivery to both.** -/
theorem Alike.deliver [LawfulLedger V] (hU : U.Regular)
    (h : Alike U committee g bootRound log b r) {e e' : Delivery S V}
    (he : Served U committee g b e) (he' : Served U committee g r e')
    (hcert : e'.certificate = e.certificate) :
    Alike U committee g bootRound log (b.deliver e).2 (r.deliver e').2 ∧
      b.committed <+: (b.deliver e).2.committed := by
  obtain ⟨hreceived, -, hstored, -, -, -⟩ := h.left.received he
  obtain ⟨hreceived', -, hstored', -, -, -⟩ := h.right.received he'
  have hlcr : (r.received e').dag.lastCommittedRound = (b.received e).dag.lastCommittedRound := by
    rw [lastCommittedRound_received, lastCommittedRound_received]
    exact h.lastCommittedRound
  have hsame : ∀ c, c ∉ certificatesOf b.committed →
      ((r.received e').Stored c ↔ (b.received e).Stored c) := by
    intro c hc
    rw [hstored, hstored', hcert, h.stored c hc]
  have habove : ∀ c, (b.received e).dag.lastCommittedRound < c.round →
      ((r.received e').Stored c ↔ (b.received e).Stored c) := fun c hc =>
    hsame c (hreceived.consistent.not_mem_committed hc)
  have helected : ∀ leader, Elected committee (b.received e) leader ↔
      Elected committee (r.received e') leader := fun leader =>
    ⟨fun hel => hel.mono h.account hlcr.le fun c hc => (habove c hc).mpr,
      fun hel => hel.mono h.account.symm hlcr.ge fun c hc => (habove c (hlcr ▸ hc)).mp⟩
  rcases h.left.deliver hU he with ⟨l, hq, hno, hres⟩ |
    ⟨leader, x, b', hel, hround, hx, hcommits, hb', hst, hacc, hlast, hres⟩
  · rcases h.right.deliver hU he' with ⟨l', hq', -, hres'⟩ | ⟨leader, -, -, hel, hround, -⟩
    · rw [hres, hres']
      exact ⟨⟨hreceived.quiet hq, hreceived'.quiet hq', h.account, h.committed, hlcr, hsame⟩,
        List.prefix_rfl⟩
    · exact absurd (hround.trans (congrArg _ hcert)) (hno leader ((helected leader).mpr hel))
  · rcases h.right.deliver hU he' with ⟨l', -, hno, -⟩ |
      ⟨leader', x', r', hel', hround', hx', hcommits', hr', hst', hacc', hlast', hres'⟩
    · exact absurd (hround.trans (congrArg _ hcert.symm)) (hno leader ((helected leader).mp hel))
    -- the same leader, and the same chain
    have hel'' := (helected leader').mpr hel'
    obtain rfl : leader = leader' := hreceived.consistent.indexed.unique hel.stored hel''.stored
      (by rw [hcert] at hround'; omega) (hel.own.trans hel''.own.symm)
    have heven := hreceived.consistent.even
    have hleven := hel.even
    have hm : (b.received e).dag.lastCommittedRound = 2 * (b.dag.lastCommittedRound / 2) := by
      rw [lastCommittedRound_received] at heven ⊢
      omega
    have hn : leader.round = 2 * (leader.round / 2) := by omega
    obtain ⟨hmem, hpair⟩ := hreceived.consistent.chain_spec hel.stored hel.above hm hn
    have hchain : LeaderChain.chain (leaderIn (b.received e)) U.Path
        (b.dag.lastCommittedRound / 2) (leader.round / 2) leader
          = LeaderChain.chain (leaderIn (r.received e')) U.Path
            (b.dag.lastCommittedRound / 2) (leader.round / 2) leader :=
      chain_alike hreceived.consistent hreceived'.consistent h.account hlcr hm habove
    rw [h.lastCommittedRound, ← hchain] at hcommits'
    obtain ⟨hlog, hpre⟩ := commits_alike hU hcommits hcommits' hx.consistent hx'.consistent
      h.committed hlcr (fun c hc => ⟨hreceived.consistent.has (hmem c hc).1, (hmem c hc).2⟩)
      hpair
    obtain ⟨hfinal, hkept⟩ := hb'.garbageCollect hlast
    obtain ⟨hfinal', hkept'⟩ := hr'.garbageCollect hlast'
    rw [hres, hres']
    refine ⟨⟨hfinal, hfinal', ?_, hlog, hlast'.trans hlast.symm, fun c hc => ?_⟩, hpre⟩
    · rw [hacc, hacc']
      exact h.account
    · have hc' : c ∉ certificatesOf b.committed := by
        intro hmem
        obtain ⟨tail, htail⟩ := hpre
        refine hc ?_
        dsimp only
        rw [← htail, certificatesOf_append]
        exact List.mem_append_left _ hmem
      rw [hkept, hkept', Stored, Stored, hst, hst']
      exact and_congr_left fun _ => hsame c hc'

omit [LawfulStorageService S] in
lemma Deliveries.nil_inv {b₀ : BFT S V} (h : Deliveries U committee g b₀ [] b) : b = b₀ := by
  generalize hcs : ([] : List BatchCertificate) = cs at h
  cases h with
  | nil => rfl
  | snoc e _ _ => simp at hcs

omit [LawfulStorageService S] in
lemma Deliveries.snoc_inv {b₀ : BFT S V} {cs : List BatchCertificate}
    (h : Deliveries U committee g b₀ (cs ++ [c]) b) :
    ∃ b₁ e, Deliveries U committee g b₀ cs b₁ ∧ Served U committee g b₁ e ∧ e.certificate = c ∧
      b = (b₁.deliver e).2 := by
  generalize hds : cs ++ [c] = ds at h
  cases h with
  | nil => simp at hds
  | @snoc ds b₁ e hrun he =>
    obtain ⟨rfl, hcert⟩ := List.append_inj' hds rfl
    exact ⟨b₁, e, hrun, he, (List.singleton_inj.mp hcert).symm, rfl⟩

lemma alike_deliveries [LawfulLedger V] (hU : U.Regular)
    (h : Alike U committee g bootRound log b r) {es : List BatchCertificate}
    (hrun : Deliveries U committee g b es b') (hrun' : Deliveries U committee g r es r') :
    Alike U committee g bootRound log b' r' := by
  induction hrun generalizing r' with
  | nil =>
    rw [hrun'.nil_inv]
    exact h
  | snoc e hcs he ih =>
    obtain ⟨r₁, e', hcs', he', hcert, rfl⟩ := hrun'.snoc_inv
    exact ((ih hcs').deliver hU he he' hcert).1

/-- **Restarts do not change what is committed.** The rebooted node has the last committed round
and the recent commits of the one that was not rebooted, and commits what that one commits
after the restart; nothing that was committed before is committed again. -/
theorem restart_transparent [LawfulLedger V] (U : Universe) (committee : ℕ → Committee) (g : ℕ)
    (account : Address) (hU : U.Regular) (b₀ b b' r₀ r₁ r r' : BFT S V)
    (cs ps es : List BatchCertificate) (now : ℤ) (h₀ : Blank g account b₀)
    (hvalid : LawfulStorageService.Valid b₀.storage.transmissions)
    (hrun : Deliveries U committee g b₀ cs b)
    (hr₀ : Rebooted committee g account b.committed r₀) (hboot : r₀.bootup now = .ok r₁)
    (hps : ∀ c, c ∈ ps ↔ b.Stored c ∧ c ∉ certificatesOf b.committed)
    (hredelivery : Deliveries U committee g r₁ ps r)
    (hrest : Deliveries U committee g b es b') (hrest' : Deliveries U committee g r es r') :
    r₁.dag.lastCommittedRound = b.dag.lastCommittedRound ∧
    r'.dag.lastCommittedRound = b'.dag.lastCommittedRound ∧
    (∀ (q : ℕ) (id : Field),
      r'.dag.isRecentlyCommitted q id = b'.dag.isRecentlyCommitted q id) ∧
    b'.committed = b.committed ++ r'.committed ∧
    ∀ c ∈ certificatesOf r'.committed,
      c.id ∉ (certificatesOf b.committed).map BatchCertificate.id := by
  have hblank : Steady U committee g account b₀ := by
    have hconsistent : Consistent U committee g [] 0 b₀ := h₀.consistent
    refine ⟨h₀.owner, ⟨hconsistent, hvalid, fun c hc => ?_⟩, ?_, fun leader hel => ?_⟩
    · simp [h₀.certificates] at hc
    · rw [h₀.committed]
      exact ⟨.nil, by simp, by simp⟩
    · have hs := hel.stored
      simp [Stored, h₀.certificates] at hs
  have hb := steady_deliveries hU hblank hrun
  have hg : g < 2 ^ 32 := by
    by_contra hge
    unfold BFT.bootup Storage.syncStorageWithLedgerAtBootup at hboot
    rw [hr₀.new.maxGcRounds, if_pos (by omega)] at hboot
    cases hboot
  rw [← hb.owner] at hr₀
  obtain ⟨r₂, hboot', hsound, hnone, hr₁acc, hlcr, hold⟩ := hb.bootup hr₀ hg now
  rw [hboot] at hboot'
  cases hboot'
  obtain ⟨hr, hrnone, hracc, hrlcr, hrstored⟩ := hb.redeliver hU hsound hnone hr₁acc hlcr hold
    (fun c hc => ((hps c).mp hc).1) hredelivery
  have halike : Alike U committee g b.dag.lastCommittedRound b.committed b r := by
    refine ⟨hb.sound, hr, hracc, by rw [hrnone, List.append_nil], hrlcr, fun c hc => ?_⟩
    rw [hrstored, hps]
    exact ⟨fun h => (h.resolve_left fun h₁ => hc (hold c h₁)).1, fun h => .inr ⟨h, hc⟩⟩
  have hfinal := alike_deliveries hU halike hrest hrest'
  refine ⟨hlcr, hfinal.lastCommittedRound, fun q id => ?_, hfinal.committed, fun c hc hmem => ?_⟩
  · have hrecents := hfinal.left.consistent.once.recents q id
    have hrecents' := hfinal.right.consistent.once.recents q id
    rw [hfinal.lastCommittedRound, ← certificatesOf_append, ← hfinal.committed] at hrecents'
    rw [Bool.eq_iff_iff, hrecents, hrecents']
    rfl
  · have hnodup := hfinal.left.consistent.once.nodup
    rw [hfinal.committed, certificatesOf_append, List.map_append, List.nodup_append] at hnodup
    exact hnodup.2.2 _ hmem _ (List.mem_map_of_mem hc) rfl

end Deliveries

section Example

/-- Three certificates in each of the first five rounds. -/
def restartCertificates : List BatchCertificate :=
  [developmentCertificate 10 0 1 [], developmentCertificate 11 1 1 [],
   developmentCertificate 12 2 1 [], developmentCertificate 20 0 2 [10, 11, 12],
   developmentCertificate 21 1 2 [10, 11, 12], developmentCertificate 22 2 2 [10, 11, 12],
   developmentCertificate 30 0 3 [20, 21, 22], developmentCertificate 31 1 3 [20, 21, 22],
   developmentCertificate 32 2 3 [20, 21, 22], developmentCertificate 40 0 4 [30, 31, 32],
   developmentCertificate 41 1 4 [30, 31, 32], developmentCertificate 42 2 4 [30, 31, 32],
   developmentCertificate 50 0 5 [40, 41, 42], developmentCertificate 51 1 5 [40, 41, 42],
   developmentCertificate 52 2 5 [40, 41, 42]]

def restartUniverse : Universe := Universe.ofList restartCertificates (by decide +kernel)

lemma restartUniverse_has {c : BatchCertificate} :
    restartUniverse.Has c ↔ c ∈ restartCertificates := by
  have hall : ∀ c ∈ restartCertificates, restartUniverse.cert c.id = some c := by
    decide +kernel
  exact ⟨Universe.mem_of_has, hall c⟩

lemma restartUniverse_regular : restartUniverse.Regular := by
  have hsourced : ∀ c ∈ restartCertificates, ∀ id ∈ c.previousCertificateIds.toList,
      ∃ p ∈ restartCertificates, p.id = id := by decide +kernel
  have hpositive : ∀ c ∈ restartCertificates, 0 < c.round := by decide +kernel
  have hplain : ∀ c ∈ restartCertificates, TransmissionID.ratification ∉ c.transmissionIds := by
    decide +kernel
  refine ⟨fun c id hc hid => ?_, fun c hc => hpositive c (restartUniverse_has.mp hc),
    fun c hc => hplain c (restartUniverse_has.mp hc)⟩
  obtain ⟨p, hp, hpid⟩ := hsourced c (restartUniverse_has.mp hc) id hid
  exact ⟨p, restartUniverse_has.mpr hp, hpid⟩

/-- A delivery, and whether storage accepted it and the node was running. -/
def tryDeliver (s : BFT BFTMemoryService Chain × Bool) (c : BatchCertificate) :
    BFT BFTMemoryService Chain × Bool :=
  let _ := developmentNetwork
  ((s.1.deliver (delivery s.1 c)).2, s.2 && (!s.1.ledger.shutdown &&
    (s.1.storage.insertCertificate s.1.ledger 0 c ∅ ∅).1.isOk))

def tryDeliveries (b : BFT BFTMemoryService Chain) (cs : List BatchCertificate) :
    BFT BFTMemoryService Chain × Bool :=
  cs.foldl tryDeliver (b, true)

lemma Except.eq_ok_of_isOk {e : Except String Unit} (h : e.isOk = true) : e = .ok () := by
  cases e with
  | error e => cases h
  | ok u => rfl

lemma serves_chain {b : BFT BFTMemoryService Chain} (hl : b.ledger.shutdown = false)
    (hsender : b.consensusSender = some processBftSubdag) :
    @Serves _ _ _ _ developmentNetwork restartUniverse 100 b := by
  let _ := developmentNetwork
  refine ⟨hl, fun s hs => hs.ordered.checkAnchor, processBftSubdag, hsender,
    processBftSubdag_faithful, fun l s t _ hl _ _ => ?_⟩
  simp [processBftSubdag, tryAdvanceToNextBlock, Ledger.prepareAdvanceToNextQuorumBlock,
    CoreLedgerService.advanceToNextBlock, hl, Ledger.advanceToNextBlock]

lemma deliveries_of_try {b : BFT BFTMemoryService Chain} {cs : List BatchCertificate}
    (hcs : cs ⊆ restartCertificates) (h : (tryDeliveries b cs).2 = true) :
    @Deliveries _ _ _ _ developmentNetwork restartUniverse (fun _ => developmentCommittee) 100 b cs
      (tryDeliveries b cs).1 := by
  let _ := developmentNetwork
  induction cs using List.reverseRecOn with
  | nil => exact .nil
  | append_singleton cs c ih =>
    rw [List.append_subset, List.cons_subset] at hcs
    unfold tryDeliveries at h ⊢
    rw [List.foldl_append] at h ⊢
    obtain ⟨hcs', hc⟩ := Bool.and_eq_true_iff.mp h
    obtain ⟨hrunning, haccepted⟩ := Bool.and_eq_true_iff.mp hc
    rw [Bool.not_eq_true'] at hrunning
    refine .snoc (delivery _ c) (ih hcs.1 hcs') ⟨restartUniverse_has.mpr hcs.2.1, .refl _, ?_,
      serves_chain hrunning rfl, rfl, ?_⟩
    · exact fun r com hcom => (Except.ok.inj hcom).symm
    · exact Except.eq_ok_of_isOk haccepted

/-- The node that has met the first three rounds. -/
def nodeBefore : BFT BFTMemoryService Chain :=
  (tryDeliveries blankBft (restartCertificates.take 9)).1

/-- The blocks of some committed leaders, from some height on. -/
def blocksOf (height : ℕ) : List (BatchCertificate × Subdag) → List Block
  | [] => []
  | e :: log => ⟨height, e.1.round, .quorum e.2, [], [], [], []⟩ :: blocksOf (height + 1) log

lemma blocksOf_forall₂ (height : ℕ) (log : List (BatchCertificate × Subdag)) :
    List.Forall₂ (fun (block : Block) (e : BatchCertificate × Subdag) =>
      block.authority = .quorum e.2 ∧ block.round = e.1.round) (blocksOf height log) log := by
  induction log generalizing height with
  | nil => exact .nil
  | cons e log ih => exact .cons ⟨rfl, rfl⟩ (ih (height + 1))

lemma height_blocksOf {height : ℕ} {log : List (BatchCertificate × Subdag)} {i : ℕ}
    {block : Block} (h : (blocksOf height log)[i]? = some block) : block.height = height + i := by
  induction log generalizing height i with
  | nil => simp [blocksOf] at h
  | cons e log ih =>
    cases i with
    | zero =>
      cases h
      rfl
    | succ i =>
      rw [blocksOf, List.getElem?_cons_succ] at h
      rw [ih h]
      omega

/-- A new node over the ledger of that one. -/
def nodeRebooted : BFT BFTMemoryService Chain :=
  { blankBft with
    ledger := developmentLedger (⟨0, 0, .beacon, [], [], [], []⟩ ::
      blocksOf 1 nodeBefore.committed) }

lemma nodeRebooted_records : Records nodeRebooted.ledger nodeBefore.committed := by
  refine ⟨⟨_, _, rfl, rfl, rfl, blocksOf_forall₂ 1 _⟩, fun i block h => ?_⟩
  cases i with
  | zero =>
    cases h
    rfl
  | succ i =>
    have hheight : block.height = 1 + i := height_blocksOf h
    omega

lemma nodeRebooted_rebooted :
    @Rebooted _ _ _ _ _ developmentNetwork (fun _ => developmentCommittee) 100
      (developmentAccount 0) nodeBefore.committed nodeRebooted := by
  let _ := developmentNetwork
  have hown : OwnLeader (developmentAccount 0) nodeRebooted.ledger := by
    intro r a h
    cases h
  exact ⟨⟨rfl, rfl, rfl, blankBft_blank.rounds, blankBft_blank.certificates,
    blankBft_blank.batchIds, rfl, hown⟩, BFTMemoryService.valid_empty, by decide +kernel,
    nodeRebooted_records, fun r com hcom => (Except.ok.inj hcom).symm, .inl trivial⟩

/-- That node after bootup. -/
def nodeBooted : BFT BFTMemoryService Chain :=
  match @BFT.bootup _ _ _ developmentNetwork _ nodeRebooted 0 with
  | .ok r => r
  | .error _ => nodeRebooted

lemma bootup_nodeRebooted :
    @BFT.bootup _ _ _ developmentNetwork _ nodeRebooted 0 = .ok nodeBooted := by
  have hok : (@BFT.bootup _ _ _ developmentNetwork _ nodeRebooted 0).isOk = true := by
    decide +kernel
  unfold nodeBooted
  cases hboot : @BFT.bootup _ _ _ developmentNetwork _ nodeRebooted 0 with
  | ok r => rfl
  | error e =>
    rw [hboot] at hok
    cases hok

/-- The certificates that are in no block. -/
def unblocked : List BatchCertificate := (restartCertificates.take 9).drop 4

lemma mem_unblocked (c : BatchCertificate) :
    c ∈ unblocked ↔ nodeBefore.Stored c ∧ c ∉ certificatesOf nodeBefore.committed := by
  have hall : ∀ c ∈ unblocked, nodeBefore.storage.certificates[c.id]? = some c ∧
      c ∉ certificatesOf nodeBefore.committed := by decide +kernel
  have hstored : ∀ c ∈ mapValues nodeBefore.storage.certificates,
      c ∉ certificatesOf nodeBefore.committed → c ∈ unblocked := by decide +kernel
  exact ⟨hall c, fun h => hstored c (mem_mapValues.mpr ⟨c.id, h.1⟩) h.2⟩

theorem restart_transparent_example :
    let last := restartCertificates.drop 9
    let node := (tryDeliveries nodeBefore last).1
    let redelivered := (tryDeliveries nodeBooted unblocked).1
    let rebooted := (tryDeliveries redelivered last).1
    rebooted.committed.length = 1 ∧ nodeBooted.dag.lastCommittedRound = 2 ∧
      rebooted.dag.lastCommittedRound = node.dag.lastCommittedRound ∧
      node.committed = nodeBefore.committed ++ rebooted.committed := by
  intro last node redelivered rebooted
  let _ := developmentNetwork
  have hbefore : @Deliveries _ _ _ _ developmentNetwork restartUniverse
      (fun _ => developmentCommittee) 100 blankBft _ nodeBefore :=
    deliveries_of_try (by decide +kernel) (by decide +kernel)
  obtain ⟨hlcr, hlcr', -, hcommitted, -⟩ := restart_transparent restartUniverse _ 100
    (developmentAccount 0) restartUniverse_regular blankBft nodeBefore node nodeRebooted
    nodeBooted redelivered rebooted _ unblocked last 0 blankBft_blank BFTMemoryService.valid_empty
    hbefore nodeRebooted_rebooted bootup_nodeRebooted mem_unblocked
    (deliveries_of_try (by decide +kernel) (by decide +kernel))
    (deliveries_of_try (by decide +kernel) (by decide +kernel))
    (deliveries_of_try (by decide +kernel) (by decide +kernel))
  exact ⟨by decide +kernel, hlcr.trans (by decide +kernel), hlcr', hcommitted⟩

end Example

end BFT

end AmareleoChain
