import AmareleoChain.FullRound
import AmareleoChain.History
import AmareleoChain.Restart
import Mathlib.Tactic.IntervalCases

/-!
The BFT while the rounds fill up, one certificate after the other.

The four validators make their certificates in turn, and each of these refers to the four of the
round before. A leader is committed when the second certificate of the next round comes: with the
certificates of the round before it, and with what the leader before it left of the round below.
-/

namespace AmareleoChain

open Std Relation

/-! ### Equal stakes -/

/-- The committee of the four accounts, with equal stakes and the thresholds of `snarkvm`. -/
structure Committee.Equal (c : Committee) (acc : Fin 4 → Address) : Prop where
  members : c.members = Finset.univ.image acc
  stake : ∃ s, 0 < s ∧ ∀ vid, c.stake (acc vid) = s
  availability : c.availabilityThreshold = (c.totalStake + 2) / 3
  quorum : c.quorumThreshold = c.totalStake - c.availabilityThreshold + 1
  bound : c.totalStake < 2 ^ 64

namespace Committee.Equal

variable {c : Committee} {acc : Fin 4 → Address} {vids : Finset (Fin 4)}

lemma mem_members (h : c.Equal acc) (vid : Fin 4) : acc vid ∈ c.members := by
  rw [h.members]
  exact Finset.mem_image_of_mem acc (Finset.mem_univ vid)

lemma stakeOf_image (h : c.Equal acc) (hinjective : Function.Injective acc)
    (vids : Finset (Fin 4)) {s : ℕ} (hs : ∀ vid, c.stake (acc vid) = s) :
    c.stakeOf (vids.image acc) = vids.card * s := by
  have hone : ∀ vid ∈ vids, c.getStake (acc vid) = s := fun vid _ => by
    rw [Committee.getStake, if_pos (h.mem_members vid), hs]
  rw [Committee.stakeOf, Finset.sum_image fun _ _ _ _ heq => hinjective heq]
  exact Finset.sum_const_nat hone

lemma totalStake_eq (h : c.Equal acc) (hinjective : Function.Injective acc) {s : ℕ}
    (hs : ∀ vid, c.stake (acc vid) = s) : c.totalStake = 4 * s := by
  rw [Committee.totalStake, h.members, Finset.sum_image fun _ _ _ _ heq => hinjective heq]
  exact Finset.sum_const_nat fun vid _ => hs vid

/-- **Two validators are enough for the availability threshold**, and one is not. -/
theorem availability_iff (h : c.Equal acc) (hinjective : Function.Injective acc) :
    c.isAvailabilityThresholdReached (vids.image acc) = true ↔ 2 ≤ vids.card := by
  obtain ⟨s, hpos, hs⟩ := h.stake
  rw [Committee.isAvailabilityThresholdReached, decide_eq_true_eq, h.availability,
    h.totalStake_eq hinjective hs, h.stakeOf_image hinjective vids hs]
  have hle : vids.card ≤ 4 := card_finset_fin_le vids
  interval_cases vids.card <;> omega

/-- **Three are needed for the quorum.** -/
theorem quorum_iff (h : c.Equal acc) (hinjective : Function.Injective acc) :
    c.isQuorumThresholdReached (vids.image acc) = true ↔ 3 ≤ vids.card := by
  obtain ⟨s, hpos, hs⟩ := h.stake
  rw [Committee.isQuorumThresholdReached, decide_eq_true_eq, h.quorum, h.availability,
    h.totalStake_eq hinjective hs, h.stakeOf_image hinjective vids hs]
  have hle : vids.card ≤ 4 := card_finset_fin_le vids
  interval_cases vids.card <;> omega

end Committee.Equal

/-! ### Rows of certificates -/

/-- The places of the certificates of `n` full rounds, and of the first `k` validators in the
round after these. -/
def Slot (n k round : ℕ) (vid : Fin 4) : Prop :=
  1 ≤ round ∧ (round ≤ n ∨ round = n + 1 ∧ vid.val < k)

/-- Certificates with exactly one in each place, that refer to all those of the round before. -/
structure Rows (acc : Fin 4 → Address) (made : List BatchCertificate) (n k : ℕ) : Prop where
  only : ∀ c ∈ made, ∃ vid, c.author = acc vid ∧ Slot n k c.round vid
  one : ∀ round vid, Slot n k round vid → ∃ c ∈ made, c.round = round ∧ c.author = acc vid ∧
    ∀ d ∈ made, d.round = round → d.author = acc vid → d = c
  previous : ∀ c ∈ made, ∀ id, id ∈ c.previousCertificateIds ↔
    ∃ p ∈ made, p.round + 1 = c.round ∧ p.id = id

namespace Rows

variable {acc : Fin 4 → Address} {made : List BatchCertificate} {n k : ℕ} {c d : BatchCertificate}

lemma nil (acc : Fin 4 → Address) : Rows acc [] 0 0 where
  only _ hc := absurd hc List.not_mem_nil
  one round vid h := by
    obtain ⟨hpos, hle | ⟨-, hlt⟩⟩ := h <;> omega
  previous _ hc := absurd hc List.not_mem_nil

lemma round_pos (h : Rows acc made n k) (hc : c ∈ made) : 1 ≤ c.round := by
  obtain ⟨vid, -, hslot⟩ := h.only c hc
  exact hslot.1

lemma round_le (h : Rows acc made n k) (hc : c ∈ made) : c.round ≤ n + 1 := by
  obtain ⟨vid, -, -, hle | ⟨heq, -⟩⟩ := h.only c hc <;> omega

lemma eq_of_slot (h : Rows acc made n k) (hc : c ∈ made) (hd : d ∈ made)
    (hround : d.round = c.round) (hauthor : d.author = c.author) : d = c := by
  obtain ⟨vid, hvid, hslot⟩ := h.only c hc
  obtain ⟨x, -, -, -, honly⟩ := h.one c.round vid hslot
  rw [honly d hd hround (hauthor.trans hvid), honly c hc rfl hvid]

lemma next (h : Rows acc made n 4) : Rows acc made (n + 1) 0 := by
  have hslot : ∀ round vid, Slot (n + 1) 0 round vid ↔ Slot n 4 round vid := fun round vid => by
    have hlt := vid.isLt
    unfold Slot
    omega
  refine ⟨fun c hc => ?_, fun round vid hs => h.one round vid ((hslot round vid).mp hs), h.previous⟩
  obtain ⟨vid, hauthor, hs⟩ := h.only c hc
  exact ⟨vid, hauthor, (hslot c.round vid).mpr hs⟩

/-- **The next certificate of the row.** -/
theorem add (h : Rows acc made n k) (hinjective : Function.Injective acc) {vid : Fin 4}
    (hvid : vid.val = k) (hround : c.round = n + 1) (hauthor : c.author = acc vid)
    (hprevious : ∀ id, id ∈ c.previousCertificateIds ↔
      ∃ p ∈ made, p.round + 1 = c.round ∧ p.id = id) : Rows acc (made ++ [c]) n (k + 1) := by
  have hnew : ∀ d ∈ made, d.round = n + 1 → d.author ≠ acc vid := by
    intro d hd hr ha
    obtain ⟨w, hw, -, hle | ⟨-, hlt⟩⟩ := h.only d hd
    · omega
    · rw [ha] at hw
      rw [hinjective hw] at hvid
      omega
  refine ⟨fun d hd => ?_, fun round w hs => ?_, fun d hd id => ?_⟩
  · rcases List.mem_append.mp hd with hd | hd
    · obtain ⟨w, hw, hpos, hle⟩ := h.only d hd
      exact ⟨w, hw, hpos, by omega⟩
    · rw [List.mem_singleton.mp hd]
      exact ⟨vid, hauthor, by omega, .inr ⟨hround, by omega⟩⟩
  · by_cases hs' : Slot n k round w
    · obtain ⟨d, hd, hr, ha, honly⟩ := h.one round w hs'
      refine ⟨d, List.mem_append_left _ hd, hr, ha, fun e he her hea => ?_⟩
      rcases List.mem_append.mp he with he | he
      · exact honly e he her hea
      · obtain rfl := List.mem_singleton.mp he
        obtain rfl : w = vid := hinjective (hea.symm.trans hauthor)
        exact absurd ha (hnew d hd (hr.trans (her.symm.trans hround)))
    · obtain ⟨hr, hw⟩ : round = n + 1 ∧ w.val = k := by
        unfold Slot at hs hs'
        omega
      obtain rfl : w = vid := Fin.ext (hw.trans hvid.symm)
      refine ⟨c, by simp, hround.trans hr.symm, hauthor, fun e he her hea => ?_⟩
      rcases List.mem_append.mp he with he | he
      · exact absurd hea (hnew e he (her.trans hr))
      · exact List.mem_singleton.mp he
  · have hgrow : (∃ p ∈ made ++ [c], p.round + 1 = d.round ∧ p.id = id) ↔
        ∃ p ∈ made, p.round + 1 = d.round ∧ p.id = id := by
      constructor
      · rintro ⟨p, hp, hr, hid⟩
        rcases List.mem_append.mp hp with hp | hp
        · exact ⟨p, hp, hr, hid⟩
        · -- nothing refers to the newest certificate
          rw [List.mem_singleton.mp hp] at hr
          rcases List.mem_append.mp hd with hd | hd
          · have := h.round_le hd
            omega
          · rw [List.mem_singleton.mp hd] at hr
            omega
      · rintro ⟨p, hp, hr, hid⟩
        exact ⟨p, List.mem_append_left _ hp, hr, hid⟩
    rw [hgrow]
    rcases List.mem_append.mp hd with hd | hd
    · exact h.previous d hd id
    · rw [List.mem_singleton.mp hd]
      exact hprevious id

end Rows

/-! ### The state of the BFT -/

/-- The last committed round, when `n` rounds are full and the next one has `k` certificates. -/
def lastFilled (n k : ℕ) : ℕ := if n % 2 = 0 ∧ 2 ≤ k then n else 2 * ((n - 1) / 2)

lemma lastFilled_le (n k : ℕ) : lastFilled n k ≤ n := by
  unfold lastFilled
  split <;> omega

lemma lastFilled_four (n : ℕ) : lastFilled n 4 = lastFilled (n + 1) 0 := by
  unfold lastFilled
  split <;> split <;> omega

/-- The block of an even round: the own certificate of the round, those of the round before, and
those of the other validators of the round before that. -/
def BlockOfRound (own : Address) (made : List BatchCertificate) (round : ℕ) (subdag : Subdag) :
    Prop :=
  subdag.certificates.Nodup ∧ ∀ c, c ∈ subdag.certificates ↔ c ∈ made ∧
    (c.round = round ∧ c.author = own ∨ c.round + 1 = round ∨ c.round + 2 = round ∧ c.author ≠ own)

/-- The blocks of the even rounds up to the given one, one after the other. -/
def BlocksUpTo (own : Address) (made : List BatchCertificate) (round : ℕ) (blocks : List Block) :
    Prop :=
  blocks.length = round / 2 ∧ ∀ i block, blocks[i]? = some block →
    ∃ subdag, block.authority = .quorum subdag ∧ BlockOfRound own made (2 * (i + 1)) subdag

lemma BlockOfRound.append {own : Address} {made : List BatchCertificate} {round : ℕ}
    {subdag : Subdag} {c : BatchCertificate} (h : BlockOfRound own made round subdag)
    (hc : round < c.round) : BlockOfRound own (made ++ [c]) round subdag := by
  refine ⟨h.1, fun d => (h.2 d).trans ?_⟩
  rw [List.mem_append, List.mem_singleton]
  refine and_congr_left fun hplace => ⟨.inl, fun hd => hd.resolve_right ?_⟩
  rintro rfl
  omega

namespace BFT

variable {S V : Type} [Ledger V] [StorageService S] [LawfulStorageService S] {U : Universe}
  {committee : ℕ → Committee} {g : ℕ} {acc : Fin 4 → Address} {past : List Block}
  {made : List BatchCertificate} {n k last : ℕ} {b : BFT S V} {c leader : BatchCertificate}
  {subdag : Subdag}

/-- The rounds up to `n` are full, `k` certificates of the next one have come, and the leaders up to
the round `last` are committed. -/
structure Filled (U : Universe) (committee : ℕ → Committee) (g : ℕ) (acc : Fin 4 → Address)
    (past : List Block) (made : List BatchCertificate) (n k last : ℕ) (b : BFT S V) : Prop where
  account : b.account = acc 0
  sound : Sound U committee g [] 0 b
  rows : Rows acc made n k
  has : ∀ c ∈ made, U.Has c
  stored : ∀ c, b.Stored c ↔ c ∈ made ∧ b.storage.gcRound < c.round
  lastRound : b.dag.lastCommittedRound = last
  gcRound : b.storage.gcRound = last - g
  committed : ∀ c, c ∈ certificatesOf b.committed ↔ c ∈ made ∧
    (c.round < last ∨ c.round = last ∧ c.author = acc 0)
  blocks : ∃ blocks, b.ledger.blocks = past ++ blocks ∧
    BlocksUpTo (acc 0) made last blocks

namespace Filled

lemma congr (h : b.Filled U committee g acc past made n k last) {b' : BFT S V}
    (hsound : Sound U committee g [] 0 b') (haccount : b'.account = b.account)
    (hcertificates : b'.storage.certificates = b.storage.certificates)
    (hgc : b'.storage.gcRound = b.storage.gcRound) (hdag : b'.dag = b.dag)
    (hcommitted : b'.committed = b.committed) (hblocks : b'.ledger.blocks = b.ledger.blocks) :
    b'.Filled U committee g acc past made n k last where
  account := haccount.trans h.account
  sound := hsound
  rows := h.rows
  has := h.has
  stored c := by
    rw [Stored, hcertificates, hgc]
    exact h.stored c
  lastRound := hdag ▸ h.lastRound
  gcRound := hgc.trans h.gcRound
  committed := hcommitted ▸ h.committed
  blocks := hblocks ▸ h.blocks

lemma withLeader (h : b.Filled U committee g acc past made n k last) {x : Option (ℕ × Address)}
    (hx : OwnLeader b.account (b.withLeader x).ledger) :
    (b.withLeader x).Filled U committee g acc past made n k last :=
  h.congr (h.sound.quiet ⟨rfl, fun _ => hx⟩) rfl rfl rfl rfl rfl rfl

lemma eq_of_resolve (h : b.Filled U committee g acc past made n k last) {id : Field}
    {p q : BatchCertificate} (hres : b.resolve c id = some p) (hq : q ∈ made) (hid : q.id = id) :
    p = q := by
  have hwithin := h.sound.consistent.within
  have hp : U.cert id = some p := by
    rcases held_of_resolve hres with ⟨r, hr⟩ | hr
    · obtain ⟨hpid, a, ha⟩ := DAG.getCertificateForRoundWithId_some hr
      rw [← hpid]
      exact hwithin.graph ha
    · exact hwithin.storage hr
  have hcert : U.cert id = some q := hid ▸ h.has q hq
  exact Option.some_inj.mp (hp.symm.trans hcert)

lemma resolve_of_stored (h : b.Filled U committee g acc past made n k last) (hc : c ∈ made)
    (habove : b.storage.gcRound < c.round) (d : BatchCertificate) :
    b.resolve d c.id = some c := by
  have hstored : b.storage.getCertificate c.id = some c := (h.stored c).mpr ⟨hc, habove⟩
  cases hdag : b.dag.getCertificateForRoundWithId (d.round - 1) c.id with
  | none => rw [resolve, hdag, Option.none_or, hstored]
  | some p =>
    have hres : b.resolve d c.id = some p := by rw [resolve, hdag, Option.some_or]
    rw [hres, h.eq_of_resolve hres hc rfl]

lemma fresh_iff [LawfulLedger V] (h : b.Filled U committee g acc past made n k last)
    (hc : c ∈ made) (habove : last < c.round + g) :
    b.Fresh true c.round c.id ↔ c ∉ certificatesOf b.committed := by
  have honce := h.sound.consistent.once
  rw [← h.lastRound] at habove
  constructor
  · rintro ⟨hrecent, -⟩ hcommitted
    have := (honce.recents c.round c.id).mpr ⟨⟨c, hcommitted, rfl, rfl⟩, habove⟩
    rw [hrecent] at this
    cases this
  · intro hno
    refine ⟨?_, fun _ hled => hno ?_⟩
    · by_contra hrecent
      obtain ⟨⟨d, hd, -, hid⟩, -⟩ := (honce.recents c.round c.id).mp (by simpa using hrecent)
      rw [(h.has c hc).eq_of_id (honce.known d hd).1 hid.symm] at hno
      exact hno hd
    · exact h.sound.consistent.chain (h.has c hc)
        ((LawfulLedger.containsCertificate_ok hled).mp rfl)

/-- **The uncommitted history of a leader** whose two rounds below are full, when the leader before
it was committed. -/
theorem reaches_iff [LawfulLedger V] (hg : 0 < g)
    (h : b.Filled U committee g acc past made n k last) (hleader : leader ∈ made)
    (hround : leader.round = n) (hauthor : leader.author = acc 0) (hn : n = last + 2) :
    b.Reaches true leader c ↔ c ∈ made ∧
      (c = leader ∨ c.round + 1 = n ∨ c.round + 2 = n ∧ c.author ≠ acc 0) := by
  have hcon := h.sound.consistent
  have hgc := h.gcRound
  have hlast := h.lastRound
  constructor
  · intro hreach
    induction hreach with
    | refl => exact ⟨hleader, .inl rfl⟩
    | @tail d p _ hstep ih =>
      obtain ⟨hd, hplace⟩ := ih
      obtain ⟨id, ⟨hid, habove, hfresh⟩, hres⟩ := hstep
      obtain ⟨q, hq, hqround, hqid⟩ := (h.rows.previous d hd id).mp hid
      obtain rfl := h.eq_of_resolve hres hq hqid
      have hdround : d.round - 1 = p.round := by omega
      rw [hcon.maxGcRounds, hdround, hlast] at habove
      rw [hdround, ← hqid, h.fresh_iff hq habove, h.committed] at hfresh
      refine ⟨hq, .inr ?_⟩
      rcases hplace with rfl | hr | ⟨hr, -⟩
      · exact .inl (hqround.trans hround)
      · exact .inr ⟨by omega, fun ha => hfresh ⟨hq, .inr ⟨by omega, ha⟩⟩⟩
      · exact absurd ⟨hq, .inl (by omega)⟩ hfresh
  · have hstep : ∀ d p : BatchCertificate, d ∈ made → p ∈ made → p.round + 1 = d.round →
        last ≤ p.round → p ∉ certificatesOf b.committed → b.Reaches true leader d →
        b.Reaches true leader p := by
      intro d p hd hp hr hle hno hreach
      have hpos := h.rows.round_pos hp
      have hdround : d.round - 1 = p.round := by omega
      refine hreach.tail ⟨p.id, ⟨(h.rows.previous d hd p.id).mpr ⟨p, hp, hr, rfl⟩, ?_, ?_⟩,
        h.resolve_of_stored hp (by omega) d⟩
      · rw [hcon.maxGcRounds, hdround, hlast]
        omega
      · rw [hdround, h.fresh_iff hp (by omega)]
        exact hno
    have hodd : ∀ d ∈ made, d.round + 1 = n → b.Reaches true leader d := fun d hd hr =>
      hstep leader d hleader hd (hr.trans hround.symm) (by omega)
        (fun hc => by have := (h.committed d).mp hc; omega) .refl
    rintro ⟨hc, rfl | hr | ⟨hr, ha⟩⟩
    · exact .refl
    · exact hodd c hc hr
    · -- any certificate of the round between refers to it
      obtain ⟨d, hd, hdr, -⟩ := h.rows.one (c.round + 1) 0 ⟨by omega, .inl (by omega)⟩
      refine hstep d c hd hc hdr.symm (by omega) (fun hcommitted => ?_) (hodd d hd (by omega))
      obtain ⟨-, hlt | ⟨-, hown⟩⟩ := (h.committed c).mp hcommitted
      · omega
      · exact ha hown

lemma committed_append [LawfulLedger V] (hg : 0 < g)
    (h : b.Filled U committee g acc past made n k last) (hleader : leader ∈ made)
    (hround : leader.round = n) (hauthor : leader.author = acc 0) (hn : n = last + 2)
    (hsub : b.orderDagWithDfs true leader = .ok subdag) :
    BlockOfRound (acc 0) made n subdag ∧
      ∀ c, c ∈ certificatesOf (b.committed ++ [(leader, subdag)]) ↔ c ∈ made ∧
        (c.round < n ∨ c.round = n ∧ c.author = acc 0) := by
  have hgc := h.sound.consistent.maxGcRounds
  have hlast := h.lastRound
  have hone : ∀ c ∈ made, c = leader ↔ c.round = n ∧ c.author = acc 0 := fun c hc =>
    ⟨fun heq => heq ▸ ⟨hround, hauthor⟩, fun ⟨hr, ha⟩ =>
      h.rows.eq_of_slot hleader hc (hr.trans hround.symm) (ha.trans hauthor.symm)⟩
  obtain ⟨-, hnd, hmem⟩ := (orderDagWithDfs_history true b leader
    (h.sound.consistent.within.layered (h.has leader hleader))).2.2.1 subdag hsub
  have hblock : ∀ c, c ∈ subdag.certificates ↔ c ∈ made ∧
      (c.round = n ∧ c.author = acc 0 ∨ c.round + 1 = n ∨ c.round + 2 = n ∧ c.author ≠ acc 0) := by
    intro c
    rw [hmem, h.reaches_iff hg hleader hround hauthor hn, hlast, hgc]
    constructor
    · rintro ⟨⟨hc, hplace⟩, -⟩
      exact ⟨hc, hplace.imp_left (hone c hc).mp⟩
    · rintro ⟨hc, hplace⟩
      refine ⟨⟨hc, hplace.imp_left (hone c hc).mpr⟩, ?_⟩
      omega
  refine ⟨⟨hnd, hblock⟩, fun c => ?_⟩
  have hcerts : certificatesOf (b.committed ++ [(leader, subdag)])
      = certificatesOf b.committed ++ subdag.certificates := by simp [certificatesOf]
  rw [hcerts, List.mem_append, h.committed, hblock, ← and_or_left]
  refine and_congr_right fun _ => ?_
  by_cases ha : c.author = acc 0
  · simp only [ha, ne_eq, not_true, and_false, or_false, and_true]
    omega
  · simp only [ha, ne_eq, not_false_iff, and_false, or_false, false_or, and_true]
    omega

/-- **The commit of a leader**, and the garbage collection after it. -/
theorem commit [LawfulLedger V] [Network] (hU : U.Regular) (hg : 0 < g)
    (h : b.Filled U committee g acc past made n k last)
    (hserves : b.Serves U g) (hleader : leader ∈ made)
    (hround : leader.round = n) (hauthor : leader.author = acc 0) (hn : n = last + 2) :
    ∃ b', b.commitLeaders true false [leader] = (.committed, b') ∧
      ({ b' with storage := b'.storage.garbageCollectCertificates leader.round } :
        BFT S V).Filled U committee g acc past made n k n := by
  have hcon := h.sound.consistent
  have heven := hcon.even
  have hgc := h.gcRound
  rw [h.lastRound] at heven
  have hstored : b.Stored leader := (h.stored leader).mpr ⟨hleader, by omega⟩
  have hdue : ∀ c ∈ [leader], b.Stored c ∧ b.dag.lastCommittedRound < c.round ∧
      c.round % 2 = 0 := by
    simpa [h.lastRound] using ⟨hstored, by omega, by omega⟩
  obtain ⟨b', hres, hcommits, hcon', hcarries, hstorage, haccount, hlast⟩ :=
    commitLeaders_ok hU hcon hserves h.sound.carries hdue (List.pairwise_singleton _ _)
  have hlast := (hlast leader rfl).trans hround
  obtain ⟨hsound, hkept⟩ := Sound.garbageCollect (n := n) ⟨hcon', hcarries⟩ hlast
  have hcollected := (Storage.garbageCollectCertificates_spec hcon'.indexed hcon'.closed.above
    n).2.1
  rw [hstorage, hcon.maxGcRounds, hgc] at hcollected
  -- the leader is the only one that is committed
  cases hcommits with
  | @cons _ _ _ _ subdag l hsub hadvanced hnil =>
    cases hnil
    obtain ⟨hblock, hcommitted⟩ := h.committed_append hg hleader hround hauthor hn hsub
    refine ⟨_, hres, ?_⟩
    rw [hround]
    refine ⟨haccount.trans h.account, hsound, h.rows, h.has, fun c => ?_, hlast, ?_, hcommitted, ?_⟩
    · refine (hkept c).trans ?_
      dsimp only [commitSubdag]
      rw [hcollected]
      change b.Stored c ∧ n - g < c.round ↔ _
      rw [h.stored, and_assoc]
      refine and_congr_right fun _ => ?_
      omega
    · dsimp only [commitSubdag]
      rw [hcollected]
      omega
    · obtain ⟨blocks, hblocks, hlength, hall⟩ := h.blocks
      obtain ⟨send, hsend, -⟩ := hserves.sender
      obtain ⟨-, ⟨hnone | hnone, -⟩ | ⟨block, hquorum, happended⟩⟩ := hadvanced
      · cases hnone
      · rw [hsend] at hnone
        cases hnone
      refine ⟨blocks ++ [block], ?_, ?_, fun i x hx => ?_⟩
      · dsimp only [commitSubdag]
        rw [happended, hblocks, List.append_assoc]
      · rw [List.length_append, List.length_singleton, hlength]
        omega
      · rw [List.getElem?_append] at hx
        split at hx
        · exact hall i x hx
        · next hi =>
          obtain ⟨hzero, hx⟩ := List.getElem?_eq_some_iff.mp hx
          rw [List.length_singleton] at hzero
          obtain rfl : block = x := by simpa [Nat.lt_one_iff.mp hzero] using hx
          refine ⟨subdag, hquorum, ?_⟩
          rwa [show 2 * (i + 1) = n by omega]

end Filled

/-! ### The next certificate -/

omit [LawfulStorageService S] in
lemma updateDag_idle [Network] (allow isSyncing : Bool)
    (hprevious : b.dag.lastCommittedRound < c.round - 1 →
      ∃ com, b.ledger.getCommitteeLookbackForRound (c.round - 1) = .ok com)
    (hlookback : ∃ com, b.ledger.getCommitteeLookbackForRound c.round = .ok com)
    (hround : ∃ m, (b.dag.insert c).getCertificatesForRound c.round = some m)
    (hown : OwnLeader b.account b.ledger)
    (hidle : ∀ leader, ¬ Ready { b with dag := b.dag.insert c } c leader b.account) :
    ∃ x, OwnLeader b.account (b.withLeader x).ledger ∧ b.updateDag allow isSyncing c
      = (.ok (), ({ b with dag := b.dag.insert c } : BFT S V).withLeader x) := by
  unfold updateDag
  dsimp only
  split
  · exact ⟨b.ledger.latestLeader, hown, rfl⟩
  next hcommit =>
  split
  · exact ⟨b.ledger.latestLeader, hown, rfl⟩
  next habove =>
  rw [Nat.not_le] at habove
  obtain ⟨com, hcom⟩ := hlookback
  obtain ⟨com', hcom'⟩ := hprevious (by rwa [DAG.lastCommittedRound_insert] at habove)
  obtain ⟨m, hm⟩ := hround
  obtain ⟨x, hx, hspec⟩ := electLeader_spec { b with dag := b.dag.insert c } (c.round - 1)
  obtain ⟨hauthor, hown'⟩ := hspec hown
  refine ⟨x, hown', ?_⟩
  rw [hcom', hx, hauthor]
  dsimp only [BFT.withLeader]
  cases hleader : (b.dag.insert c).getCertificateForRoundWithAuthor (c.round - 1) b.account with
  | none => rfl
  | some leader =>
    have hlookback' : CoreLedgerService.getCommitteeLookbackForRound
        { b.ledger with latestLeader := x } c.round = .ok com := hcom
    dsimp only
    rw [hm]
    dsimp only
    rw [hlookback']
    dsimp only
    rw [if_pos]
    exact fun hsupported => hidle leader
      ⟨by omega, by omega, habove, hleader, m, com, hm, hcom, hsupported⟩

omit [LawfulStorageService S] in
/-- A leader that follows the last committed one is committed alone. -/
lemma updateDag_next [Network] (hready : Ready { b with dag := b.dag.insert c } c leader b.account)
    (hown : OwnLeader b.account b.ledger)
    (hlookback : ∃ com, b.ledger.getCommitteeLookbackForRound (c.round - 1) = .ok com)
    (hnext : leader.round = b.dag.lastCommittedRound + 2) :
    ∃ x, OwnLeader b.account (b.withLeader x).ledger ∧
      ∀ b', (({ b with dag := b.dag.insert c } : BFT S V).withLeader x).commitLeaders true false
        [leader] = (.committed, b') → b.updateDag true false c
        = (.ok (), { b' with storage := b'.storage.garbageCollectCertificates leader.round }) := by
  obtain ⟨x, hx, hres⟩ := updateDag_ready true false hready hown hlookback
  refine ⟨x, hx, fun b' hb' => ?_⟩
  have hnone : leaderRounds (b.dag.insert c).lastCommittedRound leader.round = [] := by
    rw [DAG.lastCommittedRound_insert, leaderRounds, hnext]
    exact if_neg (by omega)
  have hrounds : leaderRounds (({ b with dag := b.dag.insert c } : BFT S V).withLeader
      x).dag.lastCommittedRound leader.round = [] := hnone
  rw [hres, commitLeaderCertificate, hrounds, previousLeaders]
  dsimp only
  rw [List.reverse_singleton, hb']

namespace Filled

variable [Network] {e : Delivery S V} {vid : Fin 4}

/-- The certificate that comes next. -/
structure Next (acc : Fin 4 → Address) (made : List BatchCertificate) (n : ℕ) (vid : Fin 4)
    (c : BatchCertificate) : Prop where
  round : c.round = n + 1
  author : c.author = acc vid
  previous : ∀ id, id ∈ c.previousCertificateIds ↔ ∃ p ∈ made, p.round + 1 = c.round ∧ p.id = id

lemma received (h : b.Filled U committee g acc past made n k last)
    (hinjective : Function.Injective acc) (hlast : last ≤ n) (he : Served U committee g b e)
    (hvid : vid.val = k) (hnext : Next acc made n vid e.certificate) :
    (b.received e).Filled U committee g acc past (made ++ [e.certificate]) n (k + 1) last := by
  obtain ⟨hsound, -, hstored, hgc, -, -⟩ := h.sound.received he
  have hround := hnext.round
  have hgcRound : (b.received e).storage.gcRound = b.storage.gcRound := by
    have haccepted := he.accepted
    rcases Storage.insertCertificate_cases e.ledger e.now h.sound.consistent.indexed e.certificate
      e.transmissions e.abortedTransmissions with ⟨x, hx⟩ | ⟨missing, -, -, hx⟩
    · rw [hx] at haccepted
      cases haccepted
    · unfold BFT.received store
      rw [hx]
      rfl
  refine ⟨h.account, hsound, h.rows.add hinjective hvid hnext.round hnext.author hnext.previous,
    fun c hc => ?_, fun c => ?_, lastCommittedRound_received.trans h.lastRound,
    hgcRound.trans h.gcRound, fun c => ?_, ?_⟩
  · rcases List.mem_append.mp hc with hc | hc
    · exact h.has c hc
    · exact List.mem_singleton.mp hc ▸ he.certificate
  · rw [hstored, hgcRound, h.stored, List.mem_append, List.mem_singleton, or_and_right]
    exact or_congr_right ⟨fun heq => ⟨heq, heq ▸ hgc⟩, And.left⟩
  · refine (h.committed c).trans ?_
    rw [List.mem_append, List.mem_singleton]
    refine and_congr_left fun hplace => ⟨.inl, fun hc => hc.resolve_right ?_⟩
    rintro rfl
    omega
  · obtain ⟨blocks, hblocks, hlength, hall⟩ := h.blocks
    refine ⟨blocks, he.quiet.1.trans hblocks, hlength, fun i block hi => ?_⟩
    obtain ⟨hlt, -⟩ := List.getElem?_eq_some_iff.mp hi
    obtain ⟨subdag, hquorum, hblock⟩ := hall i block hi
    exact ⟨subdag, hquorum, hblock.append (by omega)⟩

omit [Network] in
/-- The first two certificates of a round elect the leader of the round before. -/
lemma elected (h : b.Filled U committee g acc past made n k last)
    (hinjective : Function.Injective acc) (hequal : ∀ r, 1 ≤ r → (committee r).Equal acc)
    (heven : n % 2 = 0) (hlast : last < n) (htwo : 2 ≤ k) (hleader : leader ∈ made)
    (hround : leader.round = n) (hauthor : leader.author = acc 0) :
    Elected committee b leader := by
  have hgc := h.gcRound
  have hstored : ∀ c ∈ made, last < c.round → b.Stored c := fun c hc hr =>
    (h.stored c).mpr ⟨hc, by omega⟩
  refine ⟨hstored leader hleader (by omega), hauthor.trans h.account.symm, by omega,
    by rw [h.lastRound]; omega, ({0, 1} : Finset (Fin 4)).image acc, ?_, fun a ha => ?_⟩
  · rw [(hequal (leader.round + 1) (by omega)).availability_iff hinjective]
    decide
  · obtain ⟨w, hw, rfl⟩ := Finset.mem_image.mp ha
    have hlt : w.val < k := by
      rcases Finset.mem_insert.mp hw with rfl | hw
      · omega
      · rw [Finset.mem_singleton.mp hw]
        exact htwo
    obtain ⟨c, hc, hcr, hca, -⟩ := h.rows.one (n + 1) w ⟨by omega, .inr ⟨rfl, hlt⟩⟩
    exact ⟨c, hstored c hc (by omega), by omega, hca,
      (h.rows.previous c hc leader.id).mpr ⟨leader, hleader, by omega, rfl⟩⟩

omit [Network] in
lemma two_le_of_elected (h : b.Filled U committee g acc past made n k last)
    (hinjective : Function.Injective acc) (hequal : ∀ r, 1 ≤ r → (committee r).Equal acc)
    (hk : k ≤ 4) (he : Elected committee b leader) (hround : leader.round = n) : 2 ≤ k := by
  obtain ⟨authors, havail, hall⟩ := he.backed
  have hsubset : authors ⊆ (Finset.univ.filter fun w : Fin 4 => w.val < k).image acc := by
    intro a ha
    obtain ⟨c, hc, hcr, hca, -⟩ := hall a ha
    obtain ⟨w, hw, -, hle | ⟨-, hlt⟩⟩ := h.rows.only c ((h.stored c).mp hc).1
    · omega
    · exact Finset.mem_image.mpr
        ⟨w, Finset.mem_filter.mpr ⟨Finset.mem_univ w, hlt⟩, hw.symm.trans hca⟩
  have htwo := ((hequal (leader.round + 1) (by omega)).availability_iff hinjective).mp
    (Committee.availability_mono _ hsubset havail)
  by_contra hlt
  have hcard : ∀ j < 2, (Finset.univ.filter fun w : Fin 4 => w.val < j).card < 2 := by decide
  exact absurd (hcard k (by omega)) (by omega)

/-- **The next certificate**, stored and sent: the call succeeds, and the leader of the round
before is committed when it is due. -/
theorem updateDag [LawfulLedger V] (hU : U.Regular) (hg : 0 < g)
    (h : b.Filled U committee g acc past made n k (lastFilled n k))
    (hinjective : Function.Injective acc) (hequal : ∀ r, 1 ≤ r → (committee r).Equal acc)
    (he : Served U committee g b e) (hvid : vid.val = k) (hnext : Next acc made n vid e.certificate)
    (hlookback : ∀ r, 1 ≤ r → r ≤ n + 1 →
      ∃ com, e.ledger.getCommitteeLookbackForRound r = .ok com) :
    ∃ b', (b.store e).updateDag true false e.certificate = (.ok (), b') ∧
      b'.Filled U committee g acc past (made ++ [e.certificate]) n (k + 1)
        (lastFilled n (k + 1)) := by
  have hround := hnext.round
  have hk := vid.isLt
  have hlast := lastFilled_le n k
  have hins := h.received hinjective hlast he hvid hnext
  have hcon := hins.sound.consistent
  have hstored : (b.received e).Stored e.certificate :=
    (hins.stored _).mpr ⟨by simp, by rw [hins.gcRound]; omega⟩
  have hlastRound : (b.store e).dag.lastCommittedRound = lastFilled n k := h.lastRound
  by_cases hdue : n % 2 = 0 ∧ lastFilled n k < n ∧ k = 1
  · obtain ⟨heven, habove, rfl⟩ := hdue
    have hn : n = lastFilled n 1 + 2 := by
      unfold lastFilled at habove ⊢
      rw [if_neg (by omega)] at habove ⊢
      omega
    obtain ⟨leader, hleader, hlround, hlauthor, -⟩ :=
      hins.rows.one n 0 ⟨by omega, .inl (Nat.le_refl n)⟩
    have helected := hins.elected hinjective hequal heven habove (Nat.le_refl 2) hleader hlround
      hlauthor
    have hready := hcon.ready he.committee (hlookback _ (by omega) (by omega)) hstored helected
      (by omega)
    obtain ⟨x, hx, hres⟩ := updateDag_next (b := b.store e) hready hcon.own
      (hlookback _ (by omega) (by omega)) (by rw [hlastRound]; omega)
    obtain ⟨b', hb', hfilled⟩ := (hins.withLeader hx).commit hU hg
      (he.serves.congr rfl rfl List.prefix_rfl he.serves.running) hleader hlround hlauthor hn
    refine ⟨_, hres b' hb', ?_⟩
    rwa [show lastFilled n (1 + 1) = n from if_pos ⟨heven, Nat.le_refl 2⟩]
  · have hsame : lastFilled n (k + 1) = lastFilled n k := by
      unfold lastFilled at hdue ⊢
      split at hdue <;> split <;> omega
    obtain ⟨x, hx, hres⟩ := updateDag_idle (b := b.store e) (c := e.certificate) true false
      (fun habove => hlookback _ (by omega) (by omega)) (hlookback _ (by omega) (by omega))
      (hcon.exists_round (by rw [hins.lastRound]; omega) hstored) hcon.own fun leader hready => by
        obtain ⟨helected, hlround⟩ := hcon.elected he.committee hready
        have htwo := hins.two_le_of_elected hinjective hequal (by omega) helected (by omega)
        have habove := helected.above
        have heven := helected.even
        rw [hins.lastRound] at habove
        refine hdue ⟨by omega, by omega, ?_⟩
        by_contra hk
        rw [show lastFilled n k = n from if_pos ⟨by omega, by omega⟩] at habove
        omega
    refine ⟨_, hres, ?_⟩
    rw [hsame]
    exact hins.withLeader hx

end Filled

end BFT

end AmareleoChain
