import AmareleoChain.BlockLocators
import AmareleoChain.Ledger

/-!
Block locators that are consistent, and the block locators of a node.

The check compares the recent blocks of two locators with each other, and their checkpoints.
A height that is recent for the one and a checkpoint for the other is a checkpoint of both, so
no disagreement is missed.
-/

namespace AmareleoChain

namespace BlockLocators

variable {H : Type}

/-- Well-formed block locators. -/
def WellFormed (b : BlockLocators H) : Prop := ∃ h, WellFormedAt h b.recents b.checkpoints

lemma Agree.symm {m n : IndexMap UInt32 H} (h : Agree m n) : Agree n m :=
  fun height x y hx hy => (h height y x hy hx).symm

section
variable {b : BlockLocators H} {n : UInt32} {x : H}

lemma getHash_eq_some (hagree : Agree b.recents b.checkpoints) :
    b.getHash n = some x ↔ b.recents.get? n = some x ∨ b.checkpoints.get? n = some x := by
  unfold getHash
  cases hrecent : b.recents.get? n with
  | none => simp
  | some y =>
    rw [Option.some_or]
    refine ⟨.inl, fun h => h.elim id fun hx => ?_⟩
    rw [hagree n y x hrecent hx]

lemma getHash_isSome (hn : n ∈ b.recents.keys ∨ n ∈ b.checkpoints.keys) :
    (b.getHash n).isSome := by
  rw [getHash, Option.isSome_or, Bool.or_eq_true]
  exact hn.imp IndexMap.get?_isSome.mpr IndexMap.get?_isSome.mpr

lemma WellFormed.checkpoint (hb : b.WellFormed) (hn : checkpointInterval.toNat ∣ n.toNat)
    (hx : b.getHash n = some x) : b.checkpoints.get? n = some x := by
  obtain ⟨h, hw⟩ := hb
  rcases (getHash_eq_some hw.agree).mp hx with hrecent | hcheckpoint
  · have hle : n ≤ h := ((hw.mem_recents n).mp (IndexMap.get?_isSome.mp (by rw [hrecent]; rfl))).2
    obtain ⟨y, hy⟩ := Option.isSome_iff_exists.mp
      (IndexMap.get?_isSome.mpr ((hw.mem_checkpoints n).mpr ⟨hn, hle⟩))
    rw [hw.agree n x y hrecent hy, hy]
  · exact hcheckpoint

lemma WellFormed.dvd_of_checkpoint (hb : b.WellFormed) (hx : b.checkpoints.get? n = some x) :
    checkpointInterval.toNat ∣ n.toNat := by
  obtain ⟨h, hw⟩ := hb
  exact ((hw.mem_checkpoints n).mp (IndexMap.get?_isSome.mp (by rw [hx]; rfl))).1

lemma WellFormedAt.latestLocatorHeight {h : UInt32}
    (hw : WellFormedAt h b.recents b.checkpoints) :
    b.latestLocatorHeight = h := by
  have hmem : h ∈ b.recents.keys := by
    rw [hw.mem_recents]
    exact ⟨by rw [numRecentBlocks]; omega, UInt32.le_refl h⟩
  rcases List.eq_nil_or_concat b.recents.keys with hnil | ⟨heights, last, hkeys⟩
  · rw [hnil] at hmem
    cases hmem
  rw [List.concat_eq_append] at hkeys
  have hlast : last ≤ h := ((hw.mem_recents last).mp (by rw [hkeys]; simp)).2
  have hsorted := hw.recents_sorted
  rw [hkeys, List.pairwise_append] at hsorted
  rw [hkeys, List.mem_append, List.mem_singleton] at hmem
  rw [BlockLocators.latestLocatorHeight, hkeys, List.getLast?_concat, Option.getD_some]
  rcases hmem with hearlier | rfl
  · have hlt := hsorted.2.2 h hearlier last (List.mem_singleton_self last)
    exact absurd hlast (UInt32.not_le.mpr hlt)
  · rfl

end

/-! ### The checks -/

variable [DecidableEq H]

lemma new_ok {b : BlockLocators H} {recents checkpoints : IndexMap UInt32 H} :
    new recents checkpoints = .ok b ↔
      (∃ h, WellFormedAt h recents checkpoints) ∧ b = ⟨recents, checkpoints⟩ := by
  rw [← checkBlockLocators_ok, new]
  split
  · next e he => simp [he]
  · next hok => simp [hok, eq_comm]

lemma checkHashes_ok {mismatch : UInt32 → String} {old : IndexMap UInt32 H}
    {entries : List (UInt32 × H)} :
    checkHashes mismatch old entries = .ok () ↔
      ∀ e ∈ entries, ∀ x, old.get? e.1 = some x → x = e.2 := by
  induction entries with
  | nil => simp [checkHashes]
  | cons e entries ih =>
    obtain ⟨height, hash⟩ := e
    rw [checkHashes, List.forall_mem_cons]
    cases hold : old.get? height with
    | none => simpa using ih
    | some oldHash =>
      dsimp only
      split
      · next hne =>
        exact iff_of_false (bail_ne_ok _ _) fun h => hne (h.1 oldHash rfl)
      · next heq => simpa [not_not.mp heq] using ih

lemma not_panics_checkHashes {mismatch : UInt32 → String} {old : IndexMap UInt32 H}
    {entries : List (UInt32 × H)} : ¬ Panics (checkHashes mismatch old entries) := by
  induction entries with
  | nil => exact not_panics_ok ()
  | cons e entries ih =>
    rw [checkHashes]
    split
    · split
      · exact not_panics_bail _
      · exact ih
    · exact ih

lemma checkHashes_entries {mismatch : UInt32 → String} {old new : IndexMap UInt32 H} :
    checkHashes mismatch old new.entries = .ok () ↔ Agree old new := by
  rw [checkHashes_ok]
  constructor
  · intro h height x y hx hy
    exact h (height, y) (IndexMap.get?_eq_some_iff.mp hy) x hx
  · intro h e he x hx
    exact h e.1 x e.2 hx (IndexMap.get?_eq_some_iff.mpr he)

/-- **What is checked**: that the recent blocks agree, and that the checkpoints do. -/
theorem checkConsistentBlockLocators_ok {a b : BlockLocators H} :
    checkConsistentBlockLocators a b = .ok () ↔
      Agree a.recents b.recents ∧ Agree a.checkpoints b.checkpoints := by
  unfold checkConsistentBlockLocators
  rw [bind_eq_ok]
  constructor
  · rintro ⟨_, hrecents, hcheckpoints⟩
    exact ⟨checkHashes_entries.mp hrecents, checkHashes_entries.mp hcheckpoints⟩
  · rintro ⟨hrecents, hcheckpoints⟩
    exact ⟨(), checkHashes_entries.mpr hrecents, checkHashes_entries.mpr hcheckpoints⟩

lemma not_panics_checkConsistentBlockLocators {a b : BlockLocators H} :
    ¬ Panics (checkConsistentBlockLocators a b) :=
  not_panics_bind not_panics_checkHashes fun _ _ => not_panics_checkHashes

section
variable {a b : BlockLocators H}

/-- **Consistency is complete**: it holds when the hashes are equal at every height known to
both locators. -/
theorem checkConsistentBlockLocators_iff (ha : a.WellFormed) (hb : b.WellFormed) :
    checkConsistentBlockLocators a b = .ok () ↔
      ∀ n x y, a.getHash n = some x → b.getHash n = some y → x = y := by
  have hagree : Agree a.recents a.checkpoints := ha.elim fun _ h => h.agree
  have hagree' : Agree b.recents b.checkpoints := hb.elim fun _ h => h.agree
  rw [checkConsistentBlockLocators_ok]
  constructor
  · rintro ⟨hrecents, hcheckpoints⟩ n x y hx hy
    rcases (getHash_eq_some hagree).mp hx with hrecent | hcheckpoint
    · rcases (getHash_eq_some hagree').mp hy with hrecent' | hcheckpoint'
      · exact hrecents n x y hrecent hrecent'
      · have hn := hb.dvd_of_checkpoint hcheckpoint'
        exact hcheckpoints n x y (ha.checkpoint hn hx) hcheckpoint'
    · have hn := ha.dvd_of_checkpoint hcheckpoint
      exact hcheckpoints n x y hcheckpoint (hb.checkpoint hn hy)
  · intro h
    refine ⟨fun n x y hx hy => ?_, fun n x y hx hy => ?_⟩
    · exact h n x y ((getHash_eq_some hagree).mpr (.inl hx))
        ((getHash_eq_some hagree').mpr (.inl hy))
    · exact h n x y ((getHash_eq_some hagree).mpr (.inr hx))
        ((getHash_eq_some hagree').mpr (.inr hy))

/-- Consistency is symmetric, for any two locators. -/
lemma checkConsistentBlockLocators_comm :
    checkConsistentBlockLocators a b = .ok () ↔ checkConsistentBlockLocators b a = .ok () := by
  rw [checkConsistentBlockLocators_ok, checkConsistentBlockLocators_ok]
  exact ⟨fun h => ⟨h.1.symm, h.2.symm⟩, fun h => ⟨h.1.symm, h.2.symm⟩⟩

end

end BlockLocators

/-! ### The block locators of a node -/

/-- `dyn LedgerService<N>`, by its latest height and the hashes of its blocks. -/
structure LedgerService (H : Type) where
  latestBlockHeight : UInt32
  getBlockHash : UInt32 → Except String H

namespace LedgerService

variable {H : Type}

/-- The ledger with the blocks of a chain, by their hashes, up to a height. -/
def ofChain (chain : List H) (h : UInt32) : LedgerService H where
  latestBlockHeight := h
  getBlockHash n :=
    match (chain.take (h.toNat + 1))[n.toNat]? with
    | some hash => .ok hash
    | none => .error s!"Missing block {n}"

end LedgerService

namespace Sync

variable {H : Type}

/-- `(first..=last).step_by(step)`, for a range that is not empty. -/
def heightsFrom (first last : UInt32) (step : ℕ) : List UInt32 :=
  (List.range' first.toNat ((last.toNat - first.toNat) / step + 1) step).map UInt32.ofNat

/-- The loop that retrieves the block hashes at some heights. -/
def insertBlockHashes (ledger : LedgerService H) :
    IndexMap UInt32 H → List UInt32 → Except Failure (IndexMap UInt32 H)
  | hashes, [] => .ok hashes
  | hashes, height :: heights =>
    match ledger.getBlockHash height with
    | .error e => bail e
    | .ok hash => insertBlockHashes ledger (hashes.insert height hash) heights

lemma toNat_heightsFrom {first last : UInt32} {step : ℕ} (hle : first ≤ last) :
    (heightsFrom first last step).map UInt32.toNat
      = List.range' first.toNat ((last.toNat - first.toNat) / step + 1) step := by
  have hword : ∀ n ∈ List.range' first.toNat ((last.toNat - first.toNat) / step + 1) step,
      (UInt32.ofNat n).toNat = n := by
    intro n hn
    obtain ⟨i, hi, rfl⟩ := List.mem_range'.mp hn
    have hmul := Nat.mul_le_of_le_div step i _ (Nat.le_of_lt_succ hi)
    have hlast := last.toNat_lt
    rw [UInt32.le_iff_toNat_le] at hle
    rw [UInt32.toNat_ofNat', Nat.mod_eq_of_lt]
    rw [Nat.mul_comm step i]
    omega
  rw [heightsFrom, List.map_map]
  exact (List.map_congr_left hword).trans (List.map_id _)

lemma heightsFrom_spec {first last : UInt32} {step : ℕ} (hle : first ≤ last) (hstep : 0 < step) :
    (heightsFrom first last step).Pairwise (· < ·) ∧
      ∀ n, n ∈ heightsFrom first last step ↔
        first ≤ n ∧ n ≤ last ∧ step ∣ n.toNat - first.toNat := by
  have hmem : ∀ n, n ∈ List.range' first.toNat ((last.toNat - first.toNat) / step + 1) step ↔
      first.toNat ≤ n ∧ n ≤ last.toNat ∧ step ∣ n - first.toNat := by
    intro n
    rw [UInt32.le_iff_toNat_le] at hle
    rw [List.mem_range']
    constructor
    · rintro ⟨i, hi, rfl⟩
      have hmul := Nat.mul_le_of_le_div step i _ (Nat.le_of_lt_succ hi)
      rw [Nat.mul_comm i step] at hmul
      refine ⟨Nat.le_add_right _ _, by omega, ?_⟩
      rw [Nat.add_sub_cancel_left]
      exact Nat.dvd_mul_right _ _
    · rintro ⟨hlow, hhigh, i, hi⟩
      refine ⟨i, Nat.lt_succ_of_le ((Nat.le_div_iff_mul_le hstep).mpr ?_), by omega⟩
      rw [Nat.mul_comm]
      omega
  have hspec := (BlockLocators.map_toNat_eq_range'_iff _ hstep fun n hn =>
    ((hmem n).mp hn).2.1.trans_lt last.toNat_lt).mp (toNat_heightsFrom hle)
  simpa only [hmem, UInt32.le_iff_toNat_le] using hspec

lemma insertBlockHashes_ok {ledger : LedgerService H} {hash : UInt32 → H} {heights : List UInt32}
    (hashes : IndexMap UInt32 H) (hget : ∀ n ∈ heights, ledger.getBlockHash n = .ok (hash n))
    (hnodup : (hashes.keys ++ heights).Nodup) :
    ∃ filled : IndexMap UInt32 H, insertBlockHashes ledger hashes heights = .ok filled ∧
      filled.entries = hashes.entries ++ heights.map fun n => (n, hash n) := by
  induction heights generalizing hashes with
  | nil => exact ⟨hashes, rfl, by simp⟩
  | cons n heights ih =>
    have hfresh : n ∉ hashes.keys := fun h =>
      (List.nodup_append.mp hnodup).2.2 n h n (.head _) rfl
    rw [List.forall_mem_cons] at hget
    rw [insertBlockHashes, hget.1]
    obtain ⟨filled, hok, hentries⟩ := ih (hashes.insert n (hash n)) hget.2 (by
      rw [IndexMap.keys_insert, if_neg hfresh, List.append_assoc]
      exact hnodup)
    refine ⟨filled, hok, ?_⟩
    rw [hentries, IndexMap.entries_insert hfresh, List.append_assoc]
    rfl

variable {chain : List H} {h : UInt32}

lemma getBlockHash_ofChain (hh : h.toNat < chain.length) {n : UInt32} (hn : n ≤ h) :
    ∃ x, chain[n.toNat]? = some x ∧ (LedgerService.ofChain chain h).getBlockHash n = .ok x := by
  have hle := UInt32.le_iff_toNat_le.mp hn
  have hlt : n.toNat < chain.length := by omega
  refine ⟨chain[n.toNat], List.getElem?_eq_getElem hlt, ?_⟩
  dsimp only [LedgerService.ofChain]
  rw [List.getElem?_take_of_lt (by omega), List.getElem?_eq_getElem hlt]

lemma insertBlockHashes_ofChain (hchain : chain.Nodup) (hh : h.toNat < chain.length)
    {heights : List UInt32} (hnodup : heights.Nodup) (hle : ∀ n ∈ heights, n ≤ h) :
    ∃ m, insertBlockHashes (LedgerService.ofChain chain h) ∅ heights = .ok m ∧
      m.keys = heights ∧ m.values.Nodup ∧
      ∀ n x, m.get? n = some x → chain[n.toNat]? = some x := by
  have hfirst : 0 < chain.length := by omega
  -- the hashes of the chain, as a function of the height
  let hash : UInt32 → H := fun n => chain.getD n.toNat chain[0]
  have hhash : ∀ n ∈ heights, chain[n.toNat]? = some (hash n) ∧
      (LedgerService.ofChain chain h).getBlockHash n = .ok (hash n) := by
    intro n hn
    obtain ⟨x, hx, hget⟩ := getBlockHash_ofChain hh (hle n hn)
    have hxn : hash n = x := by simp only [hash, List.getD_eq_getElem?_getD, hx, Option.getD_some]
    rw [hxn]
    exact ⟨hx, hget⟩
  have hinj : ∀ n ∈ heights, ∀ k ∈ heights, hash n = hash k → n = k := by
    intro n hn k hk heq
    have hsame := (hhash n hn).1
    rw [heq, ← (hhash k hk).1] at hsame
    have hlt := UInt32.le_iff_toNat_le.mp (hle n hn)
    exact UInt32.toNat_inj.mp ((List.getElem?_inj (by omega) hchain).mp hsame)
  obtain ⟨m, hok, hentries⟩ := insertBlockHashes_ok ∅ (fun n hn => (hhash n hn).2) hnodup
  rw [IndexMap.entries_empty, List.nil_append] at hentries
  refine ⟨m, hok, ?_, ?_, fun n x hx => ?_⟩
  · rw [IndexMap.keys, hentries, List.map_map]
    exact List.map_id _
  · rw [IndexMap.values, hentries, List.map_map]
    exact hnodup.map_on hinj
  · rw [IndexMap.get?_eq_some_iff, hentries, List.mem_map] at hx
    obtain ⟨k, hk, hkx⟩ := hx
    cases hkx
    exact (hhash n hk).1

variable [DecidableEq H]

def getBlockLocators (ledger : LedgerService H) : Except Failure (BlockLocators H) := do
  let latestHeight := ledger.latestBlockHeight
  let recents ← insertBlockHashes ledger ∅
    (heightsFrom (saturatingSub latestHeight (UInt32.ofNat (numRecentBlocks - 1))) latestHeight 1)
  let checkpoints ← insertBlockHashes ledger ∅
    (heightsFrom 0 latestHeight checkpointInterval.toNat)
  BlockLocators.new recents checkpoints

/-- **The block locators of a node** on a chain of distinct hashes: they are well-formed, and
their hashes are those of the chain. -/
theorem getBlockLocators_ofChain (hchain : chain.Nodup) (hh : h.toNat < chain.length)
    (hmax : h < u32Max) :
    ∃ b, getBlockLocators (LedgerService.ofChain chain h) = .ok b ∧
      BlockLocators.WellFormedAt h b.recents b.checkpoints ∧
      ∀ n x, b.getHash n = some x → chain[n.toNat]? = some x := by
  have hrange : saturatingSub h (UInt32.ofNat (numRecentBlocks - 1)) ≤ h := by
    rw [UInt32.le_iff_toNat_le, toNat_saturatingSub]
    omega
  have hzero : (0 : UInt32) ≤ h := UInt32.le_iff_toNat_le.mpr (Nat.zero_le h.toNat)
  have hinterval : 0 < checkpointInterval.toNat := by decide
  obtain ⟨hsorted, hmem⟩ := heightsFrom_spec hrange Nat.one_pos
  obtain ⟨hsorted', hmem'⟩ := heightsFrom_spec hzero hinterval
  obtain ⟨recents, hrecents, hkeys, hvalues, hhash⟩ :=
    insertBlockHashes_ofChain hchain hh hsorted.nodup fun n hn => ((hmem n).mp hn).2.1
  obtain ⟨checkpoints, hcheckpoints, hkeys', hvalues', hhash'⟩ :=
    insertBlockHashes_ofChain hchain hh hsorted'.nodup fun n hn => ((hmem' n).mp hn).2.1
  have hw : BlockLocators.WellFormedAt h recents checkpoints :=
    { height_lt := hmax
      recents_sorted := by rw [hkeys]; exact hsorted
      mem_recents := fun n => by
        have hnum : (UInt32.ofNat (numRecentBlocks - 1)).toNat = numRecentBlocks - 1 := rfl
        rw [hkeys, hmem n, UInt32.le_iff_toNat_le, toNat_saturatingSub, hnum, numRecentBlocks]
        exact and_congr (by omega) (and_iff_left (Nat.one_dvd _))
      checkpoints_sorted := by rw [hkeys']; exact hsorted'
      mem_checkpoints := fun n => by
        rw [hkeys', hmem' n, and_comm (a := n ≤ h), UInt32.toNat_zero, Nat.sub_zero]
        exact and_iff_right (UInt32.le_iff_toNat_le.mpr (Nat.zero_le n.toNat))
      recents_nodup := hvalues
      checkpoints_nodup := hvalues'
      agree := fun n x y hx hy => Option.some_inj.mp ((hhash n x hx).symm.trans (hhash' n y hy)) }
  refine ⟨⟨recents, checkpoints⟩, ?_, hw, fun n x hx => ?_⟩
  · exact bind_eq_ok.mpr ⟨recents, hrecents, bind_eq_ok.mpr ⟨checkpoints, hcheckpoints,
      BlockLocators.new_ok.mpr ⟨⟨h, hw⟩, rfl⟩⟩⟩
  · exact ((BlockLocators.getHash_eq_some hw.agree).mp hx).elim (hhash n x) (hhash' n x)

end Sync

/-! ### Consistency of honest locators -/

section
variable {H : Type} [DecidableEq H]

open BlockLocators Sync

/-- **Locator consistency** is symmetric and complete, the locators that nodes make of one chain
are consistent, and those of chains that differ at a height known to both are not. -/
theorem locators_consistent :
    (∀ a b : BlockLocators H, a.WellFormed → b.WellFormed →
      (checkConsistentBlockLocators a b = .ok () ↔ checkConsistentBlockLocators b a = .ok ()) ∧
      (checkConsistentBlockLocators a b = .ok () ↔
        ∀ n x y, a.getHash n = some x → b.getHash n = some y → x = y)) ∧
    (∀ chain : List H, chain.Nodup → ∀ h₁ h₂ : UInt32, h₁ < u32Max → h₂ < u32Max →
      h₁.toNat < chain.length → h₂.toNat < chain.length →
      ∃ a b, getBlockLocators (LedgerService.ofChain chain h₁) = .ok a ∧
        getBlockLocators (LedgerService.ofChain chain h₂) = .ok b ∧
        BlockLocators.new a.recents a.checkpoints = .ok a ∧ a.latestLocatorHeight = h₁ ∧
        BlockLocators.new b.recents b.checkpoints = .ok b ∧ b.latestLocatorHeight = h₂ ∧
        checkConsistentBlockLocators a b = .ok ()) ∧
    (∀ chain₁ chain₂ : List H, chain₁.Nodup → chain₂.Nodup → ∀ h₁ h₂ : UInt32,
      h₁ < u32Max → h₂ < u32Max → h₁.toNat < chain₁.length → h₂.toNat < chain₂.length →
      ∀ a b, getBlockLocators (LedgerService.ofChain chain₁ h₁) = .ok a →
        getBlockLocators (LedgerService.ofChain chain₂ h₂) = .ok b →
        ∀ n, (a.getHash n).isSome → (b.getHash n).isSome →
          chain₁[n.toNat]? ≠ chain₂[n.toNat]? →
          ∃ e, checkConsistentBlockLocators a b = .error (.error e)) := by
  refine ⟨fun a b ha hb => ⟨checkConsistentBlockLocators_comm,
    checkConsistentBlockLocators_iff ha hb⟩, ?_, ?_⟩
  · intro chain hchain h₁ h₂ hmax₁ hmax₂ hlt₁ hlt₂
    obtain ⟨a, ha, hwa, hhash⟩ := getBlockLocators_ofChain hchain hlt₁ hmax₁
    obtain ⟨b, hb, hwb, hhash'⟩ := getBlockLocators_ofChain hchain hlt₂ hmax₂
    refine ⟨a, b, ha, hb, new_ok.mpr ⟨⟨h₁, hwa⟩, rfl⟩, hwa.latestLocatorHeight,
      new_ok.mpr ⟨⟨h₂, hwb⟩, rfl⟩, hwb.latestLocatorHeight, ?_⟩
    rw [checkConsistentBlockLocators_iff ⟨h₁, hwa⟩ ⟨h₂, hwb⟩]
    intro n x y hx hy
    exact Option.some_inj.mp ((hhash n x hx).symm.trans (hhash' n y hy))
  · intro chain₁ chain₂ hchain₁ hchain₂ h₁ h₂ hmax₁ hmax₂ hlt₁ hlt₂ a b ha hb n hka hkb hne
    obtain ⟨a', ha', hwa, hhash⟩ := getBlockLocators_ofChain hchain₁ hlt₁ hmax₁
    obtain ⟨b', hb', hwb, hhash'⟩ := getBlockLocators_ofChain hchain₂ hlt₂ hmax₂
    obtain rfl : a = a' := Except.ok.inj (ha.symm.trans ha')
    obtain rfl : b = b' := Except.ok.inj (hb.symm.trans hb')
    obtain ⟨x, hx⟩ := Option.isSome_iff_exists.mp hka
    obtain ⟨y, hy⟩ := Option.isSome_iff_exists.mp hkb
    have hfails : checkConsistentBlockLocators a b ≠ .ok () := fun hok => by
      rw [checkConsistentBlockLocators_iff ⟨h₁, hwa⟩ ⟨h₂, hwb⟩] at hok
      exact hne ((hhash n x hx).trans (hok n x y hx hy ▸ (hhash' n y hy).symm))
    exact error_of_not_panics not_panics_checkConsistentBlockLocators hfails

/-- A chain of hashes. -/
def mainChain : List ℕ := List.range 10300

/-- A chain that leaves it at the height 10000. -/
def forkChain : List ℕ := List.range 10000 ++ List.range' 20000 300

/-- The height 10000 is recent for a node at the height 10050, and only a checkpoint for one at the
height 10200. -/
theorem locators_consistent_example :
    (∃ a b : BlockLocators ℕ, getBlockLocators (LedgerService.ofChain mainChain 10050) = .ok a ∧
      getBlockLocators (LedgerService.ofChain mainChain 10200) = .ok b ∧
      10000 ∈ a.recents.keys ∧ 10000 ∉ b.recents.keys ∧ 10000 ∈ b.checkpoints.keys ∧
      checkConsistentBlockLocators a b = .ok () ∧ checkConsistentBlockLocators b a = .ok ()) ∧
    ∃ a b : BlockLocators ℕ, getBlockLocators (LedgerService.ofChain mainChain 10050) = .ok a ∧
      getBlockLocators (LedgerService.ofChain forkChain 10200) = .ok b ∧
      ∃ e, checkConsistentBlockLocators a b = .error (.error e) := by
  have hmain : mainChain.Nodup := List.nodup_range
  have hmainLength : mainChain.length = 10300 := List.length_range
  have hforkLength : forkChain.length = 10300 := by
    rw [forkChain, List.length_append, List.length_range, List.length_range']
  have hfork : forkChain.Nodup := by
    refine List.nodup_range.append List.nodup_range' fun n hlow hhigh => ?_
    have hlt := List.mem_range.mp hlow
    have hle := (List.mem_range'_1.mp hhigh).1
    omega
  have hdiffer : mainChain[(10000 : UInt32).toNat]? ≠ forkChain[(10000 : UInt32).toNat]? := by
    have hheight : (10000 : UInt32).toNat = 10000 := rfl
    rw [hheight, mainChain, forkChain, List.getElem?_range (by omega),
      List.getElem?_append_right (by rw [List.length_range]), List.length_range,
      List.getElem?_range' (by omega)]
    simp
  -- what the nodes know of the height
  have hknown : ∀ (c : BlockLocators ℕ) (h : UInt32),
      BlockLocators.new c.recents c.checkpoints = .ok c → c.latestLocatorHeight = h →
      ((10000 : UInt32) ∈ c.recents.keys ↔ h.toNat + 1 - 100 ≤ 10000 ∧ 10000 ≤ h) ∧
      ((10000 : UInt32) ∈ c.checkpoints.keys ↔ 10000 ≤ h) := by
    intro c h hnew hheight
    obtain ⟨⟨h', hw⟩, -⟩ := new_ok.mp hnew
    obtain rfl : h' = h := hw.latestLocatorHeight.symm.trans hheight
    exact ⟨hw.mem_recents 10000, (hw.mem_checkpoints 10000).trans (and_iff_right (by decide))⟩
  have hwithin : ∀ chain : List ℕ, chain.length = 10300 → ∀ h : UInt32, h ≤ 10200 →
      h.toNat < chain.length := by
    intro chain hlength h hle
    have := UInt32.le_iff_toNat_le.mp hle
    have hheight : (10200 : UInt32).toNat = 10200 := rfl
    omega
  obtain ⟨a, b, ha, hb, hnew, hheight, hnew', hheight', hok⟩ :=
    (locators_consistent (H := ℕ)).2.1 mainChain hmain 10050 10200 (by decide) (by decide)
      (hwithin _ hmainLength _ (by decide)) (hwithin _ hmainLength _ (by decide))
  obtain ⟨c, _, hc, -, hnewFork, hheightFork, -⟩ :=
    (locators_consistent (H := ℕ)).2.1 forkChain hfork 10200 10200 (by decide) (by decide)
      (hwithin _ hforkLength _ (by decide)) (hwithin _ hforkLength _ (by decide))
  have hwell := (locators_consistent (H := ℕ)).1 a b (new_ok.mp hnew).1 (new_ok.mp hnew').1
  obtain ⟨hrecent, hcheckpoint⟩ := hknown a 10050 hnew hheight
  obtain ⟨hrecent', hcheckpoint'⟩ := hknown b 10200 hnew' hheight'
  obtain ⟨-, hcheckpointFork⟩ := hknown c 10200 hnewFork hheightFork
  refine ⟨⟨a, b, ha, hb, hrecent.mpr (by decide), fun h => absurd (hrecent'.mp h) (by decide),
    hcheckpoint'.mpr (by decide), hok, hwell.1.mp hok⟩, a, c, ha, hc, ?_⟩
  exact (locators_consistent (H := ℕ)).2.2 mainChain forkChain hmain hfork 10050 10200 (by decide)
    (by decide) (hwithin _ hmainLength _ (by decide)) (hwithin _ hforkLength _ (by decide)) a c
    ha hc 10000 (getHash_isSome (.inl (hrecent.mpr (by decide))))
    (getHash_isSome (.inr (hcheckpointFork.mpr (by decide)))) hdiffer

end

end AmareleoChain
