import AmareleoChain.Library.Codec
import AmareleoChain.Library.Collections
import AmareleoChain.Library.Failure
import Mathlib.Data.List.Sort

/-!
Block locators: the hashes of the recent blocks of a node and of its block checkpoints, by
height, as they are sent to its peers.

The checks run on maps that a peer made up. Their calls of `unwrap` and their subtractions fail
on maps that are not well-formed, so what keeps them from panicking are the checks before.
-/

namespace AmareleoChain

def numRecentBlocks : ℕ := 100

def recentInterval : UInt32 := 1

def checkpointInterval : UInt32 := 10000

/-- `BlockLocators<N>`, by the block hashes of the network. -/
structure BlockLocators (H : Type) where
  recents : IndexMap UInt32 H
  checkpoints : IndexMap UInt32 H
  deriving DecidableEq

namespace BlockLocators

variable {H : Type} [DecidableEq H]

/-- Two maps agree on every height they share. -/
def Agree (m n : IndexMap UInt32 H) : Prop :=
  ∀ height x y, m.get? height = some x → n.get? height = some y → x = y

/-- Well-formed block locators of a node with blocks up to the height `h`. -/
structure WellFormedAt (h : UInt32) (recents checkpoints : IndexMap UInt32 H) : Prop where
  height_lt : h < u32Max
  recents_sorted : recents.keys.Pairwise (· < ·)
  mem_recents : ∀ n, n ∈ recents.keys ↔ h.toNat + 1 - numRecentBlocks ≤ n.toNat ∧ n ≤ h
  checkpoints_sorted : checkpoints.keys.Pairwise (· < ·)
  mem_checkpoints : ∀ n, n ∈ checkpoints.keys ↔ checkpointInterval.toNat ∣ n.toNat ∧ n ≤ h
  recents_nodup : recents.values.Nodup
  checkpoints_nodup : checkpoints.values.Nodup
  agree : Agree recents checkpoints

def hasDuplicates (hashes : List H) : Bool := !decide hashes.Nodup

/-- The loop over the heights of a map: its first height passes `refused`, and each of the others
is `interval` above the one before. The errors are for the first height, for a height that is
not above the last one, and for a wrong distance. -/
def checkHeights (refused : UInt32 → Bool) (interval : UInt32) (first order distance : String) :
    ℕ → UInt32 → List UInt32 → Except Failure UInt32
  | _, lastHeight, [] => .ok lastHeight
  | i, lastHeight, currentHeight :: heights =>
    if i = 0 ∧ refused currentHeight then bail first
    else if i > 0 ∧ currentHeight ≤ lastHeight then bail order
    else if i > 0 then
      match checkedSub currentHeight lastHeight with
      | .error e => .error e
      | .ok d =>
        if d ≠ interval then bail distance
        else checkHeights refused interval first order distance (i + 1) currentHeight heights
    else checkHeights refused interval first order distance (i + 1) currentHeight heights

def checkRecentBlocks (recents : IndexMap UInt32 H) : Except Failure UInt32 :=
  if recents.entries.isEmpty then bail "There must be at least 1 recent block"
  else if recents.len > numRecentBlocks then
    bail s!"There can be at most {numRecentBlocks} blocks in the map"
  else
    match checkHeights (fun height => recents.len < numRecentBlocks && height > 0) recentInterval
        s!"Ledgers under {numRecentBlocks} blocks must have the first recent block at height 0"
        "Recent blocks must increment in height"
        s!"Recent blocks must increment by {recentInterval}" 0 0 recents.keys with
    | .error e => .error e
    | .ok lastHeight =>
      if lastHeight ≥ UInt32.ofNat numRecentBlocks ∧ recents.len ≠ numRecentBlocks then
        bail s!"Number of recent blocks must match {numRecentBlocks}"
      else if hasDuplicates recents.values then bail "Recent block hashes must be unique"
      else .ok lastHeight

def checkBlockCheckpoints (checkpoints : IndexMap UInt32 H) : Except Failure UInt32 :=
  if checkpoints.entries.isEmpty then bail "There must be at least 1 block checkpoint"
  else
    match checkHeights (fun height => height != 0) checkpointInterval
        "First block checkpoint must be at height 0"
        "Block checkpoints must increment in height"
        s!"Block checkpoints must increment by {checkpointInterval}" 0 0 checkpoints.keys with
    | .error e => .error e
    | .ok lastHeight =>
      if hasDuplicates checkpoints.values then bail "Block checkpoints must be unique"
      else .ok lastHeight

/-- The end of `check_block_locators`: if the distance from the last recent height to the last
checkpoint is `NUM_RECENT_BLOCKS` or more, there is no overlap; otherwise it is there. -/
def checkOverlap (recents checkpoints : IndexMap UInt32 H) (lastRecentHeight : UInt32) :
    Except Failure Unit := do
  let distance := lastRecentHeight % checkpointInterval
  if distance < UInt32.ofNat numRecentBlocks then
    let common ← checkedSub lastRecentHeight distance
    let recent ← unwrap (recents.get? common)
    let checkpoint ← unwrap (checkpoints.get? common)
    if recent ≠ checkpoint then
      bail s!"Recent block hash and checkpoint hash mismatch at height {common}"
    else .ok ()
  else .ok ()

/-- `check_block_locators`. The addition is saturating, as the last checkpoint height is an
untrusted value. -/
def checkBlockLocators (recents checkpoints : IndexMap UInt32 H) : Except Failure Unit := do
  let lastRecentHeight ← checkRecentBlocks recents
  let lastCheckpointHeight ← checkBlockCheckpoints checkpoints
  if ¬ (lastCheckpointHeight ≤ lastRecentHeight ∧
      lastRecentHeight < saturatingAdd lastCheckpointHeight checkpointInterval) then
    bail (s!"Last checkpoint height ({lastCheckpointHeight}) is not the largest multiple of " ++
      s!"{checkpointInterval} that does not exceed the last recent height ({lastRecentHeight})")
  else checkOverlap recents checkpoints lastRecentHeight

def new (recents checkpoints : IndexMap UInt32 H) : Except Failure (BlockLocators H) :=
  match checkBlockLocators recents checkpoints with
  | .error e => .error e
  | .ok () => .ok ⟨recents, checkpoints⟩

def latestLocatorHeight (b : BlockLocators H) : UInt32 := b.recents.keys.getLast?.getD 0

def getHash (b : BlockLocators H) (height : UInt32) : Option H :=
  (b.recents.get? height).or (b.checkpoints.get? height)

/-- The hashes of a map, compared with those of the old map at the heights they share. -/
def checkHashes (mismatch : UInt32 → String) (old : IndexMap UInt32 H) :
    List (UInt32 × H) → Except Failure Unit
  | [] => .ok ()
  | (height, hash) :: entries =>
    match old.get? height with
    | some oldHash =>
      if oldHash ≠ hash then bail (mismatch height) else checkHashes mismatch old entries
    | none => checkHashes mismatch old entries

def checkConsistentBlockLocators (oldLocators newLocators : BlockLocators H) :
    Except Failure Unit := do
  checkHashes (fun height => s!"Recent block hash mismatch at height {height}")
    oldLocators.recents newLocators.recents.entries
  checkHashes (fun height => s!"Block checkpoint hash mismatch for height {height}")
    oldLocators.checkpoints newLocators.checkpoints.entries

lemma hasDuplicates_eq_false {hashes : List H} : hasDuplicates hashes = false ↔ hashes.Nodup := by
  simp [hasDuplicates]

/-! ### The loop over the heights -/

section Heights

variable {refused : UInt32 → Bool} {interval : UInt32} {first order distance : String}

lemma checkHeights_succ (i : ℕ) (lastHeight current : UInt32) (heights : List UInt32) :
    checkHeights refused interval first order distance (i + 1) lastHeight (current :: heights) =
      if current ≤ lastHeight then bail order
      else if current - lastHeight ≠ interval then bail distance
      else checkHeights refused interval first order distance (i + 2) current heights := by
  rw [checkHeights, if_neg (fun h => Nat.succ_ne_zero i h.1)]
  by_cases hle : current ≤ lastHeight
  · rw [if_pos ⟨Nat.succ_pos i, hle⟩, if_pos hle]
  · have hlt : lastHeight ≤ current := UInt32.le_of_lt (UInt32.not_le.mp hle)
    rw [if_neg (fun h => hle h.2), if_pos (Nat.succ_pos i), checkedSub_of_le hlt, if_neg hle]

lemma next_height_iff (hint : 0 < interval.toNat) {lastHeight current : UInt32} :
    ¬ current ≤ lastHeight ∧ current - lastHeight = interval ↔
      current.toNat = lastHeight.toNat + interval.toNat := by
  rw [UInt32.le_iff_toNat_le, ← UInt32.toNat_inj]
  constructor
  · rintro ⟨hle, hd⟩
    rw [UInt32.toNat_sub_of_le _ _ (UInt32.le_iff_toNat_le.mpr (by omega))] at hd
    omega
  · intro h
    rw [UInt32.toNat_sub_of_le _ _ (UInt32.le_iff_toNat_le.mpr (by omega))]
    omega

/-- **The heights after the first one**: each of them is the next one at the interval. -/
theorem checkHeights_succ_ok (hint : 0 < interval.toNat) (i : ℕ) {last lastHeight : UInt32}
    {heights : List UInt32} :
    checkHeights refused interval first order distance (i + 1) lastHeight heights = .ok last ↔
      heights.map UInt32.toNat
          = List.range' (lastHeight.toNat + interval.toNat) heights.length interval.toNat ∧
        last.toNat = lastHeight.toNat + interval.toNat * heights.length := by
  induction heights generalizing i lastHeight with
  | nil =>
    rw [checkHeights, Except.ok.injEq, ← UInt32.toNat_inj]
    simp [eq_comm]
  | cons current heights ih =>
    rw [checkHeights_succ, List.map_cons, List.length_cons, List.range'_succ, List.cons.injEq]
    by_cases hnext : current.toNat = lastHeight.toNat + interval.toNat
    · obtain ⟨hle, hd⟩ := (next_height_iff hint).mpr hnext
      rw [if_neg hle, if_neg (not_not_intro hd), ih, hnext]
      have hmul : lastHeight.toNat + interval.toNat + interval.toNat * heights.length
          = lastHeight.toNat + interval.toNat * (heights.length + 1) := by
        rw [Nat.mul_succ]
        omega
      rw [hmul]
      simp
    · have hrefused : ¬ (¬ current ≤ lastHeight ∧ current - lastHeight = interval) :=
        fun h => hnext ((next_height_iff hint).mp h)
      refine iff_of_false (fun h => ?_) fun h => hnext h.1.1
      split at h
      · cases h
      · next hle =>
        split at h
        · cases h
        · next hd => exact hrefused ⟨hle, not_not.mp hd⟩

lemma not_panics_checkHeights_succ (i : ℕ) (lastHeight : UInt32) (heights : List UInt32) :
    ¬ Panics (checkHeights refused interval first order distance (i + 1) lastHeight heights) := by
  induction heights generalizing i lastHeight with
  | nil => exact not_panics_ok _
  | cons current heights ih =>
    rw [checkHeights_succ]
    split
    · exact not_panics_bail _
    · split
      · exact not_panics_bail _
      · exact ih (i + 1) current

lemma checkHeights_zero (lastHeight current : UInt32) (heights : List UInt32) :
    checkHeights refused interval first order distance 0 lastHeight (current :: heights) =
      if refused current then bail first
      else checkHeights refused interval first order distance 1 current heights := by
  rw [checkHeights]
  simp

/-- **The heights of a map**: from the first one on, they are those at the interval. -/
theorem checkHeights_ok (hint : 0 < interval.toNat) {last current : UInt32}
    {heights : List UInt32} :
    checkHeights refused interval first order distance 0 0 (current :: heights) = .ok last ↔
      refused current = false ∧
        (current :: heights).map UInt32.toNat
          = List.range' current.toNat (heights.length + 1) interval.toNat ∧
        last.toNat = current.toNat + interval.toNat * heights.length := by
  rw [checkHeights_zero, List.map_cons, List.range'_succ, List.cons.injEq]
  cases hrefused : refused current with
  | true => simp
  | false =>
    rw [if_neg Bool.false_ne_true, checkHeights_succ_ok hint]
    simp

lemma not_panics_checkHeights {α : Type} {m : IndexMap UInt32 α} (h : ¬ m.entries.isEmpty = true) :
    ¬ Panics (checkHeights refused interval first order distance 0 0 m.keys) := by
  have hkeys : m.keys ≠ [] := fun hnil =>
    h (List.isEmpty_iff.mpr (List.map_eq_nil_iff.mp hnil))
  obtain ⟨current, heights, hheights⟩ := List.exists_cons_of_ne_nil hkeys
  rw [hheights, checkHeights_zero]
  split
  · exact not_panics_bail _
  · exact not_panics_checkHeights_succ 0 current heights

end Heights

/-! ### The checks of the two maps -/

lemma map_toNat_eq_range'_iff (keys : List UInt32) {start count interval : ℕ}
    (hint : 0 < interval) (hbound : ∀ n ∈ List.range' start count interval, n < 2 ^ 32) :
    keys.map UInt32.toNat = List.range' start count interval ↔
      keys.Pairwise (· < ·) ∧ ∀ n, n ∈ keys ↔ n.toNat ∈ List.range' start count interval := by
  have hsorted : (List.range' start count interval).Pairwise (· < ·) :=
    List.pairwise_lt_range' interval hint
  constructor
  · intro h
    refine ⟨?_, fun n => ?_⟩
    · rw [← h, List.pairwise_map] at hsorted
      exact hsorted.imp UInt32.lt_iff_toNat_lt.mpr
    · rw [← h, List.mem_map_of_injective fun _ _ => UInt32.toNat_inj.mp]
  · rintro ⟨hkeys, hmem⟩
    refine List.Pairwise.eq_of_mem_iff (r := (· < ·)) ?_ hsorted fun n => ?_
    · rw [List.pairwise_map]
      exact hkeys.imp UInt32.lt_iff_toNat_lt.mp
    · rw [List.mem_map]
      constructor
      · rintro ⟨k, hk, rfl⟩
        exact (hmem k).mp hk
      · intro hn
        have hword : (UInt32.ofNat n).toNat = n := by
          rw [UInt32.toNat_ofNat']
          exact Nat.mod_eq_of_lt (hbound n hn)
        exact ⟨UInt32.ofNat n, (hmem _).mpr (by rwa [hword]), hword⟩

lemma recents_count_iff (first last : ℕ) {count : ℕ} (hcount : 0 < count) :
    (count ≤ numRecentBlocks ∧ (count < numRecentBlocks → first = 0) ∧
        last = first + (count - 1)) ↔
      first = last + 1 - numRecentBlocks ∧ count = last + 1 - first := by
  unfold numRecentBlocks
  omega

section Recents
variable {first order distance : String} {h : UInt32}

lemma checkHeights_recents {heights : List UInt32} (hne : heights ≠ []) :
    (heights.length ≤ numRecentBlocks ∧
        checkHeights (fun height => heights.length < numRecentBlocks && height > 0) recentInterval
          first order distance 0 0 heights = .ok h) ↔
      heights.map UInt32.toNat = List.range' (h.toNat + 1 - numRecentBlocks)
        (h.toNat + 1 - (h.toNat + 1 - numRecentBlocks)) := by
  obtain ⟨current, heights, rfl⟩ := List.exists_cons_of_ne_nil hne
  have hint : 0 < recentInterval.toNat := by decide
  have hone : recentInterval.toNat = 1 := rfl
  have hfirst : ((decide ((current :: heights).length < numRecentBlocks) && decide (current > 0))
      = false) ↔ ((current :: heights).length < numRecentBlocks → current.toNat = 0) := by
    rw [Bool.and_eq_false_imp, decide_eq_true_eq, decide_eq_false_iff_not]
    refine imp_congr_right fun _ => ?_
    rw [gt_iff_lt, UInt32.lt_iff_toNat_lt]
    exact Nat.not_lt.trans Nat.le_zero
  have hcount := recents_count_iff current.toNat h.toNat (Nat.succ_pos heights.length)
  rw [checkHeights_ok hint, hfirst, hone, Nat.one_mul]
  constructor
  · rintro ⟨hlen, hstart, hrange, hlast⟩
    obtain ⟨hcurrent, hnum⟩ := hcount.mp ⟨hlen, hstart, hlast⟩
    rw [hrange, ← hcurrent, ← hnum]
  · intro hrange
    have hnum := congrArg List.length hrange
    rw [List.length_map, List.length_range', List.length_cons] at hnum
    have hcurrent : current.toNat = h.toNat + 1 - numRecentBlocks := by
      rw [← hnum, List.map_cons, List.range'_succ, List.cons.injEq] at hrange
      exact hrange.1
    obtain ⟨hlen, hstart, hlast⟩ := hcount.mpr ⟨hcurrent, hcurrent ▸ hnum⟩
    refine ⟨hlen, hstart, ?_, hlast⟩
    rw [hrange, ← hnum, ← hcurrent]

end Recents

/-- **The recent blocks**: all heights up to the last one, at most `NUM_RECENT_BLOCKS` of them. -/
theorem checkRecentBlocks_ok {recents : IndexMap UInt32 H} {h : UInt32} :
    checkRecentBlocks recents = .ok h ↔
      recents.keys.map UInt32.toNat = List.range' (h.toNat + 1 - numRecentBlocks)
          (h.toNat + 1 - (h.toNat + 1 - numRecentBlocks)) ∧
        recents.values.Nodup := by
  have hlen : recents.len = recents.keys.length := (List.length_map _).symm
  unfold checkRecentBlocks
  by_cases hempty : recents.keys = []
  · have hentries : recents.entries = [] := List.map_eq_nil_iff.mp hempty
    rw [hentries, hempty]
    refine iff_of_false (bail_ne_ok _ _) fun hok => ?_
    have hnum := congrArg List.length hok.1
    rw [List.length_range', List.map_nil, List.length_nil, numRecentBlocks] at hnum
    omega
  have hentries : ¬ recents.entries.isEmpty = true := fun h =>
    hempty (by rw [IndexMap.keys, List.isEmpty_iff.mp h]; rfl)
  rw [if_neg hentries, hlen]
  constructor
  · intro hok
    split at hok
    · cases hok
    next hmany =>
    split at hok
    · cases hok
    next last hloop =>
    split at hok
    · cases hok
    split at hok
    · cases hok
    next hdup =>
    cases hok
    exact ⟨(checkHeights_recents hempty).mp ⟨Nat.le_of_not_gt hmany, hloop⟩,
      hasDuplicates_eq_false.mp (Bool.not_eq_true _ ▸ hdup)⟩
  · rintro ⟨hrange, hvalues⟩
    have hnum := congrArg List.length hrange
    rw [List.length_map, List.length_range'] at hnum
    have hredundant : ¬ (h ≥ UInt32.ofNat numRecentBlocks ∧
        recents.keys.length ≠ numRecentBlocks) := by
      rintro ⟨hge, hne⟩
      have hge' : numRecentBlocks ≤ h.toNat := UInt32.le_iff_toNat_le.mp hge
      rw [numRecentBlocks] at hnum hne hge'
      omega
    rw [if_neg (by rw [hnum, numRecentBlocks]; omega),
      ((checkHeights_recents hempty).mpr hrange).2]
    dsimp only
    rw [if_neg hredundant, hasDuplicates_eq_false.mpr hvalues]
    rfl

/-- **The checkpoints**: the multiples of the interval, up to the last one. -/
theorem checkBlockCheckpoints_ok {checkpoints : IndexMap UInt32 H} {last : UInt32} :
    checkBlockCheckpoints checkpoints = .ok last ↔
      (∃ k, last.toNat = checkpointInterval.toNat * k ∧ checkpoints.keys.map UInt32.toNat
        = List.range' 0 (k + 1) checkpointInterval.toNat) ∧ checkpoints.values.Nodup := by
  have hint : 0 < checkpointInterval.toNat := by decide
  unfold checkBlockCheckpoints
  cases hkeys : checkpoints.keys with
  | nil =>
    have hentries : checkpoints.entries = [] := List.map_eq_nil_iff.mp hkeys
    rw [hentries]
    refine iff_of_false (bail_ne_ok _ _) ?_
    rintro ⟨⟨k, -, hrange⟩, -⟩
    cases hrange
  | cons current heights =>
    have hentries : ¬ checkpoints.entries.isEmpty = true := fun h => by
      rw [IndexMap.keys, List.isEmpty_iff.mp h] at hkeys
      cases hkeys
    rw [if_neg hentries]
    constructor
    · intro hok
      split at hok
      · cases hok
      next last hloop =>
      split at hok
      · cases hok
      next hdup =>
      cases hok
      obtain ⟨hfirst, hrange, hlast⟩ := (checkHeights_ok hint).mp hloop
      have hzero : current.toNat = 0 := by rw [bne_eq_false_iff_eq.mp hfirst]; rfl
      rw [hzero] at hrange hlast
      exact ⟨⟨heights.length, by omega, hrange⟩,
        hasDuplicates_eq_false.mp (Bool.not_eq_true _ ▸ hdup)⟩
    · rintro ⟨⟨k, hlast, hrange⟩, hvalues⟩
      have hnum := congrArg List.length hrange
      rw [List.length_map, List.length_range', List.length_cons, Nat.add_right_cancel_iff] at hnum
      have hzero : current.toNat = 0 := by
        rw [List.map_cons, List.range'_succ, List.cons.injEq] at hrange
        exact hrange.1
      have hloop : ∀ first order distance, checkHeights (fun height => height != 0)
          checkpointInterval first order distance 0 0 (current :: heights) = .ok last := by
        intro first order distance
        rw [checkHeights_ok hint, hzero, hnum]
        exact ⟨bne_eq_false_iff_eq.mpr (UInt32.toNat_inj.mp hzero), hrange, by omega⟩
      rw [hloop]
      dsimp only
      rw [hasDuplicates_eq_false.mpr hvalues]
      rfl

lemma not_panics_checkRecentBlocks (recents : IndexMap UInt32 H) :
    ¬ Panics (checkRecentBlocks recents) := by
  unfold checkRecentBlocks
  split
  · exact not_panics_bail _
  next hempty =>
  split
  · exact not_panics_bail _
  split
  · next e hloop =>
    rw [panics_error, ← hloop]
    exact not_panics_checkHeights hempty
  · split
    · exact not_panics_bail _
    · split
      · exact not_panics_bail _
      · exact not_panics_ok _

lemma not_panics_checkBlockCheckpoints (checkpoints : IndexMap UInt32 H) :
    ¬ Panics (checkBlockCheckpoints checkpoints) := by
  unfold checkBlockCheckpoints
  split
  · exact not_panics_bail _
  next hempty =>
  split
  · next e hloop =>
    rw [panics_error, ← hloop]
    exact not_panics_checkHeights hempty
  · split
    · exact not_panics_bail _
    · exact not_panics_ok _

/-! ### Well-formed block locators -/

section
variable {h last : UInt32} {recents checkpoints : IndexMap UInt32 H}

lemma checkRecentBlocks_ok_iff :
    checkRecentBlocks recents = .ok h ↔
      recents.keys.Pairwise (· < ·) ∧
        (∀ n, n ∈ recents.keys ↔ h.toNat + 1 - numRecentBlocks ≤ n.toNat ∧ n ≤ h) ∧
        recents.values.Nodup := by
  have hbound : ∀ n ∈ List.range' (h.toNat + 1 - numRecentBlocks)
      (h.toNat + 1 - (h.toNat + 1 - numRecentBlocks)), n < 2 ^ 32 := by
    intro n hn
    have hh := h.toNat_lt
    rw [List.mem_range'_1] at hn
    omega
  rw [checkRecentBlocks_ok, map_toNat_eq_range'_iff _ Nat.one_pos hbound, and_assoc]
  refine and_congr_right fun _ => and_congr_left fun _ => forall_congr' fun n => ?_
  rw [List.mem_range'_1, UInt32.le_iff_toNat_le]
  refine iff_congr Iff.rfl ?_
  omega

lemma last_checkpoint_iff {k : ℕ} (hlast : last.toNat = checkpointInterval.toNat * k) :
    last ≤ h ∧ h < saturatingAdd last checkpointInterval ↔
      h < u32Max ∧ k = h.toNat / checkpointInterval.toNat := by
  have hint : checkpointInterval.toNat = 10000 := rfl
  have hmax : u32Max.toNat = 4294967295 := rfl
  have hh := h.toNat_lt
  rw [UInt32.le_iff_toNat_le, UInt32.lt_iff_toNat_lt, UInt32.lt_iff_toNat_lt,
    toNat_saturatingAdd, hmax]
  rw [hint] at hlast ⊢
  omega

lemma checkBlockCheckpoints_ok_iff :
    (∃ last, checkBlockCheckpoints checkpoints = .ok last ∧
        last ≤ h ∧ h < saturatingAdd last checkpointInterval) ↔
      h < u32Max ∧ checkpoints.keys.Pairwise (· < ·) ∧
        (∀ n, n ∈ checkpoints.keys ↔ checkpointInterval.toNat ∣ n.toNat ∧ n ≤ h) ∧
        checkpoints.values.Nodup := by
  have hint : 0 < checkpointInterval.toNat := by decide
  have hmem : ∀ n, n ∈ List.range' 0 (h.toNat / checkpointInterval.toNat + 1)
      checkpointInterval.toNat ↔ checkpointInterval.toNat ∣ n ∧ n ≤ h.toNat := by
    intro n
    rw [List.mem_range']
    constructor
    · rintro ⟨i, hi, rfl⟩
      have hle := (Nat.le_div_iff_mul_le hint).mp (Nat.le_of_lt_succ hi)
      rw [Nat.zero_add]
      exact ⟨Nat.dvd_mul_right _ _, Nat.mul_comm _ i ▸ hle⟩
    · rintro ⟨⟨i, rfl⟩, hle⟩
      have hi := (Nat.le_div_iff_mul_le hint).mpr (Nat.mul_comm _ i ▸ hle)
      exact ⟨i, Nat.lt_succ_of_le hi, (Nat.zero_add _).symm⟩
  have hkeys := map_toNat_eq_range'_iff checkpoints.keys hint fun n hn =>
    ((hmem n).mp hn).2.trans_lt h.toNat_lt
  simp only [hmem, ← UInt32.le_iff_toNat_le] at hkeys
  constructor
  · rintro ⟨last, hok, hrange⟩
    obtain ⟨⟨k, hlast, hkeys'⟩, hvalues⟩ := checkBlockCheckpoints_ok.mp hok
    obtain ⟨hmax, rfl⟩ := (last_checkpoint_iff hlast).mp hrange
    obtain ⟨hsorted, hmem'⟩ := hkeys.mp hkeys'
    exact ⟨hmax, hsorted, hmem', hvalues⟩
  · rintro ⟨hmax, hsorted, hmem', hvalues⟩
    have hdiv := Nat.mul_div_le h.toNat checkpointInterval.toNat
    have hlast : (UInt32.ofNat (checkpointInterval.toNat *
        (h.toNat / checkpointInterval.toNat))).toNat
          = checkpointInterval.toNat * (h.toNat / checkpointInterval.toNat) := by
      have hh := h.toNat_lt
      rw [UInt32.toNat_ofNat']
      exact Nat.mod_eq_of_lt (by omega)
    exact ⟨_, checkBlockCheckpoints_ok.mpr ⟨⟨_, hlast, hkeys.mpr ⟨hsorted, hmem'⟩⟩, hvalues⟩,
      (last_checkpoint_iff hlast).mpr ⟨hmax, rfl⟩⟩

omit [DecidableEq H] in
/-- **The overlap of the two maps**: at most one height, for which neither map panics. -/
theorem overlap (hrecents : ∀ n, n ∈ recents.keys ↔
      h.toNat + 1 - numRecentBlocks ≤ n.toNat ∧ n ≤ h)
    (hcheckpoints : ∀ n, n ∈ checkpoints.keys ↔
      checkpointInterval.toNat ∣ n.toNat ∧ n ≤ h) :
    (h % checkpointInterval < UInt32.ofNat numRecentBlocks →
      ∃ common x y, checkedSub h (h % checkpointInterval) = .ok common ∧
        recents.get? common = some x ∧ checkpoints.get? common = some y ∧
        ∀ n, n ∈ recents.keys → n ∈ checkpoints.keys → n = common) ∧
    (¬ h % checkpointInterval < UInt32.ofNat numRecentBlocks →
      ∀ n, n ∈ recents.keys → n ∉ checkpoints.keys) := by
  have hint : checkpointInterval.toNat = 10000 := rfl
  have hnum : (UInt32.ofNat numRecentBlocks).toNat = numRecentBlocks := rfl
  have hrecent : numRecentBlocks = 100 := rfl
  have hmod := UInt32.toNat_mod h checkpointInterval
  -- a height in both maps is the last checkpoint
  have hshared : ∀ n, n ∈ recents.keys → n ∈ checkpoints.keys →
      h.toNat % checkpointInterval.toNat < numRecentBlocks ∧
        n.toNat = h.toNat - h.toNat % checkpointInterval.toNat := by
    intro n hn hn'
    obtain ⟨hlow, hhigh⟩ := (hrecents n).mp hn
    obtain ⟨⟨k, hk⟩, -⟩ := (hcheckpoints n).mp hn'
    rw [UInt32.le_iff_toNat_le] at hhigh
    rw [hint] at hk ⊢
    rw [hrecent] at hlow ⊢
    omega
  have hle : h % checkpointInterval ≤ h := by
    rw [UInt32.le_iff_toNat_le, hmod]
    exact Nat.mod_le _ _
  have hcommon : (h - h % checkpointInterval).toNat
      = h.toNat - h.toNat % checkpointInterval.toNat := by
    rw [UInt32.toNat_sub_of_le _ _ hle, hmod]
  rw [UInt32.lt_iff_toNat_lt, hmod, hnum]
  constructor
  · intro hnear
    have hin : h - h % checkpointInterval ∈ recents.keys := by
      rw [hrecents, UInt32.le_iff_toNat_le, hcommon]
      omega
    have hin' : h - h % checkpointInterval ∈ checkpoints.keys := by
      rw [hcheckpoints, UInt32.le_iff_toNat_le, hcommon]
      exact ⟨Nat.dvd_sub_mod _, Nat.sub_le _ _⟩
    obtain ⟨x, hx⟩ := Option.isSome_iff_exists.mp (IndexMap.get?_isSome.mpr hin)
    obtain ⟨y, hy⟩ := Option.isSome_iff_exists.mp (IndexMap.get?_isSome.mpr hin')
    refine ⟨_, x, y, checkedSub_of_le hle, hx, hy, fun n hn hn' => ?_⟩
    rw [← UInt32.toNat_inj, hcommon]
    exact (hshared n hn hn').2
  · intro hfar n hn hn'
    exact hfar (hshared n hn hn').1

omit [DecidableEq H] in
lemma agree_iff {common : UInt32} {x y : H} (hx : recents.get? common = some x)
    (hy : checkpoints.get? common = some y)
    (honly : ∀ n, n ∈ recents.keys → n ∈ checkpoints.keys → n = common) :
    Agree recents checkpoints ↔ x = y := by
  refine ⟨fun h => h common x y hx hy, fun hxy n x' y' hx' hy' => ?_⟩
  have hn : n = common := honly n (IndexMap.get?_isSome.mp (by rw [hx']; rfl))
    (IndexMap.get?_isSome.mp (by rw [hy']; rfl))
  rw [hn, hx, Option.some_inj] at hx'
  rw [hn, hy, Option.some_inj] at hy'
  rw [← hx', ← hy', hxy]

lemma checkOverlap_spec (hrecents : ∀ n, n ∈ recents.keys ↔
      h.toNat + 1 - numRecentBlocks ≤ n.toNat ∧ n ≤ h)
    (hcheckpoints : ∀ n, n ∈ checkpoints.keys ↔
      checkpointInterval.toNat ∣ n.toNat ∧ n ≤ h) :
    ¬ Panics (checkOverlap recents checkpoints h) ∧
      (checkOverlap recents checkpoints h = .ok () ↔ Agree recents checkpoints) := by
  obtain ⟨hnear, hfar⟩ := overlap hrecents hcheckpoints
  unfold checkOverlap
  by_cases hdistance : h % checkpointInterval < UInt32.ofNat numRecentBlocks
  · obtain ⟨common, x, y, hsub, hx, hy, honly⟩ := hnear hdistance
    rw [agree_iff hx hy honly]
    simp only [hdistance, if_true, hsub, hx, hy, unwrap, bind, Except.bind]
    by_cases hxy : x = y
    · simp [hxy]
    · simp [hxy]
  · rw [if_neg hdistance]
    refine ⟨not_panics_ok _, iff_of_true rfl fun n x y hx hy => ?_⟩
    exact absurd (IndexMap.get?_isSome.mp (by rw [hy]; rfl))
      (hfar hdistance n (IndexMap.get?_isSome.mp (by rw [hx]; rfl)))

lemma wellFormedAt_iff : WellFormedAt h recents checkpoints ↔
    checkRecentBlocks recents = .ok h ∧
      (∃ last, checkBlockCheckpoints checkpoints = .ok last ∧
        last ≤ h ∧ h < saturatingAdd last checkpointInterval) ∧
      checkOverlap recents checkpoints h = .ok () := by
  rw [checkRecentBlocks_ok_iff, checkBlockCheckpoints_ok_iff]
  constructor
  · intro hw
    exact ⟨⟨hw.recents_sorted, hw.mem_recents, hw.recents_nodup⟩,
      ⟨hw.height_lt, hw.checkpoints_sorted, hw.mem_checkpoints, hw.checkpoints_nodup⟩,
      (checkOverlap_spec hw.mem_recents hw.mem_checkpoints).2.mpr hw.agree⟩
  · rintro ⟨⟨hsorted, hmem, hvalues⟩, ⟨hmax, hsorted', hmem', hvalues'⟩, hoverlap⟩
    exact ⟨hmax, hsorted, hmem, hsorted', hmem', hvalues, hvalues',
      (checkOverlap_spec hmem hmem').2.mp hoverlap⟩

/-- **The check accepts exactly the well-formed block locators.** -/
theorem checkBlockLocators_ok :
    checkBlockLocators recents checkpoints = .ok () ↔ ∃ h, WellFormedAt h recents checkpoints := by
  unfold checkBlockLocators
  rw [bind_eq_ok]
  refine exists_congr fun h => ?_
  rw [wellFormedAt_iff]
  refine and_congr_right fun hrecent => ?_
  rw [bind_eq_ok]
  constructor
  · rintro ⟨last, hcheckpoint, hend⟩
    split at hend
    · cases hend
    next hrange => exact ⟨⟨last, hcheckpoint, not_not.mp hrange⟩, hend⟩
  · rintro ⟨⟨last, hcheckpoint, hrange⟩, hend⟩
    exact ⟨last, hcheckpoint, by rw [if_neg (not_not_intro hrange), hend]⟩

/-- **The check never panics**: the last height is only looked up in maps that have it. -/
theorem not_panics_checkBlockLocators : ¬ Panics (checkBlockLocators recents checkpoints) := by
  unfold checkBlockLocators
  refine not_panics_bind (not_panics_checkRecentBlocks recents) fun h hrecent => ?_
  refine not_panics_bind (not_panics_checkBlockCheckpoints checkpoints) fun last hcheckpoint => ?_
  split
  · exact not_panics_bail _
  next hrange =>
  obtain ⟨-, hmem, -⟩ := checkRecentBlocks_ok_iff.mp hrecent
  obtain ⟨-, -, hmem', -⟩ :=
    checkBlockCheckpoints_ok_iff.mp ⟨last, hcheckpoint, not_not.mp hrange⟩
  exact (checkOverlap_spec hmem hmem').1

end

/-- **Validation** accepts exactly the well-formed block locators, and never panics. -/
theorem checkBlockLocators_exact (recents checkpoints : IndexMap UInt32 H) :
    ¬ Panics (checkBlockLocators recents checkpoints) ∧
      (checkBlockLocators recents checkpoints = .ok () ↔
        ∃ h, WellFormedAt h recents checkpoints) :=
  ⟨not_panics_checkBlockLocators, checkBlockLocators_ok⟩

/-- The locators of a genesis block. -/
example : (checkBlockLocators (⟨[(0, 7)], by decide⟩ : IndexMap UInt32 ℕ)
    ⟨[(0, 7)], by decide⟩).isOk = true := by decide

end BlockLocators

end AmareleoChain
