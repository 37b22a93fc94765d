import Mathlib.Logic.Function.Basic
import AmareleoChain.Library.LruCache

/-!
An intake: items come in under keys, wait in bounded queues, and are handed on. A cache of the keys
seen recently keeps an item from being taken in twice.

A key is marked as seen before the item is asked for, and before it is queued. So a key can be
seen, and its item have failed, or have given way to another in a full queue. `Keeps` says of a
submission that it does no such thing, and an intake in which each seen key has its item stays one
just when its submissions do so.
-/

namespace AmareleoChain

/-- The keys seen recently, the queues, and the keys of the items that were handed on. -/
structure Intake (ι κ υ : Type) where
  seen : LruCache κ Unit
  queues : ι → LruCache κ υ
  handed : List κ

namespace Intake

variable {ι κ υ : Type} [DecidableEq ι] [DecidableEq κ]

/-- What becomes of a submission. -/
inductive Outcome where
  /-- The key was seen recently, and nothing is done. -/
  | dropped
  | refused
  | queued

/-- An item waits in a queue, or was handed on. -/
def Has (s : Intake ι κ υ) (k : κ) : Prop := (∃ i, k ∈ (s.queues i).keys) ∨ k ∈ s.handed

/-- Each key that was seen recently has its item. -/
def Tracked (s : Intake ι κ υ) : Prop := ∀ k ∈ s.seen.keys, s.Has k

/-- The caches are valid, and hold something. -/
structure Sound (s : Intake ι κ υ) : Prop where
  seen : s.seen.Valid
  seen_pos : 0 < s.seen.capacity
  queues : ∀ i, (s.queues i).Valid
  queues_pos : ∀ i, 0 < (s.queues i).capacity

def mark (s : Intake ι κ υ) (k : κ) : Intake ι κ υ := { s with seen := s.seen.put k () }

def enqueue (s : Intake ι κ υ) (i : ι) (k : κ) (v : υ) : Intake ι κ υ :=
  { s with queues := Function.update s.queues i ((s.queues i).put k v) }

/-- An item is submitted to a queue. The key is marked as seen, and the item is asked for unless
it was seen before: it is refused when the answer is an error, or that it is known. -/
def submit (s : Intake ι κ υ) (i : ι) (k : κ) (v : υ) (known : Except String Bool) :
    Outcome × Intake ι κ υ :=
  if (s.seen.peek k).isSome then (.dropped, s.mark k)
  else
    match known with
    | .ok false =>
      (if ((s.queues i).peek k).isSome then .refused else .queued, (s.mark k).enqueue i k v)
    | _ => (.refused, s.mark k)

/-- A submission leaves each seen key with its item: a new key is not known, unless the item is
there already, and what gives way to it was handed on, waits in another queue too, or is not among
the keys seen recently any more. -/
def Keeps (s : Intake ι κ υ) (i : ι) (k : κ) (known : Except String Bool) : Prop :=
  k ∉ s.seen.keys →
    match known with
    | .ok false => ∀ x, (s.queues i).evicted k = some x →
      x ∈ s.handed ∨ (∃ j ≠ i, x ∈ (s.queues j).keys) ∨ x ∉ (s.mark k).seen.keys
    | _ => s.Has k

/-- Items are handed on: they leave the queues for those that were handed. -/
structure Moved (s t : Intake ι κ υ) : Prop where
  seen : t.seen = s.seen
  has : ∀ k, t.Has k ↔ s.Has k
  sound : s.Sound → t.Sound

variable {s t : Intake ι κ υ} {i : ι} {k x : κ} {v : υ} {known : Except String Bool}

omit [DecidableEq ι] [DecidableEq κ] in
lemma Moved.refl (s : Intake ι κ υ) : Moved s s := ⟨rfl, fun _ => Iff.rfl, id⟩

omit [DecidableEq ι] [DecidableEq κ] in
lemma Moved.tracked_iff (h : Moved s t) : t.Tracked ↔ s.Tracked := by
  rw [Tracked, Tracked, h.seen]
  exact forall₂_congr fun k _ => h.has k

omit [DecidableEq ι] [DecidableEq κ] in
lemma Moved.of_entries (popped : ι → List (κ × υ)) (hseen : t.seen = s.seen)
    (hentries : ∀ i, (t.queues i).entries ++ popped i = (s.queues i).entries)
    (hcapacity : ∀ i, (t.queues i).capacity = (s.queues i).capacity)
    (hhanded : ∀ k, k ∈ t.handed ↔ k ∈ s.handed ∨ ∃ i, k ∈ (popped i).map Prod.fst) :
    Moved s t := by
  have hkeys : ∀ i, (t.queues i).keys ++ (popped i).map Prod.fst = (s.queues i).keys := by
    intro i
    rw [LruCache.keys, LruCache.keys, ← hentries, List.map_append]
  refine ⟨hseen, fun k => ?_, fun hs => ⟨hseen ▸ hs.seen, hseen ▸ hs.seen_pos, fun i => ⟨?_, ?_⟩,
    fun i => hcapacity i ▸ hs.queues_pos i⟩⟩
  · rw [Has, Has, hhanded]
    constructor
    · rintro (⟨i, hi⟩ | hk | ⟨i, hi⟩)
      · exact .inl ⟨i, hkeys i ▸ List.mem_append_left _ hi⟩
      · exact .inr hk
      · exact .inl ⟨i, hkeys i ▸ List.mem_append_right _ hi⟩
    · rintro (⟨i, hi⟩ | hk)
      · rw [← hkeys i, List.mem_append] at hi
        exact hi.imp (fun hi => ⟨i, hi⟩) fun hi => .inr ⟨i, hi⟩
      · exact .inr (.inl hk)
  · exact (hkeys i ▸ (hs.queues i).nodup).of_append_left
  · have hle := (hs.queues i).le
    rw [LruCache.len, ← hentries, List.length_append] at hle
    rw [LruCache.len, hcapacity]
    omega

omit [DecidableEq ι] in
lemma Sound.mark (h : s.Sound) (k : κ) : (s.mark k).Sound :=
  ⟨h.seen.put k (), h.seen_pos, h.queues, h.queues_pos⟩

@[simp] lemma queues_enqueue_self : (s.enqueue i k v).queues i = (s.queues i).put k v :=
  Function.update_self _ _ _

lemma queues_enqueue_of_ne {j : ι} (h : j ≠ i) : (s.enqueue i k v).queues j = s.queues j :=
  Function.update_of_ne h _ _

lemma Sound.enqueue (h : s.Sound) (i : ι) (k : κ) (v : υ) : (s.enqueue i k v).Sound := by
  refine ⟨h.seen, h.seen_pos, fun j => ?_, fun j => ?_⟩
  · by_cases hj : j = i
    · subst hj
      rw [queues_enqueue_self]
      exact (h.queues j).put k v
    · rw [queues_enqueue_of_ne hj]
      exact h.queues j
  · by_cases hj : j = i
    · subst hj
      rw [queues_enqueue_self]
      exact h.queues_pos j
    · rw [queues_enqueue_of_ne hj]
      exact h.queues_pos j

lemma Sound.submit (h : s.Sound) (i : ι) (k : κ) (v : υ) (known : Except String Bool) :
    (s.submit i k v known).2.Sound := by
  unfold Intake.submit
  split
  · exact h.mark k
  · split
    · exact (h.mark k).enqueue i k v
    · exact h.mark k

/-- **What an intake has after an item is queued**: the item, and what it had but for what gave
way to it. -/
lemma has_enqueue (h : s.Sound) : (s.enqueue i k v).Has x ↔
    x = k ∨ s.Has x ∧ ((s.queues i).evicted k = some x →
      x ∈ s.handed ∨ ∃ j ≠ i, x ∈ (s.queues j).keys) := by
  have hput : x ∈ ((s.queues i).put k v).keys ↔
      x = k ∨ x ∈ (s.queues i).keys ∧ (s.queues i).evicted k ≠ some x :=
    (h.queues i).mem_keys_put (h.queues_pos i)
  have hqueues : (∃ j, x ∈ ((s.enqueue i k v).queues j).keys) ↔
      x ∈ ((s.queues i).put k v).keys ∨ ∃ j ≠ i, x ∈ (s.queues j).keys := by
    constructor
    · rintro ⟨j, hj⟩
      by_cases hji : j = i
      · subst hji
        rw [queues_enqueue_self] at hj
        exact .inl hj
      · rw [queues_enqueue_of_ne hji] at hj
        exact .inr ⟨j, hji, hj⟩
    · rintro (hi | ⟨j, hji, hj⟩)
      · refine ⟨i, ?_⟩
        rw [queues_enqueue_self]
        exact hi
      · refine ⟨j, ?_⟩
        rw [queues_enqueue_of_ne hji]
        exact hj
  have hhanded : (s.enqueue i k v).handed = s.handed := rfl
  rw [Has, hqueues, hput, hhanded, Has]
  constructor
  · rintro (((rfl | ⟨hx, hne⟩) | hother) | hx)
    · exact .inl rfl
    · exact .inr ⟨.inl ⟨i, hx⟩, fun he => absurd he hne⟩
    · exact .inr ⟨.inl (hother.imp fun j hj => hj.2), fun _ => .inr hother⟩
    · exact .inr ⟨.inr hx, fun _ => .inl hx⟩
  · rintro (rfl | ⟨hhas, hgives⟩)
    · exact .inl (.inl (.inl rfl))
    · by_cases hev : (s.queues i).evicted k = some x
      · rcases hgives hev with hx | hother
        · exact .inr hx
        · exact .inl (.inr hother)
      · rcases hhas with ⟨j, hj⟩ | hx
        · by_cases hji : j = i
          · subst hji
            exact .inl (.inl (.inr ⟨hj, hev⟩))
          · exact .inl (.inr ⟨j, hji, hj⟩)
        · exact .inr hx

omit [DecidableEq ι] in
lemma mem_seen_mark (h : s.Sound) (hx : x ∈ (s.mark k).seen.keys) : x = k ∨ x ∈ s.seen.keys :=
  ((h.seen.mem_keys_put h.seen_pos).mp hx).imp_right And.left

omit [DecidableEq ι] in
lemma self_mem_seen_mark (h : s.Sound) : k ∈ (s.mark k).seen.keys :=
  (h.seen.mem_keys_put h.seen_pos).mpr (.inl rfl)

/-- **A submission leaves each seen key with its item** just when it keeps them. -/
lemma Tracked.submit_iff (ht : s.Tracked) (hs : s.Sound) :
    (s.submit i k v known).2.Tracked ↔ s.Keeps i k known := by
  unfold submit Keeps
  by_cases hseen : k ∈ s.seen.keys
  · rw [if_pos (LruCache.peek_isSome.mpr hseen)]
    refine iff_of_true (fun x hx => ?_) fun hnot => absurd hseen hnot
    rcases mem_seen_mark hs hx with rfl | hx
    · exact ht x hseen
    · exact ht x hx
  · rw [if_neg (mt LruCache.peek_isSome.mp hseen), imp_iff_right hseen]
    -- a key that is marked, and not queued
    have hmarked : (s.mark k).Tracked ↔ s.Has k := by
      constructor
      · exact fun h => h k (self_mem_seen_mark hs)
      · intro hk x hx
        rcases mem_seen_mark hs hx with rfl | hx
        · exact hk
        · exact ht x hx
    split
    · -- a key that is queued
      constructor
      · intro h x hev
        by_cases hx : x ∈ (s.mark k).seen.keys
        · rcases (has_enqueue (hs.mark k)).mp (h x hx) with rfl | ⟨-, hgives⟩
          · -- the key that is queued does not give way to itself
            exfalso
            rw [LruCache.evicted] at hev
            split at hev
            · cases hev
            · next hnot =>
              exact hnot (.inl (List.mem_of_getLast? hev))
          · rcases hgives hev with hx | hother
            · exact .inl hx
            · exact .inr (.inl hother)
        · exact .inr (.inr hx)
      · intro h x hx
        refine (has_enqueue (hs.mark k)).mpr ?_
        rcases mem_seen_mark hs hx with rfl | hold
        · exact .inl rfl
        · refine .inr ⟨ht x hold, fun hev => ?_⟩
          rcases h x hev with hhanded | hother | hnot
          · exact .inl hhanded
          · exact .inr hother
          · exact absurd hx hnot
    · exact hmarked

/-- A submission that is not refused has its item, in an intake in which each seen key has. -/
lemma Tracked.has_submit (ht : s.Tracked) (hs : s.Sound)
    (h : (s.submit i k v known).1 ≠ .refused) : (s.submit i k v known).2.Has k := by
  unfold submit at h ⊢
  split at h
  · next hseen =>
    rw [if_pos hseen]
    exact ht k (LruCache.peek_isSome.mp hseen)
  · next hseen =>
    rw [if_neg hseen]
    split at h
    · exact (has_enqueue (hs.mark k)).mpr (.inl rfl)
    · exact absurd rfl h

lemma submit_of_seen (h : k ∈ s.seen.keys) : s.submit i k v known = (.dropped, s.mark k) :=
  if_pos (LruCache.peek_isSome.mpr h)

lemma seen_submit : (s.submit i k v known).2.seen = (s.mark k).seen := by
  unfold submit
  split
  · rfl
  · split
    · rfl
    · rfl

/-! ### Answers -/

/-- An item is submitted, and items are handed on: the submission is accepted unless it is
refused. -/
structure Answers (s : Intake ι κ υ) (i : ι) (k : κ) (v : υ) (known : Except String Bool)
    (accepted : Prop) (t : Intake ι κ υ) : Prop where
  accepted_iff : accepted ↔ (s.submit i k v known).1 ≠ .refused
  moved : Moved (s.submit i k v known).2 t

namespace Answers

variable {accepted : Prop}

lemma dropped (hk : (s.seen.peek k).isSome = true) (haccepted : accepted) :
    Answers s i k v known accepted (s.mark k) := by
  have hsubmit : s.submit i k v known = (.dropped, s.mark k) := if_pos hk
  constructor
  · rw [hsubmit]
    exact iff_of_true haccepted Outcome.noConfusion
  · rw [hsubmit]
    exact Moved.refl _

lemma refused (hk : ¬ (s.seen.peek k).isSome = true) (hknown : known ≠ .ok false)
    (hrefused : ¬ accepted) : Answers s i k v known accepted (s.mark k) := by
  have hsubmit : s.submit i k v known = (.refused, s.mark k) := by
    unfold submit
    rw [if_neg hk]
    split
    · exact absurd rfl hknown
    · rfl
  constructor
  · rw [hsubmit]
    exact iff_of_false hrefused fun h => h rfl
  · rw [hsubmit]
    exact Moved.refl _

lemma queued (hk : ¬ (s.seen.peek k).isSome = true)
    (haccepted : accepted ↔ ¬ ((s.queues i).peek k).isSome = true)
    (hmoved : Moved ((s.mark k).enqueue i k v) t) :
    Answers s i k v (.ok false) accepted t := by
  have hsubmit : s.submit i k v (.ok false) =
      (if ((s.queues i).peek k).isSome then .refused else .queued, (s.mark k).enqueue i k v) :=
    if_neg hk
  constructor
  · rw [hsubmit, haccepted]
    split
    · next hpool => exact iff_of_false (not_not_intro hpool) fun h => h rfl
    · next hpool => exact iff_of_true hpool Outcome.noConfusion
  · rw [hsubmit]
    exact hmoved

lemma sound (h : Answers s i k v known accepted t) (hs : s.Sound) : t.Sound :=
  h.moved.sound (hs.submit i k v known)

lemma tracked_iff (h : Answers s i k v known accepted t) (ht : s.Tracked) (hs : s.Sound) :
    t.Tracked ↔ s.Keeps i k known :=
  h.moved.tracked_iff.trans (ht.submit_iff hs)

lemma mem_seen (h : Answers s i k v known accepted t) (hs : s.Sound) (hx : x ∈ t.seen.keys) :
    x = k ∨ x ∈ s.seen.keys := by
  rw [h.moved.seen, seen_submit] at hx
  exact mem_seen_mark hs hx

/-- An item that is accepted is there, in an intake in which each seen key has its item. -/
lemma has (h : Answers s i k v known accepted t) (ht : s.Tracked) (hs : s.Sound)
    (haccepted : accepted) : t.Has k :=
  (h.moved.has k).mpr (ht.has_submit hs (h.accepted_iff.mp haccepted))

/-- A key that was seen recently is accepted, and its item is there only if it was before. -/
lemma of_seen (h : Answers s i k v known accepted t) (hk : k ∈ s.seen.keys) :
    accepted ∧ (t.Has k → s.Has k) := by
  have haccepted := h.accepted_iff
  have hhas := h.moved.has k
  rw [submit_of_seen hk] at haccepted hhas
  exact ⟨haccepted.mpr Outcome.noConfusion, hhas.mp⟩

end Answers

end Intake

end AmareleoChain
