import AmareleoChain.ReferenceCounts

/-!
The cache of the persistent service, against the map that it caches.

A transmission is put in the cache when it is written, and it is read from the cache first. When
its last certificate is removed it leaves the map, and not the cache. So what is read is what the
map holds as long as each transmission that leaves the map was evicted before, and no longer.
-/

namespace AmareleoChain

/-! ### Calls -/

/-- A call to the persistent service. -/
inductive ServiceCall where
  | insertTransmissions (certificateId : Field) (ids aborted : IndexSet TransmissionID)
      (missing : IndexMap TransmissionID Transmission)
  | removeTransmissions (certificateId : Field) (ids : IndexSet TransmissionID)
  | getTransmission (id : TransmissionID)

namespace ServiceCall

/-- The service after a call. -/
def run (s : BFTPersistentStorage) : ServiceCall → BFTPersistentStorage
  | .insertTransmissions certificateId ids aborted missing =>
    s.insertTransmissions certificateId ids aborted missing
  | .removeTransmissions certificateId ids => s.removeTransmissions certificateId ids
  | .getTransmission id => (s.getTransmission id).2

/-- Each transmission that a call drops, because it is stored for no other certificate, has been
evicted from the cache. -/
def DropsEvicted (s : BFTPersistentStorage) : ServiceCall → Prop
  | .removeTransmissions certificateId ids =>
    ∀ t ∈ ids, ∀ e, s.transmissions.get? t = some e → (∀ id ∈ e.2, id = certificateId) →
      s.cacheTransmissions.peek t = none
  | _ => True

end ServiceCall

namespace BFTPersistentStorage

/-- `open` on an empty database, with caches of a given capacity. -/
def opened (capacity : ℕ) : BFTPersistentStorage := ⟨∅, ∅, ⟨capacity, []⟩, ⟨capacity, []⟩⟩

/-- The service after a sequence of calls. -/
def afterCalls (capacity : ℕ) (calls : List ServiceCall) : BFTPersistentStorage :=
  calls.foldl ServiceCall.run (opened capacity)

lemma afterCalls_concat (capacity : ℕ) (calls : List ServiceCall) (call : ServiceCall) :
    afterCalls capacity (calls ++ [call]) = call.run (afterCalls capacity calls) := by
  rw [afterCalls, List.foldl_concat]
  rfl

/-- What is read is what the map holds, and nothing is read of what is not contained. -/
structure Transparent (s : BFTPersistentStorage) : Prop where
  get : ∀ t, (s.getTransmission t).1 = (s.transmissions.get? t).map Prod.fst
  absent : ∀ t, s.containsTransmission t = false → (s.getTransmission t).1 = none

variable {s : BFTPersistentStorage} {t : TransmissionID} {id : Field} {capacity : ℕ}

lemma fst_getTransmission : (s.getTransmission t).1 =
    match s.cacheTransmissions.peek t with
    | some e => some e.1
    | none => (s.transmissions.get? t).map Prod.fst := by
  rw [getTransmission, ← LruCache.fst_getMut]
  split
  · next heq => rw [heq]
  · next heq => rw [heq]

/-- **The cache invariant**: what is cached is stored. -/
lemma transparent_iff : s.Transparent ↔
    ∀ t e, s.cacheTransmissions.peek t = some e →
      (s.transmissions.get? t).map Prod.fst = some e.1 := by
  constructor
  · intro h t e he
    have hget := h.get t
    rw [fst_getTransmission, he] at hget
    exact hget.symm
  · intro h
    have hget : ∀ t, (s.getTransmission t).1 = (s.transmissions.get? t).map Prod.fst := by
      intro t
      rw [fst_getTransmission]
      split
      · next e he => exact (h t e he).symm
      · rfl
    refine ⟨hget, fun t ht => ?_⟩
    have hnone : s.transmissions.get? t = none := by
      rw [containsTransmission, Bool.or_eq_false_iff, ← Bool.not_eq_true,
        IndexMap.containsKey_iff, ← IndexMap.get?_isSome] at ht
      exact Option.not_isSome_iff_eq_none.mp ht.1
    rw [hget, hnone]
    rfl

lemma transparent_opened : (opened capacity).Transparent :=
  transparent_iff.mpr fun _ _ h => by cases h

/-! ### What one call does -/

lemma Transparent.insert (h : s.Transparent) (entry : Transmission × IndexSet Field) :
    (s.insert t entry).Transparent := by
  rw [transparent_iff] at h ⊢
  intro i e he
  have hget : (s.insert t entry).transmissions.get? i
      = if i = t then some entry else s.transmissions.get? i := IndexMap.get?_insert
  rw [hget]
  rcases LruCache.peek_put he with ⟨rfl, rfl⟩ | ⟨hne, hold⟩
  · rw [if_pos rfl]
    rfl
  · rw [if_neg hne]
    exact h i e hold

lemma Transparent.insertKnown {ids : List TransmissionID}
    {missing : IndexMap TransmissionID Transmission} (h : s.Transparent) :
    (s.insertKnown id ids missing).Transparent := by
  induction ids generalizing s missing with
  | nil => exact h
  | cons i ids ih =>
    rw [BFTPersistentStorage.insertKnown]
    split
    · exact ih (h.insert _)
    · split
      · exact ih (h.insert _)
      · exact ih h

lemma Transparent.insertTransmissions {ids aborted : IndexSet TransmissionID}
    {missing : IndexMap TransmissionID Transmission} (h : s.Transparent) :
    (s.insertTransmissions id ids aborted missing).Transparent := by
  -- the aborted IDs are written to a map and a cache of their own
  have hfold : ∀ {l : List TransmissionID} {s : BFTPersistentStorage},
      (l.foldl (insertAborted id) s).transmissions = s.transmissions ∧
        (l.foldl (insertAborted id) s).cacheTransmissions = s.cacheTransmissions := by
    intro l
    induction l with
    | nil => exact ⟨rfl, rfl⟩
    | cons i l ih => exact ih
  rw [BFTPersistentStorage.insertTransmissions]
  have hknown : (s.insertKnown id ids.toList missing).Transparent := h.insertKnown
  rw [transparent_iff, hfold.1, hfold.2]
  exact transparent_iff.mp hknown

lemma Transparent.getTransmission (h : s.Transparent) :
    (s.getTransmission t).2.Transparent := by
  rw [transparent_iff] at h ⊢
  have hcache : (s.getTransmission t).2.cacheTransmissions
      = (s.cacheTransmissions.getMut t).2 := by
    rw [BFTPersistentStorage.getTransmission]
    split
    · next heq => rw [heq]
    · next heq =>
      -- a cache that does not have the entry stays as it is
      rw [LruCache.getMut] at heq ⊢
      split at heq
      · rfl
      · cases heq
  have hmap : (s.getTransmission t).2.transmissions = s.transmissions := by
    rw [BFTPersistentStorage.getTransmission]
    split
    · rfl
    · rfl
  intro i e he
  rw [hcache, LruCache.peek_getMut] at he
  rw [hmap]
  exact h i e he

lemma get?_removeTransmissions {l : List TransmissionID} (hnd : l.Nodup) :
    (l.foldl (removeTransmission id) s).transmissions.get? t =
      if t ∈ l then (s.transmissions.get? t).bind fun e =>
        if (e.2.erase id).isEmpty then none else some (e.1, e.2.erase id)
      else s.transmissions.get? t := by
  have hmemory : (l.foldl (removeTransmission id) s).transmissions
      = (l.foldl (BFTMemoryService.removeTransmission id) s.toMemory).transmissions := by
    clear hnd
    induction l generalizing s with
    | nil => rfl
    | cons i l ih => exact ih
  rw [hmemory]
  exact BFTMemoryService.get?_removeTransmissions hnd

lemma cacheTransmissions_removeTransmissions (ids : IndexSet TransmissionID) :
    (s.removeTransmissions id ids).cacheTransmissions = s.cacheTransmissions := by
  have hfold : ∀ {l : List TransmissionID} {s : BFTPersistentStorage},
      (l.foldl (removeTransmission id) s).cacheTransmissions = s.cacheTransmissions := by
    intro l
    induction l with
    | nil => intro s; rfl
    | cons i l ih => exact ih
  exact hfold

/-- **A removal keeps the invariant** just when what it drops has been evicted. -/
lemma Transparent.removeTransmissions_iff (h : s.Transparent) (ids : IndexSet TransmissionID) :
    (s.removeTransmissions id ids).Transparent ↔
      (ServiceCall.removeTransmissions id ids).DropsEvicted s := by
  have hget : ∀ t, (s.removeTransmissions id ids).transmissions.get? t =
      if t ∈ ids.toList then (s.transmissions.get? t).bind fun e =>
        if (e.2.erase id).isEmpty then none else some (e.1, e.2.erase id)
      else s.transmissions.get? t := fun t => get?_removeTransmissions ids.nodup
  have hlast : ∀ e : Transmission × IndexSet Field,
      (e.2.erase id).isEmpty = true ↔ ∀ i ∈ e.2, i = id := by
    intro e
    rw [IndexSet.isEmpty_iff, IndexSet.eq_empty_iff]
    refine forall_congr' fun i => ?_
    rw [IndexSet.mem_erase, not_and_not_right]
  rw [transparent_iff] at h ⊢
  rw [cacheTransmissions_removeTransmissions]
  constructor
  · intro hafter t ht e he hall
    by_contra hcached
    obtain ⟨e', he'⟩ := Option.ne_none_iff_exists'.mp hcached
    have hstored := hafter t e' he'
    rw [hget, if_pos (IndexSet.mem_def.mp ht), he, Option.bind_some,
      if_pos ((hlast e).mpr hall)] at hstored
    cases hstored
  · intro hdrops t e he
    have hstored := h t e he
    obtain ⟨e', he', hfst⟩ := Option.map_eq_some_iff.mp hstored
    rw [hget]
    by_cases ht : t ∈ ids
    · have hrest : ¬ (e'.2.erase id).isEmpty = true := by
        intro hempty
        have hnone := hdrops t ht e' he' ((hlast e').mp hempty)
        cases he.symm.trans hnone
      rw [if_pos (IndexSet.mem_def.mp ht), he', Option.bind_some, if_neg hrest]
      exact congrArg some hfst
    · rw [if_neg fun hmem => ht (IndexSet.mem_def.mpr hmem)]
      exact hstored

/-- **What one call does to the invariant.** -/
lemma Transparent.run_iff (h : s.Transparent) (call : ServiceCall) :
    (call.run s).Transparent ↔ call.DropsEvicted s := by
  cases call with
  | insertTransmissions id ids aborted missing => exact iff_of_true h.insertTransmissions trivial
  | removeTransmissions id ids => exact h.removeTransmissions_iff ids
  | getTransmission t => exact iff_of_true h.getTransmission trivial

end BFTPersistentStorage

/-! ### Sequences of calls -/

/-- **The cache**: in every state of a sequence of calls it gives what the map holds, just when
each transmission that a call drops was evicted before. -/
theorem cache_transparent_iff (capacity : ℕ) (calls : List ServiceCall) :
    (∀ done, done <+: calls → (BFTPersistentStorage.afterCalls capacity done).Transparent) ↔
      ∀ done call, done ++ [call] <+: calls →
        call.DropsEvicted (BFTPersistentStorage.afterCalls capacity done) := by
  constructor
  · intro h done call hdone
    have hbefore := h done ((List.prefix_append _ _).trans hdone)
    have hafter := h _ hdone
    rw [BFTPersistentStorage.afterCalls_concat] at hafter
    exact (hbefore.run_iff call).mp hafter
  · intro h done hdone
    induction done using List.reverseRecOn with
    | nil => exact BFTPersistentStorage.transparent_opened
    | append_singleton done call ih =>
      have hbefore := ih ((List.prefix_append _ _).trans hdone)
      rw [BFTPersistentStorage.afterCalls_concat]
      exact (hbefore.run_iff call).mpr (h done call hdone)

/-- A transmission that is inserted for one certificate, and removed with it. -/
def droppedHistory : List ServiceCall :=
  [.insertTransmissions ⟨10⟩ (IndexSet.ofList [.solution 7 1]) ∅ providedSolution,
    .removeTransmissions ⟨10⟩ (IndexSet.ofList [.solution 7 1])]

/-- The transmission is read from the cache after it was removed. -/
theorem removed_read_from_cache :
    ((BFTPersistentStorage.afterCalls 10000 droppedHistory).containsTransmission
      (.solution 7 1) = false) ∧
    ¬ (BFTPersistentStorage.afterCalls 10000 droppedHistory).Transparent := by
  have hcontains : (BFTPersistentStorage.afterCalls 10000 droppedHistory).containsTransmission
      (.solution 7 1) = false := by decide +kernel
  have hread : ((BFTPersistentStorage.afterCalls 10000 droppedHistory).getTransmission
      (.solution 7 1)).1.isSome = true := by decide +kernel
  refine ⟨hcontains, fun h => ?_⟩
  rw [h.absent _ hcontains] at hread
  cases hread

end AmareleoChain
