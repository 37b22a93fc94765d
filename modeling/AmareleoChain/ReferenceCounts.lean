import AmareleoChain.PersistentStorage

/-!
How the in-memory service counts its references.

A transmission is kept with the certificates that it was inserted for, and so is an ID that was
declared aborted. Over a history of certificates that are inserted and removed, the two maps
together list each stored certificate at each ID that it declares, and list no other.
-/

namespace AmareleoChain

/-! ### The certificates of a history -/

namespace Operation

/-- The certificate of an operation. -/
def certificate : Operation → BatchCertificate
  | .insert c _ _ => c
  | .remove c => c

/-- The certificates that are stored: those that were inserted, and were not removed since. -/
def onStored (s : BFTMemoryService) (stored : List BatchCertificate) :
    Operation → List BatchCertificate
  | .insert c provided aborted =>
    match s.findMissingTransmissions c.batchHeader provided aborted with
    | .ok _ => stored ++ [c]
    | .error _ => stored
  | .remove c => stored.filter fun d => d.id ≠ c.id

end Operation

/-- The certificates that are stored after a history. -/
def storedAfter (ops : List Operation) : List BatchCertificate :=
  (ops.foldl (fun (s : BFTMemoryService × List BatchCertificate) op =>
    (op.onMemory s.1, op.onStored s.1 s.2)) (.empty, [])).2

lemma storedAfter_concat (ops : List Operation) (op : Operation) :
    storedAfter (ops ++ [op]) = op.onStored (memoryAfter ops) (storedAfter ops) := by
  have hmemory : ∀ ops : List Operation,
      (ops.foldl (fun (s : BFTMemoryService × List BatchCertificate) op =>
        (op.onMemory s.1, op.onStored s.1 s.2)) (.empty, [])).1 = memoryAfter ops := by
    intro ops
    induction ops using List.reverseRecOn with
    | nil => rfl
    | append_singleton ops op ih =>
      rw [List.foldl_concat, memoryAfter, List.foldl_concat, ih]
      rfl
  rw [storedAfter, List.foldl_concat, hmemory]
  rfl

lemma memoryAfter_concat (ops : List Operation) (op : Operation) :
    memoryAfter (ops ++ [op]) = op.onMemory (memoryAfter ops) := by
  rw [memoryAfter, List.foldl_concat]
  rfl

namespace BFTMemoryService

variable {s : BFTMemoryService} {t : TransmissionID} {id : Field} {c : BatchCertificate}
  {stored : List BatchCertificate} {ids aborted : IndexSet TransmissionID}
  {provided missing : IndexMap TransmissionID Transmission}

/-! ### What one call leaves at an ID -/

lemma get?_findMissing {known : IndexMap TransmissionID (Transmission × IndexSet Field)}
    {ids : List TransmissionID} (hnd : ids.Nodup) {m : IndexMap TransmissionID Transmission}
    (h : findMissing known aborted ids provided missing = .ok m) :
    m.get? t = if t ∈ ids ∧ t ∉ known.keys ∧ t ∈ provided.keys then provided.get? t
      else missing.get? t := by
  induction ids generalizing provided missing with
  | nil =>
    cases h
    simp
  | cons i ids ih =>
    rw [List.nodup_cons] at hnd
    rw [findMissing] at h
    split at h
    · next hknown =>
      have hknown' : i ∈ known.keys := by simpa using hknown
      rw [ih hnd.2 h]
      refine if_congr (and_congr_left fun hrest => ?_) rfl rfl
      have hne : t ≠ i := fun he => hrest.1 (he ▸ hknown')
      simp [hne]
    next hknown =>
    have hknown' : i ∉ known.keys := by simpa using hknown
    split at h
    · next transmission hget =>
      have hprovided : i ∈ provided.keys := by
        rw [← IndexMap.get?_isSome, hget]
        rfl
      rw [ih hnd.2 h, IndexMap.get?_insert, IndexMap.get?_erase]
      by_cases hti : t = i
      · subst hti
        simp [hnd.1, hknown', hprovided, hget]
      · simp [hti]
    · next hnone =>
      have hprovided : i ∉ provided.keys := by
        rw [← IndexMap.get?_isSome, hnone]
        simp
      split at h
      · rw [ih hnd.2 h]
        refine if_congr (and_congr_left fun hrest => ?_) rfl rfl
        have hne : t ≠ i := fun he => hprovided (he ▸ hrest.2)
        simp [hne]
      · cases h

lemma get?_removeTransmissions {l : List TransmissionID} (hnd : l.Nodup) :
    (l.foldl (removeTransmission id) s).transmissions.get? t =
      if t ∈ l then (s.transmissions.get? t).bind fun e =>
        if (e.2.erase id).isEmpty then none else some (e.1, e.2.erase id)
      else s.transmissions.get? t := by
  induction l generalizing s with
  | nil => rfl
  | cons i l ih =>
    rw [List.nodup_cons] at hnd
    rw [List.foldl_cons, ih hnd.2, get?_removeTransmission]
    rcases eq_or_ne t i with rfl | hne
    · rw [if_neg hnd.1, if_pos rfl, if_pos List.mem_cons_self]
    · simp only [List.mem_cons, hne, false_or, if_false]

lemma get?_aborted_removeTransmissions {l : List TransmissionID} (hnd : l.Nodup) :
    (l.foldl (removeTransmission id) s).abortedTransmissionIds.get? t =
      if t ∈ l then (s.abortedTransmissionIds.get? t).bind fun certificateIds =>
        if (certificateIds.erase id).isEmpty then none else some (certificateIds.erase id)
      else s.abortedTransmissionIds.get? t := by
  induction l generalizing s with
  | nil => rfl
  | cons i l ih =>
    rw [List.nodup_cons] at hnd
    rw [List.foldl_cons, ih hnd.2, get?_aborted_removeTransmission]
    rcases eq_or_ne t i with rfl | hne
    · rw [if_neg hnd.1, if_pos rfl, if_pos List.mem_cons_self]
    · simp only [List.mem_cons, hne, false_or, if_false]

/-- The IDs of the first loop of `insert_transmissions` whose transmission is reported as
missing, and for which the service is asked again whether it contains them. -/
def reported (certificateId : Field) (aborted : IndexSet TransmissionID) : List TransmissionID →
    IndexMap TransmissionID Transmission →
    IndexMap TransmissionID (Transmission × IndexSet Field) → List TransmissionID
  | [], _, _ => []
  | id :: ids, missing, known =>
    match known.get? id with
    | some (transmission, certificateIds) =>
      reported certificateId aborted ids missing
        (known.insert id (transmission, certificateIds.insert certificateId))
    | none =>
      match missing.get? id with
      | some transmission =>
        reported certificateId aborted ids (missing.erase id)
          (known.insert id (transmission, IndexSet.ofList [certificateId]))
      | none =>
        if id ∈ aborted then reported certificateId aborted ids missing known
        else id :: reported certificateId aborted ids missing known

lemma reported_eq_nil {l : List TransmissionID} (hnd : l.Nodup)
    {known : IndexMap TransmissionID (Transmission × IndexSet Field)}
    (h : ∀ t ∈ l, t ∈ known.keys ∨ t ∈ missing.keys ∨ t ∈ aborted) :
    reported id aborted l missing known = [] := by
  induction l generalizing missing known with
  | nil => rfl
  | cons i l ih =>
    rw [List.nodup_cons] at hnd
    rw [List.forall_mem_cons] at h
    rw [reported]
    split
    · refine ih hnd.2 fun t ht => (h.2 t ht).imp_left fun hk => ?_
      rw [IndexMap.mem_keys_insert]
      exact .inl hk
    next hknown =>
    have hknown' : i ∉ known.keys := by
      rw [← IndexMap.get?_isSome, hknown]
      simp
    split
    · refine ih hnd.2 fun t ht => ?_
      have hne : t ≠ i := fun he => hnd.1 (he ▸ ht)
      simp only [IndexMap.mem_keys_insert, IndexMap.mem_keys_erase]
      exact (h.2 t ht).imp .inl (Or.imp_left fun hm => ⟨hm, hne⟩)
    next hmissing =>
    have hmissing' : i ∉ missing.keys := by
      rw [← IndexMap.get?_isSome, hmissing]
      simp
    rw [if_pos ((h.1.resolve_left hknown').resolve_left hmissing')]
    exact ih hnd.2 h.2

/-! ### What is listed -/

/-- The entries of the maps are not empty, and list only what `X` relates to their ID. -/
structure ListsOnly (s : BFTMemoryService) (X : TransmissionID → Field → Prop) : Prop where
  transmissions : ∀ t e, s.transmissions.get? t = some e → e.2 ≠ ∅ ∧ ∀ id ∈ e.2, X t id
  aborted : ∀ t certificateIds, s.abortedTransmissionIds.get? t = some certificateIds →
    certificateIds ≠ ∅ ∧ ∀ id ∈ certificateIds, X t id

variable {X Y : TransmissionID → Field → Prop}

lemma ListsOnly.mono (h : s.ListsOnly X) (hXY : ∀ t id, X t id → Y t id) : s.ListsOnly Y where
  transmissions t e he := ⟨(h.transmissions t e he).1,
    fun id hid => hXY t id ((h.transmissions t e he).2 id hid)⟩
  aborted t ids hids := ⟨(h.aborted t ids hids).1,
    fun id hid => hXY t id ((h.aborted t ids hids).2 id hid)⟩

lemma ListsOnly.exists (h : s.ListsOnly X) (ht : s.containsTransmission t = true) :
    ∃ id, X t id := by
  have hsome : ∀ {ids : IndexSet Field}, ids ≠ ∅ → ∃ id, id ∈ ids := by
    intro ids hne
    rwa [Ne, IndexSet.eq_empty_iff, not_forall_not] at hne
  rw [containsTransmission, Bool.or_eq_true, IndexMap.containsKey_iff, IndexMap.containsKey_iff,
    ← IndexMap.get?_isSome, ← IndexMap.get?_isSome, Option.isSome_iff_exists,
    Option.isSome_iff_exists] at ht
  rcases ht with ⟨e, he⟩ | ⟨ids, hids⟩
  · obtain ⟨hne, hall⟩ := h.transmissions t e he
    obtain ⟨id, hid⟩ := hsome hne
    exact ⟨id, hall id hid⟩
  · obtain ⟨hne, hall⟩ := h.aborted t ids hids
    obtain ⟨id, hid⟩ := hsome hne
    exact ⟨id, hall id hid⟩

/-- **The transmissions of a certificate are inserted.** -/
lemma ListsOnly.insertTransmissions (h : s.ListsOnly X) (hXY : ∀ t id, X t id → Y t id)
    (hids : ∀ t ∈ ids, Y t id) (haborted : ∀ t ∈ aborted, Y t id) :
    (s.insertTransmissions id ids aborted missing).ListsOnly Y := by
  have hold := h.mono hXY
  refine ⟨fun t e he => ?_, fun t certificateIds he => ?_⟩
  · have hget : (s.insertTransmissions id ids aborted missing).transmissions.get? t
        = if t ∈ ids.toList then
            match s.transmissions.get? t with
            | some (transmission, certificateIds) => some (transmission, certificateIds.insert id)
            | none => (missing.get? t).map fun transmission => (transmission, IndexSet.ofList [id])
          else s.transmissions.get? t := get?_insertKnown ids.nodup
    rw [hget] at he
    split at he
    swap
    · exact hold.transmissions t e he
    next ht =>
    split at he
    · next x certificateIds hk =>
      cases he
      refine ⟨IndexSet.insert_ne_empty _ _, fun i hi => ?_⟩
      rcases IndexSet.mem_insert.mp hi with hi | rfl
      · exact (hold.transmissions t _ hk).2 i hi
      · exact hids t ht
    · obtain ⟨x, -, rfl⟩ := Option.map_eq_some_iff.mp he
      refine ⟨IndexSet.insert_ne_empty ∅ id, fun i hi => ?_⟩
      rw [IndexSet.mem_ofList, List.mem_singleton] at hi
      exact hi ▸ hids t ht
  · have hget : (s.insertTransmissions id ids aborted missing).abortedTransmissionIds.get? t
        = if t ∈ aborted.toList then
            some (((s.abortedTransmissionIds.get? t).getD ∅).insert id)
          else s.abortedTransmissionIds.get? t := get?_insertAborted aborted.nodup
    rw [hget] at he
    split at he
    swap
    · exact hold.aborted t certificateIds he
    next ht =>
    cases he
    refine ⟨IndexSet.insert_ne_empty _ _, fun i hi => ?_⟩
    rcases IndexSet.mem_insert.mp hi with hi | rfl
    · cases hk : s.abortedTransmissionIds.get? t with
      | none =>
        rw [hk] at hi
        exact absurd hi (IndexSet.not_mem_empty i)
      | some known =>
        rw [hk] at hi
        exact (hold.aborted t known hk).2 i hi
    · exact haborted t ht

/-- **The transmissions of a certificate are removed.** -/
lemma ListsOnly.removeTransmissions (h : s.ListsOnly X) (id : Field)
    (ids : IndexSet TransmissionID) :
    (s.removeTransmissions id ids).ListsOnly fun t i => X t i ∧ (t ∈ ids → i ≠ id) := by
  refine ⟨fun t e he => ?_, fun t certificateIds he => ?_⟩
  · have hget : (s.removeTransmissions id ids).transmissions.get? t
        = if t ∈ ids.toList then (s.transmissions.get? t).bind fun e =>
            if (e.2.erase id).isEmpty then none else some (e.1, e.2.erase id)
          else s.transmissions.get? t := get?_removeTransmissions ids.nodup
    rw [hget] at he
    split at he
    · obtain ⟨e', he', hif⟩ := Option.bind_eq_some_iff.mp he
      split at hif
      · cases hif
      next hne =>
      cases hif
      refine ⟨by simpa using hne, fun i hi => ?_⟩
      obtain ⟨hi, hine⟩ := IndexSet.mem_erase.mp hi
      exact ⟨(h.transmissions t e' he').2 i hi, fun _ => hine⟩
    · next hnot =>
      obtain ⟨hne, hall⟩ := h.transmissions t e he
      exact ⟨hne, fun i hi => ⟨hall i hi, fun ht => absurd ht hnot⟩⟩
  · have hget : (s.removeTransmissions id ids).abortedTransmissionIds.get? t
        = if t ∈ ids.toList then (s.abortedTransmissionIds.get? t).bind fun certificateIds =>
            if (certificateIds.erase id).isEmpty then none else some (certificateIds.erase id)
          else s.abortedTransmissionIds.get? t := get?_aborted_removeTransmissions ids.nodup
    rw [hget] at he
    split at he
    · obtain ⟨ids', hids', hif⟩ := Option.bind_eq_some_iff.mp he
      split at hif
      · cases hif
      next hne =>
      cases hif
      refine ⟨by simpa using hne, fun i hi => ?_⟩
      obtain ⟨hi, hine⟩ := IndexSet.mem_erase.mp hi
      exact ⟨(h.aborted t ids' hids').2 i hi, fun _ => hine⟩
    · next hnot =>
      obtain ⟨hne, hall⟩ := h.aborted t certificateIds he
      exact ⟨hne, fun i hi => ⟨hall i hi, fun ht => absurd ht hnot⟩⟩

/-! ### The invariant -/

/-- Each stored certificate is listed at each ID that it declares, in one of the maps, and no
entry of either map is empty, or lists anything else. -/
structure Counted (s : BFTMemoryService) (stored : List BatchCertificate) : Prop where
  listed : ∀ c ∈ stored, ∀ t ∈ c.transmissionIds,
    (∃ e, s.transmissions.get? t = some e ∧ c.id ∈ e.2) ∨
    ∃ certificateIds, s.abortedTransmissionIds.get? t = some certificateIds ∧
      c.id ∈ certificateIds
  transmissions : ∀ t e, s.transmissions.get? t = some e →
    e.2 ≠ ∅ ∧ ∀ id ∈ e.2, ∃ c ∈ stored, c.id = id ∧ t ∈ c.transmissionIds
  aborted : ∀ t certificateIds, s.abortedTransmissionIds.get? t = some certificateIds →
    certificateIds ≠ ∅ ∧ ∀ id ∈ certificateIds, ∃ c ∈ stored, c.id = id ∧ t ∈ c.transmissionIds

lemma counted_empty : empty.Counted [] :=
  ⟨fun _ h => (by cases h), fun _ _ h => (by cases h), fun _ _ h => (by cases h)⟩

lemma Counted.listsOnly (h : s.Counted stored) :
    s.ListsOnly fun t id => ∃ c ∈ stored, c.id = id ∧ t ∈ c.transmissionIds :=
  ⟨h.transmissions, h.aborted⟩

lemma Counted.contains_iff (h : s.Counted stored) (t : TransmissionID) :
    s.containsTransmission t = true ↔ ∃ c ∈ stored, t ∈ c.transmissionIds := by
  constructor
  · intro ht
    obtain ⟨id, c, hc, -, ht⟩ := h.listsOnly.exists ht
    exact ⟨c, hc, ht⟩
  · rintro ⟨c, hc, ht⟩
    rw [containsTransmission, Bool.or_eq_true, IndexMap.containsKey_iff, IndexMap.containsKey_iff,
      ← IndexMap.get?_isSome, ← IndexMap.get?_isSome, Option.isSome_iff_exists,
      Option.isSome_iff_exists]
    exact (h.listed c hc t ht).imp (fun ⟨e, he, _⟩ => ⟨e, he⟩) fun ⟨ids, hids, _⟩ => ⟨ids, hids⟩

/-- **A certificate is inserted**, with what was missing. -/
lemma Counted.insert (h : s.Counted stored) (hown : ∀ t ∈ aborted, t ∈ c.transmissionIds)
    (hfind : s.findMissingTransmissions c.batchHeader provided aborted = .ok missing) :
    (s.insertTransmissions c.id c.transmissionIds aborted missing).Counted (stored ++ [c]) := by
  have hfound := (findMissing_spec hfind).2
  have hget : ∀ t, (s.insertTransmissions c.id c.transmissionIds aborted
      missing).transmissions.get? t
      = if t ∈ c.transmissionIds.toList then
          match s.transmissions.get? t with
          | some (transmission, certificateIds) => some (transmission, certificateIds.insert c.id)
          | none => (missing.get? t).map fun transmission => (transmission, IndexSet.ofList [c.id])
        else s.transmissions.get? t :=
    fun t => get?_insertKnown c.transmissionIds.nodup
  have hgetAborted : ∀ t, (s.insertTransmissions c.id c.transmissionIds aborted
      missing).abortedTransmissionIds.get? t = if t ∈ aborted.toList then
          some (((s.abortedTransmissionIds.get? t).getD ∅).insert c.id)
        else s.abortedTransmissionIds.get? t :=
    fun t => get?_insertAborted aborted.nodup
  have hlast : c ∈ stored ++ [c] := List.mem_append_right _ (List.mem_singleton_self c)
  have hold : ∀ {id : Field} {t : TransmissionID},
      (∃ d ∈ stored, d.id = id ∧ t ∈ d.transmissionIds) →
      ∃ d ∈ stored ++ [c], d.id = id ∧ t ∈ d.transmissionIds := by
    rintro id t ⟨d, hd, hrest⟩
    exact ⟨d, List.mem_append_left _ hd, hrest⟩
  have honly : (s.insertTransmissions c.id c.transmissionIds aborted missing).ListsOnly
      fun t id => ∃ d ∈ stored ++ [c], d.id = id ∧ t ∈ d.transmissionIds :=
    h.listsOnly.insertTransmissions (fun t id => hold) (fun t ht => ⟨c, hlast, rfl, ht⟩)
      fun t ht => ⟨c, hlast, rfl, hown t ht⟩
  refine ⟨fun d hd t ht => ?_, honly.transmissions, honly.aborted⟩
  rcases List.mem_append.mp hd with hd | hd
  · -- what was listed still is
    rcases h.listed d hd t ht with ⟨e, he, hid⟩ | ⟨certificateIds, hids, hid⟩
    · left
      rw [hget, he]
      split
      · exact ⟨_, rfl, IndexSet.mem_insert.mpr (.inl hid)⟩
      · exact ⟨e, rfl, hid⟩
    · right
      rw [hgetAborted, hids]
      split
      · exact ⟨_, rfl, IndexSet.mem_insert.mpr (.inl hid)⟩
      · exact ⟨certificateIds, rfl, hid⟩
  · obtain rfl := List.mem_singleton.mp hd
    by_cases hab : t ∈ aborted
    · right
      rw [hgetAborted, if_pos (IndexSet.mem_def.mp hab)]
      exact ⟨_, rfl, IndexSet.mem_insert.mpr (.inr rfl)⟩
    · left
      rw [hget, if_pos (IndexSet.mem_def.mp ht)]
      cases hk : s.transmissions.get? t with
      | some e => exact ⟨_, rfl, IndexSet.mem_insert.mpr (.inr rfl)⟩
      | none =>
        have hknown : t ∉ s.transmissions.keys := by
          rw [← IndexMap.get?_isSome, hk]
          simp
        have hmissing := ((hfound t ht).resolve_left hknown).resolve_right hab
        obtain ⟨x, hx⟩ := Option.isSome_iff_exists.mp (IndexMap.get?_isSome.mpr hmissing)
        rw [hx]
        exact ⟨_, rfl, by simp⟩

/-- **A certificate is removed**, with the IDs that it declares. -/
lemma Counted.remove (h : s.Counted stored)
    (hdeclares : ∀ d ∈ stored, d.id = c.id → d.transmissionIds = c.transmissionIds) :
    (s.removeTransmissions c.id c.transmissionIds).Counted
      (stored.filter fun d => d.id ≠ c.id) := by
  have hget : ∀ t, (s.removeTransmissions c.id c.transmissionIds).transmissions.get? t
      = if t ∈ c.transmissionIds.toList then (s.transmissions.get? t).bind fun e =>
          if (e.2.erase c.id).isEmpty then none else some (e.1, e.2.erase c.id)
        else s.transmissions.get? t :=
    fun t => get?_removeTransmissions c.transmissionIds.nodup
  have hgetAborted : ∀ t,
      (s.removeTransmissions c.id c.transmissionIds).abortedTransmissionIds.get? t
      = if t ∈ c.transmissionIds.toList then (s.abortedTransmissionIds.get? t).bind
          fun certificateIds => if (certificateIds.erase c.id).isEmpty then none
            else some (certificateIds.erase c.id)
        else s.abortedTransmissionIds.get? t :=
    fun t => get?_aborted_removeTransmissions c.transmissionIds.nodup
  -- another certificate stays listed
  have hstays : ∀ {ids : IndexSet Field} {id : Field}, id ∈ ids → id ≠ c.id →
      ¬ (ids.erase c.id).isEmpty = true := by
    intro ids id hid hne hempty
    rw [IndexSet.isEmpty_iff, IndexSet.eq_empty_iff] at hempty
    exact hempty id (IndexSet.mem_erase.mpr ⟨hid, hne⟩)
  -- what is listed is stored still, unless it is the certificate, which is not listed any more
  have hothers : ∀ {id : Field} {t : TransmissionID},
      (∃ d ∈ stored, d.id = id ∧ t ∈ d.transmissionIds) →
      (t ∈ c.transmissionIds → id ≠ c.id) →
      ∃ d ∈ stored.filter (fun d => d.id ≠ c.id), d.id = id ∧ t ∈ d.transmissionIds := by
    rintro id t ⟨d, hd, rfl, ht⟩ hne
    refine ⟨d, List.mem_filter.mpr ⟨hd, decide_eq_true fun hid => ?_⟩, rfl, ht⟩
    exact hne (hdeclares d hd hid ▸ ht) hid
  have honly := (h.listsOnly.removeTransmissions c.id c.transmissionIds).mono
    fun t id hx => hothers hx.1 hx.2
  refine ⟨fun d hd t ht => ?_, honly.transmissions, honly.aborted⟩
  obtain ⟨hd, hne⟩ := List.mem_filter.mp hd
  have hne' : d.id ≠ c.id := of_decide_eq_true hne
  rcases h.listed d hd t ht with ⟨e, he, hid⟩ | ⟨certificateIds, hids, hid⟩
  · left
    rw [hget, he, Option.bind_some, if_neg (hstays hid hne')]
    split
    · exact ⟨_, rfl, IndexSet.mem_erase.mpr ⟨hid, hne'⟩⟩
    · exact ⟨e, rfl, hid⟩
  · right
    rw [hgetAborted, hids, Option.bind_some, if_neg (hstays hid hne')]
    split
    · exact ⟨_, rfl, IndexSet.mem_erase.mpr ⟨hid, hne'⟩⟩
    · exact ⟨certificateIds, rfl, hid⟩

/-- **What one operation does to a transmission that is stored**: it keeps it, unless it removes
the last certificate that is recorded for it. -/
lemma getTransmission_onMemory (op : Operation) {x : Transmission}
    (h : s.getTransmission t = some x) :
    (op.onMemory s).getTransmission t = some x ∨
      ∃ c, op = .remove c ∧ t ∈ c.transmissionIds ∧
        ∃ ids, s.transmissions.get? t = some (x, ids) ∧ ∀ id ∈ ids, id = c.id := by
  obtain ⟨⟨y, ids⟩, he, rfl⟩ := Option.map_eq_some_iff.mp h
  cases op with
  | insert c provided aborted =>
    left
    rw [Operation.onMemory]
    split
    · rw [getTransmission, insertTransmissions, get?_insertKnown c.transmissionIds.nodup, he]
      split
      · rfl
      · rfl
    · exact h
  | remove c =>
    have hget : (Operation.onMemory s (.remove c)).transmissions.get? t =
        if t ∈ c.transmissionIds.toList then (s.transmissions.get? t).bind fun e =>
          if (e.2.erase c.id).isEmpty then none else some (e.1, e.2.erase c.id)
        else s.transmissions.get? t :=
      get?_removeTransmissions c.transmissionIds.nodup
    rw [he, Option.bind_some] at hget
    by_cases hlast : t ∈ c.transmissionIds ∧ (ids.erase c.id).isEmpty = true
    · right
      refine ⟨c, rfl, hlast.1, ids, he, fun id hid => ?_⟩
      by_contra hne
      rw [IndexSet.isEmpty_iff, IndexSet.eq_empty_iff] at hlast
      exact hlast.2 id (IndexSet.mem_erase.mpr ⟨hid, hne⟩)
    · left
      rw [getTransmission, hget]
      by_cases ht : t ∈ c.transmissionIds.toList
      · rw [if_pos ht, if_neg fun hempty => hlast ⟨IndexSet.mem_def.mpr ht, hempty⟩]
        rfl
      · rw [if_neg ht]
        rfl

lemma getTransmission_insert {x : Transmission}
    (hfind : s.findMissingTransmissions c.batchHeader provided aborted = .ok missing)
    (ht : t ∈ c.transmissionIds) (hnew : s.getTransmission t = none)
    (hx : provided.get? t = some x) :
    (Operation.onMemory s (.insert c provided aborted)).getTransmission t = some x := by
  have hnone : s.transmissions.get? t = none := Option.map_eq_none_iff.mp hnew
  have hknown : t ∉ s.transmissions.keys := by
    rw [← IndexMap.get?_isSome, hnone]
    exact Bool.false_ne_true
  have hprovided : t ∈ provided.keys := by
    rw [← IndexMap.get?_isSome, hx]
    rfl
  have hmissing : missing.get? t = some x := by
    have hget := get?_findMissing (t := t) c.transmissionIds.nodup hfind
    rw [hget, if_pos ⟨IndexSet.mem_def.mp ht, hknown, hprovided⟩, hx]
  rw [Operation.onMemory, hfind]
  dsimp only
  rw [getTransmission, insertTransmissions, get?_insertKnown c.transmissionIds.nodup,
    if_pos (IndexSet.mem_def.mp ht), hnone]
  dsimp only
  rw [hmissing]
  rfl

end BFTMemoryService

/-! ### Histories -/

section Histories

variable {ops : List Operation}

lemma mem_storedAfter {c : BatchCertificate} (h : c ∈ storedAfter ops) :
    ∃ op ∈ ops, op.certificate = c := by
  induction ops using List.reverseRecOn with
  | nil => cases h
  | append_singleton ops op ih =>
    rw [storedAfter_concat] at h
    have hold : c ∈ storedAfter ops → ∃ op' ∈ ops ++ [op], op'.certificate = c := by
      intro h
      obtain ⟨op', hop, hc⟩ := ih h
      exact ⟨op', List.mem_append_left _ hop, hc⟩
    cases op with
    | insert d provided aborted =>
      rw [Operation.onStored] at h
      split at h
      · rcases List.mem_append.mp h with h | h
        · exact hold h
        · exact ⟨_, List.mem_append_right _ (.head _), (List.mem_singleton.mp h).symm⟩
      · exact hold h
    | remove d => exact hold (List.mem_of_mem_filter h)

/-- Certificates of one ID declare the same transmissions. -/
def SameIds (ops : List Operation) : Prop :=
  ∀ op ∈ ops, ∀ op' ∈ ops, op.certificate.id = op'.certificate.id →
    op.certificate.transmissionIds = op'.certificate.transmissionIds

/-- **The maps list the stored certificates**, after every history. -/
lemma counted_memoryAfter (hown : ∀ op ∈ ops, op.OwnAborted) (hids : SameIds ops) :
    (memoryAfter ops).Counted (storedAfter ops) := by
  induction ops using List.reverseRecOn with
  | nil => exact BFTMemoryService.counted_empty
  | append_singleton ops op ih =>
    have hbefore : ∀ op' ∈ ops, op' ∈ ops ++ [op] := fun op' hop => List.mem_append_left _ hop
    have hlast : op ∈ ops ++ [op] := List.mem_append_right _ (.head _)
    have hcounted := ih (fun op' hop => hown op' (hbefore op' hop))
      fun op' hop op'' hop' => hids op' (hbefore op' hop) op'' (hbefore op'' hop')
    rw [memoryAfter_concat, storedAfter_concat]
    cases op with
    | insert c provided aborted =>
      rw [Operation.onMemory, Operation.onStored]
      cases hfind : (memoryAfter ops).findMissingTransmissions c.batchHeader provided aborted with
      | ok missing => exact hcounted.insert (hown _ hlast) hfind
      | error _ => exact hcounted
    | remove c =>
      refine hcounted.remove fun d hd hid => ?_
      obtain ⟨op', hop, rfl⟩ := mem_storedAfter hd
      exact hids op' (hbefore op' hop) _ hlast hid

lemma getTransmission_memoryAfter {t : TransmissionID} {x : Transmission} (more : List Operation)
    (h : (memoryAfter ops).getTransmission t = some x) :
    (memoryAfter (ops ++ more)).getTransmission t = some x ∨
      ∃ between c rest, more = between ++ .remove c :: rest ∧ t ∈ c.transmissionIds ∧
        ∃ ids, (memoryAfter (ops ++ between)).transmissions.get? t = some (x, ids) ∧
          ∀ id ∈ ids, id = c.id := by
  induction more using List.reverseRecOn with
  | nil =>
    rw [List.append_nil]
    exact .inl h
  | append_singleton more op ih =>
    rcases ih with hstays | ⟨between, c, rest, rfl, hrest⟩
    · rw [← List.append_assoc, memoryAfter_concat]
      rcases BFTMemoryService.getTransmission_onMemory op hstays with hop | ⟨c, rfl, hc⟩
      · exact .inl hop
      · exact .inr ⟨more, c, [], rfl, hc⟩
    · exact .inr ⟨between, c, rest ++ [op], by simp, hrest⟩

/-- **Reference counting**. After every history the two maps list each stored certificate at the
IDs that it declares, and nothing else, so that an ID is contained just when a stored certificate
declares it. A certificate that is accepted is inserted with nothing reported as missing, and what
it came with can be read from then on, unchanged, until the last certificate that is recorded for
it is removed. -/
theorem references_counted (ops : List Operation) (hown : ∀ op ∈ ops, op.OwnAborted)
    (hids : SameIds ops) :
    (memoryAfter ops).Counted (storedAfter ops) ∧
    (∀ t, (memoryAfter ops).containsTransmission t = true ↔
      ∃ c ∈ storedAfter ops, t ∈ c.transmissionIds) ∧
    (∀ c provided aborted missing,
      (memoryAfter ops).findMissingTransmissions c.batchHeader provided aborted = .ok missing →
      BFTMemoryService.reported c.id aborted c.transmissionIds.toList missing
        (memoryAfter ops).transmissions = [] ∧
      ∀ t ∈ c.transmissionIds, ∀ x, (memoryAfter ops).getTransmission t = none →
        provided.get? t = some x →
        (memoryAfter (ops ++ [.insert c provided aborted])).getTransmission t = some x) ∧
    ∀ t x, (memoryAfter ops).getTransmission t = some x → ∀ more,
      (memoryAfter (ops ++ more)).getTransmission t = some x ∨
      ∃ between c rest, more = between ++ .remove c :: rest ∧ t ∈ c.transmissionIds ∧
        ∃ ids, (memoryAfter (ops ++ between)).transmissions.get? t = some (x, ids) ∧
          ∀ id ∈ ids, id = c.id := by
  have hcounted := counted_memoryAfter hown hids
  refine ⟨hcounted, hcounted.contains_iff, fun c provided aborted missing hfind => ⟨?_, ?_⟩,
    fun t x h more => getTransmission_memoryAfter more h⟩
  · exact BFTMemoryService.reported_eq_nil c.transmissionIds.nodup
      (BFTMemoryService.findMissing_spec hfind).2
  · intro t ht x hnew hx
    rw [memoryAfter_concat]
    exact BFTMemoryService.getTransmission_insert hfind ht hnew hx

/-- The transmission that the two certificates share is listed for the one that is left, and goes
with it. -/
theorem references_counted_settledHistory :
    (memoryAfter settledHistory).Counted [pairCertificate] ∧
    (memoryAfter settledHistory).containsTransmission (.solution 7 1) = true ∧
    (memoryAfter (settledHistory ++ [.remove pairCertificate])).containsTransmission
      (.solution 7 1) = false := by
  have hstored : storedAfter settledHistory = [pairCertificate] := by decide +kernel
  have hnone : storedAfter (settledHistory ++ [.remove pairCertificate]) = [] := by decide +kernel
  have hids : SameIds (settledHistory ++ [.remove pairCertificate]) := by
    unfold SameIds
    decide +kernel
  obtain ⟨hcounted, hcontains, -⟩ := references_counted settledHistory (by decide)
    fun op hop op' hop' => hids op (List.mem_append_left _ hop) op' (List.mem_append_left _ hop')
  obtain ⟨-, hgone, -⟩ := references_counted (settledHistory ++ [.remove pairCertificate])
    (by decide) hids
  rw [hstored] at hcounted hcontains
  refine ⟨hcounted, (hcontains _).mpr ⟨_, List.mem_singleton_self _, by decide⟩, ?_⟩
  rw [← Bool.not_eq_true, hgone, hnone]
  rintro ⟨c, hc, -⟩
  cases hc

end Histories

end AmareleoChain
