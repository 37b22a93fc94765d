import AmareleoChain.StorageService
import AmareleoChain.Development
import AmareleoChain.Library.LruCache

/-!
The persistent storage service, against the in-memory one.

`find_missing_transmissions` of the persistent service takes an ID for known when it was
declared aborted, that of the in-memory service only when its transmission is stored. Apart from
this the persistent service is the in-memory one, with two caches. So the two agree in every
state of a history in which each ID that is declared aborted has its transmission stored or
provided, and in no other.
-/

namespace AmareleoChain

/-! ### The persistent service -/

/-- `BFTPersistentStorage<N>`, over database operations that succeed. -/
structure BFTPersistentStorage where
  transmissions : IndexMap TransmissionID (Transmission × IndexSet Field)
  abortedTransmissionIds : IndexMap TransmissionID (IndexSet Field)
  cacheTransmissions : LruCache TransmissionID (Transmission × IndexSet Field)
  cacheAbortedTransmissionIds : LruCache TransmissionID (IndexSet Field)

namespace BFTPersistentStorage

/-- `open` on an empty database. -/
def new (maxCommitteeSize maxTransmissionsPerBatch : ℕ) : BFTPersistentStorage :=
  let capacity := maxCommitteeSize * maxTransmissionsPerBatch * 2
  ⟨∅, ∅, ⟨capacity, []⟩, ⟨capacity, []⟩⟩

def containsTransmission (s : BFTPersistentStorage) (id : TransmissionID) : Bool :=
  s.transmissions.containsKey id || s.abortedTransmissionIds.containsKey id

def getTransmission (s : BFTPersistentStorage) (id : TransmissionID) :
    Option Transmission × BFTPersistentStorage :=
  match s.cacheTransmissions.getMut id with
  | (some (transmission, _), cache) => (some transmission, { s with cacheTransmissions := cache })
  | (none, _) => ((s.transmissions.get? id).map Prod.fst, s)

/-- The loop of `find_missing_transmissions` over the declared IDs. -/
def findMissing (s : BFTPersistentStorage) (aborted : IndexSet TransmissionID) :
    List TransmissionID → IndexMap TransmissionID Transmission →
    IndexMap TransmissionID Transmission →
    Except String (IndexMap TransmissionID Transmission)
  | [], _, missing => .ok missing
  | id :: ids, transmissions, missing =>
    if s.containsTransmission id then findMissing s aborted ids transmissions missing
    else
      match transmissions.get? id with
      | some transmission =>
        findMissing s aborted ids (transmissions.erase id) (missing.insert id transmission)
      | none =>
        if id ∈ aborted then findMissing s aborted ids transmissions missing
        else .error "Failed to provide a transmission"

def findMissingTransmissions (s : BFTPersistentStorage) (header : BatchHeader)
    (transmissions : IndexMap TransmissionID Transmission) (aborted : IndexSet TransmissionID) :
    Except String (IndexMap TransmissionID Transmission) :=
  s.findMissing aborted header.transmissionIds.toList transmissions ∅

/-- An entry written to the database and to its cache. -/
def insert (s : BFTPersistentStorage) (id : TransmissionID)
    (entry : Transmission × IndexSet Field) : BFTPersistentStorage :=
  { s with
    transmissions := s.transmissions.insert id entry
    cacheTransmissions := s.cacheTransmissions.put id entry }

/-- The first loop of `insert_transmissions`. -/
def insertKnown (certificateId : Field) : List TransmissionID →
    IndexMap TransmissionID Transmission → BFTPersistentStorage → BFTPersistentStorage
  | [], _, s => s
  | id :: ids, missing, s =>
    match s.transmissions.get? id with
    | some (transmission, certificateIds) =>
      insertKnown certificateId ids missing
        (s.insert id (transmission, certificateIds.insert certificateId))
    | none =>
      match missing.get? id with
      | some transmission =>
        insertKnown certificateId ids (missing.erase id)
          (s.insert id (transmission, IndexSet.ofList [certificateId]))
      | none => insertKnown certificateId ids missing s

/-- One turn of the second loop of `insert_transmissions`. -/
def insertAborted (certificateId : Field) (s : BFTPersistentStorage) (id : TransmissionID) :
    BFTPersistentStorage :=
  let certificateIds := ((s.abortedTransmissionIds.get? id).getD ∅).insert certificateId
  { s with
    abortedTransmissionIds := s.abortedTransmissionIds.insert id certificateIds
    cacheAbortedTransmissionIds := s.cacheAbortedTransmissionIds.put id certificateIds }

def insertTransmissions (s : BFTPersistentStorage) (certificateId : Field)
    (ids aborted : IndexSet TransmissionID) (missing : IndexMap TransmissionID Transmission) :
    BFTPersistentStorage :=
  aborted.toList.foldl (insertAborted certificateId)
    (s.insertKnown certificateId ids.toList missing)

/-- One turn of the loop of `remove_transmissions`. The caches keep their entries. -/
def removeTransmission (certificateId : Field) (s : BFTPersistentStorage) (id : TransmissionID) :
    BFTPersistentStorage :=
  { s with
    transmissions :=
      match s.transmissions.get? id with
      | some (transmission, certificateIds) =>
        if (certificateIds.erase certificateId).isEmpty then s.transmissions.erase id
        else s.transmissions.insert id (transmission, certificateIds.erase certificateId)
      | none => s.transmissions
    abortedTransmissionIds :=
      match s.abortedTransmissionIds.get? id with
      | some certificateIds =>
        if (certificateIds.erase certificateId).isEmpty then s.abortedTransmissionIds.erase id
        else s.abortedTransmissionIds.insert id (certificateIds.erase certificateId)
      | none => s.abortedTransmissionIds }

def removeTransmissions (s : BFTPersistentStorage) (certificateId : Field)
    (ids : IndexSet TransmissionID) : BFTPersistentStorage :=
  ids.toList.foldl (removeTransmission certificateId) s

/-- The service of the node. What a read does to the order of the caches is left out. -/
instance : StorageService BFTPersistentStorage where
  containsTransmission := containsTransmission
  getTransmission s id := (s.getTransmission id).1
  findMissingTransmissions := findMissingTransmissions
  insertTransmissions := insertTransmissions
  removeTransmissions := removeTransmissions

/-! ### The in-memory service behind it -/

/-- The maps without their caches. -/
def toMemory (s : BFTPersistentStorage) : BFTMemoryService :=
  ⟨s.transmissions, s.abortedTransmissionIds⟩

variable {s : BFTPersistentStorage} {id : TransmissionID} {certificateId : Field}

lemma toMemory_insertKnown (certificateId : Field) (ids : List TransmissionID)
    (missing : IndexMap TransmissionID Transmission) (s : BFTPersistentStorage) :
    (s.insertKnown certificateId ids missing).toMemory =
      ⟨BFTMemoryService.insertKnown certificateId ids missing s.transmissions,
        s.abortedTransmissionIds⟩ := by
  induction ids generalizing missing s with
  | nil => rfl
  | cons id ids ih =>
    rw [insertKnown, BFTMemoryService.insertKnown]
    cases s.transmissions.get? id with
    | some e => exact ih missing _
    | none =>
      cases missing.get? id with
      | some transmission => exact ih (missing.erase id) _
      | none => exact ih missing s

lemma toMemory_insertTransmissions (s : BFTPersistentStorage) (certificateId : Field)
    (ids aborted : IndexSet TransmissionID) (missing : IndexMap TransmissionID Transmission) :
    (s.insertTransmissions certificateId ids aborted missing).toMemory
      = s.toMemory.insertTransmissions certificateId ids aborted missing := by
  have hfold : ∀ (l : List TransmissionID) (s : BFTPersistentStorage),
      (l.foldl (insertAborted certificateId) s).toMemory = ⟨s.transmissions,
        BFTMemoryService.insertAborted certificateId l s.abortedTransmissionIds⟩ := by
    intro l
    induction l with
    | nil => intro s; rfl
    | cons i l ih => intro s; rw [List.foldl_cons, ih]; rfl
  have hknown := toMemory_insertKnown certificateId ids.toList missing s
  rw [insertTransmissions, hfold]
  rw [toMemory, BFTMemoryService.mk.injEq] at hknown
  rw [hknown.1, hknown.2]
  rfl

lemma toMemory_removeTransmissions (s : BFTPersistentStorage) (certificateId : Field)
    (ids : IndexSet TransmissionID) :
    (s.removeTransmissions certificateId ids).toMemory
      = s.toMemory.removeTransmissions certificateId ids := by
  unfold removeTransmissions BFTMemoryService.removeTransmissions
  generalize ids.toList = l
  induction l generalizing s with
  | nil => rfl
  | cons i l ih => rw [List.foldl_cons, List.foldl_cons, ih]; rfl

lemma findMissing_eq {aborted : IndexSet TransmissionID} {ids : List TransmissionID}
    (h : ∀ t ∈ ids, s.containsTransmission t = s.transmissions.containsKey t)
    (provided missing : IndexMap TransmissionID Transmission) :
    s.findMissing aborted ids provided missing
      = BFTMemoryService.findMissing s.transmissions aborted ids provided missing := by
  induction ids generalizing provided missing with
  | nil => rfl
  | cons id ids ih =>
    have ih := ih fun t ht => h t (.tail _ ht)
    rw [findMissing, BFTMemoryService.findMissing, h id (.head _)]
    split
    · exact ih provided missing
    · cases provided.get? id with
      | some transmission => exact ih _ _
      | none =>
        dsimp only
        split
        · exact ih provided missing
        · rfl

/-- The maps are in order, and no ID is declared aborted. -/
structure Valid (s : BFTPersistentStorage) : Prop where
  maps : s.toMemory.Valid
  aborted : s.abortedTransmissionIds = ∅

lemma valid_new (maxCommitteeSize maxTransmissionsPerBatch : ℕ) :
    (new maxCommitteeSize maxTransmissionsPerBatch).Valid :=
  ⟨BFTMemoryService.valid_empty, rfl⟩

lemma Valid.containsTransmission (h : s.Valid) (t : TransmissionID) :
    s.containsTransmission t = s.transmissions.containsKey t := by
  rw [BFTPersistentStorage.containsTransmission, h.aborted]
  exact Bool.or_false _

lemma getTransmission_isSome (h : id ∈ s.transmissions.keys) : (s.getTransmission id).1.isSome := by
  unfold getTransmission
  split
  · rfl
  · rw [← IndexMap.get?_isSome] at h
    exact Option.isSome_map.trans h

lemma Valid.insertTransmissions (h : s.Valid) (ids : IndexSet TransmissionID)
    (m : IndexMap TransmissionID Transmission) :
    (s.insertTransmissions certificateId ids ∅ m).Valid := by
  have hmaps := s.toMemory_insertTransmissions certificateId ids ∅ m
  refine ⟨hmaps ▸ h.maps.insertTransmissions, ?_⟩
  have haborted := congrArg BFTMemoryService.abortedTransmissionIds hmaps
  exact haborted.trans h.aborted

lemma Valid.removeTransmissions (h : s.Valid) (ids : IndexSet TransmissionID) :
    (s.removeTransmissions certificateId ids).Valid := by
  refine List.foldlRecOn (motive := Valid) ids.toList _ h fun s hs t _ => ?_
  refine ⟨hs.maps.removeTransmission t, ?_⟩
  unfold removeTransmission
  rw [hs.aborted]
  rfl

/-- **The persistent service** keeps transmissions as the node relies on, as long as no ID is
declared aborted. -/
instance : LawfulStorageService BFTPersistentStorage where
  Valid := Valid
  Keeps s := s.toMemory.Keeps
  TellsAborted := False
  getTransmission_isSome h hkeeps := getTransmission_isSome (h.maps.keeps_iff.mp ⟨_, hkeeps⟩)
  findMissing_ok h hm t ht := by
    have hmemory := (findMissing_eq (fun t _ => h.containsTransmission t) _ _).symm.trans hm
    rw [h.maps.keeps_iff]
    exact (BFTMemoryService.findMissing_spec hmemory).2 t ht
  keeps_insert {s id id' ids aborted m t} h := by
    have hinsert : (s.toMemory.insertTransmissions id ids aborted m).Keeps t id' ↔ _ :=
      BFTMemoryService.keeps_insertTransmissions h.maps
    rw [← toMemory_insertTransmissions] at hinsert
    exact hinsert
  valid_insert h haborted := by
    obtain rfl := haborted.resolve_left not_false
    exact h.insertTransmissions _ _
  keeps_remove {s id id' ids t} := by
    have hremove : (s.toMemory.removeTransmissions id ids).Keeps t id' ↔ _ :=
      BFTMemoryService.keeps_removeTransmissions
    rw [← toMemory_removeTransmissions] at hremove
    exact hremove
  valid_remove h := h.removeTransmissions _

end BFTPersistentStorage

/-! ### Histories -/

/-- What a history does with a certificate. -/
inductive Operation where
  /-- The missing transmissions are looked up and, when all are found, the certificate's
  transmissions inserted. -/
  | insert (certificate : BatchCertificate) (provided : IndexMap TransmissionID Transmission)
      (aborted : IndexSet TransmissionID)
  | remove (certificate : BatchCertificate)

namespace Operation

/-- The IDs declared aborted are among the certificate's own. -/
def OwnAborted : Operation → Prop
  | .insert certificate _ aborted => ∀ t ∈ aborted, t ∈ certificate.transmissionIds
  | .remove _ => True

instance : DecidablePred OwnAborted
  | .insert certificate _ aborted =>
    inferInstanceAs (Decidable (∀ t ∈ aborted, t ∈ certificate.transmissionIds))
  | .remove _ => isTrue trivial

/-- The history of the in-memory service. -/
def onMemory (s : BFTMemoryService) : Operation → BFTMemoryService
  | .insert c provided aborted =>
    match s.findMissingTransmissions c.batchHeader provided aborted with
    | .ok missing => s.insertTransmissions c.id c.transmissionIds aborted missing
    | .error _ => s
  | .remove c => s.removeTransmissions c.id c.transmissionIds

/-- The history of the persistent service. -/
def onPersistent (s : BFTPersistentStorage) : Operation → BFTPersistentStorage
  | .insert c provided aborted =>
    match s.findMissingTransmissions c.batchHeader provided aborted with
    | .ok missing => s.insertTransmissions c.id c.transmissionIds aborted missing
    | .error _ => s
  | .remove c => s.removeTransmissions c.id c.transmissionIds

/-- On a state of the transmissions map, each ID declared aborted has its transmission stored or
provided, unless some ID of the certificate cannot be accounted for, so that it is refused. -/
def Settled (s : BFTMemoryService) : Operation → Prop
  | .insert c provided aborted =>
    (∃ t ∈ c.transmissionIds,
      t ∉ s.transmissions.keys ∧ t ∉ provided.keys ∧ t ∉ aborted) ∨
    ∀ t ∈ aborted, t ∈ s.transmissions.keys ∨ t ∈ provided.keys
  | .remove _ => True

instance (s : BFTMemoryService) : DecidablePred (Settled s)
  | .insert c provided aborted =>
    inferInstanceAs (Decidable ((∃ t ∈ c.transmissionIds,
      t ∉ s.transmissions.keys ∧ t ∉ provided.keys ∧ t ∉ aborted) ∨
      ∀ t ∈ aborted, t ∈ s.transmissions.keys ∨ t ∈ provided.keys))
  | .remove _ => isTrue trivial

end Operation

/-- The two services give the same answers: to `find_missing_transmissions` on every header and
input, to `contains_transmission` on every ID, and as maps of transmissions. -/
structure Agree (m : BFTMemoryService) (p : BFTPersistentStorage) : Prop where
  findMissing : ∀ header provided aborted,
    p.findMissingTransmissions header provided aborted
      = m.findMissingTransmissions header provided aborted
  contains : ∀ t, p.containsTransmission t = m.containsTransmission t
  transmissions : ∀ t, p.transmissions.get? t = m.transmissions.get? t

namespace BFTMemoryService

variable {s : BFTMemoryService} {t : TransmissionID} {id : Field}

lemma findMissing_subset {known : IndexMap TransmissionID (Transmission × IndexSet Field)}
    {aborted : IndexSet TransmissionID} {ids : List TransmissionID}
    {provided missing m : IndexMap TransmissionID Transmission}
    (h : findMissing known aborted ids provided missing = .ok m) (ht : t ∈ m.keys) :
    t ∈ missing.keys ∨ t ∈ provided.keys := by
  induction ids generalizing provided missing with
  | nil => cases h; exact .inl ht
  | cons id ids ih =>
    rw [findMissing] at h
    split at h
    · exact ih h
    · split at h
      · next transmission hget =>
        rcases ih h with hm | hp
        · rw [IndexMap.mem_keys_insert] at hm
          refine hm.imp_right fun he => ?_
          rw [he, ← IndexMap.get?_isSome, hget]
          rfl
        · exact .inr (IndexMap.mem_keys_erase.mp hp).1
      · split at h
        · exact ih h
        · cases h

lemma findMissing_provided {known : IndexMap TransmissionID (Transmission × IndexSet Field)}
    {aborted : IndexSet TransmissionID} {ids : List TransmissionID}
    {provided missing m : IndexMap TransmissionID Transmission}
    (h : findMissing known aborted ids provided missing = .ok m) (ht : t ∈ ids)
    (hknown : t ∉ known.keys) (hprovided : t ∈ provided.keys) : t ∈ m.keys := by
  induction ids generalizing provided missing with
  | nil => cases ht
  | cons id ids ih =>
    rw [findMissing] at h
    rcases eq_or_ne t id with rfl | hne
    · rw [if_neg (by simpa using hknown)] at h
      obtain ⟨transmission, hget⟩ := Option.isSome_iff_exists.mp
        (IndexMap.get?_isSome.mpr hprovided)
      rw [hget] at h
      exact (findMissing_spec h).1 t (by simp)
    · have hmem : t ∈ ids := (List.mem_cons.mp ht).resolve_left hne
      split at h
      · exact ih h hmem hprovided
      · split at h
        · exact ih h hmem (IndexMap.mem_keys_erase.mpr ⟨hprovided, hne⟩)
        · split at h
          · exact ih h hmem hprovided
          · cases h

lemma get?_insertAborted {ids : List TransmissionID} (hnd : ids.Nodup)
    {aborted : IndexMap TransmissionID (IndexSet Field)} :
    (insertAborted id ids aborted).get? t =
      if t ∈ ids then some (((aborted.get? t).getD ∅).insert id) else aborted.get? t := by
  unfold insertAborted
  induction ids generalizing aborted with
  | nil => simp
  | cons i ids ih =>
    rw [List.nodup_cons] at hnd
    rw [List.foldl_cons, ih hnd.2, IndexMap.get?_insert]
    rcases eq_or_ne t i with rfl | hne
    · rw [if_neg hnd.1, if_pos rfl, if_pos List.mem_cons_self]
    · simp only [List.mem_cons, hne, false_or, if_false]

lemma get?_aborted_removeTransmission {i : TransmissionID} :
    (removeTransmission id s i).abortedTransmissionIds.get? t =
      if t = i then
        (s.abortedTransmissionIds.get? t).bind fun certificateIds =>
          if (certificateIds.erase id).isEmpty then none else some (certificateIds.erase id)
      else s.abortedTransmissionIds.get? t := by
  unfold removeTransmission
  dsimp only
  rcases eq_or_ne t i with rfl | hne
  · rw [if_pos rfl]
    cases hk : s.abortedTransmissionIds.get? t with
    | none => exact hk
    | some certificateIds =>
      dsimp only
      rw [Option.bind_some]
      split
      · rw [IndexMap.get?_erase, if_pos rfl]
      · rw [IndexMap.get?_insert, if_pos rfl]
  · rw [if_neg hne]
    split
    · split
      · rw [IndexMap.get?_erase, if_neg hne]
      · rw [IndexMap.get?_insert, if_neg hne]
    · rfl

/-- Each certificate for which an ID is kept as aborted is one for which its transmission is
kept. -/
def AbortedStored (s : BFTMemoryService) : Prop :=
  ∀ t certificateIds, s.abortedTransmissionIds.get? t = some certificateIds →
    ∃ e, s.transmissions.get? t = some e ∧ ∀ i ∈ certificateIds, i ∈ e.2

lemma AbortedStored.empty : empty.AbortedStored := fun _ _ h => by cases h

lemma AbortedStored.removeTransmissions (h : s.AbortedStored) (id : Field)
    (ids : IndexSet TransmissionID) : (s.removeTransmissions id ids).AbortedStored := by
  refine List.foldlRecOn ids.toList _ h fun s h i _ t certificateIds hget => ?_
  rw [get?_aborted_removeTransmission] at hget
  rw [get?_removeTransmission]
  split at hget
  · next hti =>
    obtain ⟨cs, hcs, hif⟩ := Option.bind_eq_some_iff.mp hget
    obtain ⟨e, he, hsub⟩ := h t cs hcs
    split at hif
    · cases hif
    · next hne =>
      cases hif
      rw [if_pos hti, he, Option.bind_some]
      -- the certificates left as aborted are left for the transmission
      have hsub' : ∀ j ∈ cs.erase id, j ∈ e.2.erase id := fun j hj =>
        IndexSet.mem_erase.mpr ⟨hsub j (IndexSet.mem_erase.mp hj).1, (IndexSet.mem_erase.mp hj).2⟩
      rw [if_neg]
      · exact ⟨_, rfl, hsub'⟩
      · intro hempty
        rw [IndexSet.isEmpty_iff, IndexSet.eq_empty_iff] at hempty hne
        exact hne fun j hj => hempty j (hsub' j hj)
  · next hti =>
    rw [if_neg hti]
    exact h t certificateIds hget

lemma AbortedStored.insertTransmissions (h : s.AbortedStored) (id : Field)
    {ids aborted : IndexSet TransmissionID} {missing : IndexMap TransmissionID Transmission}
    (hown : ∀ t ∈ aborted, t ∈ ids)
    (hfound : ∀ t ∈ aborted, t ∈ s.transmissions.keys ∨ t ∈ missing.keys) :
    (s.insertTransmissions id ids aborted missing).AbortedStored := by
  intro t certificateIds hget
  unfold BFTMemoryService.insertTransmissions at hget ⊢
  dsimp only at hget ⊢
  rw [get?_insertAborted aborted.nodup] at hget
  rw [get?_insertKnown ids.nodup]
  split at hget
  · next hab =>
    cases hget
    rw [if_pos (IndexSet.mem_def.mp (hown t hab))]
    cases hk : s.transmissions.get? t with
    | some e =>
      refine ⟨_, rfl, fun i hi => ?_⟩
      rw [IndexSet.mem_insert] at hi ⊢
      refine hi.imp_left fun hi => ?_
      cases hcs : s.abortedTransmissionIds.get? t with
      | none => rw [hcs] at hi; exact absurd hi (IndexSet.not_mem_empty i)
      | some cs =>
        rw [hcs] at hi
        obtain ⟨e', he', hsub⟩ := h t cs hcs
        cases hk.symm.trans he'
        exact hsub i hi
    | none =>
      have hno : t ∉ s.transmissions.keys := by rw [← IndexMap.get?_isSome, hk]; simp
      have hm := (hfound t hab).resolve_left hno
      obtain ⟨transmission, hget⟩ := Option.isSome_iff_exists.mp (IndexMap.get?_isSome.mpr hm)
      have hcs : s.abortedTransmissionIds.get? t = none := by
        cases hcs : s.abortedTransmissionIds.get? t with
        | none => rfl
        | some cs =>
          obtain ⟨e, he, -⟩ := h t cs hcs
          rw [hk] at he
          cases he
      rw [hget, hcs]
      exact ⟨_, rfl, fun i hi => hi⟩
  · obtain ⟨e, he, hsub⟩ := h t certificateIds hget
    rw [he]
    split
    · exact ⟨_, rfl, fun i hi => IndexSet.mem_insert.mpr (.inl (hsub i hi))⟩
    · exact ⟨_, rfl, hsub⟩

end BFTMemoryService

/-! ### Agreement -/

variable {m : BFTMemoryService} {p : BFTPersistentStorage} {op : Operation}

lemma BFTMemoryService.AbortedStored.agree (h : p.toMemory.AbortedStored) :
    Agree p.toMemory p := by
  refine ⟨fun header provided aborted => ?_, fun _ => rfl, fun _ => rfl⟩
  refine BFTPersistentStorage.findMissing_eq (fun t _ => ?_) provided ∅
  rw [BFTPersistentStorage.containsTransmission, Bool.or_eq_left_iff_imp]
  intro hab
  rw [IndexMap.containsKey_iff, ← IndexMap.get?_isSome] at hab ⊢
  obtain ⟨certificateIds, hget⟩ := Option.isSome_iff_exists.mp hab
  obtain ⟨e, he, -⟩ := h t certificateIds hget
  exact Option.isSome_iff_exists.mpr ⟨e, he⟩

/-- They disagree when an aborted ID has no transmission. -/
lemma Agree.stored (h : Agree m p) {t : TransmissionID}
    (ht : t ∈ p.abortedTransmissionIds.keys) : t ∈ m.transmissions.keys := by
  -- a header that declares only this ID
  have hfind := h.findMissing ⟨⟨0⟩, ⟨0⟩, 0, 0, ⟨0⟩, IndexSet.ofList [t], ∅, ⟨⟨0⟩, 0⟩⟩ ∅ ∅
  have hids : (IndexSet.ofList [t]).toList = [t] := IndexSet.toList_ofList (List.nodup_singleton t)
  have hcontains : p.containsTransmission t = true := by
    rw [BFTPersistentStorage.containsTransmission, IndexMap.containsKey_iff.mpr ht, Bool.or_true]
  unfold BFTPersistentStorage.findMissingTransmissions
    BFTMemoryService.findMissingTransmissions at hfind
  dsimp only at hfind
  rw [hids, BFTPersistentStorage.findMissing, if_pos hcontains, BFTPersistentStorage.findMissing,
    BFTMemoryService.findMissing] at hfind
  split at hfind
  · next hk => exact IndexMap.containsKey_iff.mp hk
  · cases hfind

namespace Operation

lemma onPersistent_toMemory (h : Agree p.toMemory p) :
    (op.onPersistent p).toMemory = op.onMemory p.toMemory := by
  cases op with
  | remove c => exact p.toMemory_removeTransmissions c.id c.transmissionIds
  | insert c provided aborted =>
    simp only [onPersistent, onMemory, h.findMissing]
    split
    · exact p.toMemory_insertTransmissions _ _ _ _
    · rfl

lemma Settled.abortedStored (hsettled : op.Settled m) (hown : op.OwnAborted)
    (h : m.AbortedStored) : (op.onMemory m).AbortedStored := by
  cases op with
  | remove c => exact h.removeTransmissions c.id c.transmissionIds
  | insert c provided aborted =>
    rw [onMemory]
    split
    · next missing hm =>
      obtain ⟨-, hall⟩ := BFTMemoryService.findMissing_spec hm
      have hfound : ∀ t ∈ aborted, t ∈ m.transmissions.keys ∨ t ∈ provided.keys := by
        refine hsettled.resolve_left ?_
        rintro ⟨t, ht, hknown, hprovided, hab⟩
        rcases hall t ht with hk | hk | hk
        · exact hknown hk
        · exact (BFTMemoryService.findMissing_subset hm hk).elim List.not_mem_nil hprovided
        · exact hab hk
      refine h.insertTransmissions c.id hown fun t ht => ?_
      by_cases hk : t ∈ m.transmissions.keys
      · exact .inl hk
      · exact .inr (BFTMemoryService.findMissing_provided hm (hown t ht) hk
          ((hfound t ht).resolve_left hk))
    · exact h

/-- An operation that leaves every aborted ID with its transmission stored is settled. -/
lemma settled_of_stored (hown : op.OwnAborted)
    (h : ∀ t ∈ (op.onMemory m).abortedTransmissionIds.keys,
      t ∈ (op.onMemory m).transmissions.keys) : op.Settled m := by
  cases op with
  | remove c => exact trivial
  | insert c provided aborted =>
    rw [onMemory] at h
    split at h
    · next missing hm =>
      refine .inr fun t ht => ?_
      have hstored := h t (IndexMap.get?_isSome.mp (by
        rw [BFTMemoryService.insertTransmissions,
          BFTMemoryService.get?_insertAborted aborted.nodup, if_pos (IndexSet.mem_def.mp ht)]
        rfl))
      rw [← IndexMap.get?_isSome, BFTMemoryService.insertTransmissions,
        BFTMemoryService.get?_insertKnown c.transmissionIds.nodup,
        if_pos (IndexSet.mem_def.mp (hown t ht))] at hstored
      cases hk : m.transmissions.get? t with
      | some e => exact .inl (IndexMap.get?_isSome.mp (by rw [hk]; rfl))
      | none =>
        rw [hk, Option.isSome_map, IndexMap.get?_isSome] at hstored
        exact .inr ((BFTMemoryService.findMissing_subset hm hstored).resolve_left
          List.not_mem_nil)
    · next e hm =>
      -- what is refused has an ID that is not accounted for
      by_contra hno
      have hex : ∃ missing, m.findMissingTransmissions c.batchHeader provided aborted
          = .ok missing := by
        refine BFTMemoryService.findMissing_exists c.transmissionIds.nodup fun t ht => ?_
        by_contra hnone
        push Not at hnone
        exact hno (.inl ⟨t, ht, hnone⟩)
      obtain ⟨missing, hok⟩ := hex
      cases hm.symm.trans hok

end Operation

/-- The in-memory service after a history. -/
def memoryAfter (ops : List Operation) : BFTMemoryService :=
  ops.foldl Operation.onMemory BFTMemoryService.empty

/-- The persistent service after a history, opened on an empty database. -/
def persistentAfter (maxCommitteeSize maxTransmissionsPerBatch : ℕ) (ops : List Operation) :
    BFTPersistentStorage :=
  ops.foldl Operation.onPersistent (.new maxCommitteeSize maxTransmissionsPerBatch)

section Histories

variable {size batch : ℕ} {ops : List Operation}

lemma toMemory_persistentAfter
    (h : ∀ op done, done ++ [op] <+: ops →
      Agree (memoryAfter done) (persistentAfter size batch done)) :
    (persistentAfter size batch ops).toMemory = memoryAfter ops := by
  induction ops using List.reverseRecOn with
  | nil => rfl
  | append_singleton ops op ih =>
    have heq := ih fun op' done hdone => h op' done (hdone.trans (List.prefix_append _ _))
    have hagree := h op ops (List.prefix_refl _)
    rw [persistentAfter, memoryAfter, List.foldl_concat, List.foldl_concat]
    rw [← heq] at hagree
    rw [← memoryAfter, ← heq]
    exact Operation.onPersistent_toMemory hagree

lemma abortedStored_after (size batch : ℕ) (hown : ∀ op ∈ ops, op.OwnAborted)
    (h : ∀ done op, done ++ [op] <+: ops → op.Settled (memoryAfter done)) :
    (persistentAfter size batch ops).toMemory = memoryAfter ops ∧
      (memoryAfter ops).AbortedStored := by
  induction ops using List.reverseRecOn with
  | nil => exact ⟨rfl, .empty⟩
  | append_singleton ops op ih =>
    obtain ⟨heq, hstored⟩ := ih (fun op' hop => hown op' (List.mem_append_left _ hop))
      fun done op' hdone => h done op' (hdone.trans (List.prefix_append _ _))
    have hsettled := h ops op (List.prefix_refl _)
    rw [persistentAfter, memoryAfter, List.foldl_concat, List.foldl_concat]
    refine ⟨?_, hsettled.abortedStored (hown op (by simp)) hstored⟩
    rw [← memoryAfter, ← heq]
    exact Operation.onPersistent_toMemory (heq ▸ hstored).agree

/-- **The two services**: they agree in every state of a history just when each of its
operations is settled in the state that it meets. -/
theorem services_agree_iff (size batch : ℕ) (ops : List Operation)
    (hown : ∀ op ∈ ops, op.OwnAborted) :
    (∀ done, done <+: ops → Agree (memoryAfter done) (persistentAfter size batch done)) ↔
      ∀ done op, done ++ [op] <+: ops → op.Settled (memoryAfter done) := by
  constructor
  · intro hagree done op hdone
    have hbefore : done <+: ops := (List.prefix_append _ _).trans hdone
    refine Operation.settled_of_stored
      (hown op (hdone.subset (List.mem_append_right _ (.head _)))) fun t ht => ?_
    have hafter : (persistentAfter size batch (done ++ [op])).toMemory
        = memoryAfter (done ++ [op]) :=
      toMemory_persistentAfter fun op' done' hdone' =>
        hagree done' (((List.prefix_append _ _).trans hdone').trans hdone)
    have hlast : op.onMemory (memoryAfter done) = memoryAfter (done ++ [op]) := by
      rw [memoryAfter, memoryAfter, List.foldl_concat]
    rw [hlast] at ht ⊢
    refine (hagree _ hdone).stored ?_
    rw [← hafter] at ht
    exact ht
  · intro hsettled done hdone
    obtain ⟨heq, hstored⟩ := abortedStored_after size batch
      (fun op hop => hown op (hdone.subset hop))
      fun done' op hdone' => hsettled done' op (hdone'.trans hdone)
    rw [← heq] at hstored ⊢
    exact hstored.agree

end Histories

section Example

/-- A certificate that declares solution `7`. -/
def solutionCertificate (id : ℕ) : BatchCertificate :=
  let c := developmentCertificate id 0 1 []
  { c with batchHeader := { c.batchHeader with
      transmissionIds := IndexSet.ofList [.solution 7 1] } }

/-- The solution provided with a certificate. -/
def providedSolution : IndexMap TransmissionID Transmission :=
  IndexMap.insert ∅ (.solution 7 1) (.solution (.object ⟨7, []⟩))

/-- A certificate whose only transmission is declared aborted, and is not provided. -/
def abortedHistory : List Operation :=
  [.insert (solutionCertificate 10) ∅ (IndexSet.ofList [.solution 7 1])]

/-- A certificate that declares the solutions `7` and `8`. -/
def pairCertificate : BatchCertificate :=
  let c := developmentCertificate 12 1 1 []
  { c with batchHeader := { c.batchHeader with
      transmissionIds := IndexSet.ofList [.solution 7 1, .solution 8 1] } }

/-- Two certificates share an aborted transmission, that the first comes with; the second comes
with another one that it declares aborted. The first is removed. -/
def settledHistory : List Operation :=
  [.insert (solutionCertificate 10) providedSolution (IndexSet.ofList [.solution 7 1]),
    .insert pairCertificate (IndexMap.insert ∅ (.solution 8 1) (.solution (.object ⟨8, []⟩)))
      (IndexSet.ofList [.solution 8 1, .solution 7 1]),
    .remove (solutionCertificate 10)]

lemma forall_steps {ops : List Operation} {P : List Operation → Operation → Prop}
    (h : ∀ i (hi : i < ops.length), P (ops.take i) ops[i]) (done : List Operation)
    (op : Operation) (hdone : done ++ [op] <+: ops) : P done op := by
  obtain ⟨rest, rfl⟩ := hdone
  simpa using h done.length (by simp)

/-- Both services keep what the second certificate declares. -/
theorem services_agree_iff_example :
    Agree (memoryAfter settledHistory) (persistentAfter 100 50 settledHistory) ∧
      (memoryAfter settledHistory).transmissions.keys = [.solution 7 1, .solution 8 1] :=
  ⟨(services_agree_iff 100 50 settledHistory (by decide)).mpr
    (forall_steps (by decide +kernel)) _ (List.prefix_refl _), by decide +kernel⟩

/-- The persistent service does not ask for the transmission, and drops it when it is provided;
the in-memory service asks for it. -/
theorem aborted_taken_for_known :
    (∀ op ∈ abortedHistory, op.OwnAborted) ∧
      ¬ Agree (memoryAfter abortedHistory) (persistentAfter 100 50 abortedHistory) := by
  refine ⟨fun op hop => ?_, fun h => ?_⟩
  · obtain rfl := List.mem_singleton.mp hop
    exact fun t ht => ht
  · have hfind := congrArg (fun r => r.toOption.map IndexMap.keys)
      (h.findMissing (solutionCertificate 11).batchHeader providedSolution ∅)
    have hmemory : (((memoryAfter abortedHistory).findMissingTransmissions
        (solutionCertificate 11).batchHeader providedSolution ∅).toOption.map IndexMap.keys)
        = some [.solution 7 1] := by decide +kernel
    have hpersistent : (((persistentAfter 100 50 abortedHistory).findMissingTransmissions
        (solutionCertificate 11).batchHeader providedSolution ∅).toOption.map IndexMap.keys)
        = some [] := by decide +kernel
    cases hpersistent.symm.trans (hfind.trans hmemory)

end Example

end AmareleoChain
