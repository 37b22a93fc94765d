import AmareleoChain.Narwhal

/-!
The storage service for transmissions, and its in-memory implementation.
-/

namespace AmareleoChain

open Std

/-- `StorageService<N>`. -/
class StorageService (S : Type) where
  containsTransmission : S → TransmissionID → Bool
  getTransmission : S → TransmissionID → Option Transmission
  findMissingTransmissions : S → BatchHeader → IndexMap TransmissionID Transmission →
    IndexSet TransmissionID → Except String (IndexMap TransmissionID Transmission)
  insertTransmissions : S → Field → IndexSet TransmissionID → IndexSet TransmissionID →
    IndexMap TransmissionID Transmission → S
  removeTransmissions : S → Field → IndexSet TransmissionID → S

/-- What the node relies on. A service keeps a transmission for the certificates that carry it,
and has it while it is kept for one of them. A certificate is given its transmissions when they
are kept already, or provided with it. -/
class LawfulStorageService (S : Type) [StorageService S] where
  Valid : S → Prop
  Keeps : S → TransmissionID → Field → Prop
  /-- IDs that are declared aborted are told from those of the transmissions that are kept. -/
  TellsAborted : Prop
  getTransmission_isSome : ∀ {s : S} {t : TransmissionID} {id : Field}, Valid s → Keeps s t id →
    (StorageService.getTransmission s t).isSome
  findMissing_ok : ∀ {s : S} {h : BatchHeader} {provided m : IndexMap TransmissionID Transmission}
    {aborted : IndexSet TransmissionID}, Valid s →
    StorageService.findMissingTransmissions s h provided aborted = .ok m →
    ∀ t ∈ h.transmissionIds, (∃ id, Keeps s t id) ∨ t ∈ m.keys ∨ t ∈ aborted
  keeps_insert : ∀ {s : S} {id id' : Field} {ids aborted : IndexSet TransmissionID}
    {m : IndexMap TransmissionID Transmission} {t : TransmissionID}, Valid s →
    (Keeps (StorageService.insertTransmissions s id ids aborted m) t id' ↔
      Keeps s t id' ∨ (id' = id ∧ t ∈ ids ∧ ((∃ i, Keeps s t i) ∨ t ∈ m.keys)))
  valid_insert : ∀ {s : S} {id : Field} {ids aborted : IndexSet TransmissionID}
    {m : IndexMap TransmissionID Transmission}, Valid s → TellsAborted ∨ aborted = ∅ →
    Valid (StorageService.insertTransmissions s id ids aborted m)
  keeps_remove : ∀ {s : S} {id id' : Field} {ids : IndexSet TransmissionID} {t : TransmissionID},
    Keeps (StorageService.removeTransmissions s id ids) t id' ↔
      Keeps s t id' ∧ ¬ (id' = id ∧ t ∈ ids)
  valid_remove : ∀ {s : S} {id : Field} {ids : IndexSet TransmissionID}, Valid s →
    Valid (StorageService.removeTransmissions s id ids)

/-! ### The in-memory service -/

structure BFTMemoryService where
  transmissions : IndexMap TransmissionID (Transmission × IndexSet Field)
  abortedTransmissionIds : IndexMap TransmissionID (IndexSet Field)

namespace BFTMemoryService

/-- `new`. -/
def empty : BFTMemoryService := ⟨∅, ∅⟩

def containsTransmission (s : BFTMemoryService) (id : TransmissionID) : Bool :=
  s.transmissions.containsKey id || s.abortedTransmissionIds.containsKey id

def getTransmission (s : BFTMemoryService) (id : TransmissionID) : Option Transmission :=
  (s.transmissions.get? id).map Prod.fst

/-- The loop of `find_missing_transmissions` over the declared IDs. -/
def findMissing (known : IndexMap TransmissionID (Transmission × IndexSet Field))
    (aborted : IndexSet TransmissionID) : List TransmissionID →
    IndexMap TransmissionID Transmission → IndexMap TransmissionID Transmission →
    Except String (IndexMap TransmissionID Transmission)
  | [], _, missing => .ok missing
  | id :: ids, transmissions, missing =>
    if known.containsKey id then findMissing known aborted ids transmissions missing
    else
      match transmissions.get? id with
      | some transmission =>
        findMissing known aborted ids (transmissions.erase id) (missing.insert id transmission)
      | none =>
        if id ∈ aborted then findMissing known aborted ids transmissions missing
        else .error "Failed to provide a transmission"

def findMissingTransmissions (s : BFTMemoryService) (header : BatchHeader)
    (transmissions : IndexMap TransmissionID Transmission) (aborted : IndexSet TransmissionID) :
    Except String (IndexMap TransmissionID Transmission) :=
  findMissing s.transmissions aborted header.transmissionIds.toList transmissions ∅

/-- The first loop of `insert_transmissions`. -/
def insertKnown (certificateId : Field) : List TransmissionID →
    IndexMap TransmissionID Transmission →
    IndexMap TransmissionID (Transmission × IndexSet Field) →
    IndexMap TransmissionID (Transmission × IndexSet Field)
  | [], _, known => known
  | id :: ids, missing, known =>
    match known.get? id with
    | some (transmission, certificateIds) =>
      insertKnown certificateId ids missing
        (known.insert id (transmission, certificateIds.insert certificateId))
    | none =>
      match missing.get? id with
      | some transmission =>
        insertKnown certificateId ids (missing.erase id)
          (known.insert id (transmission, IndexSet.ofList [certificateId]))
      | none => insertKnown certificateId ids missing known

/-- The second loop of `insert_transmissions`. -/
def insertAborted (certificateId : Field) (ids : List TransmissionID)
    (aborted : IndexMap TransmissionID (IndexSet Field)) :
    IndexMap TransmissionID (IndexSet Field) :=
  ids.foldl (fun m id => m.insert id (((m.get? id).getD ∅).insert certificateId)) aborted

/-- `insert_transmissions`. At an ID that is neither stored, provided nor aborted, the code asks
`contains_transmission` under its own write locks and never returns; here the loop goes on. -/
def insertTransmissions (s : BFTMemoryService) (certificateId : Field)
    (ids aborted : IndexSet TransmissionID) (missing : IndexMap TransmissionID Transmission) :
    BFTMemoryService where
  transmissions := insertKnown certificateId ids.toList missing s.transmissions
  abortedTransmissionIds := insertAborted certificateId aborted.toList s.abortedTransmissionIds

/-- One turn of the loop of `remove_transmissions`. -/
def removeTransmission (certificateId : Field) (s : BFTMemoryService) (id : TransmissionID) :
    BFTMemoryService where
  transmissions :=
    match s.transmissions.get? id with
    | some (transmission, certificateIds) =>
      if (certificateIds.erase certificateId).isEmpty then s.transmissions.erase id
      else s.transmissions.insert id (transmission, certificateIds.erase certificateId)
    | none => s.transmissions
  abortedTransmissionIds :=
    match s.abortedTransmissionIds.get? id with
    | some certificateIds =>
      if (certificateIds.erase certificateId).isEmpty then s.abortedTransmissionIds.erase id
      else s.abortedTransmissionIds.insert id (certificateIds.erase certificateId)
    | none => s.abortedTransmissionIds

def removeTransmissions (s : BFTMemoryService) (certificateId : Field)
    (ids : IndexSet TransmissionID) : BFTMemoryService :=
  ids.toList.foldl (removeTransmission certificateId) s

instance : StorageService BFTMemoryService where
  containsTransmission := containsTransmission
  getTransmission := getTransmission
  findMissingTransmissions := findMissingTransmissions
  insertTransmissions := insertTransmissions
  removeTransmissions := removeTransmissions

/-! ### The laws -/

/-- No transmission is kept for no certificate. -/
def Valid (s : BFTMemoryService) : Prop :=
  ∀ t e, s.transmissions.get? t = some e → e.2 ≠ ∅

/-- The transmission is kept for the certificate. -/
def Keeps (s : BFTMemoryService) (t : TransmissionID) (id : Field) : Prop :=
  ∃ e, s.transmissions.get? t = some e ∧ id ∈ e.2

lemma valid_empty : Valid empty := by
  intro t e h
  cases h

variable {s : BFTMemoryService} {t : TransmissionID} {id id' : Field}

lemma Valid.keeps_iff (h : s.Valid) : (∃ id, s.Keeps t id) ↔ t ∈ s.transmissions.keys := by
  rw [← IndexMap.get?_isSome, Option.isSome_iff_exists]
  constructor
  · rintro ⟨id, e, he, -⟩
    exact ⟨e, he⟩
  · rintro ⟨e, he⟩
    have hne := h t e he
    rw [Ne, IndexSet.eq_empty_iff, not_forall_not] at hne
    obtain ⟨id, hid⟩ := hne
    exact ⟨id, e, he, hid⟩

lemma findMissing_spec {known : IndexMap TransmissionID (Transmission × IndexSet Field)}
    {aborted : IndexSet TransmissionID} {ids : List TransmissionID}
    {provided missing m : IndexMap TransmissionID Transmission}
    (h : findMissing known aborted ids provided missing = .ok m) :
    (∀ t ∈ missing.keys, t ∈ m.keys) ∧
      ∀ t ∈ ids, t ∈ known.keys ∨ t ∈ m.keys ∨ t ∈ aborted := by
  induction ids generalizing provided missing with
  | nil => cases h; simp
  | cons id ids ih =>
    rw [findMissing] at h
    rw [List.forall_mem_cons]
    split at h
    · next hknown =>
      obtain ⟨hm, hids⟩ := ih h
      exact ⟨hm, .inl (by simpa using hknown), hids⟩
    · split at h
      · obtain ⟨hm, hids⟩ := ih h
        refine ⟨fun t ht => hm t (by simp [ht]), .inr (.inl (hm id (by simp))), hids⟩
      · split at h
        · next hab =>
          obtain ⟨hm, hids⟩ := ih h
          exact ⟨hm, .inr (.inr hab), hids⟩
        · cases h

lemma findMissing_exists {known : IndexMap TransmissionID (Transmission × IndexSet Field)}
    {aborted : IndexSet TransmissionID} {ids : List TransmissionID} (hnd : ids.Nodup)
    {provided missing : IndexMap TransmissionID Transmission}
    (h : ∀ t ∈ ids, t ∈ known.keys ∨ t ∈ provided.keys ∨ t ∈ aborted) :
    ∃ m, findMissing known aborted ids provided missing = .ok m := by
  induction ids generalizing provided missing with
  | nil => exact ⟨missing, rfl⟩
  | cons id ids ih =>
    rw [List.forall_mem_cons] at h
    rw [List.nodup_cons] at hnd
    rw [findMissing]
    split
    · exact ih hnd.2 h.2
    · next hknown =>
      split
      · refine ih hnd.2 fun t ht => ?_
        have hne : t ≠ id := fun he => hnd.1 (he ▸ ht)
        exact (h.2 t ht).imp_right (Or.imp_left fun hp => by simp [hp, hne])
      · next hnone =>
        have hprov : id ∉ provided.keys := by
          rw [← IndexMap.get?_isSome, hnone]; simp
        have hab : id ∈ aborted :=
          (h.1.resolve_left (by simpa using hknown)).resolve_left hprov
        rw [if_pos hab]
        exact ih hnd.2 h.2

/-- What the first loop of `insert_transmissions` leaves at an ID. -/
lemma get?_insertKnown {ids : List TransmissionID} (hnd : ids.Nodup)
    {missing : IndexMap TransmissionID Transmission}
    {known : IndexMap TransmissionID (Transmission × IndexSet Field)} :
    (insertKnown id ids missing known).get? t =
      if t ∈ ids then
        match known.get? t with
        | some (transmission, certificateIds) => some (transmission, certificateIds.insert id)
        | none => (missing.get? t).map fun transmission => (transmission, IndexSet.ofList [id])
      else known.get? t := by
  induction ids generalizing missing known with
  | nil => simp [insertKnown]
  | cons i ids ih =>
    rw [List.nodup_cons] at hnd
    rw [insertKnown]
    rcases eq_or_ne t i with rfl | hne
    · -- the rest of the loop does not come back to this ID
      rw [if_pos List.mem_cons_self]
      split
      · next tx cs hk => rw [ih hnd.2, if_neg hnd.1, IndexMap.get?_insert, if_pos rfl]
      · next hk =>
        split
        · next tx hm =>
          rw [ih hnd.2, if_neg hnd.1, IndexMap.get?_insert, if_pos rfl, hm]; rfl
        · next hm => rw [ih hnd.2, if_neg hnd.1, hk, hm]; rfl
    · simp only [List.mem_cons, hne, false_or]
      split
      · rw [ih hnd.2, IndexMap.get?_insert, if_neg hne]
      · split
        · rw [ih hnd.2, IndexMap.get?_insert, if_neg hne, IndexMap.get?_erase, if_neg hne]
        · exact ih hnd.2

lemma get?_removeTransmission {i : TransmissionID} :
    (removeTransmission id s i).transmissions.get? t =
      if t = i then
        (s.transmissions.get? t).bind fun e =>
          if (e.2.erase id).isEmpty then none else some (e.1, e.2.erase id)
      else s.transmissions.get? t := by
  unfold removeTransmission
  dsimp only
  rcases eq_or_ne t i with rfl | hne
  · rw [if_pos rfl]
    cases hk : s.transmissions.get? t with
    | none => exact hk
    | some e =>
      dsimp only
      rw [Option.bind_some]
      split
      · rw [IndexMap.get?_erase, if_pos rfl]
      · rw [IndexMap.get?_insert, if_pos rfl]
  · rw [if_neg hne]
    split
    · split
      · rw [IndexMap.get?_erase, if_neg hne]
      · rw [IndexMap.get?_insert, if_neg hne]
    · rfl

lemma keeps_removeTransmission {i : TransmissionID} :
    (removeTransmission id s i).Keeps t id' ↔ s.Keeps t id' ∧ ¬ (id' = id ∧ t = i) := by
  unfold Keeps
  rw [get?_removeTransmission]
  rcases eq_or_ne t i with rfl | hne
  · cases hk : s.transmissions.get? t with
    | none => simp
    | some e =>
      rw [if_pos rfl, Option.bind_some]
      split
      · next hempty =>
        rw [IndexSet.isEmpty_iff, IndexSet.eq_empty_iff] at hempty
        have hno := hempty id'
        rw [IndexSet.mem_erase] at hno
        simpa using hno
      · simp
  · simp [hne]

lemma Valid.removeTransmission (h : s.Valid) (i : TransmissionID) :
    (s.removeTransmission id i).Valid := by
  intro t e he
  rw [get?_removeTransmission] at he
  split at he
  · obtain ⟨e', -, he'⟩ := Option.bind_eq_some_iff.mp he
    split at he'
    · cases he'
    · next hne =>
      cases he'
      simpa using hne
  · exact h t e he

lemma keeps_removeTransmissions {ids : List TransmissionID} :
    (ids.foldl (removeTransmission id) s).Keeps t id' ↔
      s.Keeps t id' ∧ ¬ (id' = id ∧ t ∈ ids) := by
  induction ids generalizing s with
  | nil => simp
  | cons i ids ih =>
    rw [List.foldl_cons, ih, keeps_removeTransmission, List.mem_cons]
    tauto

lemma keeps_insertTransmissions {ids aborted : IndexSet TransmissionID}
    {m : IndexMap TransmissionID Transmission} (h : s.Valid) :
    (s.insertTransmissions id ids aborted m).Keeps t id' ↔
      s.Keeps t id' ∨ (id' = id ∧ t ∈ ids ∧ ((∃ i, s.Keeps t i) ∨ t ∈ m.keys)) := by
  rw [h.keeps_iff, ← IndexMap.get?_isSome, ← IndexMap.get?_isSome]
  unfold Keeps insertTransmissions
  dsimp only
  rw [get?_insertKnown ids.nodup]
  simp only [← IndexSet.mem_def]
  by_cases ht : t ∈ ids
  · rw [if_pos ht]
    cases s.transmissions.get? t with
    | some e => simp [ht]
    | none => cases m.get? t <;> simp [ht]
  · rw [if_neg ht]
    simp [ht]

lemma Valid.insertTransmissions (h : s.Valid) {ids aborted : IndexSet TransmissionID}
    {m : IndexMap TransmissionID Transmission} :
    (s.insertTransmissions id ids aborted m).Valid := by
  intro t e he
  unfold BFTMemoryService.insertTransmissions at he
  dsimp only at he
  rw [get?_insertKnown ids.nodup] at he
  split at he
  · split at he
    · cases he
      exact IndexSet.insert_ne_empty _ _
    · obtain ⟨tx, -, rfl⟩ := Option.map_eq_some_iff.mp he
      exact IndexSet.insert_ne_empty ∅ id
  · exact h t e he

/-- **The in-memory service** keeps transmissions as the node relies on. -/
instance : LawfulStorageService BFTMemoryService where
  Valid := Valid
  Keeps := Keeps
  TellsAborted := True
  getTransmission_isSome {s t id} h hkeeps := by
    have hmem := h.keeps_iff.mp ⟨id, hkeeps⟩
    rw [← IndexMap.get?_isSome] at hmem
    exact Option.isSome_map.trans hmem
  findMissing_ok h hm t ht := by
    rw [h.keeps_iff]
    exact (findMissing_spec hm).2 t ht
  keeps_insert := keeps_insertTransmissions
  valid_insert h _ := h.insertTransmissions
  keeps_remove := keeps_removeTransmissions
  valid_remove {s id ids} h := by
    refine List.foldlRecOn ids.toList _ h fun s hs t _ => hs.removeTransmission t

end BFTMemoryService

end AmareleoChain
