import AmareleoChain.Narwhal

/-!
The ready queue of a worker: the transmissions that wait for a batch, in order, and an index of
their places.

The index counts places from an offset that moves when the front of the queue does, so that
neither end of the queue has to be renumbered.
-/

namespace AmareleoChain

structure Ready where
  transmissionIds : IndexMap TransmissionID ℤ
  transmissions : List (TransmissionID × Transmission)
  offset : ℤ

namespace Ready

def new : Ready := ⟨∅, [], 0⟩

def numTransmissions (r : Ready) : ℕ := r.transmissions.length

def contains (r : Ready) (id : TransmissionID) : Bool := r.transmissionIds.containsKey id

/-- `get`; the cast of a negative place gives one beyond the queue. -/
def get (r : Ready) (id : TransmissionID) : Option Transmission :=
  match r.transmissionIds.get? id with
  | none => none
  | some index =>
    if index < r.offset then none
    else (r.transmissions[(index - r.offset).toNat]?).map Prod.snd

/-- `insert`: at the back, unless the ID is there. -/
def insert (r : Ready) (id : TransmissionID) (transmission : Transmission) : Bool × Ready :=
  if r.contains id then (false, r)
  else
    (true,
      { r with
        transmissionIds := r.transmissionIds.insert id (r.transmissions.length + r.offset)
        transmissions := r.transmissions ++ [(id, transmission)] })

def insertFront (r : Ready) (id : TransmissionID) (transmission : Transmission) :
    Bool × Ready :=
  if r.contains id then (false, r)
  else
    let offset := r.offset - 1
    (true, ⟨r.transmissionIds.insert id offset, (id, transmission) :: r.transmissions, offset⟩)

def removeFront (r : Ready) : Option (TransmissionID × Transmission) × Ready :=
  match r.transmissions with
  | [] => (none, r)
  | (id, transmission) :: transmissions =>
    let transmissionIds := r.transmissionIds.erase id
    (some (id, transmission),
      ⟨transmissionIds, transmissions,
        if transmissionIds.entries.isEmpty then 0 else r.offset + 1⟩)

/-- `matches!(transmission, Transmission::Solution(_))`. -/
def isSolution : Transmission → Bool
  | .solution _ => true
  | _ => false

/-- `clear_solutions`: the rest stays in order, and is numbered anew. -/
def clearSolutions (r : Ready) : Ready :=
  let transmissions := r.transmissions.filter fun e => !isSolution e.2
  ⟨transmissions.zipIdx.foldl (fun ids e => ids.insert e.1.1 (e.2 : ℤ)) ∅, transmissions, 0⟩

/-! ### What a queue stands for -/

/-- The IDs in the queue, in order. -/
def ids (r : Ready) : List TransmissionID := r.transmissions.map Prod.fst

/-- The IDs are distinct, and the index holds the place of each. -/
structure Valid (r : Ready) : Prop where
  nodup : r.ids.Nodup
  index : ∀ (id : TransmissionID) (i : ℤ),
    r.transmissionIds.get? id = some i ↔ ∃ n : ℕ, r.ids[n]? = some id ∧ i = n + r.offset

variable {r : Ready} {id : TransmissionID} {t : Transmission}

lemma valid_new : new.Valid := by
  refine ⟨List.nodup_nil, fun id i => ?_⟩
  simp [new, ids, IndexMap.get?_eq_some_iff]

lemma Valid.contains_iff (h : r.Valid) : r.contains id = true ↔ id ∈ r.ids := by
  rw [contains, IndexMap.containsKey_iff, ← IndexMap.get?_isSome, Option.isSome_iff_exists,
    List.mem_iff_getElem?]
  constructor
  · rintro ⟨i, hi⟩
    obtain ⟨n, hn, -⟩ := (h.index id i).mp hi
    exact ⟨n, hn⟩
  · rintro ⟨n, hn⟩
    exact ⟨_, (h.index id _).mpr ⟨n, hn, rfl⟩⟩

/-- **The index finds the transmissions of the queue.** -/
theorem Valid.get_eq_some_iff (h : r.Valid) :
    r.get id = some t ↔ (id, t) ∈ r.transmissions := by
  have hplace : ∀ n : ℕ, ((n : ℤ) + r.offset - r.offset).toNat = n := fun n => by omega
  unfold get
  constructor
  · intro hget
    split at hget
    · cases hget
    · next index hindex =>
      obtain ⟨n, hn, rfl⟩ := (h.index id index).mp hindex
      rw [if_neg (by omega), hplace] at hget
      rw [ids, List.getElem?_map] at hn
      cases he : r.transmissions[n]? with
      | none => simp [he] at hn
      | some e =>
        simp only [he, Option.map_some, Option.some.injEq] at hn hget
        subst hn hget
        exact List.mem_of_getElem? he
  · intro hmem
    obtain ⟨n, hn⟩ := List.mem_iff_getElem?.mp hmem
    have hid : r.ids[n]? = some id := by simp [ids, hn]
    rw [(h.index id _).mpr ⟨n, hid, rfl⟩]
    dsimp only
    rw [if_neg (by omega), hplace, hn, Option.map_some]

lemma insert_of_contains (h : r.contains id = true) : r.insert id t = (false, r) := if_pos h

lemma transmissions_insert (h : r.contains id = false) :
    (r.insert id t).2.transmissions = r.transmissions ++ [(id, t)] := by
  simp [insert, h]

lemma Valid.insert (h : r.Valid) (id : TransmissionID) (t : Transmission) :
    (r.insert id t).2.Valid := by
  by_cases hc : r.contains id = true
  · rw [insert_of_contains hc]
    exact h
  · have hid : id ∉ r.ids := mt h.contains_iff.mpr hc
    have hids : (r.insert id t).2.ids = r.ids ++ [id] := by
      simp [ids, transmissions_insert (Bool.eq_false_iff.mpr hc)]
    have hlen : r.ids.length = r.transmissions.length := by simp [ids]
    constructor
    · rw [hids]
      exact List.Nodup.append h.nodup (List.nodup_singleton id) (by simpa using hid)
    · intro j i
      have hget : (r.insert id t).2.transmissionIds.get? j
          = if j = id then some ((r.transmissions.length : ℤ) + r.offset)
            else r.transmissionIds.get? j := by
        rw [Ready.insert, if_neg hc]
        exact IndexMap.get?_insert
      have hoffset : (r.insert id t).2.offset = r.offset := by simp [Ready.insert, hc]
      rw [hget, hids, hoffset]
      by_cases hj : j = id
      · subst hj
        rw [if_pos rfl, Option.some.injEq]
        constructor
        · rintro rfl
          exact ⟨r.transmissions.length, by simp [hlen.symm], rfl⟩
        · rintro ⟨n, hn, rfl⟩
          rcases Nat.lt_or_ge n r.ids.length with hlt | hge
          · rw [List.getElem?_append_left hlt] at hn
            exact absurd (List.mem_of_getElem? hn) hid
          · rw [List.getElem?_append_right hge] at hn
            have hz := (List.getElem?_eq_some_iff.mp hn).1
            simp only [List.length_singleton] at hz
            have : n = r.transmissions.length := by omega
            rw [this]
      · rw [if_neg hj, h.index]
        constructor
        · rintro ⟨n, hn, rfl⟩
          have hlt := (List.getElem?_eq_some_iff.mp hn).1
          exact ⟨n, by rw [List.getElem?_append_left hlt, hn], rfl⟩
        · rintro ⟨n, hn, rfl⟩
          rcases Nat.lt_or_ge n r.ids.length with hlt | hge
          · rw [List.getElem?_append_left hlt] at hn
            exact ⟨n, hn, rfl⟩
          · rw [List.getElem?_append_right hge] at hn
            have hmem := List.mem_of_getElem? hn
            rw [List.mem_singleton] at hmem
            exact absurd hmem hj

lemma transmissions_insertFront (h : r.contains id = false) :
    (r.insertFront id t).2.transmissions = (id, t) :: r.transmissions := by
  simp [insertFront, h]

lemma Valid.insertFront (h : r.Valid) (id : TransmissionID) (t : Transmission) :
    (r.insertFront id t).2.Valid := by
  by_cases hc : r.contains id = true
  · rw [Ready.insertFront, if_pos hc]
    exact h
  · have hid : id ∉ r.ids := mt h.contains_iff.mpr hc
    have hids : (r.insertFront id t).2.ids = id :: r.ids := by
      simp [ids, transmissions_insertFront (Bool.eq_false_iff.mpr hc)]
    constructor
    · rw [hids]
      exact List.nodup_cons.mpr ⟨hid, h.nodup⟩
    · intro j i
      have hget : (r.insertFront id t).2.transmissionIds.get? j
          = if j = id then some (r.offset - 1) else r.transmissionIds.get? j := by
        rw [Ready.insertFront, if_neg hc]
        exact IndexMap.get?_insert
      have hoffset : (r.insertFront id t).2.offset = r.offset - 1 := by
        simp [Ready.insertFront, hc]
      rw [hget, hids, hoffset]
      by_cases hj : j = id
      · subst hj
        rw [if_pos rfl, Option.some.injEq]
        constructor
        · rintro rfl
          exact ⟨0, rfl, by omega⟩
        · rintro ⟨n, hn, rfl⟩
          cases n with
          | zero => omega
          | succ n =>
            have hn' : r.ids[n]? = some j := hn
            exact absurd (List.mem_of_getElem? hn') hid
      · rw [if_neg hj, h.index]
        constructor
        · rintro ⟨n, hn, rfl⟩
          exact ⟨n + 1, hn, by omega⟩
        · rintro ⟨n, hn, rfl⟩
          cases n with
          | zero => exact absurd (Option.some.inj hn).symm hj
          | succ n => exact ⟨n, hn, by omega⟩

lemma removeFront_nil (h : r.transmissions = []) : r.removeFront = (none, r) := by
  simp [removeFront, h]

lemma Valid.removeFront_cons (h : r.Valid) {q : List (TransmissionID × Transmission)}
    (hq : r.transmissions = (id, t) :: q) :
    ∃ r', r.removeFront = (some (id, t), r') ∧ r'.transmissions = q ∧ r'.Valid := by
  have hids : r.ids = id :: q.map Prod.fst := by simp [ids, hq]
  have hnodup := h.nodup
  rw [hids, List.nodup_cons] at hnodup
  have hget : ∀ (j : TransmissionID) (i : ℤ),
      (r.transmissionIds.erase id).get? j = some i ↔
        ∃ n : ℕ, (q.map Prod.fst)[n]? = some j ∧ i = n + (r.offset + 1) := by
    intro j i
    rw [IndexMap.get?_erase]
    by_cases hj : j = id
    · subst hj
      rw [if_pos rfl]
      constructor
      · intro hnone
        cases hnone
      · rintro ⟨n, hn, -⟩
        exact absurd (List.mem_of_getElem? hn) hnodup.1
    · rw [if_neg hj, h.index, hids]
      constructor
      · rintro ⟨n, hn, rfl⟩
        cases n with
        | zero => exact absurd (Option.some.inj hn).symm hj
        | succ n => exact ⟨n, hn, by omega⟩
      · rintro ⟨n, hn, rfl⟩
        exact ⟨n + 1, hn, by omega⟩
  refine ⟨⟨r.transmissionIds.erase id, q,
    if (r.transmissionIds.erase id).entries.isEmpty then 0 else r.offset + 1⟩,
    by rw [removeFront, hq], rfl, ⟨hnodup.2, fun j i => ?_⟩⟩
  dsimp only [ids]
  by_cases hempty : (r.transmissionIds.erase id).entries.isEmpty = true
  · rw [if_pos hempty, List.isEmpty_iff] at *
    -- an empty index has no place, so the queue is empty too
    have hnone : ∀ (k : TransmissionID) (m : ℤ),
        (r.transmissionIds.erase id).get? k ≠ some m := by
      intro k m hk
      rw [IndexMap.get?_eq_some_iff, hempty] at hk
      cases hk
    constructor
    · intro hk
      exact absurd hk (hnone j i)
    · rintro ⟨n, hn, -⟩
      exact absurd ((hget j _).mpr ⟨n, hn, rfl⟩) (hnone j _)
  · rw [if_neg hempty]
    exact hget j i

lemma get?_numbered {q : List (TransmissionID × Transmission)} (hnd : (q.map Prod.fst).Nodup)
    (k : ℕ) (ids : IndexMap TransmissionID ℤ) (i : ℤ) :
    ((q.zipIdx k).foldl (fun ids e => ids.insert e.1.1 (e.2 : ℤ)) ids).get? id = some i ↔
      (∃ n : ℕ, (q.map Prod.fst)[n]? = some id ∧ i = n + k) ∨
        id ∉ q.map Prod.fst ∧ ids.get? id = some i := by
  induction q generalizing k ids with
  | nil => simp
  | cons e q ih =>
    rw [List.map_cons, List.nodup_cons] at hnd
    rw [List.zipIdx_cons, List.foldl_cons, ih hnd.2, IndexMap.get?_insert, List.map_cons]
    dsimp only
    by_cases hid : id = e.1
    · subst hid
      -- the ID of the head is not among the others
      have hrest : ¬ ∃ n : ℕ, (q.map Prod.fst)[n]? = some e.1 ∧ i = n + (k + 1 : ℕ) := by
        rintro ⟨n, hn, -⟩
        exact hnd.1 (List.mem_of_getElem? hn)
      rw [if_pos rfl, Option.some.injEq]
      constructor
      · rintro (h | ⟨-, rfl⟩)
        · exact absurd h hrest
        · exact .inl ⟨0, rfl, by omega⟩
      · rintro (⟨n, hn, rfl⟩ | ⟨hnot, -⟩)
        · cases n with
          | zero => exact .inr ⟨hnd.1, by omega⟩
          | succ n =>
            have hn' : (q.map Prod.fst)[n]? = some e.1 := hn
            exact absurd (List.mem_of_getElem? hn') hnd.1
        · exact absurd List.mem_cons_self hnot
    · rw [if_neg hid, List.mem_cons, not_or]
      constructor
      · rintro (⟨n, hn, rfl⟩ | ⟨hnot, hget⟩)
        · exact .inl ⟨n + 1, hn, by omega⟩
        · exact .inr ⟨⟨hid, hnot⟩, hget⟩
      · rintro (⟨n, hn, rfl⟩ | ⟨⟨-, hnot⟩, hget⟩)
        · cases n with
          | zero => exact absurd (Option.some.inj hn).symm hid
          | succ n => exact .inl ⟨n, hn, by omega⟩
        · exact .inr ⟨hnot, hget⟩

lemma Valid.clearSolutions (h : r.Valid) : r.clearSolutions.Valid := by
  have hnodup : r.clearSolutions.ids.Nodup := h.nodup.sublist (List.filter_sublist.map _)
  refine ⟨hnodup, fun id i => ?_⟩
  have hnumbered : r.clearSolutions.transmissionIds.get? id = some i ↔ _ :=
    get?_numbered hnodup 0 ∅ i
  have hempty : ¬ (∅ : IndexMap TransmissionID ℤ).get? id = some i := fun hget => by cases hget
  rw [or_iff_left fun hget => hempty hget.2] at hnumbered
  exact hnumbered

end Ready

end AmareleoChain
