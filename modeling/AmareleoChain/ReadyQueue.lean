import AmareleoChain.Ready

/-!
The ready queue is a list of transmissions with distinct IDs.

Along any sequence of operations it gives the answers that the list gives, and the index has the
place of each ID in the list, so that an ID finds the transmission that it was inserted with.
-/

namespace AmareleoChain

/-! ### The list -/

/-- What is done to the queue. -/
inductive ReadyOperation where
  | insert (id : TransmissionID) (transmission : Transmission)
  | insertFront (id : TransmissionID) (transmission : Transmission)
  | removeFront
  | clearSolutions

/-- What the queue answers. -/
inductive ReadyAnswer where
  | inserted (isNew : Bool)
  | removed (front : Option (TransmissionID × Transmission))
  | cleared

namespace ReadyOperation

/-- What an operation does to the queue. -/
def run (r : Ready) : ReadyOperation → ReadyAnswer × Ready
  | .insert id transmission =>
    let (isNew, r) := r.insert id transmission
    (.inserted isNew, r)
  | .insertFront id transmission =>
    let (isNew, r) := r.insertFront id transmission
    (.inserted isNew, r)
  | .removeFront =>
    let (front, r) := r.removeFront
    (.removed front, r)
  | .clearSolutions => (.cleared, r.clearSolutions)

/-- What it does to a list: an ID that is in the list is not inserted again. -/
def onList (q : List (TransmissionID × Transmission)) :
    ReadyOperation → ReadyAnswer × List (TransmissionID × Transmission)
  | .insert id transmission =>
    if id ∈ q.map Prod.fst then (.inserted false, q)
    else (.inserted true, q ++ [(id, transmission)])
  | .insertFront id transmission =>
    if id ∈ q.map Prod.fst then (.inserted false, q)
    else (.inserted true, (id, transmission) :: q)
  | .removeFront => (.removed q.head?, q.tail)
  | .clearSolutions => (.cleared, q.filter fun e => !Ready.isSolution e.2)

variable {r : Ready}

/-- **An operation on the queue is one on its list.** -/
lemma run_eq (h : r.Valid) (op : ReadyOperation) :
    (op.run r).1 = (op.onList r.transmissions).1 ∧
      (op.run r).2.transmissions = (op.onList r.transmissions).2 ∧ (op.run r).2.Valid := by
  cases op with
  | insert id t =>
    refine ⟨?_, ?_, h.insert id t⟩ <;> rw [run, onList]
    · by_cases hid : id ∈ r.transmissions.map Prod.fst
      · rw [if_pos hid, Ready.insert_of_contains (h.contains_iff.mpr hid)]
      · rw [if_neg hid, Ready.insert, if_neg (mt h.contains_iff.mp hid)]
    · by_cases hid : id ∈ r.transmissions.map Prod.fst
      · rw [if_pos hid, Ready.insert_of_contains (h.contains_iff.mpr hid)]
      · rw [if_neg hid]
        exact Ready.transmissions_insert (Bool.eq_false_iff.mpr (mt h.contains_iff.mp hid))
  | insertFront id t =>
    refine ⟨?_, ?_, h.insertFront id t⟩ <;> rw [run, onList]
    · by_cases hid : id ∈ r.transmissions.map Prod.fst
      · rw [if_pos hid, Ready.insertFront, if_pos (h.contains_iff.mpr hid)]
      · rw [if_neg hid, Ready.insertFront, if_neg (mt h.contains_iff.mp hid)]
    · by_cases hid : id ∈ r.transmissions.map Prod.fst
      · rw [if_pos hid, Ready.insertFront, if_pos (h.contains_iff.mpr hid)]
      · rw [if_neg hid]
        exact Ready.transmissions_insertFront (Bool.eq_false_iff.mpr (mt h.contains_iff.mp hid))
  | removeFront =>
    rw [run, onList]
    cases hq : r.transmissions with
    | nil =>
      rw [Ready.removeFront_nil hq]
      exact ⟨rfl, hq, h⟩
    | cons e q =>
      obtain ⟨id, t⟩ := e
      obtain ⟨r', hr', hrest, hvalid⟩ := h.removeFront_cons hq
      rw [hr']
      exact ⟨rfl, hrest, hvalid⟩
  | clearSolutions => exact ⟨rfl, rfl, h.clearSolutions⟩

end ReadyOperation

/-! ### Sequences of operations -/

/-- The answers of a new queue to some operations, and the queue after them. -/
def readyAfter (ops : List ReadyOperation) : List ReadyAnswer × Ready :=
  ops.foldl (fun s op => (s.1 ++ [(op.run s.2).1], (op.run s.2).2)) ([], Ready.new)

/-- The answers of an empty list to some operations, and the list after them. -/
def listAfter (ops : List ReadyOperation) :
    List ReadyAnswer × List (TransmissionID × Transmission) :=
  ops.foldl (fun s op => (s.1 ++ [(op.onList s.2).1], (op.onList s.2).2)) ([], [])

lemma readyAfter_eq (ops : List ReadyOperation) :
    (readyAfter ops).1 = (listAfter ops).1 ∧
      (readyAfter ops).2.transmissions = (listAfter ops).2 ∧ (readyAfter ops).2.Valid := by
  induction ops using List.reverseRecOn with
  | nil => exact ⟨rfl, rfl, Ready.valid_new⟩
  | append_singleton ops op ih =>
    obtain ⟨hanswers, hlist, hvalid⟩ := ih
    obtain ⟨hanswer, hnext, hvalid'⟩ := op.run_eq hvalid
    rw [hlist] at hanswer hnext
    rw [readyAfter, listAfter, List.foldl_concat, List.foldl_concat]
    refine ⟨?_, hnext, hvalid'⟩
    exact congrArg₂ (· ++ [·]) hanswers hanswer

/-- **The ready queue is a list with distinct IDs.** After any operations on a new queue, the
answers are those of the list, the deque is the list, the index has exactly its IDs, each with its
place in the list above the offset, and an ID finds the transmission that it is paired with. -/
theorem ready_refines_list (ops : List ReadyOperation) :
    (readyAfter ops).1 = (listAfter ops).1 ∧
    (readyAfter ops).2.transmissions = (listAfter ops).2 ∧
    ((listAfter ops).2.map Prod.fst).Nodup ∧
    (∀ id, id ∈ (readyAfter ops).2.transmissionIds.keys ↔ id ∈ (listAfter ops).2.map Prod.fst) ∧
    (∀ id i, (readyAfter ops).2.transmissionIds.get? id = some i ↔
      ∃ n : ℕ, ((listAfter ops).2.map Prod.fst)[n]? = some id ∧
        i - (readyAfter ops).2.offset = n) ∧
    (∀ id t, (readyAfter ops).2.get id = some t ↔ (id, t) ∈ (listAfter ops).2) ∧
    ∀ id, (readyAfter ops).2.get id = none ↔ id ∉ (listAfter ops).2.map Prod.fst := by
  obtain ⟨hanswers, hlist, hvalid⟩ := readyAfter_eq ops
  have hids : (readyAfter ops).2.ids = (listAfter ops).2.map Prod.fst :=
    congrArg (List.map Prod.fst) hlist
  have hget : ∀ id t, (readyAfter ops).2.get id = some t ↔ (id, t) ∈ (listAfter ops).2 := by
    intro id t
    rw [hvalid.get_eq_some_iff, hlist]
  refine ⟨hanswers, hlist, hids ▸ hvalid.nodup, fun id => ?_, fun id i => ?_, hget, fun id => ?_⟩
  · rw [← hids, ← hvalid.contains_iff]
    exact IndexMap.containsKey_iff.symm
  · rw [hvalid.index, hids]
    refine exists_congr fun n => and_congr_right fun _ => ?_
    omega
  · rw [Option.eq_none_iff_forall_ne_some, List.mem_map, not_exists]
    constructor
    · rintro h ⟨id', t⟩ ⟨hmem, rfl⟩
      exact h t ((hget _ t).mpr hmem)
    · intro h t ht
      exact h (id, t) ⟨(hget id t).mp ht, rfl⟩

end AmareleoChain
