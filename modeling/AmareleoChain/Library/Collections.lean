import Mathlib.Data.List.Nodup
import Mathlib.Data.List.Perm.Basic
import Mathlib.Data.Finset.Basic
import Std.Data.ExtTreeMap

/-!
The ordered collections of the `indexmap` crate, and the lookups of the ordered maps of
the standard library in the form the rest of the development uses.

An index set keeps its elements in insertion order and holds each of them once; removal is
by swapping in the last element, so it does not keep the order.
-/

namespace AmareleoChain

variable {α β κ υ : Type}

/-! ### Index sets -/

/-- `swap_remove` on the elements in order: the last element takes the place of the removed
one. -/
def swapRemove [DecidableEq α] (a : α) : List α → List α
  | [] => []
  | b :: t =>
    if b = a then
      match t.getLast? with
      | none => []
      | some z => z :: t.dropLast
    else b :: swapRemove a t

lemma swapRemove_perm [DecidableEq α] (a : α) (l : List α) :
    (swapRemove a l).Perm (l.erase a) := by
  induction l with
  | nil => simp [swapRemove]
  | cons b t ih =>
    by_cases hb : b = a
    · subst hb
      rcases List.eq_nil_or_concat t with rfl | ⟨u, z, rfl⟩
      · simp [swapRemove]
      · have hp : ([z] ++ u).Perm (u ++ [z]) := List.perm_append_comm
        simpa [swapRemove] using hp
    · rw [swapRemove, if_neg hb, List.erase_cons_tail (by simpa using hb)]
      exact ih.cons b

/-- An `IndexSet`: distinct elements in insertion order. -/
@[ext]
structure IndexSet (α : Type) where
  toList : List α
  nodup : toList.Nodup

namespace IndexSet

instance [DecidableEq α] : DecidableEq (IndexSet α) := fun s t =>
  decidable_of_iff (s.toList = t.toList) IndexSet.ext_iff.symm

instance : Membership α (IndexSet α) := ⟨fun s a => a ∈ s.toList⟩

instance : EmptyCollection (IndexSet α) := ⟨⟨[], List.nodup_nil⟩⟩

instance [DecidableEq α] (a : α) (s : IndexSet α) : Decidable (a ∈ s) :=
  inferInstanceAs (Decidable (a ∈ s.toList))

instance (p : α → Prop) [DecidablePred p] (s : IndexSet α) : Decidable (∀ a ∈ s, p a) :=
  inferInstanceAs (Decidable (∀ a ∈ s.toList, p a))

instance (p : α → Prop) [DecidablePred p] (s : IndexSet α) : Decidable (∃ a ∈ s, p a) :=
  inferInstanceAs (Decidable (∃ a ∈ s.toList, p a))

lemma mem_def {a : α} {s : IndexSet α} : a ∈ s ↔ a ∈ s.toList := Iff.rfl

@[simp] lemma toList_empty : (∅ : IndexSet α).toList = [] := rfl

@[simp] lemma not_mem_empty (a : α) : a ∉ (∅ : IndexSet α) := List.not_mem_nil

def isEmpty (s : IndexSet α) : Bool := s.toList.isEmpty

@[simp] lemma isEmpty_iff {s : IndexSet α} : s.isEmpty = true ↔ s = ∅ := by
  rw [isEmpty, List.isEmpty_iff, IndexSet.ext_iff, toList_empty]

@[simp] lemma isEmpty_eq_false_iff {s : IndexSet α} : s.isEmpty = false ↔ s ≠ ∅ := by
  rw [← Bool.not_eq_true, isEmpty_iff]

lemma eq_empty_iff {s : IndexSet α} : s = ∅ ↔ ∀ a, a ∉ s := by
  rw [IndexSet.ext_iff, toList_empty, List.eq_nil_iff_forall_not_mem]; rfl

section
variable [DecidableEq α]

/-- `insert`: at the back, unless the element is there. -/
def insert (s : IndexSet α) (a : α) : IndexSet α :=
  if h : a ∈ s.toList then s
  else ⟨s.toList ++ [a], by
    rw [List.nodup_append]
    exact ⟨s.nodup, List.nodup_singleton a, by rintro x hx y hy rfl; simp_all⟩⟩

@[simp] lemma mem_insert {s : IndexSet α} {a b : α} : b ∈ s.insert a ↔ b ∈ s ∨ b = a := by
  unfold insert
  split
  · next h => exact ⟨Or.inl, by rintro (h' | rfl) <;> assumption⟩
  · simp [mem_def]

lemma toList_insert {s : IndexSet α} {a : α} (h : a ∉ s) :
    (s.insert a).toList = s.toList ++ [a] := by
  rw [mem_def] at h
  rw [insert, dif_neg h]

lemma insert_ne_empty (s : IndexSet α) (a : α) : s.insert a ≠ ∅ := fun h =>
  eq_empty_iff.mp h a (mem_insert.mpr (Or.inr rfl))

/-- `swap_remove`. -/
def erase (s : IndexSet α) (a : α) : IndexSet α :=
  ⟨swapRemove a s.toList, (swapRemove_perm a _).nodup_iff.mpr (s.nodup.erase a)⟩

@[simp] lemma mem_erase {s : IndexSet α} {a b : α} : b ∈ s.erase a ↔ b ∈ s ∧ b ≠ a := by
  rw [mem_def, erase, (swapRemove_perm a _).mem_iff, s.nodup.mem_erase_iff]
  exact And.comm

/-- `collect`: the distinct elements, in order of first occurrence. -/
def ofList (l : List α) : IndexSet α := l.foldl insert ∅

lemma mem_foldl_insert {l : List α} {s : IndexSet α} {a : α} :
    a ∈ l.foldl insert s ↔ a ∈ s ∨ a ∈ l := by
  induction l generalizing s with
  | nil => simp
  | cons b t ih => rw [List.foldl_cons, ih, mem_insert, List.mem_cons, or_assoc]

@[simp] lemma mem_ofList {l : List α} {a : α} : a ∈ ofList l ↔ a ∈ l := by
  simp [ofList, mem_foldl_insert]

lemma toList_foldl_insert {l : List α} {s : IndexSet α} (h : (s.toList ++ l).Nodup) :
    (l.foldl insert s).toList = s.toList ++ l := by
  induction l generalizing s with
  | nil => simp
  | cons b t ih =>
    have hb : b ∉ s := fun hm => by
      rw [List.nodup_append] at h
      exact h.2.2 b hm b (by simp) rfl
    rw [List.foldl_cons, ih (by rw [toList_insert hb]; simpa using h), toList_insert hb]
    simp

lemma foldl_insert_toList (s : IndexSet α) : s.toList.foldl insert ∅ = s := by
  apply IndexSet.ext
  rw [toList_foldl_insert (by simpa using s.nodup), toList_empty, List.nil_append]

lemma toList_ofList {l : List α} (h : l.Nodup) : (ofList l).toList = l := by
  have hl := @toList_foldl_insert _ _ l ∅ (by simpa using h)
  simpa [ofList] using hl

lemma toList_foldl_insert_sublist (l : List α) (s : IndexSet α) :
    (l.foldl insert s).toList.Sublist (s.toList ++ l) := by
  induction l generalizing s with
  | nil => simp
  | cons b t ih =>
    rw [List.foldl_cons]
    refine (ih (s.insert b)).trans ?_
    by_cases hb : b ∈ s.toList
    · rw [insert, dif_pos hb]
      exact (List.Sublist.refl _).append (List.sublist_cons_self b t)
    · rw [toList_insert hb, List.append_assoc, List.singleton_append]

lemma toList_ofList_sublist (l : List α) : (ofList l).toList.Sublist l :=
  toList_foldl_insert_sublist l ∅

end

end IndexSet

/-! ### Index maps -/

/-- An `IndexMap`, or a `HashMap` whose order nothing reads: entries with distinct keys, in
insertion order. -/
@[ext]
structure IndexMap (κ υ : Type) where
  entries : List (κ × υ)
  nodup : (entries.map Prod.fst).Nodup

namespace IndexMap

instance : EmptyCollection (IndexMap κ υ) := ⟨⟨[], List.nodup_nil⟩⟩

@[simp] lemma entries_empty : (∅ : IndexMap κ υ).entries = [] := rfl

def keys (m : IndexMap κ υ) : List κ := m.entries.map Prod.fst

def values (m : IndexMap κ υ) : List υ := m.entries.map Prod.snd

def len (m : IndexMap κ υ) : ℕ := m.entries.length

/-- The keys as a set, in order. -/
def keySet (m : IndexMap κ υ) : IndexSet κ := ⟨m.keys, m.nodup⟩

instance [DecidableEq κ] [DecidableEq υ] : DecidableEq (IndexMap κ υ) := fun s t =>
  decidable_of_iff (s.entries = t.entries) IndexMap.ext_iff.symm

section
variable [DecidableEq κ]

def get? (m : IndexMap κ υ) (k : κ) : Option υ := m.entries.lookup k

def containsKey (m : IndexMap κ υ) (k : κ) : Bool := decide (k ∈ m.keys)

@[simp] lemma containsKey_iff {m : IndexMap κ υ} {k : κ} :
    m.containsKey k = true ↔ k ∈ m.keys := by simp [containsKey]

/-- `insert`: in place when the key is there, at the back otherwise. -/
def insert (m : IndexMap κ υ) (k : κ) (v : υ) : IndexMap κ υ :=
  if h : k ∈ m.keys then
    ⟨m.entries.map fun e => if e.1 = k then (k, v) else e, by
      have : (m.entries.map fun e => if e.1 = k then (k, v) else e).map Prod.fst
          = m.entries.map Prod.fst := by
        rw [List.map_map]
        refine List.map_congr_left fun e _ => ?_
        by_cases he : e.1 = k <;> simp [he]
      rw [this]; exact m.nodup⟩
  else ⟨m.entries ++ [(k, v)], by
    rw [List.map_append, List.nodup_append]
    refine ⟨m.nodup, by simp, ?_⟩
    rintro x hx y hy rfl
    simp only [List.map_cons, List.map_nil, List.mem_singleton] at hy
    exact h (hy ▸ hx)⟩

lemma entries_insert {m : IndexMap κ υ} {k : κ} {v : υ} (h : k ∉ m.keys) :
    (m.insert k v).entries = m.entries ++ [(k, v)] := by
  rw [insert, dif_neg h]

lemma keys_insert {m : IndexMap κ υ} {k : κ} {v : υ} :
    (m.insert k v).keys = if k ∈ m.keys then m.keys else m.keys ++ [k] := by
  unfold insert
  split
  · rw [keys, keys, List.map_map]
    refine List.map_congr_left fun e _ => ?_
    by_cases he : e.1 = k <;> simp [he]
  · simp [keys]

@[simp] lemma mem_keys_insert {m : IndexMap κ υ} {k l : κ} {v : υ} :
    l ∈ (m.insert k v).keys ↔ l ∈ m.keys ∨ l = k := by
  rw [keys_insert]
  split
  · next h => exact ⟨Or.inl, by rintro (h' | rfl) <;> assumption⟩
  · simp

/-- `remove`, keeping the order of the other entries. -/
def erase (m : IndexMap κ υ) (k : κ) : IndexMap κ υ :=
  ⟨m.entries.filter fun e => e.1 ≠ k, (List.filter_sublist.map _).nodup m.nodup⟩

lemma keys_erase {m : IndexMap κ υ} {k : κ} : (m.erase k).keys = m.keys.filter (· ≠ k) := by
  rw [keys, erase, keys, List.filter_map]
  rfl

@[simp] lemma mem_keys_erase {m : IndexMap κ υ} {k l : κ} :
    l ∈ (m.erase k).keys ↔ l ∈ m.keys ∧ l ≠ k := by
  simp only [keys, erase, List.mem_map, List.mem_filter, decide_eq_true_eq]
  constructor
  · rintro ⟨e, ⟨he, hk⟩, rfl⟩; exact ⟨⟨e, he, rfl⟩, hk⟩
  · rintro ⟨⟨e, he, rfl⟩, hk⟩; exact ⟨e, ⟨he, hk⟩, rfl⟩

lemma entries_foldl_insert {es : List (κ × υ)} {m : IndexMap κ υ}
    (h : ((m.entries ++ es).map Prod.fst).Nodup) :
    (es.foldl (fun m e => m.insert e.1 e.2) m).entries = m.entries ++ es := by
  induction es generalizing m with
  | nil => simp
  | cons e es ih =>
    have he : e.1 ∉ m.keys := fun hm => by
      rw [List.map_append, List.nodup_append] at h
      exact h.2.2 e.1 hm e.1 (by simp) rfl
    rw [List.foldl_cons, ih (by rw [entries_insert he]; simpa using h), entries_insert he]
    simp

lemma foldl_insert_entries (m : IndexMap κ υ) :
    m.entries.foldl (fun m e => m.insert e.1 e.2) ∅ = m := by
  apply IndexMap.ext
  rw [entries_foldl_insert (by simpa using m.nodup), entries_empty, List.nil_append]

/-! ### Lookups -/

lemma get?_eq_some_iff {m : IndexMap κ υ} {k : κ} {v : υ} :
    m.get? k = some v ↔ (k, v) ∈ m.entries := by
  obtain ⟨es, hnd⟩ := m
  unfold get?
  dsimp only at hnd ⊢
  induction es with
  | nil => simp
  | cons e es ih =>
    obtain ⟨l, w⟩ := e
    rw [List.map_cons, List.nodup_cons] at hnd
    rw [List.lookup_cons, List.mem_cons, Prod.mk.injEq]
    rcases eq_or_ne k l with rfl | hk
    · have hno : (k, v) ∉ es := fun h => hnd.1 (List.mem_map.mpr ⟨_, h, rfl⟩)
      simp [hno, eq_comm]
    · rw [beq_eq_false_iff_ne.mpr hk]
      simpa [hk] using ih hnd.2

lemma get?_isSome {m : IndexMap κ υ} {k : κ} : (m.get? k).isSome ↔ k ∈ m.keys := by
  simp [Option.isSome_iff_exists, get?_eq_some_iff, keys]

lemma get?_insert {m : IndexMap κ υ} {k l : κ} {v : υ} :
    (m.insert k v).get? l = if l = k then some v else m.get? l := by
  ext w
  rw [get?_eq_some_iff]
  unfold insert
  split
  · next hk =>
    split
    · next hl =>
      subst hl
      simp only [List.mem_map]
      constructor
      · rintro ⟨e, he, h⟩
        split at h
        · cases h; rfl
        · next hne => exact absurd (congrArg Prod.fst h) hne
      · rintro h
        cases h
        obtain ⟨e, he, rfl⟩ := List.mem_map.mp hk
        exact ⟨e, he, if_pos rfl⟩
    · next hl =>
      rw [get?_eq_some_iff]
      simp only [List.mem_map]
      constructor
      · rintro ⟨e, he, h⟩
        split at h
        · cases h; exact absurd rfl hl
        · exact h ▸ he
      · intro h
        exact ⟨(l, w), h, if_neg hl⟩
  · next hk =>
    rw [List.mem_append, List.mem_singleton, Prod.mk.injEq]
    split
    · next hl =>
      subst hl
      constructor
      · rintro (h | ⟨-, rfl⟩)
        · exact absurd (List.mem_map.mpr ⟨_, h, rfl⟩) hk
        · rfl
      · rintro h
        cases h
        exact .inr ⟨rfl, rfl⟩
    · next hl =>
      rw [get?_eq_some_iff]
      exact or_iff_left fun h => hl h.1

lemma mem_of_mem_insert {m : IndexMap κ υ} {k : κ} {v : υ} {e : κ × υ}
    (h : e ∈ (m.insert k v).entries) : e ∈ m.entries ∨ e = (k, v) := by
  rw [← get?_eq_some_iff, get?_insert] at h
  split at h
  · next hkey =>
    have hvalue : e.2 = v := (Option.some_inj.mp h).symm
    exact Or.inr (Prod.ext hkey hvalue)
  · exact Or.inl (get?_eq_some_iff.mp h)

lemma mem_of_mem_foldl_insert {es : List (κ × υ)} {m : IndexMap κ υ} {e : κ × υ}
    (h : e ∈ (es.foldl (fun m e => m.insert e.1 e.2) m).entries) : e ∈ m.entries ∨ e ∈ es := by
  induction es generalizing m with
  | nil => exact Or.inl h
  | cons d es ih =>
    rcases ih h with hin | hin
    · rcases mem_of_mem_insert hin with hold | heq
      · exact Or.inl hold
      · exact Or.inr (List.mem_cons.mpr (Or.inl heq))
    · exact Or.inr (List.mem_cons_of_mem d hin)

lemma len_foldl_insert_le (es : List (κ × υ)) (m : IndexMap κ υ) :
    (es.foldl (fun m e => m.insert e.1 e.2) m).len ≤ m.len + es.length := by
  induction es generalizing m with
  | nil => exact le_rfl
  | cons e es ih =>
    have hkeys : ∀ m : IndexMap κ υ, m.len = m.keys.length := fun m => (List.length_map _).symm
    have hinsert : (m.insert e.1 e.2).len ≤ m.len + 1 := by
      rw [hkeys, hkeys, keys_insert]
      split
      · exact Nat.le_succ _
      · rw [List.length_append, List.length_singleton]
    have hrest := ih (m.insert e.1 e.2)
    rw [List.foldl_cons, List.length_cons]
    omega

lemma entries_collect_subset (es : List (κ × υ)) :
    (es.foldl (fun m e => m.insert e.1 e.2) (∅ : IndexMap κ υ)).entries ⊆ es := fun e he =>
  (mem_of_mem_foldl_insert he).resolve_left (List.not_mem_nil : e ∉ [])

lemma len_collect_le (es : List (κ × υ)) :
    (es.foldl (fun m e => m.insert e.1 e.2) (∅ : IndexMap κ υ)).len ≤ es.length :=
  (len_foldl_insert_le es ∅).trans_eq (Nat.zero_add _)

lemma get?_erase {m : IndexMap κ υ} {k l : κ} :
    (m.erase k).get? l = if l = k then none else m.get? l := by
  ext w
  rw [get?_eq_some_iff, erase, List.mem_filter]
  split
  · next hl => simp [hl]
  · next hl => simp [hl, get?_eq_some_iff]

end

end IndexMap

/-! ### The first of each kind -/

section Firsts

variable [DecidableEq β] (f : α → β)

/-- The elements with an image that no earlier element has, in order. -/
def firstsBy (l : List α) : List α :=
  l.foldl (fun kept a => if f a ∈ kept.map f then kept else kept ++ [a]) []

variable {f} {l : List α} {a : α}

lemma firstsBy_concat : firstsBy f (l ++ [a])
    = if f a ∈ (firstsBy f l).map f then firstsBy f l else firstsBy f l ++ [a] := by
  rw [firstsBy, List.foldl_concat]
  rfl

lemma mem_map_firstsBy {b : β} : b ∈ (firstsBy f l).map f ↔ b ∈ l.map f := by
  induction l using List.reverseRecOn with
  | nil => rfl
  | append_singleton l a ih =>
    rw [firstsBy_concat, List.map_append, List.mem_append, ← ih]
    split
    · next h =>
      refine ⟨.inl, fun hb => hb.elim id fun hb => ?_⟩
      rw [List.mem_singleton.mp hb]
      exact h
    · rw [List.map_append, List.mem_append]

/-- Every image is kept once. -/
lemma nodup_map_firstsBy : ((firstsBy f l).map f).Nodup := by
  induction l using List.reverseRecOn with
  | nil => exact List.nodup_nil
  | append_singleton l a ih =>
    rw [firstsBy_concat]
    split
    · exact ih
    · next h =>
      rw [List.map_append, List.nodup_append]
      refine ⟨ih, List.nodup_singleton _, fun x hx y hy hxy => h ?_⟩
      rwa [← List.mem_singleton.mp hy, ← hxy]

/-- What is kept is the first element with its image. -/
lemma mem_firstsBy : a ∈ firstsBy f l ↔ ∃ l₁ l₂, l = l₁ ++ a :: l₂ ∧ f a ∉ l₁.map f := by
  induction l using List.reverseRecOn with
  | nil => simp [firstsBy]
  | append_singleton l b ih =>
    have hlast : a ∈ firstsBy f (l ++ [b]) ↔
        a ∈ firstsBy f l ∨ (f b ∉ l.map f ∧ a = b) := by
      rw [firstsBy_concat]
      split
      · next hb => simp only [mem_map_firstsBy.mp hb, not_true_eq_false, false_and, or_false]
      · next hb =>
        have hb' : f b ∉ l.map f := fun h => hb (mem_map_firstsBy.mpr h)
        rw [List.mem_append, List.mem_singleton]
        simp only [hb', not_false_eq_true, true_and]
    rw [hlast, ih]
    constructor
    · rintro (⟨l₁, l₂, rfl, h⟩ | ⟨h, rfl⟩)
      · exact ⟨l₁, l₂ ++ [b], by simp, h⟩
      · exact ⟨l, [], rfl, h⟩
    · rintro ⟨l₁, l₂, hl, h⟩
      rcases List.eq_nil_or_concat l₂ with rfl | ⟨l₃, c, rfl⟩
      · obtain ⟨rfl, hb⟩ := List.append_inj' hl rfl
        obtain rfl : b = a := List.singleton_inj.mp hb
        exact .inr ⟨h, rfl⟩
      · rw [List.concat_eq_append, ← List.cons_append, ← List.append_assoc] at hl
        exact .inl ⟨l₁, l₃, (List.append_inj' hl rfl).1, h⟩

lemma firstsBy_subset : firstsBy f l ⊆ l := fun a h => by
  obtain ⟨l₁, l₂, rfl, -⟩ := mem_firstsBy.mp h
  exact List.mem_append_right _ (.head _)

end Firsts

/-! ### Ordered maps -/

section TreeMap

open Std

variable [Ord κ] [TransOrd κ] [LawfulEqOrd κ]

lemma getElem?_insertKey [DecidableEq κ] {m : ExtTreeMap κ υ} {k a : κ} {v : υ} :
    (m.insert k v)[a]? = if k = a then some v else m[a]? := by
  rw [ExtTreeMap.getElem?_insert]
  exact if_congr Std.compare_eq_iff_eq rfl rfl

lemma getElem?_eraseKey [DecidableEq κ] {m : ExtTreeMap κ υ} {k a : κ} :
    (m.erase k)[a]? = if k = a then none else m[a]? := by
  rw [ExtTreeMap.getElem?_erase]
  exact if_congr Std.compare_eq_iff_eq rfl rfl

lemma getElem?_retain {m : ExtTreeMap κ υ} {f : κ → υ → Bool} {k : κ} :
    (m.filter f)[k]? = m[k]?.filter (f k) := by
  simp only [ExtTreeMap.getElem?_filter, ExtTreeMap.getKey_eq, Option.pfilter_eq_filter]

lemma getElem?_retainMap {m : ExtTreeMap κ υ} {f : κ → υ → Option β} {k : κ} :
    (m.filterMap f)[k]? = m[k]?.bind (f k) := by
  simp only [ExtTreeMap.getElem?_filterMap, ExtTreeMap.getKey_eq, Option.pbind_eq_bind]

/-- `values`, in key order. -/
def mapValues (m : ExtTreeMap κ υ) : List υ := m.toList.map Prod.snd

lemma mem_mapValues {m : ExtTreeMap κ υ} {v : υ} : v ∈ mapValues m ↔ ∃ k : κ, m[k]? = some v := by
  simp only [mapValues, List.mem_map, Prod.exists, ExtTreeMap.mem_toList_iff_getElem?_eq_some]
  exact ⟨fun ⟨k, w, h, hw⟩ => ⟨k, hw ▸ h⟩, fun ⟨k, h⟩ => ⟨k, v, h, rfl⟩⟩

omit [LawfulEqOrd κ] in
lemma bind_dropEmpty {m : ExtTreeMap κ υ} {k : κ} :
    (if m.isEmpty then none else some m).bind (fun m => m[k]?) = m[k]? := by
  split
  · next h => rw [ExtTreeMap.isEmpty_iff.mp h]; simp
  · rfl

end TreeMap

end AmareleoChain
