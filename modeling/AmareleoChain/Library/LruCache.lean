import Mathlib.Data.List.Nodup
import Mathlib.Data.List.Infix

/-!
The bounded cache of the `lru` crate: what is put in takes the place of what was used least
recently, and reading makes an entry the most recently used one.
-/

namespace AmareleoChain

/-- `LruCache<K, V>`: its entries, from the most recently used one. -/
structure LruCache (κ υ : Type) where
  capacity : ℕ
  entries : List (κ × υ)

namespace LruCache

variable {κ υ : Type} [DecidableEq κ]

def put (c : LruCache κ υ) (k : κ) (v : υ) : LruCache κ υ :=
  { c with entries := ((k, v) :: c.entries.filter fun e => e.1 ≠ k).take c.capacity }

/-- `get_mut`: the entry becomes the most recently used one. -/
def getMut (c : LruCache κ υ) (k : κ) : Option υ × LruCache κ υ :=
  match c.entries.lookup k with
  | none => (none, c)
  | some v => (some v, { c with entries := (k, v) :: c.entries.filter fun e => e.1 ≠ k })

/-- The value of a key, which stays where it is in the order of use. -/
def peek (c : LruCache κ υ) (k : κ) : Option υ := c.entries.lookup k

def keys (c : LruCache κ υ) : List κ := c.entries.map Prod.fst

def len (c : LruCache κ υ) : ℕ := c.entries.length

/-- `pop_lru`: the least recently used entry. -/
def popLru (c : LruCache κ υ) : Option (κ × υ) × LruCache κ υ :=
  (c.entries.getLast?, { c with entries := c.entries.dropLast })

/-- The entries that `n` calls of `pop_lru` give, in order. -/
def popLrus : ℕ → LruCache κ υ → List (κ × υ) × LruCache κ υ
  | 0, c => ([], c)
  | n + 1, c =>
    match c.popLru with
    | (none, c) => popLrus n c
    | (some e, c) =>
      let (es, c) := popLrus n c
      (e :: es, c)

/-- The key that gives way when a key is put: that used least recently, when the cache is full and
does not have the key. -/
def evicted (c : LruCache κ υ) (k : κ) : Option κ :=
  if k ∈ c.keys ∨ c.len < c.capacity then none else c.keys.getLast?

/-- The keys are distinct, and not more than the capacity. -/
structure Valid (c : LruCache κ υ) : Prop where
  nodup : c.keys.Nodup
  le : c.len ≤ c.capacity

variable {c : LruCache κ υ} {k k' : κ} {v w : υ}

lemma lookup_filter_ne {l : List (κ × υ)} (hne : k' ≠ k) :
    (l.filter fun e => e.1 ≠ k).lookup k' = l.lookup k' := by
  induction l with
  | nil => rfl
  | cons e l ih =>
    obtain ⟨i, x⟩ := e
    by_cases hi : i = k
    · subst hi
      have hbeq : (k' == i) = false := beq_eq_false_iff_ne.mpr hne
      rw [List.filter_cons_of_neg (by simp), List.lookup_cons, hbeq, ih]
    · rw [List.filter_cons_of_pos (by simpa using hi), List.lookup_cons, List.lookup_cons, ih]

/-- Reading leaves the values. -/
@[simp] lemma peek_getMut : (c.getMut k).2.peek k' = c.peek k' := by
  rw [getMut]
  split
  · rfl
  · next v hv =>
    rw [peek, peek, List.lookup_cons]
    by_cases hk : k' = k
    · subst hk
      rw [hv, beq_self_eq_true]
    · rw [beq_eq_false_iff_ne.mpr hk, lookup_filter_ne hk]

lemma fst_getMut : (c.getMut k).1 = c.peek k := by
  rw [getMut, peek]
  split
  · next h => exact h.symm
  · next h => exact h.symm

lemma peek_put (h : (c.put k v).peek k' = some w) :
    k' = k ∧ w = v ∨ k' ≠ k ∧ c.peek k' = some w := by
  have hall := (List.take_prefix _ _).lookup_eq_some h
  rw [List.lookup_cons] at hall
  by_cases hk : k' = k
  · rw [hk, beq_self_eq_true] at hall
    exact .inl ⟨hk, (Option.some.inj hall).symm⟩
  · rw [beq_eq_false_iff_ne.mpr hk, lookup_filter_ne hk] at hall
    exact .inr ⟨hk, hall⟩

/-! ### Keys -/

lemma peek_isSome : (c.peek k).isSome = true ↔ k ∈ c.keys := by
  rw [peek, List.lookup_isSome_iff, keys, List.mem_map]
  refine exists_congr fun e => and_congr_right fun _ => ?_
  rw [beq_iff_eq, eq_comm]

omit [DecidableEq κ] in
lemma valid_empty (n : ℕ) : (⟨n, []⟩ : LruCache κ υ).Valid := ⟨List.nodup_nil, Nat.zero_le n⟩

lemma keys_put : (c.put k v).keys = (k :: c.keys.filter (· ≠ k)).take c.capacity := by
  rw [keys, put, List.map_take, List.map_cons, keys, List.filter_map]
  rfl

lemma Valid.put (h : c.Valid) (k : κ) (v : υ) : (c.put k v).Valid := by
  constructor
  · rw [keys_put]
    refine (List.nodup_cons.mpr ⟨?_, h.nodup.filter _⟩).sublist (List.take_sublist _ _)
    intro hk
    exact of_decide_eq_true (List.mem_filter.mp hk).2 rfl
  · rw [len, LruCache.put]
    exact List.length_take_le _ _

lemma forall_put {P : κ × υ → Prop} (h : ∀ e ∈ c.entries, P e) (hk : P (k, v)) :
    ∀ e ∈ (c.put k v).entries, P e := by
  intro e he
  rcases List.mem_cons.mp (List.mem_of_mem_take he) with rfl | he
  · exact hk
  · exact h e (List.mem_filter.mp he).1

/-- **What a cache has after a key is put**: the key, and what it had but for what gave way. -/
lemma Valid.mem_keys_put (h : c.Valid) (hpos : 0 < c.capacity) :
    k' ∈ (c.put k v).keys ↔ k' = k ∨ k' ∈ c.keys ∧ c.evicted k ≠ some k' := by
  have hlen : c.keys.length = c.len := List.length_map _
  obtain ⟨m, hm⟩ : ∃ m, c.capacity = m + 1 := ⟨c.capacity - 1, by omega⟩
  have hle := h.le
  rw [keys_put, hm, List.take_succ_cons, List.mem_cons, evicted]
  by_cases hk : k ∈ c.keys
  · -- the key is moved, and nothing gives way
    have hlt : (c.keys.filter (· ≠ k)).length < c.keys.length := by
      rw [List.length_filter_lt_length_iff_exists]
      exact ⟨k, hk, by simp⟩
    rw [List.take_of_length_le (by omega), if_pos (.inl hk), List.mem_filter]
    by_cases hk' : k' = k
    · simp [hk']
    · simp [hk']
  · have hall : c.keys.filter (· ≠ k) = c.keys := by
      rw [List.filter_eq_self]
      intro x hx
      exact decide_eq_true fun he => hk (he ▸ hx)
    rw [hall]
    by_cases hfull : c.len < c.capacity
    · rw [List.take_of_length_le (by omega), if_pos (.inr hfull)]
      simp
    · -- the cache is full, and its last key gives way
      rw [if_neg (not_or.mpr ⟨hk, hfull⟩)]
      have hkeys : c.keys ≠ [] := by
        intro hnil
        rw [hnil, List.length_nil] at hlen
        omega
      obtain ⟨xs, x, hxs⟩ := List.eq_nil_or_concat c.keys |>.resolve_left hkeys
      have hm' : m = xs.length := by
        rw [hxs, List.length_concat] at hlen
        omega
      have hnodup := h.nodup
      rw [hxs, List.concat_eq_append, List.nodup_append] at hnodup
      rw [hxs, List.concat_eq_append, hm', List.take_left, List.getLast?_concat, List.mem_append,
        List.mem_singleton, Ne, Option.some_inj]
      refine or_congr_right ⟨fun hmem => ⟨.inl hmem, fun he => ?_⟩, fun hmem => ?_⟩
      · exact hnodup.2.2 k' hmem x (List.mem_singleton_self x) he.symm
      · exact hmem.1.resolve_right fun he => hmem.2 he.symm

/-! ### What is popped -/

omit [DecidableEq κ] in
lemma popLru_spec (c : LruCache κ υ) :
    c.popLru.2.entries ++ c.popLru.1.toList = c.entries := by
  rw [popLru]
  cases hlast : c.entries.getLast? with
  | none =>
    rw [List.getLast?_eq_none_iff.mp hlast]
    rfl
  | some e => exact List.dropLast_append_getLast? e hlast

omit [DecidableEq κ] in
lemma length_popLru (c : LruCache κ υ) :
    c.popLru.1.toList.length = min 1 c.len ∧ c.popLru.2.len = c.len - 1 := by
  refine ⟨?_, List.length_dropLast⟩
  obtain ⟨capacity, entries⟩ := c
  rcases List.eq_nil_or_concat entries with rfl | ⟨es, e, rfl⟩
  · rfl
  · simp [popLru, len]

omit [DecidableEq κ] in
lemma popLru_append {c : LruCache κ υ} {rest es : List (κ × υ)}
    (h : rest ++ es.reverse = c.popLru.2.entries) :
    rest ++ (c.popLru.1.toList ++ es).reverse = c.entries := by
  have hreverse : c.popLru.1.toList.reverse = c.popLru.1.toList := by
    cases c.popLru.1 with
    | none => rfl
    | some e => rfl
  calc rest ++ (c.popLru.1.toList ++ es).reverse
      = (rest ++ es.reverse) ++ c.popLru.1.toList := by
        rw [List.reverse_append, hreverse, List.append_assoc]
    _ = c.popLru.2.entries ++ c.popLru.1.toList := by rw [h]
    _ = c.entries := c.popLru_spec

omit [DecidableEq κ] in
/-- **What is popped** is the end of the cache, from the entry used least recently on. -/
lemma popLrus_spec (n : ℕ) (c : LruCache κ υ) :
    (c.popLrus n).2.entries ++ (c.popLrus n).1.reverse = c.entries ∧
      (c.popLrus n).1.length = min n c.len ∧ (c.popLrus n).2.capacity = c.capacity := by
  induction n generalizing c with
  | zero => exact ⟨List.append_nil _, (Nat.zero_min _).symm, rfl⟩
  | succ n ih =>
    obtain ⟨capacity, entries⟩ := c
    rcases List.eq_nil_or_concat entries with rfl | ⟨es, e, rfl⟩
    · obtain ⟨hentries, hlen, hcapacity⟩ := ih ⟨capacity, []⟩
      exact ⟨hentries, hlen.trans (Nat.min_zero n), hcapacity⟩
    · have hpop : popLru (⟨capacity, es.concat e⟩ : LruCache κ υ)
          = (some e, ⟨capacity, es⟩) := by
        rw [popLru]
        simp
      obtain ⟨hentries, hlen, hcapacity⟩ := ih ⟨capacity, es⟩
      rw [popLrus, hpop]
      dsimp only
      refine ⟨?_, ?_, hcapacity⟩
      · rw [List.reverse_cons, ← List.append_assoc, hentries, List.concat_eq_append]
      · rw [List.length_cons, hlen]
        simp only [len, List.length_concat]
        omega

omit [DecidableEq κ] in
lemma eq_take_of_append {rest popped : List (κ × υ)} {n : ℕ}
    (hentries : rest ++ popped.reverse = c.entries) (hlen : popped.length = min n c.len) :
    popped = c.entries.reverse.take n := by
  have htotal : c.len = rest.length + popped.length := by
    rw [len, ← hentries, List.length_append, List.length_reverse]
  rw [← hentries, List.reverse_append, List.reverse_reverse]
  by_cases hall : popped.length = n
  · rw [← hall, List.take_left]
  · have hrest : rest = [] := List.length_eq_zero_iff.mp (by omega)
    rw [hrest, List.reverse_nil, List.append_nil, List.take_of_length_le (by omega)]

end LruCache

end AmareleoChain
