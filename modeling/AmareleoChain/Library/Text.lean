import Mathlib.Data.List.Infix

/-!
Substrings of a list of characters: where a pattern occurs, and its replacement.

`replace` goes from left to right, and what a match has consumed is not searched again. The
pattern is not empty.
-/

namespace AmareleoChain

variable {α : Type} [DecidableEq α]

namespace Text

def contains (pattern s : List α) : Bool := decide (pattern <:+: s)

/-- `replace`, after `skip` characters that belong to the last match. -/
def replaceFrom (pattern new : List α) : ℕ → List α → List α
  | _, [] => []
  | skip + 1, _ :: s => replaceFrom pattern new skip s
  | 0, c :: s =>
    if pattern <+: c :: s then new ++ replaceFrom pattern new (pattern.length - 1) s
    else c :: replaceFrom pattern new 0 s

def replace (pattern new s : List α) : List α := replaceFrom pattern new 0 s

variable {pattern new s : List α}

lemma replaceFrom_length (front s : List α) :
    replaceFrom pattern new front.length (front ++ s) = replace pattern new s := by
  induction front with
  | nil => rfl
  | cons c front ih => exact ih

lemma replace_pattern_append (h : pattern ≠ []) (s : List α) :
    replace pattern new (pattern ++ s) = new ++ replace pattern new s := by
  obtain ⟨c, front, rfl⟩ := List.exists_cons_of_ne_nil h
  have hpre : c :: front <+: c :: (front ++ s) := List.prefix_append (c :: front) s
  rw [replace, List.cons_append, replaceFrom, if_pos hpre, List.length_cons,
    Nat.add_sub_cancel, replaceFrom_length]

lemma replace_cons {c : α} (h : ¬ pattern <+: c :: s) :
    replace pattern new (c :: s) = c :: replace pattern new s := by
  rw [replace, replaceFrom, if_neg h]
  rfl

lemma replace_of_not_mem {c : α} (hc : c ∈ pattern) (hs : c ∉ s) : replace pattern new s = s := by
  induction s with
  | nil => rfl
  | cons d s ih =>
    rw [replace_cons fun hpre => hs (hpre.subset hc),
      ih fun hmem => hs (List.mem_cons_of_mem d hmem)]

/-- **The first match** is replaced, when none begins in the characters before it. -/
theorem replace_append (h : pattern ≠ []) {front : List α} (s : List α)
    (hfront : ∀ t ∈ front.tails, t ≠ [] → ¬ pattern <+: t ++ pattern) :
    replace pattern new (front ++ (pattern ++ s)) = front ++ (new ++ replace pattern new s) := by
  induction front with
  | nil => exact replace_pattern_append h s
  | cons c front ih =>
    rw [List.tails_cons, List.forall_mem_cons] at hfront
    have hno : ¬ pattern <+: c :: (front ++ (pattern ++ s)) := by
      intro hpre
      rw [← List.append_assoc, ← List.cons_append, ← List.cons_append] at hpre
      refine hfront.1 (List.cons_ne_nil c front) ?_
      refine List.prefix_of_prefix_length_le hpre (List.prefix_append _ s) ?_
      rw [List.length_append]
      exact Nat.le_add_left _ _
    rw [List.cons_append, replace_cons hno, ih hfront.2, List.cons_append]

end Text

end AmareleoChain
