import Mathlib.Data.List.Infix
import Mathlib.Data.List.Range
import Mathlib.Order.Lattice

/-!
Chains of leaders. Every slot has at most one leader, and a leader may be linked to leaders of
earlier slots. The chain of a leader goes down through the slots and takes each leader that
is linked from the one taken last.

A leader is an anchor when every leader of a later slot is linked to it. The chains of two
anchors are one a prefix of the other, and this is what makes logs built from such chains, in
pieces and at different moments, agree.
-/

namespace AmareleoChain

namespace LeaderChain

variable {ν : Type}

section
variable (leader : ℕ → Option ν) (link : ν → ν → Prop) [DecidableRel link]

/-- The leaders taken in the given slots, from the newest to the oldest, below `cur`. -/
def descend : ν → List ℕ → List ν
  | _, [] => []
  | cur, s :: ss =>
    match leader s with
    | none => descend cur ss
    | some p => if link cur p then p :: descend p ss else descend cur ss

/-- The slots strictly between two slots, in descending order. -/
def slots (low high : ℕ) : List ℕ := (List.range' (low + 1) (high - 1 - low)).reverse

/-- The chain of the leader `d` of slot `high` above slot `low`, from the oldest to `d`. -/
def chain (low high : ℕ) (d : ν) : List ν := (d :: descend leader link d (slots low high)).reverse

/-- Every leader of a later slot is linked to `d`. -/
def Anchor (high : ℕ) (d : ν) : Prop :=
  leader high = some d ∧ ∀ s p, high < s → leader s = some p → link p d

end

variable {leader : ℕ → Option ν} {link : ν → ν → Prop} [DecidableRel link]

lemma mem_slots {low high s : ℕ} : s ∈ slots low high ↔ low < s ∧ s < high := by
  rw [slots, List.mem_reverse, List.mem_range'_1]
  omega

lemma slots_split {low mid high : ℕ} (h₁ : low < mid) (h₂ : mid < high) :
    slots low high = slots mid high ++ mid :: slots low mid := by
  have hr : List.range' (low + 1) (high - 1 - low)
      = List.range' (low + 1) (mid - 1 - low) ++ mid :: List.range' (mid + 1) (high - 1 - mid) := by
    have hm : high - 1 - low = (mid - 1 - low) + (1 + (high - 1 - mid)) := by omega
    rw [hm, ← List.range'_append_1, Nat.add_comm 1, List.range'_succ]
    congr 3 <;> omega
  rw [slots, hr, List.reverse_append, List.reverse_cons, List.append_assoc]
  rfl

/-! ### Descending -/

lemma mem_descend {cur p : ν} {ss : List ℕ} (h : p ∈ descend leader link cur ss) :
    ∃ s ∈ ss, leader s = some p := by
  induction ss generalizing cur with
  | nil => cases h
  | cons s ss ih =>
    rw [descend] at h
    split at h
    · obtain ⟨t, ht, hp⟩ := ih h
      exact ⟨t, List.mem_cons_of_mem _ ht, hp⟩
    · next q hq =>
      split at h
      · rcases List.mem_cons.mp h with rfl | h
        · exact ⟨s, List.mem_cons_self, hq⟩
        · obtain ⟨t, ht, hp⟩ := ih h
          exact ⟨t, List.mem_cons_of_mem _ ht, hp⟩
      · obtain ⟨t, ht, hp⟩ := ih h
        exact ⟨t, List.mem_cons_of_mem _ ht, hp⟩

/-- Only leaders that are linked from the leaders met matter. -/
lemma descend_congr {f : ℕ → Option ν} {P : ν → Prop} {ss : List ℕ}
    (hiff : ∀ cur, P cur → ∀ s ∈ ss, ∀ p, link cur p → (leader s = some p ↔ f s = some p))
    (hP : ∀ cur, P cur → ∀ s ∈ ss, ∀ p, leader s = some p → link cur p → P p) {cur : ν}
    (hcur : P cur) : descend leader link cur ss = descend f link cur ss := by
  induction ss generalizing cur with
  | nil => rfl
  | cons s ss ih =>
    have ih' : ∀ {cur}, P cur → descend leader link cur ss = descend f link cur ss :=
      fun hc => ih (fun c hc t ht => hiff c hc t (List.mem_cons_of_mem _ ht))
        (fun c hc t ht => hP c hc t (List.mem_cons_of_mem _ ht)) hc
    have hhere := hiff cur hcur s List.mem_cons_self
    rw [descend, descend]
    cases hl : leader s with
    | none =>
      rw [ih' hcur]
      cases hl' : f s with
      | none => rfl
      | some q =>
        have hno : ¬ link cur q := fun hq => by
          have := (hhere q hq).mpr hl'
          rw [hl] at this
          cases this
        simp only [if_neg hno]
    | some p =>
      by_cases hp : link cur p
      · have hPp := hP cur hcur s List.mem_cons_self p hl hp
        rw [(hhere p hp).mp hl]
        simp only [if_pos hp, ih' hPp]
      · simp only [if_neg hp, ih' hcur]
        cases hl' : f s with
        | none => rfl
        | some q =>
          have hno : ¬ link cur q := fun hq => by
            have hq' := (hhere q hq).mpr hl'
            rw [hl] at hq'
            cases hq'
            exact hp hq
          simp only [if_neg hno]

/-- The leader from which the descent goes on after some slots. -/
def reached (leader : ℕ → Option ν) (link : ν → ν → Prop) [DecidableRel link] (cur : ν)
    (ss : List ℕ) : ν :=
  (descend leader link cur ss).getLastD cur

lemma descend_append (cur : ν) (ss ts : List ℕ) :
    descend leader link cur (ss ++ ts)
      = descend leader link cur ss ++ descend leader link (reached leader link cur ss) ts := by
  induction ss generalizing cur with
  | nil => rfl
  | cons s ss ih =>
    simp only [List.cons_append, descend, reached]
    split
    · exact ih cur
    · next p hp =>
      split
      · rw [ih p, List.cons_append]
        simp only [reached, List.getLastD_cons]
      · exact ih cur

lemma reached_leader {cur : ν} {high : ℕ} (hcur : leader high = some cur) {ss : List ℕ} :
    ∃ s, (s = high ∨ s ∈ ss) ∧ leader s = some (reached leader link cur ss) := by
  rcases List.eq_nil_or_concat (descend leader link cur ss) with h | ⟨l, p, h⟩
  · exact ⟨high, .inl rfl, by rw [reached, h]; exact hcur⟩
  · have hmem : p ∈ descend leader link cur ss := by rw [h]; simp
    obtain ⟨s, hs, hp⟩ := mem_descend hmem
    exact ⟨s, .inr hs, by rw [reached, h]; simpa using hp⟩

/-! ### Chains -/

lemma mem_chain {low high : ℕ} {d p : ν} (h : p ∈ chain leader link low high d) :
    p = d ∨ ∃ s, low < s ∧ s < high ∧ leader s = some p := by
  rw [chain, List.mem_reverse, List.mem_cons] at h
  refine h.imp id fun h => ?_
  obtain ⟨s, hs, hp⟩ := mem_descend h
  exact ⟨s, (mem_slots.mp hs).1, (mem_slots.mp hs).2, hp⟩

@[simp] lemma getLast?_chain {low high : ℕ} {d : ν} :
    (chain leader link low high d).getLast? = some d := by
  rw [chain, List.getLast?_reverse, List.head?_cons]

/-- A leader taken by a chain splits it. -/
lemma chain_split {low mid high : ℕ} {d e : ν} (h₁ : low < mid) (h₂ : mid < high)
    (hd : leader mid = some d) (hlink : link (reached leader link e (slots mid high)) d) :
    chain leader link low high e
      = chain leader link low mid d ++ chain leader link mid high e := by
  rw [chain, slots_split h₁ h₂, descend_append, descend, hd]
  simp only [if_pos hlink, chain, List.reverse_cons, List.reverse_append, List.append_assoc,
    List.cons_append, List.nil_append]

/-- **An anchor splits the chains that reach over it.** -/
theorem Anchor.chain_append {low mid high : ℕ} {d e : ν} (hd : Anchor leader link mid d)
    (he : leader high = some e) (h₁ : low < mid) (h₂ : mid < high) :
    chain leader link low high e
      = chain leader link low mid d ++ chain leader link mid high e := by
  obtain ⟨s, hs, hr⟩ : ∃ s, (s = high ∨ s ∈ slots mid high) ∧
      leader s = some (reached leader link e (slots mid high)) := reached_leader he
  have hlt : mid < s := by
    rcases hs with rfl | hs
    · exact h₂
    · exact (mem_slots.mp hs).1
  exact chain_split h₁ h₂ hd.1 (hd.2 s _ hlt hr)

/-- The chains of two anchors: one is a prefix of the other. -/
theorem Anchor.chain_prefix {low m n : ℕ} {d e : ν} (hd : Anchor leader link m d)
    (he : Anchor leader link n e) (hm : low < m) (hmn : m ≤ n) :
    chain leader link low m d <+: chain leader link low n e := by
  rcases Nat.lt_or_eq_of_le hmn with h | rfl
  · rw [hd.chain_append he.1 hm h]
    exact List.prefix_append _ _
  · have hde : d = e := Option.some_inj.mp (hd.1.symm.trans he.1)
    rw [hde]

/-- A leader has one slot. -/
def Injective (leader : ℕ → Option ν) : Prop :=
  ∀ {s t : ℕ} {p : ν}, leader s = some p → leader t = some p → s = t

lemma chain_append_of_mem (hinj : Injective leader) {low mid high : ℕ} {d e : ν}
    (hd : leader mid = some d) (he : leader high = some e) (h₁ : low < mid)
    (hmem : d ∈ chain leader link low high e) :
    (mid = high ∧ d = e) ∨ (mid < high ∧ chain leader link low high e
      = chain leader link low mid d ++ chain leader link mid high e) := by
  rcases mem_chain hmem with rfl | ⟨s, hs₁, hs₂, hs⟩
  · exact .inl ⟨hinj hd he, rfl⟩
  · obtain rfl := hinj hs hd
    refine .inr ⟨hs₂, chain_split h₁ hs₂ hd ?_⟩
    by_contra hlink
    -- not linked, `d` would have been taken in another slot
    rw [chain, slots_split h₁ hs₂, descend_append, descend, hd] at hmem
    simp only [if_neg hlink, List.mem_reverse, List.mem_cons, List.mem_append] at hmem
    rcases hmem with rfl | hmem | hmem
    · exact absurd (hinj hs he) (by omega)
    · obtain ⟨t, ht, hp⟩ := mem_descend hmem
      have := (mem_slots.mp ht).1
      exact absurd (hinj hs hp) (by omega)
    · obtain ⟨t, ht, hp⟩ := mem_descend hmem
      have := (mem_slots.mp ht).2
      exact absurd (hinj hs hp) (by omega)

lemma chain_tail (hinj : Injective leader) {low high s : ℕ} {e x : ν} {rest : List ν}
    (he : leader high = some e) (hx : leader s = some x) (hlow : low < high)
    (h : chain leader link low high e = x :: rest) :
    low < s ∧ chain leader link low s x = [x] ∧
      ((s = high ∧ x = e ∧ rest = []) ∨
        (s < high ∧ rest = chain leader link s high e)) := by
  have hmem : x ∈ chain leader link low high e := by rw [h]; exact List.mem_cons_self
  have hs : low < s := by
    rcases mem_chain hmem with rfl | ⟨t, ht, -, hp⟩
    · rwa [hinj hx he]
    · rwa [hinj hx hp]
  -- a chain that starts with its own leader has no other
  have hone : ∀ tail : List ν, chain leader link low s x ++ tail = x :: rest →
      chain leader link low s x = [x] ∧ tail = rest := by
    intro tail ht
    rcases List.eq_nil_or_concat (descend leader link x (slots low s)) with hd | ⟨l, p, hd⟩
    · rw [chain, hd] at ht ⊢
      exact ⟨rfl, by simpa using ht⟩
    · have hp : p ∈ descend leader link x (slots low s) := by rw [hd]; simp
      obtain ⟨t, ht', hpt⟩ := mem_descend hp
      rw [chain, hd] at ht
      simp only [List.concat_eq_append, List.reverse_cons, List.reverse_append,
        List.reverse_nil, List.nil_append, List.cons_append, List.cons.injEq] at ht
      have := (mem_slots.mp ht').2
      exact absurd (hinj hx (ht.1 ▸ hpt)) (by omega)
  rcases chain_append_of_mem hinj hx he hs hmem with ⟨rfl, rfl⟩ | ⟨hlt, happ⟩
  · obtain ⟨h₁, h₂⟩ := hone [] (by rw [List.append_nil]; exact h)
    exact ⟨hs, h₁, .inl ⟨rfl, rfl, h₂.symm⟩⟩
  · rw [happ] at h
    obtain ⟨h₁, h₂⟩ := hone _ h
    exact ⟨hs, h₁, .inr ⟨hlt, h₂.symm⟩⟩

/-! ### Logs -/

/-- A log that grows by the first leader of the chain of some anchor above the last slot
logged. -/
inductive Grown (leader : ℕ → Option ν) (link : ν → ν → Prop) [DecidableRel link] :
    List ν → ℕ → Prop
  | nil : Grown leader link [] 0
  | snoc {log : List ν} {last n s : ℕ} {e x : ν} {rest : List ν} :
      Grown leader link log last → Anchor leader link n e → last < n →
      chain leader link last n e = x :: rest → leader s = some x →
      Grown leader link (log ++ [x]) s

/-- A log is the chain of its last leader, which an anchor takes. -/
lemma Grown.eq_chain (hinj : Injective leader) {log : List ν} {last : ℕ}
    (h : Grown leader link log last) :
    (log = [] ∧ last = 0) ∨ ∃ d n e, leader last = some d ∧ 0 < last ∧
      log = chain leader link 0 last d ∧ Anchor leader link n e ∧ 0 < n ∧
      d ∈ chain leader link 0 n e := by
  induction h with
  | nil => exact .inl ⟨rfl, rfl⟩
  | @snoc log last n s e x rest hlog he hlt hchain hx ih =>
    obtain ⟨hs, hone, -⟩ := chain_tail hinj he.1 hx hlt hchain
    have hxe : x ∈ chain leader link last n e := by rw [hchain]; exact List.mem_cons_self
    rcases ih with ⟨rfl, rfl⟩ | ⟨d, n', e', hd, hpos, rfl, he', hpos', hmem⟩
    · exact .inr ⟨x, n, e, hx, hs, by rw [hone]; rfl, he, hlt, hxe⟩
    · -- the last leader logged is taken by the new anchor too
      have hmem' : d ∈ chain leader link 0 n e := by
        rcases Nat.lt_or_ge n n' with hn | hn
        · rw [he.chain_append he'.1 (by omega) hn, List.mem_append] at hmem
          refine hmem.resolve_right fun h => ?_
          rcases mem_chain h with rfl | ⟨t, ht, -, hp⟩
          · exact absurd (hinj hd he'.1) (by omega)
          · exact absurd (hinj hd hp) (by omega)
        · exact (he'.chain_prefix he hpos' hn).subset hmem
      rcases chain_append_of_mem hinj hd he.1 hpos hmem' with ⟨rfl, -⟩ | ⟨-, happ⟩
      · omega
      · have hx0 : x ∈ chain leader link 0 n e := by
          rw [happ]; exact List.mem_append_right _ hxe
        refine .inr ⟨x, n, e, hx, by omega, ?_, he, by omega, hx0⟩
        have hrest : chain leader link 0 s x ++ rest = chain leader link 0 n e := by
          obtain ⟨-, -, ⟨rfl, rfl, rfl⟩ | ⟨hsn, rfl⟩⟩ := chain_tail hinj he.1 hx hlt hchain
          · rw [List.append_nil]
          · rcases chain_append_of_mem hinj hx he.1 (by omega) hx0 with ⟨rfl, -⟩ | ⟨-, happ'⟩
            · omega
            · exact happ'.symm
        rw [happ, hchain, List.append_cons] at hrest
        exact (List.append_cancel_right hrest).symm

/-- **Agreement**: two logs grown from the same leaders are one a prefix of the other. -/
theorem Grown.prefix_or_prefix (hinj : Injective leader) {log log' : List ν} {last last' : ℕ}
    (h : Grown leader link log last) (h' : Grown leader link log' last') :
    log <+: log' ∨ log' <+: log := by
  rcases h.eq_chain hinj with ⟨rfl, -⟩ | ⟨d, n, e, hd, hpos, hlog, he, hn, hmem⟩
  · exact .inl List.nil_prefix
  rcases h'.eq_chain hinj with ⟨rfl, -⟩ | ⟨d', n', e', hd', hpos', hlog', he', hn', hmem'⟩
  · exact .inr List.nil_prefix
  -- each log is a prefix of the chain of its anchor
  have key : ∀ {d e : ν} {last n : ℕ}, leader last = some d → 0 < last → leader n = some e →
      d ∈ chain leader link 0 n e → chain leader link 0 last d <+: chain leader link 0 n e := by
    intro d e last n hd hpos he hmem
    rcases chain_append_of_mem hinj hd he hpos hmem with ⟨rfl, rfl⟩ | ⟨-, happ⟩
    · exact List.prefix_rfl
    · rw [happ]; exact List.prefix_append _ _
  have hp := key hd hpos he.1 hmem
  have hp' := key hd' hpos' he'.1 hmem'
  rw [hlog, hlog']
  rcases le_total n n' with hle | hle
  · exact List.prefix_or_prefix_of_prefix (hp.trans (he.chain_prefix he' hn hle)) hp'
  · exact List.prefix_or_prefix_of_prefix hp (hp'.trans (he'.chain_prefix he hn' hle))

end LeaderChain

end AmareleoChain
