import Mathlib.Logic.Relation
import AmareleoChain.Bft
import AmareleoChain.Development

/-!
What `is_linked` decides: whether a certificate is reached from another one by references to
previous certificates that the DAG has, each in the round just below.
-/

namespace AmareleoChain

open Std Relation

namespace DAG

/-- The graph stores certificates under their own round and author. -/
def Keyed (d : DAG) : Prop :=
  ∀ (r : ℕ) (a : Address) (c : BatchCertificate),
    d.getCertificateForRoundWithAuthor r a = some c → c.round = r ∧ c.author = a

/-- `c` refers to `p`, which the graph has in the round below that of `c`. -/
def Refers (d : DAG) (c p : BatchCertificate) : Prop :=
  ∃ r a, c.round = r + 1 ∧ d.getCertificateForRoundWithAuthor r a = some p ∧
    p.id ∈ c.previousCertificateIds

variable {d : DAG} {c p previous current : BatchCertificate}

lemma WellFormed.isKeyed (h : d.WellFormed) : d.Keyed := fun _ _ _ hc => h.keyed hc

lemma Refers.round (hd : d.Keyed) (h : d.Refers c p) : p.round + 1 = c.round := by
  obtain ⟨r, a, hround, hget, -⟩ := h
  rw [hround, (hd r a p hget).1]

lemma round_le_of_refers (hd : d.Keyed) (h : ReflTransGen d.Refers c p) : p.round ≤ c.round := by
  induction h with
  | refl => exact le_rfl
  | tail _ hstep ih =>
    have hround := hstep.round hd
    omega

lemma exists_refers (h : ReflTransGen d.Refers c p) (hlt : p.round < c.round) :
    ∃ q, d.Refers c q ∧ ReflTransGen d.Refers q p := by
  rcases h.cases_head with rfl | hstep
  · exact absurd hlt (Nat.lt_irrefl _)
  · exact hstep

lemma eq_of_refers (hd : d.Keyed) (h : ReflTransGen d.Refers c p) (hround : c.round ≤ p.round) :
    c = p := by
  rcases h.cases_head with rfl | ⟨q, hstep, hrest⟩
  · rfl
  · have hlow := hstep.round hd
    have hle := round_le_of_refers hd hrest
    omega

/-! ### The traversal -/

/-- The traversal fails at the first round that the graph does not have. -/
lemma traverse_error_iff (d : DAG) (rounds : List ℕ) (traversal : List BatchCertificate) :
    (∃ e, d.traverse rounds traversal = .error e) ↔ ∃ r ∈ rounds, d.graph[r]? = none := by
  induction rounds generalizing traversal with
  | nil => simp [traverse]
  | cons r rounds ih =>
    rw [traverse, getCertificatesForRound]
    cases hr : d.graph[r]? with
    | none => exact ⟨fun _ => ⟨r, List.mem_cons_self, hr⟩, fun _ => ⟨_, rfl⟩⟩
    | some certificates =>
      dsimp only
      rw [ih]
      constructor
      · rintro ⟨q, hq, hnone⟩
        exact ⟨q, List.mem_cons_of_mem r hq, hnone⟩
      · rintro ⟨q, hq, hnone⟩
        rcases List.mem_cons.mp hq with rfl | hq
        · rw [hr] at hnone
          cases hnone
        · exact ⟨q, hq, hnone⟩

/-- **The traversal of a range of rounds** ends with the certificates of the lowest one that are
reached from the certificates above. -/
lemma mem_traverse (hd : d.Keyed) {q n : ℕ} {traversal reached : List BatchCertificate}
    (htop : ∀ c ∈ traversal, c.round = q + n)
    (h : d.traverse (List.range' q n).reverse traversal = .ok reached) (p : BatchCertificate) :
    p ∈ reached ↔ p.round = q ∧ ∃ c ∈ traversal, ReflTransGen d.Refers c p := by
  induction n generalizing traversal with
  | zero =>
    cases h
    constructor
    · intro hp
      exact ⟨htop p hp, p, hp, .refl⟩
    · rintro ⟨hround, c, hc, hpath⟩
      have hcround := htop c hc
      rwa [← eq_of_refers hd hpath (by omega)]
  | succ n ih =>
    have hrange : (List.range' q (n + 1)).reverse = (q + n) :: (List.range' q n).reverse := by
      rw [List.range'_concat, List.reverse_append]
      simp
    rw [hrange, traverse] at h
    cases hm : d.getCertificatesForRound (q + n) with
    | none =>
      rw [hm] at h
      cases h
    | some m =>
      rw [hm] at h
      dsimp only at h
      -- the certificates of this round that those above refer to
      have hlayer : ∀ p, p ∈ (mapValues m).filter (fun p =>
            traversal.any fun c => decide (p.id ∈ c.previousCertificateIds)) ↔
          ∃ c ∈ traversal, d.Refers c p := by
        intro p
        have hget : ∀ a, d.getCertificateForRoundWithAuthor (q + n) a = m[a]? := by
          intro a
          rw [getCertificateForRoundWithAuthor]
          unfold getCertificatesForRound at hm
          rw [hm, Option.bind_some]
        rw [List.mem_filter, mem_mapValues, List.any_eq_true]
        constructor
        · rintro ⟨⟨a, ha⟩, c, hc, hid⟩
          exact ⟨c, hc, q + n, a, htop c hc, (hget a).trans ha, of_decide_eq_true hid⟩
        · rintro ⟨c, hc, r, a, hround, ha, hid⟩
          have hr : r = q + n := by
            have := htop c hc
            omega
          subst hr
          exact ⟨⟨a, (hget a).symm.trans ha⟩, c, hc, decide_eq_true hid⟩
      rw [ih (fun p hp => ?_) h]
      · refine and_congr_right fun hround => ?_
        constructor
        · rintro ⟨s, hs, hpath⟩
          obtain ⟨c, hc, hstep⟩ := (hlayer s).mp hs
          exact ⟨c, hc, .head hstep hpath⟩
        · rintro ⟨c, hc, hpath⟩
          have hcround := htop c hc
          obtain ⟨s, hstep, hrest⟩ := exists_refers hpath (by omega)
          exact ⟨s, (hlayer s).mpr ⟨c, hc, hstep⟩, hrest⟩
      · obtain ⟨c, hc, hstep⟩ := (hlayer p).mp hp
        have hcround := htop c hc
        have hstepround := hstep.round hd
        omega

/-- **`is_linked` decides reachability.** It fails when the graph lacks a round in between, and
otherwise tells whether references lead from the current certificate to the previous one. -/
theorem isLinked_decides (hd : d.Keyed) (previous current : BatchCertificate) :
    (previous.round ≤ current.round →
      ((∃ e, d.isLinked previous current = .error e) ↔
        ∃ r, previous.round ≤ r ∧ r < current.round ∧ d.graph[r]? = none) ∧
      ∀ linked, d.isLinked previous current = .ok linked →
        (linked = true ↔ ReflTransGen d.Refers current previous)) ∧
    (current.round < previous.round → d.isLinked previous current = .ok false) := by
  refine ⟨fun hle => ⟨?_, fun linked hlinked => ?_⟩, fun hlt => ?_⟩
  · have hrounds := d.traverse_error_iff (List.range' previous.round
      (current.round - previous.round)).reverse [current]
    have hmissing : (∃ r ∈ (List.range' previous.round
        (current.round - previous.round)).reverse, d.graph[r]? = none) ↔
        ∃ r, previous.round ≤ r ∧ r < current.round ∧ d.graph[r]? = none := by
      refine exists_congr fun r => ?_
      rw [List.mem_reverse, List.mem_range'_1, ← and_assoc]
      refine and_congr_left fun _ => ?_
      omega
    rw [← hmissing, ← hrounds, isLinked]
    cases d.traverse (List.range' previous.round
      (current.round - previous.round)).reverse [current] <;> simp
  · rw [isLinked] at hlinked
    cases htraverse : d.traverse (List.range' previous.round
        (current.round - previous.round)).reverse [current] with
    | error e =>
      rw [htraverse] at hlinked
      cases hlinked
    | ok reached =>
      rw [htraverse] at hlinked
      cases hlinked
      have htop : ∀ c ∈ [current], c.round = previous.round + (current.round - previous.round) := by
        intro c hc
        rw [List.mem_singleton.mp hc]
        omega
      rw [decide_eq_true_iff, mem_traverse hd htop htraverse]
      simp
  · have hne : previous ≠ current := by
      rintro rfl
      exact Nat.lt_irrefl _ hlt
    rw [isLinked, Nat.sub_eq_zero_of_le hlt.le]
    simp [traverse, hne]

/-- A certificate that refers to one of the DAG is linked to it. -/
theorem isLinked_decides_pair :
    ReflTransGen (DAG.new.insert (developmentCertificate 1 0 2 [])).Refers
      (developmentCertificate 2 1 3 [1]) (developmentCertificate 1 0 2 []) :=
  (((isLinked_decides (wellFormed_new.insert (developmentCertificate 1 0 2 [])).isKeyed
    (developmentCertificate 1 0 2 []) (developmentCertificate 2 1 3 [1])).1 (by decide)).2 true
    (by decide +kernel)).mp rfl

end DAG

end AmareleoChain
