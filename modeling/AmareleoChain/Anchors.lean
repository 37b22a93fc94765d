import AmareleoChain.Library.LeaderChain
import AmareleoChain.Ordering
import Mathlib.Logic.Relation

/-!
Paths between certificates, and the leaders to which every later leader has a path.

A certificate with enough support in the next round is reached from every certificate two or
more rounds above it: one such certificate refers to a quorum of the next round, and this
quorum meets the support.
-/

namespace AmareleoChain

open Std

namespace Universe

/-- Previous certificates are certificates of the universe. -/
def Sourced (U : Universe) : Prop :=
  ∀ (c : BatchCertificate) (id : Field), U.Has c → id ∈ c.previousCertificateIds →
    ∃ p, U.Has p ∧ p.id = id

/-- What the certificates of a run satisfy: an author has one certificate a round, previous
certificates exist, and from the second round on they reach a quorum of the committee of the
round below. -/
structure Lawful (U : Universe) (committee : ℕ → Committee) : Prop where
  unique : ∀ {c d : BatchCertificate}, U.Has c → U.Has d → c.round = d.round →
    c.author = d.author → c = d
  previous : U.Sourced
  quorum : ∀ {c : BatchCertificate}, U.Has c → 2 ≤ c.round →
    (committee (c.round - 1)).isQuorumThresholdReached
      (authorsOf (c.previousCertificateIds.toList.filterMap U.cert)) = true

/-- `p` is a previous certificate of `c`. -/
def Parent (U : Universe) (c p : BatchCertificate) : Prop :=
  U.Has c ∧ U.Has p ∧ p.id ∈ c.previousCertificateIds

/-- `p` is in the history of `c`. -/
def Path (U : Universe) : BatchCertificate → BatchCertificate → Prop :=
  Relation.ReflTransGen U.Parent

variable {U : Universe} {committee : ℕ → Committee} {c d p : BatchCertificate}
  {account : Address}

lemma Parent.round (h : U.Parent c p) : p.round + 1 = c.round := h.1.round_previous h.2.1 h.2.2

lemma Path.round_le (h : U.Path c p) : p.round ≤ c.round := by
  induction h with
  | refl => exact Nat.le_refl _
  | tail _ hp ih => have := hp.round; omega

lemma Path.exists_parent (h : U.Path c p) (hne : p.round < c.round) :
    ∃ q, U.Path c q ∧ U.Parent q p := by
  cases h with
  | refl => omega
  | tail hq hp => exact ⟨_, hq, hp⟩

lemma Path.eq_of_round (h : U.Path c p) (hr : p.round = c.round) : p = c := by
  cases h with
  | refl => rfl
  | tail hq hp =>
    have h₁ := Path.round_le hq
    have h₂ := hp.round
    omega

/-! ### Support -/

/-- The authors of a set that reaches the availability threshold of the next round's committee
include `d` in that round. -/
def Supported (U : Universe) (committee : ℕ → Committee) (d : BatchCertificate) : Prop :=
  ∃ authors, (committee (d.round + 1)).isAvailabilityThresholdReached authors = true ∧
    ∀ a ∈ authors, ∃ c, U.Has c ∧ c.round = d.round + 1 ∧ c.author = a ∧
      d.id ∈ c.previousCertificateIds

lemma Lawful.exists_parent_of_quorum (hU : U.Lawful committee) (hc : U.Has c) (hr : 2 ≤ c.round) :
    ∃ p, U.Parent c p := by
  obtain ⟨a, ha⟩ := (committee (c.round - 1)).nonempty_of_quorum (hU.quorum hc hr)
  obtain ⟨p, hp, -⟩ := mem_authorsOf.mp ha
  obtain ⟨id, hid, hcert⟩ := List.mem_filterMap.mp hp
  exact ⟨p, hc, has_of_cert hcert, by rw [U.keyed hcert]; exact hid⟩

lemma Supported.path_of_round_eq (hU : U.Lawful committee) (hd : U.Has d)
    (hs : U.Supported committee d) (hc : U.Has c) (hr : c.round = d.round + 2) : U.Path c d := by
  obtain ⟨authors, havail, hsupport⟩ := hs
  have hquorum := hU.quorum hc (by omega)
  rw [show c.round - 1 = d.round + 1 by omega] at hquorum
  obtain ⟨a, ha, hmeet⟩ := Committee.exists_mem_of_availability_of_quorum _ havail hquorum
  obtain ⟨q, hq, hqr, hqa, hqd⟩ := hsupport a ha
  obtain ⟨p, hp, hpa⟩ := mem_authorsOf.mp hmeet
  obtain ⟨id, hid, hcert⟩ := List.mem_filterMap.mp hp
  have hcp : U.Parent c p := ⟨hc, has_of_cert hcert, by rw [U.keyed hcert]; exact hid⟩
  -- the supporter and the previous certificate are one, by their author and round
  obtain rfl : p = q := hU.unique hcp.2.1 hq (by have := hcp.round; omega) (hpa.trans hqa.symm)
  exact .tail (.single hcp) ⟨hq, hd, hqd⟩

/-- **Support is reached from every certificate at least two rounds above.** -/
theorem Supported.path (hU : U.Lawful committee) (hd : U.Has d) (hs : U.Supported committee d)
    (hc : U.Has c) (hr : d.round + 2 ≤ c.round) : U.Path c d := by
  induction hn : c.round - (d.round + 2) generalizing c with
  | zero => exact hs.path_of_round_eq hU hd hc (by omega)
  | succ n ih =>
    obtain ⟨p, hp⟩ := hU.exists_parent_of_quorum hc (by omega)
    have hround := hp.round
    exact .head hp (ih hp.2.1 (by omega) (by omega))

/-! ### Leaders -/

open Classical in
/-- The certificate of `account` in round `2 * slot`. -/
noncomputable def leaderAt (U : Universe) (account : Address) (slot : ℕ) :
    Option BatchCertificate :=
  if h : ∃ c, U.Has c ∧ c.round = 2 * slot ∧ c.author = account then some h.choose else none

lemma leaderAt_some {slot : ℕ} (h : U.leaderAt account slot = some c) :
    U.Has c ∧ c.round = 2 * slot ∧ c.author = account := by
  unfold leaderAt at h
  split at h
  · next hex => cases h; exact hex.choose_spec
  · cases h

lemma Lawful.leaderAt_eq (hU : U.Lawful committee) {slot : ℕ} (hc : U.Has c)
    (hr : c.round = 2 * slot) (ha : c.author = account) : U.leaderAt account slot = some c := by
  have hex : ∃ c, U.Has c ∧ c.round = 2 * slot ∧ c.author = account := ⟨c, hc, hr, ha⟩
  unfold leaderAt
  rw [dif_pos hex]
  obtain ⟨h₁, h₂, h₃⟩ := hex.choose_spec
  exact congrArg some (hU.unique h₁ hc (h₂.trans hr.symm) (h₃.trans ha.symm))

lemma leaderAt_injective : LeaderChain.Injective (U.leaderAt account) := by
  intro s t p hs ht
  have h₁ := (leaderAt_some hs).2.1
  have h₂ := (leaderAt_some ht).2.1
  omega

/-- **A supported leader is an anchor.** -/
theorem Lawful.anchor (hU : U.Lawful committee) {slot : ℕ} (hd : U.leaderAt account slot = some d)
    (hs : U.Supported committee d) :
    LeaderChain.Anchor (U.leaderAt account) U.Path slot d := by
  refine ⟨hd, fun s p hlt hp => ?_⟩
  obtain ⟨hhas, hround, -⟩ := leaderAt_some hp
  obtain ⟨hdhas, hdround, -⟩ := leaderAt_some hd
  exact hs.path hU hdhas hhas (by omega)

end Universe

end AmareleoChain
