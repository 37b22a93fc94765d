import AmareleoChain.Cadence

/-!
What is stored and committed after every call, when nothing fails.

The certificates are known by their round and validator. The rounds are filled one after the other,
and the block of an even round `c` takes the own certificate of `c`, the four of `c - 1` and the
others' of `c - 2`.
-/

namespace AmareleoChain

open Std

/-! ### Certificates by round and validator -/

instance : Nonempty BatchCertificate := ⟨⟨⟨⟨0⟩, ⟨0⟩, 0, 0, ⟨0⟩, ∅, ∅, ⟨⟨0⟩, 0⟩⟩, ∅⟩⟩

/-- The certificates of the first `m` rounds, by round and validator. -/
structure Grid (acc : Fin 4 → Address) (made : List BatchCertificate) (m : ℕ)
    (cert : ℕ → Fin 4 → BatchCertificate) : Prop where
  mem : ∀ c, c ∈ made ↔ ∃ round vid, 1 ≤ round ∧ round ≤ m ∧ c = cert round vid
  round : ∀ round vid, 1 ≤ round → round ≤ m → (cert round vid).round = round
  author : ∀ round vid, 1 ≤ round → round ≤ m → (cert round vid).author = acc vid

section Grid

variable {acc : Fin 4 → Address} {made made' : List BatchCertificate} {m m' : ℕ}
  {cert : ℕ → Fin 4 → BatchCertificate} {c : BatchCertificate}

end Grid

/-! ### Blocks -/

section Blocks

variable {acc : Fin 4 → Address} {made : List BatchCertificate} {m c : ℕ}
  {cert : ℕ → Fin 4 → BatchCertificate} {subdag : Subdag} {block : Block} {blocks : List Block}

lemma Grid.injective (h : Grid acc made m cert) (hinjective : Function.Injective acc) {round : ℕ}
    (hpos : 1 ≤ round) (hle : round ≤ m) : Function.Injective (cert round) := by
  intro v w heq
  apply hinjective
  rw [← h.author round v hpos hle, heq, h.author round w hpos hle]

end Blocks

/-! ### The chain -/

namespace BlocksUpTo

variable {own : Address} {acc : Fin 4 → Address} {made : List BatchCertificate} {m c : ℕ}
  {cert : ℕ → Fin 4 → BatchCertificate} {block : Block} {blocks : List Block}

lemma certificates (h : BlocksUpTo own made c blocks) {i : ℕ} (hi : blocks[i]? = some block) :
    ∃ subdag, block.certificates = subdag.certificates ∧
      BlockOfRound own made (2 * (i + 1)) subdag := by
  obtain ⟨subdag, hauthority, hblock⟩ := h.2 i block hi
  exact ⟨subdag, by rw [Block.certificates, hauthority], hblock⟩

lemma nodup (h : BlocksUpTo own made c blocks) : (chainCertificates blocks).Nodup := by
  rw [chainCertificates, List.nodup_flatMap, List.pairwise_iff_getElem]
  refine ⟨fun block hblock => ?_, fun i j hi hj hij d hd he => ?_⟩
  · obtain ⟨i, hi⟩ := List.mem_iff_getElem?.mp hblock
    obtain ⟨subdag, hcertificates, hnodup, -⟩ := h.certificates hi
    exact hcertificates ▸ hnodup
  · obtain ⟨s, hs, -, hfirst⟩ := h.certificates (List.getElem?_eq_getElem hi)
    obtain ⟨t, ht, -, hsecond⟩ := h.certificates (List.getElem?_eq_getElem hj)
    rw [hs] at hd
    rw [ht] at he
    -- the rounds of the two blocks meet in one, where the authors differ
    rcases ((hfirst d).mp hd).2 with ⟨hround, hown⟩ | hround | ⟨hround, hother⟩ <;>
      rcases ((hsecond d).mp he).2 with ⟨hround', hown'⟩ | hround' | ⟨hround', hother'⟩
    all_goals first
      | omega
      | exact hother' hown

lemma mem_chain (h : BlocksUpTo own made c blocks) (heven : c % 2 = 0)
    (hpos : ∀ d ∈ made, 1 ≤ d.round) (d : BatchCertificate) :
    d ∈ chainCertificates blocks ↔
      d ∈ made ∧ (d.round < c ∨ d.round = c ∧ d.author = own) := by
  have hlength := h.1
  rw [chainCertificates, List.mem_flatMap]
  constructor
  · rintro ⟨block, hblock, hd⟩
    obtain ⟨i, hi⟩ := List.mem_iff_getElem?.mp hblock
    obtain ⟨hlt, -⟩ := List.getElem?_eq_some_iff.mp hi
    obtain ⟨subdag, hcertificates, -, hmem⟩ := h.certificates hi
    rw [hcertificates, hmem] at hd
    refine ⟨hd.1, ?_⟩
    rcases hd.2 with ⟨hround, hown⟩ | hround | ⟨hround, -⟩
    · rcases Nat.lt_or_ge d.round c with hlow | hhigh
      · exact .inl hlow
      · exact .inr ⟨by omega, hown⟩
    · exact .inl (by omega)
    · exact .inl (by omega)
  · rintro ⟨hd, hround⟩
    have hin : ∀ i < c / 2, d.round = 2 * (i + 1) ∧ d.author = own ∨ d.round + 1 = 2 * (i + 1) ∨
        d.round + 2 = 2 * (i + 1) ∧ d.author ≠ own →
        ∃ block ∈ blocks, d ∈ block.certificates := by
      intro i hi hplace
      have hget : blocks[i]? = some blocks[i] := List.getElem?_eq_getElem (by omega)
      obtain ⟨subdag, hcertificates, -, hmem⟩ := h.certificates hget
      refine ⟨blocks[i], List.getElem_mem _, ?_⟩
      rw [hcertificates, hmem]
      exact ⟨hd, hplace⟩
    have hone := hpos d hd
    -- the block of the round, or that of the next even round
    by_cases hleader : d.round % 2 = 0 ∧ d.author = own
    · exact hin (d.round / 2 - 1) (by omega) (.inl ⟨by omega, hleader.2⟩)
    · rcases Nat.mod_two_eq_zero_or_one d.round with hzero | hodd
      · have hother : d.author ≠ own := fun hown => hleader ⟨hzero, hown⟩
        have hlow : d.round < c := hround.resolve_right fun hlast => hother hlast.2
        exact hin (d.round / 2) (by omega) (.inr (.inr ⟨by omega, hother⟩))
      · exact hin (d.round / 2) (by omega) (.inr (.inl (by omega)))

end BlocksUpTo

/-! ### After each call -/

namespace Primary

variable {S V : Type} [Ledger V] [StorageService S] [LawfulStorageService S] [Network]
  {U : Universe} {committee : ℕ → Committee} {g : ℕ} {acc : Fin 4 → Address} {past : List Block}
  {made : List BatchCertificate} {n r : ℕ} {p : Primary S V}

end Primary

end AmareleoChain
