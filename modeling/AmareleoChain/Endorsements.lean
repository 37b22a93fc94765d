import AmareleoChain.Steps
import AmareleoChain.Development

/-!
The endorsements of a proposal.

Signatures are collected in a set of signatures, and not of signers. That each signer counts once
comes from the order of the checks: a signature is added when its signer is a member who is not
among the signers yet, and when it verifies, so that it is the signer's own.
-/

namespace AmareleoChain

namespace Proposal

variable [Network] {p : Proposal} {committee : Committee}

/-- A call of `add_signature` on a proposal that the caller holds. -/
def submit (committee : Committee) (p : Proposal) (signer : Address) (signature : Signature) :
    Except String Unit × Proposal :=
  match p.addSignature signer signature committee with
  | .ok p => (.ok (), p)
  | .error e => (.error e, p)

/-- The proposal after a sequence of calls. -/
def submitAll (committee : Committee) (p : Proposal) (submissions : List (Address × Signature)) :
    Proposal :=
  submissions.foldl (fun p e => (p.submit committee e.1 e.2).2) p

/-- The endorsements so far: they verify for the batch ID, and are from distinct members of the
committee other than the author. -/
structure Endorsed (committee : Committee) (p : Proposal) : Prop where
  verified : ∀ signature ∈ p.signatures,
    Network.verify signature signature.toAddress p.batchId = true
  members : ∀ signature ∈ p.signatures, signature.toAddress ∈ committee.members
  others : ∀ signature ∈ p.signatures, signature.toAddress ≠ p.batchHeader.author
  nodup : (p.signatures.toList.map Signature.toAddress).Nodup
  author : p.batchHeader.author ∈ committee.members
  own : p.batchHeader.signature.toAddress = p.batchHeader.author
  keys : p.transmissions.keys = p.batchHeader.transmissionIds.toList

omit [Network] in
lemma mem_signers {a : Address} : a ∈ p.signers ↔
    a = p.batchHeader.signature.toAddress ∨ ∃ s ∈ p.signatures, s.toAddress = a := by
  rw [signers, Finset.mem_insert, List.mem_toFinset, List.mem_map]
  rfl

lemma endorsed_new {header : BatchHeader} {transmissions : IndexMap TransmissionID Transmission}
    (hown : header.signature.toAddress = header.author)
    (h : Proposal.new committee header transmissions = .ok p) :
    p.Endorsed committee ∧ p.batchHeader = header ∧ p.transmissions = transmissions := by
  unfold Proposal.new at h
  split at h
  · cases h
  split at h
  · cases h
  next hmember =>
  split at h
  · cases h
  next hkeys =>
  cases h
  refine ⟨⟨?_, ?_, ?_, List.nodup_nil, ?_, hown, (not_not.mp hkeys).symm⟩, rfl, rfl⟩
  · exact fun s hs => absurd hs (IndexSet.not_mem_empty s)
  · exact fun s hs => absurd hs (IndexSet.not_mem_empty s)
  · exact fun s hs => absurd hs (IndexSet.not_mem_empty s)
  · exact of_decide_eq_true (not_not.mp hmember)

/-- **A signature that is added** is a new member's own. -/
lemma Endorsed.submit (hverify : ∀ signature signer id,
      Network.verify signature signer id = true → signature.toAddress = signer)
    (h : p.Endorsed committee) (signer : Address) (signature : Signature) :
    (p.submit committee signer signature).2.Endorsed committee ∧
      (p.submit committee signer signature).2.batchHeader = p.batchHeader ∧
      (p.submit committee signer signature).2.transmissions = p.transmissions := by
  rw [Proposal.submit]
  cases hadd : p.addSignature signer signature committee with
  | error e => exact ⟨h, rfl, rfl⟩
  | ok q =>
    obtain ⟨hmember, hfresh, hverified, rfl⟩ := addSignature_spec hadd
    have haddress := hverify _ _ _ hverified
    subst haddress
    rw [mem_signers, not_or, h.own] at hfresh
    obtain ⟨hother, hnone⟩ := hfresh
    have hnew : signature ∉ p.signatures := fun hmem => hnone ⟨signature, hmem, rfl⟩
    refine ⟨⟨fun s hs => ?_, fun s hs => ?_, fun s hs => ?_, ?_, h.author, h.own, h.keys⟩, rfl, rfl⟩
    · rcases IndexSet.mem_insert.mp hs with hs | rfl
      · exact h.verified s hs
      · exact hverified
    · rcases IndexSet.mem_insert.mp hs with hs | rfl
      · exact h.members s hs
      · exact hmember
    · rcases IndexSet.mem_insert.mp hs with hs | rfl
      · exact h.others s hs
      · exact hother
    · dsimp only
      rw [IndexSet.toList_insert hnew, List.map_append, List.nodup_append]
      refine ⟨h.nodup, List.nodup_singleton _, ?_⟩
      rintro a ha b hb rfl
      obtain ⟨s, hs, rfl⟩ := List.mem_map.mp ha
      rw [List.map_singleton, List.mem_singleton] at hb
      exact hnone ⟨s, IndexSet.mem_def.mpr hs, hb⟩

lemma Endorsed.submitAll (hverify : ∀ signature signer id,
      Network.verify signature signer id = true → signature.toAddress = signer)
    (h : p.Endorsed committee) (submissions : List (Address × Signature)) :
    (p.submitAll committee submissions).Endorsed committee ∧
      (p.submitAll committee submissions).batchHeader = p.batchHeader ∧
      (p.submitAll committee submissions).transmissions = p.transmissions := by
  induction submissions generalizing p with
  | nil => exact ⟨h, rfl, rfl⟩
  | cons e submissions ih =>
    obtain ⟨hone, hheader, htransmissions⟩ := h.submit hverify e.1 e.2
    obtain ⟨hall, hheader', htransmissions'⟩ := ih hone
    exact ⟨hall, hheader'.trans hheader, htransmissions'.trans htransmissions⟩

/-- **No stake is counted twice.** -/
lemma Endorsed.stakeOf_signers (h : p.Endorsed committee) :
    committee.stakeOf p.signers = committee.getStake p.batchHeader.author +
      (p.signatures.toList.map fun s => committee.getStake s.toAddress).sum := by
  have hauthor : p.batchHeader.author ∉ (p.signatures.toList.map Signature.toAddress).toFinset := by
    rw [List.mem_toFinset, List.mem_map]
    rintro ⟨s, hs, heq⟩
    exact h.others s (IndexSet.mem_def.mpr hs) heq
  have hendorsers : ∑ a ∈ (p.signatures.toList.map Signature.toAddress).toFinset,
      committee.getStake a
      = ((p.signatures.toList.map Signature.toAddress).map committee.getStake).sum :=
    List.sum_toFinset committee.getStake h.nodup
  rw [Committee.stakeOf, signers, h.own, Finset.sum_insert hauthor, hendorsers, List.map_map]
  rfl

lemma Endorsed.signers_subset (h : p.Endorsed committee) : p.signers ⊆ committee.members := by
  intro a ha
  rcases mem_signers.mp ha with rfl | ⟨s, hs, rfl⟩
  · rw [h.own]
    exact h.author
  · exact h.members s hs

/-- **Endorsements are sound.** A proposal that was made by `new`, and that any signatures of any
signers were added to, has endorsements that verify, from distinct members of the committee other
than the author; a signature that is refused changes nothing; signers and non-signers partition
the committee; and `to_certificate` passes its quorum check just when the stakes of the author and
of the endorsers add up to the threshold, to make a certificate of the proposal. -/
theorem endorsements_sound (committee : Committee) (header : BatchHeader)
    (transmissions : IndexMap TransmissionID Transmission) (proposal : Proposal)
    (submissions : List (Address × Signature))
    (hverify : ∀ signature signer id,
      Network.verify signature signer id = true → signature.toAddress = signer)
    (hown : header.signature.toAddress = header.author)
    (hnew : Proposal.new committee header transmissions = .ok proposal) :
    let p := proposal.submitAll committee submissions
    p.Endorsed committee ∧ p.batchHeader = header ∧ p.transmissions = transmissions ∧
    (∀ signer signature, (p.submit committee signer signature).1 ≠ .ok () →
      (p.submit committee signer signature).2 = p) ∧
    (p.signers ∪ p.nonsigners committee = committee.members ∧
      Disjoint p.signers (p.nonsigners committee)) ∧
    (p.isQuorumThresholdReached committee = true ↔
      committee.quorumThreshold ≤ committee.getStake header.author +
        (p.signatures.toList.map fun s => committee.getStake s.toAddress).sum) ∧
    p.toCertificate committee =
      if p.isQuorumThresholdReached committee then
        (Network.certificateFrom header p.signatures).map fun _ =>
          (⟨header, p.signatures⟩, transmissions)
      else .error "The quorum threshold has not been reached" := by
  intro p
  obtain ⟨hstart, rfl, rfl⟩ := endorsed_new hown hnew
  obtain ⟨h, hheader, htransmissions⟩ := hstart.submitAll hverify submissions
  refine ⟨h, hheader, htransmissions, fun signer signature hfails => ?_, ⟨?_, ?_⟩, ?_, ?_⟩
  · rw [submit] at hfails ⊢
    split
    · next heq =>
      rw [heq] at hfails
      exact absurd rfl hfails
    · rfl
  · ext a
    rw [Finset.mem_union, nonsigners, Finset.mem_filter]
    constructor
    · rintro (ha | ⟨ha, -⟩)
      · exact h.signers_subset ha
      · exact ha
    · intro ha
      by_cases hsigned : a ∈ p.signers
      · exact .inl hsigned
      · exact .inr ⟨ha, hsigned⟩
  · rw [Finset.disjoint_left]
    intro a ha hnot
    exact (Finset.mem_filter.mp hnot).2 ha
  · have hstake := h.stakeOf_signers
    rw [isQuorumThresholdReached, Committee.isQuorumThresholdReached, decide_eq_true_eq, hstake,
      hheader]
  · rw [toCertificate, ← hheader, ← htransmissions]
    by_cases hreached : p.isQuorumThresholdReached committee = true
    · rw [if_neg (not_not.mpr hreached), if_pos hreached]
      cases Network.certificateFrom p.batchHeader p.signatures with
      | error e => rfl
      | ok u => rfl
    · rw [if_pos hreached, if_neg hreached]

end Proposal

section Example

/-- Signatures of a validator, twice, of an account outside the committee, of the author, of
another validator under a false name, and of another validator. -/
def mixedSubmissions : List (Address × Signature) :=
  [(developmentAccount 1, ⟨developmentAccount 1, 0⟩),
    (developmentAccount 1, ⟨developmentAccount 1, 1⟩),
    (developmentAccount 9, ⟨developmentAccount 9, 0⟩),
    (developmentAccount 0, ⟨developmentAccount 0, 0⟩),
    (developmentAccount 2, ⟨developmentAccount 3, 0⟩),
    (developmentAccount 3, ⟨developmentAccount 3, 0⟩)]

theorem endorsements_sound_example :
    let _ := developmentNetwork
    ∃ proposal, Proposal.new developmentCommittee (developmentCertificate 10 0 1 []).batchHeader ∅
        = .ok proposal ∧
      (proposal.submitAll developmentCommittee mixedSubmissions).signatures.toList.map
        Signature.toAddress = [developmentAccount 1, developmentAccount 3] ∧
      (proposal.submitAll developmentCommittee mixedSubmissions).Endorsed developmentCommittee := by
  let _ := developmentNetwork
  intro _
  have hnew : Proposal.new developmentCommittee (developmentCertificate 10 0 1 []).batchHeader ∅
      = .ok ⟨(developmentCertificate 10 0 1 []).batchHeader, ∅, ∅⟩ := rfl
  have hverify : ∀ signature signer id,
      Network.verify signature signer id = true → signature.toAddress = signer :=
    fun _ _ _ h => of_decide_eq_true h
  exact ⟨_, hnew, by decide +kernel, (Proposal.endorsements_sound developmentCommittee _ ∅ _
    mixedSubmissions hverify rfl hnew).1⟩

end Example

end AmareleoChain
