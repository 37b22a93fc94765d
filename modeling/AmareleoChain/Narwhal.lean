import Mathlib.Algebra.BigOperators.Group.Finset.Piecewise
import Mathlib.Algebra.GroupWithZero.Nat
import Mathlib.Algebra.Order.BigOperators.Group.Finset
import AmareleoChain.Library.Collections

/-!
The data the memory pool works on: addresses, field elements, committees, transmissions,
batch headers, batch certificates, subdags and blocks.

Most of these types are declared by `snarkvm`; here they carry the fields that the node
reads. Round numbers, heights and stakes are natural numbers; timestamps are integers.
-/

namespace AmareleoChain

open Std

structure Address where
  val : ℕ
  deriving DecidableEq, Repr

/-- `Field<N>`: the identifiers of batches and certificates. -/
structure Field where
  val : ℕ
  deriving DecidableEq, Repr

instance : Ord Address := ⟨compareOn Address.val⟩
instance : Ord Field := ⟨compareOn Field.val⟩

instance : TransOrd Address := inferInstanceAs (TransCmp (compareOn Address.val))
instance : TransOrd Field := inferInstanceAs (TransCmp (compareOn Field.val))

instance : LawfulEqOrd Address where
  eq_of_compare {a b} h := by
    have h' : compare a.val b.val = .eq := h
    cases a; cases b; simpa using h'

instance : LawfulEqOrd Field where
  eq_of_compare {a b} h := by
    have h' : compare a.val b.val = .eq := h
    cases a; cases b; simpa using h'

def fmtId (id : Field) : String := toString id.val

/-! ### Committees -/

/-- `Committee<N>` of `snarkvm`. The two thresholds are those of a committee with total stake
`N` of which `f` may be faulty, `f + 1` and `N - f`; of these the node relies on the three
inequalities below. -/
structure Committee where
  id : Field
  startingRound : ℕ
  members : Finset Address
  stake : Address → ℕ
  availabilityThreshold : ℕ
  quorumThreshold : ℕ
  availability_pos : 0 < availabilityThreshold
  availability_le : availabilityThreshold ≤ ∑ a ∈ members, stake a
  lt_availability_add_quorum : ∑ a ∈ members, stake a < availabilityThreshold + quorumThreshold

namespace Committee

def numMembers (c : Committee) : ℕ := c.members.card

def isCommitteeMember (c : Committee) (a : Address) : Bool := decide (a ∈ c.members)

/-- `get_stake`: zero outside the committee. -/
def getStake (c : Committee) (a : Address) : ℕ := if a ∈ c.members then c.stake a else 0

def totalStake (c : Committee) : ℕ := ∑ a ∈ c.members, c.stake a

/-- The combined stake of a set of addresses. -/
def stakeOf (c : Committee) (s : Finset Address) : ℕ := ∑ a ∈ s, c.getStake a

def isAvailabilityThresholdReached (c : Committee) (s : Finset Address) : Bool :=
  decide (c.availabilityThreshold ≤ c.stakeOf s)

def isQuorumThresholdReached (c : Committee) (s : Finset Address) : Bool :=
  decide (c.quorumThreshold ≤ c.stakeOf s)

variable (c : Committee)

lemma quorum_pos : 0 < c.quorumThreshold := by
  have h₁ := c.availability_le
  have h₂ := c.lt_availability_add_quorum
  omega

lemma stakeOf_le_totalStake (s : Finset Address) : c.stakeOf s ≤ c.totalStake := by
  have h : c.stakeOf s = ∑ a ∈ s ∩ c.members, c.stake a := by
    rw [stakeOf, ← Finset.sum_ite_mem]; rfl
  rw [h]
  exact Finset.sum_le_sum_of_subset Finset.inter_subset_right

lemma stakeOf_mono {s t : Finset Address} (h : s ⊆ t) : c.stakeOf s ≤ c.stakeOf t :=
  Finset.sum_le_sum_of_subset h

lemma stakeOf_disjUnion {s t : Finset Address} (h : Disjoint s t) :
    c.stakeOf s + c.stakeOf t ≤ c.totalStake := by
  rw [stakeOf, stakeOf, ← Finset.sum_union h]
  exact c.stakeOf_le_totalStake _

/-- **Quorum intersection**: a set reaching the availability threshold meets every set
reaching the quorum threshold. -/
theorem exists_mem_of_availability_of_quorum {s t : Finset Address}
    (hs : c.isAvailabilityThresholdReached s = true)
    (ht : c.isQuorumThresholdReached t = true) : ∃ a ∈ s, a ∈ t := by
  by_contra hc
  push Not at hc
  have hd : Disjoint s t := Finset.disjoint_left.mpr hc
  have hsum := c.stakeOf_disjUnion hd
  have hlt := c.lt_availability_add_quorum
  simp only [isAvailabilityThresholdReached, isQuorumThresholdReached, decide_eq_true_eq]
    at hs ht
  rw [totalStake] at hsum
  omega

lemma nonempty_of_quorum {s : Finset Address} (h : c.isQuorumThresholdReached s = true) :
    s.Nonempty := by
  rw [Finset.nonempty_iff_ne_empty]
  rintro rfl
  have := c.quorum_pos
  rw [isQuorumThresholdReached, decide_eq_true_eq, stakeOf, Finset.sum_empty] at h
  omega

lemma nonempty_of_availability {s : Finset Address}
    (h : c.isAvailabilityThresholdReached s = true) : s.Nonempty := by
  rw [Finset.nonempty_iff_ne_empty]
  rintro rfl
  have := c.availability_pos
  rw [isAvailabilityThresholdReached, decide_eq_true_eq, stakeOf, Finset.sum_empty] at h
  omega

lemma quorum_mono {s t : Finset Address} (h : s ⊆ t)
    (hs : c.isQuorumThresholdReached s = true) : c.isQuorumThresholdReached t = true := by
  simp only [isQuorumThresholdReached, decide_eq_true_eq] at hs ⊢
  exact hs.trans (c.stakeOf_mono h)

lemma availability_mono {s t : Finset Address} (h : s ⊆ t)
    (hs : c.isAvailabilityThresholdReached s = true) :
    c.isAvailabilityThresholdReached t = true := by
  simp only [isAvailabilityThresholdReached, decide_eq_true_eq] at hs ⊢
  exact hs.trans (c.stakeOf_mono h)

end Committee

/-! ### Transmissions -/

abbrev SolutionID := ℕ
abbrev TransactionID := ℕ
abbrev Checksum := ℕ

inductive TransmissionID where
  | ratification
  | solution (id : SolutionID) (checksum : Checksum)
  | transaction (id : TransactionID) (checksum : Checksum)
  deriving DecidableEq, Repr

/-- `fmt_id` of a transmission and of its checksum. -/
def fmtTransmissionId : TransmissionID → String
  | .ratification => "ratification"
  | .solution id checksum => s!"{id}.{checksum}"
  | .transaction id checksum => s!"{id}.{checksum}"

/-- `Solution<N>`, by its identifier and the bytes it stands for. -/
structure Solution where
  id : SolutionID
  bytes : List UInt8
  deriving DecidableEq, Repr

/-- `Transaction<N>`, by its identifier and the bytes it stands for. -/
structure Transaction where
  id : TransactionID
  bytes : List UInt8
  deriving DecidableEq, Repr

/-- `Data<T>`: an object, or the bytes it was received as. -/
inductive Data (τ : Type) where
  | object (value : τ)
  | buffer (bytes : List UInt8)
  deriving DecidableEq, Repr

inductive Transmission where
  | ratification
  | solution (solution : Data Solution)
  | transaction (transaction : Data Transaction)
  deriving DecidableEq, Repr

/-! ### Certificates -/

/-- `Signature<N>`; the address of the signer is recovered from the signature. -/
structure Signature where
  toAddress : Address
  bytes : ℕ
  deriving DecidableEq, Repr

structure BatchHeader where
  batchId : Field
  author : Address
  round : ℕ
  timestamp : ℤ
  committeeId : Field
  transmissionIds : IndexSet TransmissionID
  previousCertificateIds : IndexSet Field
  signature : Signature
  deriving DecidableEq

structure BatchCertificate where
  batchHeader : BatchHeader
  signatures : IndexSet Signature
  deriving DecidableEq

namespace BatchCertificate

/-- The certificate ID is the batch ID. -/
def id (c : BatchCertificate) : Field := c.batchHeader.batchId
def author (c : BatchCertificate) : Address := c.batchHeader.author
def round (c : BatchCertificate) : ℕ := c.batchHeader.round
def timestamp (c : BatchCertificate) : ℤ := c.batchHeader.timestamp
def transmissionIds (c : BatchCertificate) : IndexSet TransmissionID :=
  c.batchHeader.transmissionIds
def previousCertificateIds (c : BatchCertificate) : IndexSet Field :=
  c.batchHeader.previousCertificateIds

end BatchCertificate

/-- The authors of some certificates. -/
def authorsOf (cs : List BatchCertificate) : Finset Address :=
  (cs.map BatchCertificate.author).toFinset

@[simp] lemma mem_authorsOf {cs : List BatchCertificate} {a : Address} :
    a ∈ authorsOf cs ↔ ∃ c ∈ cs, c.author = a := by
  simp [authorsOf]

/-! ### Subdags and blocks -/

/-- Certificates by round: the argument of `Subdag::from`, and a `Subdag<N>`. -/
abbrev Subdag := ExtTreeMap ℕ (IndexSet BatchCertificate)

namespace Subdag

/-- `values().flatten()`: by round, then in insertion order. -/
def certificates (s : Subdag) : List BatchCertificate :=
  s.toList.flatMap fun e => e.2.toList

/-- `anchor_round`: the last round, `0` in an empty subdag. -/
def anchorRound (s : Subdag) : ℕ := (s.toList.getLast?.map Prod.fst).getD 0

lemma mem_certificates {s : Subdag} {c : BatchCertificate} :
    c ∈ s.certificates ↔ ∃ (r : ℕ) (cs : IndexSet BatchCertificate), s[r]? = some cs ∧ c ∈ cs := by
  simp only [certificates, List.mem_flatMap, Prod.exists,
    ExtTreeMap.mem_toList_iff_getElem?_eq_some, IndexSet.mem_def]

end Subdag

inductive Authority where
  | beacon
  | quorum (subdag : Subdag)

structure Block where
  height : ℕ
  round : ℕ
  authority : Authority
  solutions : List Solution
  transactions : List Transaction
  abortedSolutionIds : List SolutionID
  abortedTransactionIds : List TransactionID

namespace Block

/-- The certificates of the subdag of a block; none for a beacon block. -/
def certificates (b : Block) : List BatchCertificate :=
  match b.authority with
  | .beacon => []
  | .quorum subdag => subdag.certificates

end Block

end AmareleoChain
