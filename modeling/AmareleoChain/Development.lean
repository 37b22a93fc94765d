import AmareleoChain.Ledger

/-!
The development network: a committee of the four development accounts with equal stakes,
and a chain of blocks kept in memory as its ledger.
-/

namespace AmareleoChain

open Std

/-- The development accounts. -/
def developmentAccount (i : ℕ) : Address := ⟨i⟩

/-- The committee of the four development accounts. -/
def developmentCommittee : Committee where
  id := ⟨0⟩
  startingRound := 0
  members := {developmentAccount 0, developmentAccount 1, developmentAccount 2,
    developmentAccount 3}
  stake _ := 1
  availabilityThreshold := 2
  quorumThreshold := 3
  availability_pos := by decide
  availability_le := by decide
  lt_availability_add_quorum := by decide

/-- A chain of blocks, with the development committee for all its rounds. -/
structure Chain where
  blocks : List Block

namespace Chain

def solutions (c : Chain) : List Solution := c.blocks.flatMap Block.solutions

def transactions (c : Chain) : List Transaction := c.blocks.flatMap Block.transactions

/-- The objects among some transmissions. -/
def objects (t : IndexMap TransmissionID Transmission) : List Solution × List Transaction :=
  (t.values.filterMap fun
    | .solution (.object s) => some s
    | _ => none,
   t.values.filterMap fun
    | .transaction (.object tx) => some tx
    | _ => none)

instance : Ledger Chain where
  blocks := Chain.blocks
  latestCommittee _ := .ok developmentCommittee
  getCommitteeForRound _ _ := .ok (some developmentCommittee)
  containsCertificate c id := .ok ((chainCertificates c.blocks).any fun d => d.id == id)
  containsSolutionId c id := .ok (c.solutions.any fun s => s.id == id)
  containsTransactionId c id := .ok (c.transactions.any fun t => t.id == id)
  getSolution c id :=
    match c.solutions.find? fun s => s.id == id with
    | some s => .ok s
    | none => .error s!"Missing solution {id}"
  getUnconfirmedTransaction c id :=
    match c.transactions.find? fun t => t.id == id with
    | some t => .ok t
    | none => .error s!"Missing transaction {id}"
  prepareAdvanceToNextQuorumBlock c subdag transmissions :=
    .ok {
      height := c.blocks.length
      round := subdag.anchorRound
      authority := .quorum subdag
      solutions := (objects transmissions).1
      transactions := (objects transmissions).2
      abortedSolutionIds := []
      abortedTransactionIds := [] }
  advanceToNextBlock c block :=
    if block.height = c.blocks.length then .ok ⟨c.blocks ++ [block]⟩
    else .error s!"Block {block.height} is not the next block"

instance : LawfulLedger Chain where
  containsCertificate_ok h := by cases h; simp [Ledger.blocks]
  prepare_authority h := by cases h; rfl
  advance_blocks {v w b} h := by
    simp only [Ledger.advanceToNextBlock] at h
    split at h
    · cases h; rfl
    · cases h

end Chain

/-- The checks of `Subdag::from` that concern the anchor. -/
def checkAnchor (subdag : Subdag) : Except String Unit :=
  if subdag.isEmpty then .error "Subdag cannot be empty"
  else if subdag.anchorRound % 2 = 1 then .error "Anchor round must be even"
  else if (subdag[subdag.anchorRound]?.map fun cs => cs.toList.length).getD 0 ≠ 1 then
    .error "Subdag cannot contain multiple leaders"
  else .ok ()

/-- A checksum over bytes. -/
def Data.checksum {τ : Type} (bytes : τ → List UInt8) (data : Data τ) : Except String Checksum :=
  match data with
  | .object value => .ok ((bytes value).map UInt8.toNat).sum
  | .buffer data => .ok (data.map UInt8.toNat).sum

/-- The parameters of the development network. -/
abbrev developmentNetwork : Network where
  maxTransmissionsPerBatch := 50
  batchSpendLimit := 50000000
  maxGcRounds := 100
  committeeLookbackRange := 100
  subdagFrom := checkAnchor
  certificateFrom _ _ := .ok ()
  verify signature signer _ := signature.toAddress = signer
  solutionChecksum := Data.checksum Solution.bytes
  transactionChecksum := Data.checksum Transaction.bytes
  readTransaction
    | [] => .error "failed to fill whole buffer"
    | id :: bytes => .ok ⟨id.toNat, bytes⟩

/-- The ledger service over a chain with the given blocks. -/
def developmentLedger (blocks : List Block) : CoreLedgerService Chain :=
  ⟨⟨blocks⟩, none, false⟩

/-- A certificate of the development network, signed by all its validators. -/
def developmentCertificate (id author round : ℕ) (previous : List ℕ) : BatchCertificate where
  batchHeader :=
    { batchId := ⟨id⟩
      author := developmentAccount author
      round
      timestamp := 0
      committeeId := ⟨0⟩
      transmissionIds := ∅
      previousCertificateIds := IndexSet.ofList (previous.map Field.mk)
      signature := ⟨developmentAccount author, 0⟩ }
  signatures := IndexSet.ofList
    (([0, 1, 2, 3].erase author).map fun i => ⟨developmentAccount i, 0⟩)

lemma lookback_chain [Network] (l : CoreLedgerService Chain) (r : ℕ) :
    l.getCommitteeLookbackForRound r = .ok developmentCommittee := rfl

lemma exists_of_isOk {ε α : Type} {e : Except ε α} (h : e.isOk = true) : ∃ a, e = .ok a := by
  cases e with
  | error => cases h
  | ok a => exact ⟨a, rfl⟩

end AmareleoChain
