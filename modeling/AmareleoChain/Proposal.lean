import AmareleoChain.Ledger

/-!
Proposals: the batches a validator has signed and collects signatures for, until they become
certificates.
-/

namespace AmareleoChain

structure Proposal where
  batchHeader : BatchHeader
  transmissions : IndexMap TransmissionID Transmission
  signatures : IndexSet Signature

namespace Proposal

/-- `Proposal::new`; the committee is the one active for the batch round. -/
def new (committee : Committee) (batchHeader : BatchHeader)
    (transmissions : IndexMap TransmissionID Transmission) : Except String Proposal :=
  if batchHeader.round < committee.startingRound then
    .error "Batch round must be >= the committee round"
  else if ¬ committee.isCommitteeMember batchHeader.author then
    .error "The batch author is not a committee member"
  else if batchHeader.transmissionIds.toList ≠ transmissions.keys then
    .error "The transmission IDs do not match in the batch header and transmissions"
  else .ok ⟨batchHeader, transmissions, ∅⟩

def batchId (p : Proposal) : Field := p.batchHeader.batchId
def round (p : Proposal) : ℕ := p.batchHeader.round
def timestamp (p : Proposal) : ℤ := p.batchHeader.timestamp

/-- All the signers, the author and the endorsers. -/
def signers (p : Proposal) : Finset Address :=
  insert p.batchHeader.signature.toAddress (p.signatures.toList.map Signature.toAddress).toFinset

/-- The members of the committee that have not signed. -/
def nonsigners (p : Proposal) (committee : Committee) : Finset Address :=
  committee.members.filter (· ∉ p.signers)

def isQuorumThresholdReached (p : Proposal) (committee : Committee) : Bool :=
  committee.isQuorumThresholdReached p.signers

def containsTransmission (p : Proposal) (id : TransmissionID) : Bool :=
  p.transmissions.containsKey id

def getTransmission (p : Proposal) (id : TransmissionID) : Option Transmission :=
  p.transmissions.get? id

variable [Network]

def addSignature (p : Proposal) (signer : Address) (signature : Signature)
    (committee : Committee) : Except String Proposal :=
  if ¬ committee.isCommitteeMember signer then
    .error s!"Signature from a non-committee member - '{signer.val}'"
  else if signer ∈ p.signers then .error s!"Duplicate signature from '{signer.val}'"
  else if ¬ Network.verify signature signer p.batchId then .error "Signature verification failed"
  else .ok { p with signatures := p.signatures.insert signature }

def toCertificate (p : Proposal) (committee : Committee) :
    Except String (BatchCertificate × IndexMap TransmissionID Transmission) :=
  if ¬ p.isQuorumThresholdReached committee then
    .error "The quorum threshold has not been reached"
  else
    match Network.certificateFrom p.batchHeader p.signatures with
    | .error e => .error e
    | .ok () => .ok (⟨p.batchHeader, p.signatures⟩, p.transmissions)

end Proposal

/-- `SignedProposals<N>`: by author, the round, the batch ID and the signature. -/
abbrev SignedProposals := IndexMap Address (ℕ × Field × Signature)

/-- `is_valid`: every signature is by the expected signer. -/
def SignedProposals.isValid (s : SignedProposals) (expectedSigner : Address) : Bool :=
  s.values.all fun e => e.2.2.toAddress == expectedSigner

structure ProposalCache where
  latestRound : ℕ
  proposal : Option Proposal
  signedProposals : SignedProposals
  pendingCertificates : List BatchCertificate

def ProposalCache.isValid (c : ProposalCache) (expectedSigner : Address) : Bool :=
  (match c.proposal with
    | some proposal =>
      proposal.batchHeader.author == expectedSigner && c.latestRound == proposal.round
    | none => true) &&
  c.signedProposals.isValid expectedSigner

end AmareleoChain
