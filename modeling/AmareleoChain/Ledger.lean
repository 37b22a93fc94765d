import AmareleoChain.Narwhal

/-!
The ledger as the memory pool sees it.

`Network` and `Ledger` are what the node takes from `snarkvm`: the constants and pure
functions of a network, and the chain of blocks with its queries. `CoreLedgerService` is the
service of this repository over such a ledger, and `ConsensusSender` is the channel by which
committed subdags reach it.
-/

namespace AmareleoChain

open Std

/-- The parameters of a network. -/
class Network where
  /-- `BatchHeader::MAX_TRANSMISSIONS_PER_BATCH`. -/
  maxTransmissionsPerBatch : ℕ
  /-- `BatchHeader::BATCH_SPEND_LIMIT`. -/
  batchSpendLimit : ℕ
  /-- `BatchHeader::MAX_GC_ROUNDS`. -/
  maxGcRounds : ℕ
  /-- `Committee::COMMITTEE_LOOKBACK_RANGE`. -/
  committeeLookbackRange : ℕ
  /-- The checks of `Subdag::from`. -/
  subdagFrom : Subdag → Except String Unit
  /-- The checks of `BatchCertificate::from`. -/
  certificateFrom : BatchHeader → IndexSet Signature → Except String Unit
  /-- `signature.verify(&signer, &[batch_id])`. -/
  verify : Signature → Address → Field → Bool
  solutionChecksum : Data Solution → Except String Checksum
  transactionChecksum : Data Transaction → Except String Checksum
  /-- `Transaction::read_le`, of at most `MAX_TRANSACTION_SIZE` bytes. -/
  readTransaction : List UInt8 → Except String Transaction

/-- The ledger of `snarkvm`: its blocks from genesis on, and its queries, each of which may
fail. -/
class Ledger (V : Type) where
  blocks : V → List Block
  latestCommittee : V → Except String Committee
  getCommitteeForRound : V → ℕ → Except String (Option Committee)
  containsCertificate : V → Field → Except String Bool
  containsSolutionId : V → SolutionID → Except String Bool
  containsTransactionId : V → TransactionID → Except String Bool
  getSolution : V → SolutionID → Except String Solution
  getUnconfirmedTransaction : V → TransactionID → Except String Transaction
  prepareAdvanceToNextQuorumBlock :
    V → Subdag → IndexMap TransmissionID Transmission → Except String Block
  advanceToNextBlock : V → Block → Except String V

/-- The certificates in the blocks of a chain. -/
def chainCertificates (bs : List Block) : List BatchCertificate := bs.flatMap Block.certificates

@[simp] lemma chainCertificates_append (bs cs : List Block) :
    chainCertificates (bs ++ cs) = chainCertificates bs ++ chainCertificates cs := by
  simp [chainCertificates]

/-- What `snarkvm` documents of the queries: a certificate is contained when a block holds
it, a quorum block carries the subdag it was prepared from, and advancing appends the
block. -/
class LawfulLedger (V : Type) [Ledger V] : Prop where
  containsCertificate_ok : ∀ {v : V} {id : Field} {b : Bool},
    Ledger.containsCertificate v id = .ok b →
      (b = true ↔ ∃ c ∈ chainCertificates (Ledger.blocks v), c.id = id)
  prepare_authority : ∀ {v : V} {s : Subdag} {t : IndexMap TransmissionID Transmission}
    {b : Block}, Ledger.prepareAdvanceToNextQuorumBlock v s t = .ok b →
      b.authority = .quorum s
  advance_blocks : ∀ {v w : V} {b : Block}, Ledger.advanceToNextBlock v b = .ok w →
    Ledger.blocks w = Ledger.blocks v ++ [b]

/-- `CoreLedgerService<N, C>`. The shutdown flag is the one shared with the validator. -/
structure CoreLedgerService (V : Type) where
  ledger : V
  latestLeader : Option (ℕ × Address)
  shutdown : Bool

namespace CoreLedgerService

variable {V : Type} [Ledger V]

def blocks (l : CoreLedgerService V) : List Block := Ledger.blocks l.ledger

def latestBlock (l : CoreLedgerService V) : Option Block := l.blocks.getLast?

/-- `latest_round`: the round of the latest block. -/
def latestRound (l : CoreLedgerService V) : ℕ := (l.latestBlock.map Block.round).getD 0

def latestBlockHeight (l : CoreLedgerService V) : ℕ := (l.latestBlock.map Block.height).getD 0

def updateLatestLeader (l : CoreLedgerService V) (round : ℕ) (leader : Address) :
    CoreLedgerService V :=
  { l with latestLeader := some (round, leader) }

def currentCommittee (l : CoreLedgerService V) : Except String Committee :=
  Ledger.latestCommittee l.ledger

def getCommitteeForRound (l : CoreLedgerService V) (round : ℕ) : Except String Committee :=
  match Ledger.getCommitteeForRound l.ledger round with
  | .error e => .error e
  | .ok (some committee) => .ok committee
  | .ok none => .error s!"No committee found for round {round} in the ledger"

/-- `get_committee_lookback_for_round`. Committees are updated in even rounds, so `2` is
subtracted from odd rounds. -/
def getCommitteeLookbackForRound [Network] (l : CoreLedgerService V) (round : ℕ) :
    Except String Committee :=
  let previousRound := if round % 2 = 0 then round - 1 else round - 2
  l.getCommitteeForRound (previousRound - Network.committeeLookbackRange)

def containsCertificate (l : CoreLedgerService V) (id : Field) : Except String Bool :=
  Ledger.containsCertificate l.ledger id

/-- `contains_transmission`: by the ID of the solution or of the transaction. -/
def containsTransmission (l : CoreLedgerService V) : TransmissionID → Except String Bool
  | .ratification => .ok false
  | .solution id _ => Ledger.containsSolutionId l.ledger id
  | .transaction id _ => Ledger.containsTransactionId l.ledger id

/-- `get_blocks` on a range of heights. -/
def getBlocks (l : CoreLedgerService V) (first last : ℕ) : Except String (List Block) :=
  (List.range' first (last - first)).mapM fun height =>
    match l.blocks[height]? with
    | some block => .ok block
    | none => .error s!"Missing block {height}"

/-- `advance_to_next_block`, refused once the node is shutting down. -/
def advanceToNextBlock (l : CoreLedgerService V) (block : Block) :
    Except String Unit × CoreLedgerService V :=
  if l.shutdown then
    (.error s!"Skipping advancing to block {block.height} - The node is shutting down", l)
  else
    match Ledger.advanceToNextBlock l.ledger block with
    | .error e => (.error e, l)
    | .ok ledger => (.ok (), { l with ledger })

end CoreLedgerService

/-! ### The consensus channel -/

/-- What the BFT gets back for a subdag it sent to consensus. -/
inductive ConsensusReply where
  /-- The callback arrived with a result. -/
  | callback (result : Except String Unit)
  /-- The callback was dropped. -/
  | dropped
  /-- The subdag could not be sent. -/
  | unsent

/-- `ConsensusSender<N>`, by what the receiving side answers and does to the ledger. -/
abbrev ConsensusSender (V : Type) :=
  CoreLedgerService V → Subdag → IndexMap TransmissionID Transmission →
    ConsensusReply × CoreLedgerService V

section Consensus

variable {V : Type} [Ledger V]

/-- `Consensus::try_advance_to_next_block`. -/
def tryAdvanceToNextBlock (l : CoreLedgerService V) (subdag : Subdag)
    (transmissions : IndexMap TransmissionID Transmission) :
    Except String Unit × CoreLedgerService V :=
  match Ledger.prepareAdvanceToNextQuorumBlock l.ledger subdag transmissions with
  | .error e => (.error e, l)
  | .ok block => l.advanceToNextBlock block

/-- `Consensus::process_bft_subdag`. -/
def processBftSubdag : ConsensusSender V := fun l subdag transmissions =>
  let (result, l) := tryAdvanceToNextBlock l subdag transmissions
  (.callback result, l)

/-- A channel that extends the chain by a block with the sent subdag when its callback
reports success, leaves the chain alone otherwise, and does not touch the cached leader. -/
def ConsensusSender.Faithful (snd : ConsensusSender V) : Prop :=
  ∀ l s t, (snd l s t).2.latestLeader = l.latestLeader ∧
    ((snd l s t).1 = .callback (.ok ()) →
      ∃ b : Block, b.authority = .quorum s ∧ (snd l s t).2.blocks = l.blocks ++ [b]) ∧
    ((snd l s t).1 ≠ .callback (.ok ()) → (snd l s t).2.blocks = l.blocks)

variable [LawfulLedger V]

lemma advanceToNextBlock_cases (l : CoreLedgerService V) (b : Block) :
    (∃ e, l.advanceToNextBlock b = (.error e, l)) ∨
    (l.shutdown = false ∧ ∃ w, Ledger.advanceToNextBlock l.ledger b = .ok w ∧
      Ledger.blocks w = l.blocks ++ [b] ∧
      l.advanceToNextBlock b = (.ok (), { l with ledger := w })) := by
  unfold CoreLedgerService.advanceToNextBlock
  cases hs : l.shutdown with
  | true => exact .inl ⟨_, rfl⟩
  | false =>
    cases ha : Ledger.advanceToNextBlock l.ledger b with
    | error e => exact .inl ⟨e, rfl⟩
    | ok w => exact .inr ⟨rfl, w, rfl, LawfulLedger.advance_blocks ha, rfl⟩

/-- **Consensus is such a channel.** -/
theorem processBftSubdag_faithful : ConsensusSender.Faithful (processBftSubdag (V := V)) := by
  intro l s t
  unfold processBftSubdag tryAdvanceToNextBlock
  cases hp : Ledger.prepareAdvanceToNextQuorumBlock l.ledger s t with
  | error e => simp
  | ok b =>
    have hb := LawfulLedger.prepare_authority hp
    rcases advanceToNextBlock_cases l b with ⟨e, he⟩ | ⟨-, w, -, hw, he⟩
    · simp [he]
    · refine ⟨by simp [he], fun _ => ⟨b, hb, ?_⟩, by simp [he]⟩
      simpa [he, CoreLedgerService.blocks] using hw

end Consensus

end AmareleoChain
