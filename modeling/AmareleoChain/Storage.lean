import AmareleoChain.Ledger
import AmareleoChain.StorageService

/-!
The storage of the memory pool: the certificates above the garbage collection round, by
identifier and by round, and the transmissions they carry.

An operation that can fail returns its result together with the storage it leaves.
-/

namespace AmareleoChain

open Std

def maxTimestampDeltaInSecs : ℤ := 10

/-- `check_timestamp_for_liveness` at the time `now`. -/
def checkTimestampForLiveness (now timestamp : ℤ) : Except String Unit :=
  if timestamp > now + maxTimestampDeltaInSecs then
    .error s!"Timestamp {timestamp} is too far in the future"
  else .ok ()

/-- `StorageInner<N>`, less its handles to the ledger and to tracing. -/
structure Storage (S : Type) where
  currentHeight : ℕ
  currentRound : ℕ
  gcRound : ℕ
  maxGcRounds : ℕ
  rounds : ExtTreeMap ℕ (IndexSet (Field × Address))
  certificates : ExtTreeMap Field BatchCertificate
  batchIds : ExtTreeMap Field ℕ
  transmissions : S

namespace Storage

variable {S V : Type}

/-! ### Queries -/

def containsCertificatesForRound (s : Storage S) (round : ℕ) : Bool := s.rounds.contains round

def containsCertificate (s : Storage S) (id : Field) : Bool := s.certificates.contains id

def containsCertificateInRoundFrom (s : Storage S) (round : ℕ) (author : Address) : Bool :=
  match s.rounds[round]? with
  | none => false
  | some set => set.toList.any fun e => e.2 == author

def containsBatch (s : Storage S) (id : Field) : Bool := s.batchIds.contains id

def containsTransmission [StorageService S] (s : Storage S) (id : TransmissionID) : Bool :=
  StorageService.containsTransmission s.transmissions id

def getTransmission [StorageService S] (s : Storage S) (id : TransmissionID) :
    Option Transmission :=
  StorageService.getTransmission s.transmissions id

def getCertificate (s : Storage S) (id : Field) : Option BatchCertificate := s.certificates[id]?

/-- The entries of a round. -/
def entries (s : Storage S) (round : ℕ) : List (Field × Address) :=
  (s.rounds[round]?.map IndexSet.toList).getD []

def getCertificateForRoundWithAuthor (s : Storage S) (round : ℕ) (author : Address) :
    Option BatchCertificate :=
  (s.entries round).findSome? fun e => if e.2 = author then s.getCertificate e.1 else none

/-- `get_certificates_for_round`; the genesis round has none. -/
def getCertificatesForRound (s : Storage S) (round : ℕ) : List BatchCertificate :=
  if round = 0 then []
  else (IndexSet.ofList ((s.entries round).filterMap fun e => s.getCertificate e.1)).toList

def getCertificateIdsForRound (s : Storage S) (round : ℕ) : List Field :=
  if round = 0 then [] else (IndexSet.ofList ((s.entries round).map Prod.fst)).toList

def getCertificateAuthorsForRound (s : Storage S) (round : ℕ) : Finset Address :=
  if round = 0 then ∅ else ((s.entries round).map Prod.snd).toFinset

/-- `get_pending_certificates`: by round, then by insertion. -/
def getPendingCertificates [Ledger V] (l : CoreLedgerService V) (s : Storage S) :
    List BatchCertificate :=
  (IndexSet.ofList (s.rounds.toList.flatMap fun e => e.2.toList.filterMap fun entry =>
    match l.containsCertificate entry.1 with
    | .ok true => none
    | _ => s.getCertificate entry.1)).toList

/-! ### Rounds and heights -/

def updateCurrentRound (s : Storage S) (round : ℕ) : Storage S := { s with currentRound := round }

def syncHeightWithBlock (s : Storage S) (height : ℕ) : Storage S :=
  if height > s.currentHeight then { s with currentHeight := height } else s

def syncRoundWithBlock (s : Storage S) (round : ℕ) : Storage S :=
  let round := max round 1
  if round > s.currentRound then s.updateCurrentRound round else s

def incrementToNextRound [Ledger V] (l : CoreLedgerService V) (s : Storage S)
    (currentRound : ℕ) : Except String ℕ × Storage S :=
  let nextRound := currentRound + 1
  if nextRound < s.currentRound then (.ok s.currentRound, s)
  else
    match l.currentCommittee with
    | .error e => (.error e, s)
    | .ok committee =>
      if nextRound < committee.startingRound then
        (.ok l.latestRound, s.syncRoundWithBlock l.latestRound)
      else
        let s := s.updateCurrentRound nextRound
        if nextRound ≠ s.currentRound then
          (.error
            s!"The next round {nextRound} does not match in storage ({s.currentRound})", s)
        else if nextRound < s.gcRound then
          (.error s!"The next round {nextRound} is behind the GC round {s.gcRound}", s)
        else (.ok nextRound, s)

/-! ### Removal -/

variable [StorageService S]

/-- The update of `rounds` in `remove_certificate`: an emptied round is removed. -/
def removeEntry (rounds : ExtTreeMap ℕ (IndexSet (Field × Address))) (round : ℕ)
    (entry : Field × Address) : ExtTreeMap ℕ (IndexSet (Field × Address)) :=
  match rounds[round]? with
  | none => rounds
  | some set =>
    let set := set.erase entry
    if set.isEmpty then rounds.erase round else rounds.insert round set

def removeCertificate (s : Storage S) (id : Field) : Storage S :=
  match s.getCertificate id with
  | none => s
  | some certificate =>
    { s with
      rounds := removeEntry s.rounds certificate.round (id, certificate.author)
      certificates := s.certificates.erase id
      batchIds := s.batchIds.erase id
      transmissions :=
        StorageService.removeTransmissions s.transmissions id certificate.transmissionIds }

/-- The certificates of one round removed. -/
def removeRound (s : Storage S) (round : ℕ) : Storage S :=
  (s.getCertificateIdsForRound round).foldl removeCertificate s

def garbageCollectCertificates (s : Storage S) (nextRound : ℕ) : Storage S :=
  let nextGcRound := nextRound - s.maxGcRounds
  if nextGcRound > s.gcRound then
    { (List.range' s.gcRound (nextGcRound + 1 - s.gcRound)).foldl removeRound s with
      gcRound := nextGcRound }
  else s

/-- `Storage::new` over a ledger whose latest committee is known. -/
def new (committee : Committee) (transmissions : S) (maxGcRounds : ℕ) : Storage S :=
  let s : Storage S :=
    { currentHeight := 0, currentRound := 0, gcRound := 0, maxGcRounds,
      rounds := ∅, certificates := ∅, batchIds := ∅, transmissions }
  let currentRound := max committee.startingRound 1
  (s.updateCurrentRound currentRound).garbageCollectCertificates currentRound

/-! ### Acceptance checks and insertion -/

variable [Network] [Ledger V]

/-- The loop of `check_batch_header` over the previous certificate IDs; the authors met. -/
def checkPreviousCertificates (s : Storage S) (round previousRound : ℕ) (gcLog : String) :
    List Field → Finset Address → Except String (Finset Address)
  | [], authors => .ok authors
  | id :: ids, authors =>
    match s.getCertificate id with
    | none => .error
        s!"Missing previous certificate '{fmtId id}' for certificate in round {round} {gcLog}"
    | some previous =>
      if previous.round ≠ previousRound then
        .error s!"Round {round} certificate contains a round {previousRound} certificate {gcLog}"
      else if previous.author ∈ authors then
        .error s!"Round {round} certificate contains a duplicate author {gcLog}"
      else
        checkPreviousCertificates s round previousRound gcLog ids (insert previous.author authors)

/-- The part of `check_batch_header` for a previous round above the GC round. -/
def checkPreviousRound (l : CoreLedgerService V) (s : Storage S) (header : BatchHeader)
    (previousRound : ℕ) (gcLog : String) : Except String Unit :=
  match l.getCommitteeLookbackForRound previousRound with
  | .error _ => .error
      s!"Missing committee for the previous round {previousRound} in storage {gcLog}"
  | .ok previousCommitteeLookback =>
    if ¬ s.containsCertificatesForRound previousRound then
      .error s!"Missing certificates for the previous round {previousRound} in storage {gcLog}"
    else if header.previousCertificateIds.toList.length > previousCommitteeLookback.numMembers then
      .error s!"Too many previous certificates for round {header.round} {gcLog}"
    else
      match checkPreviousCertificates s header.round previousRound gcLog
          header.previousCertificateIds.toList ∅ with
      | .error e => .error e
      | .ok previousAuthors =>
        if ¬ previousCommitteeLookback.isQuorumThresholdReached previousAuthors then
          .error (s!"Previous certificates for a batch in round {header.round} " ++
            s!"did not reach quorum threshold {gcLog}")
        else .ok ()

def checkBatchHeader (l : CoreLedgerService V) (now : ℤ) (s : Storage S) (header : BatchHeader)
    (transmissions : IndexMap TransmissionID Transmission)
    (abortedTransmissions : IndexSet TransmissionID) :
    Except String (IndexMap TransmissionID Transmission) :=
  let round := header.round
  let gcLog := s!"(gc = {s.gcRound})"
  if s.containsBatch header.batchId then
    .error s!"Batch for round {round} already exists in storage {gcLog}"
  else
    match l.getCommitteeLookbackForRound round with
    | .error _ => .error
        s!"Storage failed to retrieve the committee lookback for round {round} {gcLog}"
    | .ok committeeLookback =>
      if ¬ committeeLookback.isCommitteeMember header.author then
        .error
          s!"Author {header.author.val} is not in the committee for round {round} {gcLog}"
      else
        match checkTimestampForLiveness now header.timestamp with
        | .error e => .error e
        | .ok () =>
          match StorageService.findMissingTransmissions s.transmissions header transmissions
              abortedTransmissions with
          | .error e => .error s!"{e} for round {round} {gcLog}"
          | .ok missingTransmissions =>
            let previousRound := round - 1
            if previousRound > s.gcRound then
              match checkPreviousRound l s header previousRound gcLog with
              | .error e => .error e
              | .ok () => .ok missingTransmissions
            else .ok missingTransmissions

/-- The loop of `check_certificate` over the signatures; the signers met. -/
def checkSigners (committee : Committee) (round : ℕ) (gcLog : String) :
    List Signature → Finset Address → Except String (Finset Address)
  | [], signers => .ok signers
  | signature :: signatures, signers =>
    if ¬ committee.isCommitteeMember signature.toAddress then
      .error (s!"Signer {signature.toAddress.val} is not in the committee " ++
        s!"for round {round} {gcLog}")
    else checkSigners committee round gcLog signatures (insert signature.toAddress signers)

def checkCertificate (l : CoreLedgerService V) (now : ℤ) (s : Storage S)
    (certificate : BatchCertificate) (transmissions : IndexMap TransmissionID Transmission)
    (abortedTransmissions : IndexSet TransmissionID) :
    Except String (IndexMap TransmissionID Transmission) :=
  let round := certificate.round
  let gcLog := s!"(gc = {s.gcRound})"
  if s.containsCertificate certificate.id then
    .error s!"Certificate for round {round} already exists in storage {gcLog}"
  else if s.containsCertificateInRoundFrom round certificate.author then
    .error s!"Certificate with this author for round {round} already exists in storage {gcLog}"
  else
    match checkBatchHeader l now s certificate.batchHeader transmissions
        abortedTransmissions with
    | .error e => .error e
    | .ok missingTransmissions =>
      match checkTimestampForLiveness now certificate.timestamp with
      | .error e => .error e
      | .ok () =>
        match l.getCommitteeLookbackForRound round with
        | .error _ => .error
            s!"Storage failed to retrieve the committee for round {round} {gcLog}"
        | .ok committeeLookback =>
          match checkSigners committeeLookback round gcLog certificate.signatures.toList
              {certificate.author} with
          | .error e => .error e
          | .ok signers =>
            if ¬ committeeLookback.isQuorumThresholdReached signers then
              .error
                s!"Signatures for a batch in round {round} did not reach quorum threshold {gcLog}"
            else .ok missingTransmissions

def insertCertificateAtomic (s : Storage S) (certificate : BatchCertificate)
    (abortedTransmissionIds : IndexSet TransmissionID)
    (missingTransmissions : IndexMap TransmissionID Transmission) : Storage S :=
  { s with
    rounds := s.rounds.insert certificate.round
      ((s.rounds[certificate.round]?.getD ∅).insert (certificate.id, certificate.author))
    certificates := s.certificates.insert certificate.id certificate
    batchIds := s.batchIds.insert certificate.id certificate.round
    transmissions := StorageService.insertTransmissions s.transmissions certificate.id
      certificate.transmissionIds abortedTransmissionIds missingTransmissions }

def insertCertificate (l : CoreLedgerService V) (now : ℤ) (s : Storage S)
    (certificate : BatchCertificate) (transmissions : IndexMap TransmissionID Transmission)
    (abortedTransmissions : IndexSet TransmissionID) : Except String Unit × Storage S :=
  if certificate.round ≤ s.gcRound then
    (.error "Certificate round is at or below the GC round", s)
  else
    match checkCertificate l now s certificate transmissions abortedTransmissions with
    | .error e => (.error e, s)
    | .ok missingTransmissions =>
      (.ok (), s.insertCertificateAtomic certificate abortedTransmissions missingTransmissions)

/-! ### Synchronisation with a block -/

/-- The transmissions a certificate of a block is missing, and those that were aborted. -/
structure BlockTransmissions where
  missing : IndexMap TransmissionID Transmission
  aborted : IndexSet TransmissionID

/-- One turn of the loop of `sync_certificate_with_block`. -/
def syncTransmission (l : CoreLedgerService V) (s : Storage S) (block : Block)
    (unconfirmedTransactions : TransactionID → Option Transaction) (acc : BlockTransmissions)
    (id : TransmissionID) : BlockTransmissions :=
  if acc.missing.containsKey id then acc
  else if s.containsTransmission id then acc
  else
    let aborted (inBlock : Bool) : BlockTransmissions :=
      if inBlock || (l.containsTransmission id matches .ok true) then
        { acc with aborted := acc.aborted.insert id }
      else acc
    match id with
    | .ratification => acc
    | .solution solutionId _ =>
      match block.solutions.find? fun solution => solution.id == solutionId with
      | some solution =>
        { acc with missing := acc.missing.insert id (.solution (.object solution)) }
      | none =>
        match Ledger.getSolution l.ledger solutionId with
        | .ok solution =>
          { acc with missing := acc.missing.insert id (.solution (.object solution)) }
        | .error _ => aborted (block.abortedSolutionIds.contains solutionId)
    | .transaction transactionId _ =>
      match unconfirmedTransactions transactionId with
      | some transaction =>
        { acc with missing := acc.missing.insert id (.transaction (.object transaction)) }
      | none =>
        match Ledger.getUnconfirmedTransaction l.ledger transactionId with
        | .ok transaction =>
          { acc with missing := acc.missing.insert id (.transaction (.object transaction)) }
        | .error _ => aborted (block.abortedTransactionIds.contains transactionId)

def syncCertificateWithBlock (l : CoreLedgerService V) (now : ℤ) (s : Storage S) (block : Block)
    (certificate : BatchCertificate)
    (unconfirmedTransactions : TransactionID → Option Transaction) : Storage S :=
  if certificate.round ≤ s.gcRound then s
  else if s.containsCertificate certificate.id then s
  else
    let found := certificate.transmissionIds.toList.foldl
      (syncTransmission l s block unconfirmedTransactions) ⟨∅, ∅⟩
    (s.insertCertificate l now certificate found.missing found.aborted).2

end Storage

end AmareleoChain
