import AmareleoChain.Library.Codec
import AmareleoChain.Lives

/-!
The proposal cache on the disk: its encoding, and the caches that a node saves.

Reading what was written gives the cache back, whatever follows it, and each cache that
`shut_down` saves is accepted when it is loaded.
-/

namespace AmareleoChain

/-- The codecs of the types of `snarkvm`, and two of its constants. -/
class Leaves where
  batchHeader : Codec BatchHeader
  transmissionId : Codec TransmissionID
  transmission : Codec Transmission
  signature : Codec Signature
  address : Codec Address
  field : Codec Field
  certificate : Codec BatchCertificate
  /-- `Committee::max_committee_size`. -/
  maxCommitteeSize : Except String ℕ
  /-- `SUBDAG_CERTIFICATES_DEPTH`. -/
  subdagCertificatesDepth : ℕ

/-- Each of the codecs reads back what it wrote. -/
class LawfulLeaves [Leaves] : Prop where
  batchHeader : Leaves.batchHeader.RoundTrips
  transmissionId : Leaves.transmissionId.RoundTrips
  transmission : Leaves.transmission.RoundTrips
  signature : Leaves.signature.RoundTrips
  address : Leaves.address.RoundTrips
  field : Leaves.field.RoundTrips
  certificate : Leaves.certificate.RoundTrips

/-- `u32::try_from`, written. -/
def writeCount (n : ℕ) : Except String (List UInt8) :=
  if n < 2 ^ 32 then .ok (littleEndian 4 n)
  else .error "out of range integral type conversion attempted"

/-- A `u64`. -/
def writeU64 (n : ℕ) : Except String (List UInt8) := .ok (littleEndian 8 n)

def readU32 : Reader ℕ := readLittleEndian 4

def readU64 : Reader ℕ := readLittleEndian 8

lemma reads_count {n : ℕ} {bytes : List UInt8} (h : writeCount n = .ok bytes) :
    Reads readU32 bytes n := by
  unfold writeCount at h
  split at h
  · next hn =>
    cases h
    exact reads_littleEndian (hn.trans_eq (by norm_num))
  · cases h

lemma reads_u64 {n : ℕ} {bytes : List UInt8} (hn : n < 2 ^ 64) (h : writeU64 n = .ok bytes) :
    Reads readU64 bytes n := by
  cases h
  exact reads_littleEndian (hn.trans_eq (by norm_num))

section Codecs

variable [Leaves]

/-! ### Proposals -/

namespace Proposal

def writeTransmission (e : TransmissionID × Transmission) : Except String (List UInt8) := do
  let id ← Leaves.transmissionId.write e.1
  let transmission ← Leaves.transmission.write e.2
  return id ++ transmission

def writeLe (p : Proposal) : Except String (List UInt8) := do
  let batchHeader ← Leaves.batchHeader.write p.batchHeader
  let numTransmissions ← writeCount p.transmissions.len
  let transmissions ← writeEach writeTransmission p.transmissions.entries
  let numSignatures ← writeCount p.signatures.toList.length
  let signatures ← writeEach Leaves.signature.write p.signatures.toList
  return batchHeader ++ (numTransmissions ++ (transmissions ++ (numSignatures ++ signatures)))

def readTransmission (transmissions : IndexMap TransmissionID Transmission) :
    Reader (IndexMap TransmissionID Transmission) := do
  let id ← Leaves.transmissionId.read
  let transmission ← Leaves.transmission.read
  return transmissions.insert id transmission

def readSignature (signatures : IndexSet Signature) : Reader (IndexSet Signature) := do
  let signature ← Leaves.signature.read
  return signatures.insert signature

variable [Network]

def readLe : Reader Proposal := do
  let batchHeader ← Leaves.batchHeader.read
  let numTransmissions ← readU32
  if numTransmissions > Network.maxTransmissionsPerBatch then
    throw "Invalid number of transmissions in the proposal"
  else
    let transmissions ← readTimes readTransmission numTransmissions ∅
    let numSignatures ← readU32
    match Leaves.maxCommitteeSize with
    | .error e => throw e
    | .ok maxCommitteeSize =>
      if numSignatures > maxCommitteeSize then
        throw "Invalid number of signatures in the proposal"
      else
        let signatures ← readTimes readSignature numSignatures ∅
        if batchHeader.transmissionIds.toList.length ≠ transmissions.len then
          throw "The transmission IDs do not match in the batch header and transmissions"
        else if (batchHeader.transmissionIds.toList.zip transmissions.keys).any
            fun e => e.1 ≠ e.2 then
          throw "The transmission IDs do not match in the batch header and transmissions"
        else return ⟨batchHeader, transmissions, signatures⟩

/-- A proposal within the bounds of the reader, whose transmissions are those of its header. -/
structure Fits (p : Proposal) : Prop where
  keys : p.transmissions.keys = p.batchHeader.transmissionIds.toList
  transmissions : p.transmissions.len ≤ Network.maxTransmissionsPerBatch
  signatures : ∃ maxCommitteeSize, Leaves.maxCommitteeSize = .ok maxCommitteeSize ∧
    p.signatures.toList.length ≤ maxCommitteeSize

lemma reads [LawfulLeaves] {p : Proposal} (hfits : p.Fits) {bytes : List UInt8}
    (h : p.writeLe = .ok bytes) : Reads readLe bytes p := by
  obtain ⟨header, hheader, h⟩ := bind_eq_ok.mp h
  obtain ⟨numTransmissions, hnum, h⟩ := bind_eq_ok.mp h
  obtain ⟨transmissions, htrans, h⟩ := bind_eq_ok.mp h
  obtain ⟨numSignatures, hnumSig, h⟩ := bind_eq_ok.mp h
  obtain ⟨signatures, hsig, h⟩ := bind_eq_ok.mp h
  cases h
  obtain ⟨size, hsize, hbound⟩ := hfits.signatures
  unfold readLe
  refine (LawfulLeaves.batchHeader _ _ hheader).bind ((reads_count hnum).bind ?_)
  rw [if_neg (Nat.not_lt.mpr hfits.transmissions)]
  have hentries : Reads (readTimes readTransmission p.transmissions.entries.length ∅)
      transmissions (p.transmissions.entries.foldl (fun m e => m.insert e.1 e.2) ∅) := by
    refine reads_times htrans (fun e _ bytes m he => ?_) ∅
    obtain ⟨id, hid, he⟩ := bind_eq_ok.mp he
    obtain ⟨transmission, htransmission, he⟩ := bind_eq_ok.mp he
    cases he
    exact (LawfulLeaves.transmissionId _ _ hid).bind
      ((LawfulLeaves.transmission _ _ htransmission).map _)
  have hsignatures : Reads (readTimes readSignature p.signatures.toList.length ∅)
      signatures (p.signatures.toList.foldl IndexSet.insert ∅) :=
    reads_times hsig (fun s _ bytes m hs => (LawfulLeaves.signature _ _ hs).map _) ∅
  rw [IndexMap.foldl_insert_entries] at hentries
  rw [IndexSet.foldl_insert_toList] at hsignatures
  refine hentries.bind ((reads_count hnumSig).bind ?_)
  rw [hsize]
  dsimp only
  rw [if_neg (Nat.not_lt.mpr hbound), ← List.append_nil signatures]
  refine hsignatures.bind ?_
  rw [← hfits.keys, if_neg (by simp [IndexMap.keys, IndexMap.len]),
    if_neg (by simp [List.zip, List.zipWith_self])]
  exact Reads.pure p

end Proposal

/-! ### Signed proposals -/

namespace SignedProposals

def writeProposal (e : Address × ℕ × Field × Signature) : Except String (List UInt8) := do
  let address ← Leaves.address.write e.1
  let round ← writeU64 e.2.1
  let batchId ← Leaves.field.write e.2.2.1
  let signature ← Leaves.signature.write e.2.2.2
  return address ++ (round ++ (batchId ++ signature))

/-- `write_le`, in the order in which the map is iterated over. -/
def writeLe (s : SignedProposals) : Except String (List UInt8) := do
  let numSignedProposals ← writeCount s.len
  let signedProposals ← writeEach writeProposal s.entries
  return numSignedProposals ++ signedProposals

def readProposal (signedProposals : SignedProposals) : Reader SignedProposals := do
  let address ← Leaves.address.read
  let round ← readU64
  let batchId ← Leaves.field.read
  let signature ← Leaves.signature.read
  return signedProposals.insert address (round, batchId, signature)

def readLe : Reader SignedProposals := do
  let numSignedProposals ← readU32
  readTimes readProposal numSignedProposals ∅

lemma reads [LawfulLeaves] {s : SignedProposals} (hrounds : ∀ e ∈ s.entries, e.2.1 < 2 ^ 64)
    {bytes : List UInt8} (h : s.writeLe = .ok bytes) : Reads readLe bytes s := by
  obtain ⟨numSignedProposals, hnum, h⟩ := bind_eq_ok.mp h
  obtain ⟨signedProposals, hproposals, h⟩ := bind_eq_ok.mp h
  cases h
  have hentries : Reads (readTimes readProposal s.entries.length ∅) signedProposals
      (s.entries.foldl (fun m e => m.insert e.1 e.2) ∅) := by
    refine reads_times hproposals (fun e he bytes m hwritten => ?_) ∅
    obtain ⟨address, haddress, hwritten⟩ := bind_eq_ok.mp hwritten
    obtain ⟨round, hround, hwritten⟩ := bind_eq_ok.mp hwritten
    obtain ⟨batchId, hbatchId, hwritten⟩ := bind_eq_ok.mp hwritten
    obtain ⟨signature, hsignature, hwritten⟩ := bind_eq_ok.mp hwritten
    cases hwritten
    exact (LawfulLeaves.address _ _ haddress).bind ((reads_u64 (hrounds e he) hround).bind
      ((LawfulLeaves.field _ _ hbatchId).bind ((LawfulLeaves.signature _ _ hsignature).map _)))
  rw [IndexMap.foldl_insert_entries] at hentries
  exact (reads_count hnum).bind hentries

end SignedProposals

/-! ### The cache -/

namespace ProposalCache

/-- The flag of an optional proposal, and the proposal. -/
def writeProposal : Option Proposal → Except String (List UInt8)
  | some proposal => do
    let bytes ← proposal.writeLe
    return writeBool true ++ bytes
  | none => return writeBool false

def writeLe (c : ProposalCache) : Except String (List UInt8) := do
  let latestRound ← writeU64 c.latestRound
  let proposal ← writeProposal c.proposal
  let signedProposals ← c.signedProposals.writeLe
  let numCertificates ← writeCount c.pendingCertificates.length
  let certificates ← writeEach Leaves.certificate.write c.pendingCertificates
  return latestRound ++ (proposal ++ (signedProposals ++ (numCertificates ++ certificates)))

/-- `2u32.saturating_pow(SUBDAG_CERTIFICATES_DEPTH)`. -/
def maxCertificates : ℕ := min (2 ^ Leaves.subdagCertificatesDepth) (2 ^ 32 - 1)

def readCertificate (certificates : IndexSet BatchCertificate) :
    Reader (IndexSet BatchCertificate) := do
  let certificate ← Leaves.certificate.read
  return certificates.insert certificate

variable [Network]

def readProposal : Reader (Option Proposal) := do
  match ← readBool with
  | true =>
    let proposal ← Proposal.readLe
    return some proposal
  | false => return none

def readLe : Reader ProposalCache := do
  let latestRound ← readU64
  let proposal ← readProposal
  let signedProposals ← SignedProposals.readLe
  let numCertificates ← readU32
  if numCertificates > maxCertificates then
    throw (s!"Number of certificates ({numCertificates}) exceeds the maximum " ++
      s!"({maxCertificates})")
  else
    let certificates ← readTimes readCertificate numCertificates ∅
    return ⟨latestRound, proposal, signedProposals, certificates.toList⟩

/-- A cache within the bounds of its types and of the reader. -/
structure Fits (c : ProposalCache) : Prop where
  latestRound : c.latestRound < 2 ^ 64
  proposal : ∀ proposal, c.proposal = some proposal → proposal.Fits
  rounds : ∀ e ∈ c.signedProposals.entries, e.2.1 < 2 ^ 64
  /-- The pending certificates are an index set. -/
  distinct : c.pendingCertificates.Nodup
  certificates : c.pendingCertificates.length ≤ 2 ^ Leaves.subdagCertificatesDepth

lemma reads_proposal [LawfulLeaves] {proposal : Option Proposal}
    (hfits : ∀ p, proposal = some p → p.Fits) {bytes : List UInt8}
    (h : writeProposal proposal = .ok bytes) : Reads readProposal bytes proposal := by
  cases proposal with
  | none =>
    cases h
    exact (reads_bool false).bind (Reads.pure none)
  | some p =>
    obtain ⟨rest, hrest, h⟩ := bind_eq_ok.mp h
    cases h
    exact (reads_bool true).bind ((Proposal.reads (hfits p rfl) hrest).map some)

lemma reads [LawfulLeaves] {c : ProposalCache} (hfits : c.Fits) {bytes : List UInt8}
    (h : c.writeLe = .ok bytes) : Reads readLe bytes c := by
  obtain ⟨latestRound, hlatest, h⟩ := bind_eq_ok.mp h
  obtain ⟨proposal, hproposal, h⟩ := bind_eq_ok.mp h
  obtain ⟨signedProposals, hsigned, h⟩ := bind_eq_ok.mp h
  obtain ⟨numCertificates, hnum, h⟩ := bind_eq_ok.mp h
  obtain ⟨certificates, hcertificates, h⟩ := bind_eq_ok.mp h
  cases h
  have hbound : c.pendingCertificates.length ≤ maxCertificates := by
    have hsmall : c.pendingCertificates.length < 2 ^ 32 := by
      by_contra hlarge
      rw [writeCount, if_neg hlarge] at hnum
      cases hnum
    exact Nat.le_min.mpr ⟨hfits.certificates, by omega⟩
  have hset : Reads (readTimes readCertificate c.pendingCertificates.length ∅) certificates
      (IndexSet.ofList c.pendingCertificates) :=
    reads_times hcertificates
      (fun d _ bytes m hd => (LawfulLeaves.certificate _ _ hd).map _) ∅
  refine (reads_u64 hfits.latestRound hlatest).bind ((reads_proposal hfits.proposal hproposal).bind
    ((SignedProposals.reads hfits.rounds hsigned).bind ((reads_count hnum).bind ?_)))
  rw [if_neg (Nat.not_lt.mpr hbound)]
  have hread := hset.map fun certificates =>
    (⟨c.latestRound, c.proposal, c.signedProposals, certificates.toList⟩ : ProposalCache)
  rwa [IndexSet.toList_ofList hfits.distinct] at hread

end ProposalCache

end Codecs

/-! ### The caches of a node -/

/-- An account's signatures are recovered to its address. -/
def ownSignatures : Manner :=
  ⟨fun _ => True, fun account signature => signature.toAddress = account, fun _ => True⟩

namespace SignedProposals

lemma isValid_iff {s : SignedProposals} {a : Address} :
    s.isValid a = true ↔ ∀ e ∈ s.entries, e.2.2.2.toAddress = a := by
  simp [isValid, IndexMap.values]

lemma isValid_insert {s : SignedProposals} {a b : Address} {e : ℕ × Field × Signature}
    (h : s.isValid a = true) (he : e.2.2.toAddress = a) :
    SignedProposals.isValid (s.insert b e) a = true := by
  rw [isValid_iff] at h ⊢
  rintro ⟨c, e'⟩ hin
  rw [← IndexMap.get?_eq_some_iff, IndexMap.get?_insert] at hin
  split at hin
  · cases hin; exact he
  · exact h ⟨c, e'⟩ (IndexMap.get?_eq_some_iff.mp hin)

end SignedProposals

namespace Primary

variable {S V : Type}

/-- No batch is proposed, and the node signed the batches it keeps as signed. -/
structure OwnSigned (p : Primary S V) : Prop where
  proposal : p.proposedBatch = none
  signed : p.signedProposals.isValid p.account = true

/-- The account stays, and so does `OwnSigned`. -/
def KeepsSigned (p q : Primary S V) : Prop :=
  q.account = p.account ∧ (p.OwnSigned → q.OwnSigned)

variable {p q r : Primary S V}

lemma KeepsSigned.refl (p : Primary S V) : p.KeepsSigned p := ⟨rfl, id⟩

lemma KeepsSigned.trans (h : p.KeepsSigned q) (h' : q.KeepsSigned r) : p.KeepsSigned r :=
  ⟨h'.1.trans h.1, h'.2 ∘ h.2⟩

lemma SameWork.keepsSigned (h : p.SameWork q) : p.KeepsSigned q := by
  obtain ⟨bft, rfl, hbft⟩ := h
  refine ⟨hbft, fun ho => ⟨ho.proposal, ?_⟩⟩
  have hsigned := ho.signed
  rwa [← hbft] at hsigned

variable [StorageService S] [Network] [Ledger V]

omit [Network] in
lemma ourSign_ok {env : Certification} {others : List Address} {account : Address}
    {signature : Signature} (h : ourSign env others account = .ok signature) :
    env.sign account = .ok signature := by
  unfold ourSign at h
  split at h
  · cases hs : env.sign account with
    | error stop => rw [hs] at h; cases h
    | ok s => rw [hs] at h; cases h; rfl
  · cases h

lemma keepsSigned_signProposal (env : Certification) (a : Address) (round : ℕ) (batchId : Field)
    {signature : Signature} (hsign : signature.toAddress = p.account) (c : BatchCertificate) :
    p.KeepsSigned (p.signProposal env a round batchId signature c).2 := by
  unfold signProposal
  split
  · exact .refl p
  · have hsigned : p.KeepsSigned { p with
        signedProposals := p.signedProposals.insert a (round, batchId, signature) } :=
      ⟨rfl, fun ho => ⟨ho.proposal, SignedProposals.isValid_insert ho.signed hsign⟩⟩
    exact hsigned.trans (sameWork_updateBft env.toReceipt c _).keepsSigned

lemma keepsSigned_fakeProposal {env : Certification} (henv : env.Meets ownSignatures)
    (a : Address) (others : List Address) (round : ℕ) (p : Primary S V) :
    p.KeepsSigned (p.fakeProposal env a others round).2 := by
  unfold fakeProposal
  refine attempt_rel (R := KeepsSigned) (.refl p) fun _ _ => ?_
  dsimp only
  have hasked : p.KeepsSigned (p.askHeader a round) := ⟨rfl, fun ho => ⟨ho.proposal, ho.signed⟩⟩
  refine hasked.trans ?_
  have hrefl := KeepsSigned.refl (p.askHeader a round)
  iterate 2 refine attempt_rel (R := KeepsSigned) hrefl fun _ _ => ?_
  refine attempt_rel (R := KeepsSigned) hrefl fun signature hsign => ?_
  refine attempt_rel (R := KeepsSigned) hrefl fun ⟨c, t⟩ _ => ?_
  have hinsert := sameWork_insertCertificate env.toReceipt c t (p.askHeader a round)
  refine andThen_rel (R := KeepsSigned) .trans hinsert.keepsSigned fun _ q hq => ?_
  refine keepsSigned_signProposal env a round _ ?_ c
  -- the primary signs by its own account, which the insertion leaves alone
  obtain ⟨hsame, -⟩ := hinsert.keepsSigned
  rw [hq] at hsame
  rw [hsame]
  cases hours : ourSign env others (p.askHeader a round).account with
  | error e => rw [hours] at hsign; cases hsign
  | ok s => rw [hours] at hsign; cases hsign; exact henv.sign _ _ (ourSign_ok hours)

/-- **The primary signs for its own account only.** -/
theorem keepsSigned_walk :
    BatchWalk (S := S) (V := V) ownSignatures (fun _ => True) KeepsSigned where
  refl := .refl
  trans := .trans
  round sent now round p := (sameWork_round sent now round p).keepsSigned
  increment _ _ := SameWork.keepsSigned ⟨_, rfl, rfl⟩
  clear _ := ⟨rfl, fun ho => ⟨rfl, ho.signed⟩⟩
  work _ _ _ := ⟨rfl, fun ho => ⟨ho.proposal, ho.signed⟩⟩
  lock _ _ _ := ⟨rfl, fun ho => ⟨ho.proposal, ho.signed⟩⟩
  store env c t p _ _ := (sameWork_store env c t p).keepsSigned
  fakes henv _ _ _ h := h.trans <| fakes_of_fake (R := KeepsSigned) .refl .trans
    (fun _ a others round p henv => keepsSigned_fakeProposal henv a others round p) henv _ _ _ _

lemma Starts.ownSigned {E : Surroundings V} (hE : E.Meets ownSignatures) {account : Address}
    {transmissions : S} {l : CoreLedgerService V} {cache : Option ProposalCache}
    {result : Except Stop Unit} (h : Starts E account transmissions l cache result p)
    (hcache : ∀ c, cache = some c → c.proposal = none ∧ c.isValid account = true) :
    p.account = account ∧ p.OwnSigned := by
  obtain ⟨committee, g, keepState, now, envs, send, b, -, hboot, henvs, -, hrun⟩ := h
  obtain ⟨result', q, hload, hcases⟩ := runBft_cases
    (p := new account (Storage.new committee transmissions g) keepState l) hboot envs cache send
  have haccount : b.account = account := by
    obtain ⟨storage, dag, rfl⟩ := BFT.bootup_keeps hboot
    rfl
  -- the load starts from the signatures of the cache
  have hq : q.account = account ∧ q.OwnSigned := by
    unfold loadProposalCache at hload
    cases cache with
    | none =>
      cases hload
      exact ⟨haccount, rfl, SignedProposals.isValid_iff.mpr (by simp [new])⟩
    | some c =>
      obtain ⟨hproposal, hvalid⟩ := hcache c rfl
      rw [← haccount] at hvalid
      dsimp only at hload
      rw [if_pos hvalid] at hload
      obtain ⟨hsame, hown⟩ := keepsSigned_walk.loadCertificates (fun i => hE.load _ (henvs i)) 0
        (fun d (_ : d ∈ c.pendingCertificates) => trivial)
        { new account (Storage.new committee transmissions g) keepState l with
          bft := b, bftSender := true, proposedBatch := c.proposal
          signedProposals := c.signedProposals, proposeLock := c.latestRound }
      rw [hload] at hsame hown
      rw [ProposalCache.isValid, Bool.and_eq_true] at hvalid
      exact ⟨hsame.trans haccount, hown ⟨hproposal, hvalid.2⟩⟩
  rcases hcases with ⟨stop, -, hcases⟩ | ⟨-, hcases⟩ <;> rw [hrun] at hcases <;> cases hcases
  · exact hq
  · exact ⟨hq.1, hq.2.proposal, hq.2.signed⟩

omit [StorageService S] [Network] in
lemma OwnSigned.shutDown (h : p.OwnSigned) :
    (∀ c, p.shutDown.1 = some c → c.proposal = none ∧ c.isValid p.account = true) ∧
      p.shutDown.2.account = p.account ∧ p.shutDown.2.OwnSigned := by
  unfold Primary.shutDown
  split
  · refine ⟨fun c hc => ?_, rfl, rfl, h.signed⟩
    cases hc
    exact ⟨h.proposal, by simp [ProposalCache.isValid, h.proposal, h.signed]⟩
  · exact ⟨fun c hc => (by cases hc), rfl, h⟩

/-- **What a node saves** is valid for its account, and so is the cache on its disk. -/
theorem Lived.valid {E : Surroundings V} (hE : E.Meets ownSignatures)
    {cache : Option ProposalCache} (h : Lived E cache p) :
    p.OwnSigned ∧ ∀ c, cache = some c → c.proposal = none ∧ c.isValid p.account = true := by
  induction h with
  | start h => exact ⟨(h.ownSigned hE fun _ hc => by cases hc).2, fun _ hc => by cases hc⟩
  | @propose cache p env _ henv ih =>
    obtain ⟨hsame, hown⟩ := keepsSigned_walk.proposeBatch (hE.propose env henv) p
    refine ⟨hown ih.1, fun c hc => ?_⟩
    rw [proposeTask, hsame]
    exact ih.2 c hc
  | @increment cache p env _ henv ih =>
    obtain ⟨hsame, hown⟩ := keepsSigned_walk.incrementTask (hE.increment env henv) p
    refine ⟨hown ih.1, fun c hc => ?_⟩
    rw [hsame]
    exact ih.2 c hc
  | submit ready _ ih => exact ⟨⟨ih.1.proposal, ih.1.signed⟩, ih.2⟩
  | flag _ ih => exact ⟨⟨ih.1.proposal, ih.1.signed⟩, ih.2⟩
  | @shutDown cache p _ ih =>
    obtain ⟨hsaved, hsame, hown⟩ := ih.1.shutDown
    refine ⟨hown, fun c hc => ?_⟩
    rw [hsame]
    rcases Option.or_eq_some_iff.mp hc with hc | ⟨-, hc⟩
    · exact hsaved c hc
    · exact ih.2 c hc
  | reboot _ _ hstarts ih =>
    obtain ⟨hsame, hown⟩ := hstarts.ownSigned hE ih.2
    exact ⟨hown, fun c hc => by rw [hsame]; exact ih.2 c hc⟩

end Primary

/-! ### On the disk and back -/

/-- Equal caches: the signed proposals are a map, whatever its order. -/
structure ProposalCache.Same (c c' : ProposalCache) : Prop where
  latestRound : c.latestRound = c'.latestRound
  proposal : c.proposal = c'.proposal
  signedProposals : ∀ a, c.signedProposals.get? a = c'.signedProposals.get? a
  pendingCertificates : c.pendingCertificates = c'.pendingCertificates

/-- **The proposal cache survives the disk**: a cache within the bounds, written in any order of
its signed proposals, is read back and what follows it is left unread; and the cache that a
node saves, or has on its disk, is valid for its account. -/
theorem proposalCache_survives {S V : Type} [StorageService S] [Network] [Ledger V] [Leaves]
    [LawfulLeaves] :
    (∀ (c : ProposalCache) (order : SignedProposals) (bytes rest : List UInt8), c.Fits →
      order.entries.Perm c.signedProposals.entries →
      { c with signedProposals := order }.writeLe = .ok bytes →
      ∃ c', ProposalCache.readLe.run (bytes ++ rest) = .ok (c', rest) ∧ c'.Same c) ∧
    ∀ (E : Surroundings V) (cache : Option ProposalCache) (p : Primary S V),
      E.Meets ownSignatures → Primary.Lived E cache p →
      ∀ c, p.shutDown.1.or cache = some c → c.isValid p.account = true := by
  constructor
  · intro c order bytes rest hfits hperm hwrite
    have hread := ProposalCache.reads (c := { c with signedProposals := order })
      { hfits with rounds := fun e he => hfits.rounds e (hperm.subset he) } hwrite rest
    refine ⟨_, hread, rfl, rfl, fun a => ?_, rfl⟩
    ext e
    rw [IndexMap.get?_eq_some_iff, IndexMap.get?_eq_some_iff]
    exact hperm.mem_iff
  · intro E cache p hE hlived c hc
    obtain ⟨hown, hcache⟩ := hlived.valid hE
    rcases Option.or_eq_some_iff.mp hc with hc | ⟨-, hc⟩
    · exact (hown.shutDown.1 c hc).2
    · exact (hcache c hc).2

section Example

/-- A codec for the values of a table, by their index. -/
def tableCodec {α : Type} [DecidableEq α] (table : List α) : Codec α where
  write a :=
    if table.idxOf a < min table.length 256 then .ok [UInt8.ofNat (table.idxOf a)]
    else .error "not in the table"
  read := do
    match table[(← readByte).toNat]? with
    | some a => return a
    | none => throw "not in the table"

lemma tableCodec_roundTrips {α : Type} [DecidableEq α] (table : List α) :
    (tableCodec table).RoundTrips := by
  intro a bytes h
  unfold tableCodec at h ⊢
  dsimp only at h ⊢
  split at h
  · next hidx =>
    cases h
    have hto : (UInt8.ofNat (table.idxOf a)).toNat = table.idxOf a := by
      rw [UInt8.toNat_ofNat']
      omega
    have hget : table[table.idxOf a]? = some a := by
      rw [List.getElem?_eq_getElem (by omega), List.getElem_idxOf]
    rw [← hto] at hget
    rw [← List.append_nil [UInt8.ofNat (table.idxOf a)]]
    refine (reads_byte _).bind ?_
    rw [hget]
    exact Reads.pure a
  · cases h

/-- Codecs of the transmissions and certificates of the development node, whose addresses and
identifiers are below `256`. -/
abbrev developmentLeaves : Leaves where
  batchHeader := tableCodec [(developmentCertificate 10 0 1 []).batchHeader]
  transmissionId := tableCodec [.solution 7 1]
  transmission := tableCodec [.solution (.object ⟨7, []⟩)]
  signature := tableCodec ((List.range 4).map fun i => ⟨developmentAccount i, 0⟩)
  address := tableCodec ((List.range 4).map developmentAccount)
  field := tableCodec ((List.range 256).map Field.mk)
  certificate := tableCodec ((List.range 4).map fun i => developmentCertificate (10 + i) i 1 [])
  maxCommitteeSize := .ok 100
  subdagCertificatesDepth := 16

lemma developmentLeaves_lawful : let _ := developmentLeaves; LawfulLeaves :=
  let _ := developmentLeaves
  { batchHeader := tableCodec_roundTrips _
    transmissionId := tableCodec_roundTrips _
    transmission := tableCodec_roundTrips _
    signature := tableCodec_roundTrips _
    address := tableCodec_roundTrips _
    field := tableCodec_roundTrips _
    certificate := tableCodec_roundTrips _ }

/-- A cache with the four certificates of round `1`, which the other validators signed. -/
def roundCache : ProposalCache where
  latestRound := 1
  proposal := none
  signedProposals := [1, 2, 3].foldl (fun m i =>
    m.insert (developmentAccount i) (1, ⟨10 + i⟩, ⟨developmentAccount 0, 0⟩)) ∅
  pendingCertificates := (List.range 4).map fun i => developmentCertificate (10 + i) i 1 []

/-- The surroundings of the development node. -/
def ownSurroundings : Surroundings Chain :=
  ⟨fun env => env.Meets ownSignatures, fun env => env.propose.Meets ownSignatures,
    fun env => env.Meets ownSignatures, fun _ => True⟩

lemma proposes_meets (round : ℕ) : (proposes round).Meets ownSignatures :=
  have hcertifies : ∀ author, (certifies round author).Meets ownSignatures := fun _ =>
    ⟨trivial, fun _ _ h => by cases h; rfl⟩
  ⟨fun _ _ => trivial, hcertifies 0, fun i => hcertifies i⟩

/-- The node after its first batch. -/
def firstBatchNode : Primary BFTMemoryService Chain :=
  proposedNode 1 (startedNode (developmentLedger [genesis]) none 1).2

theorem proposalCache_survives_example :
    let _ := developmentNetwork
    let _ := developmentLeaves
    (∃ bytes c', roundCache.writeLe = .ok bytes ∧
      ProposalCache.readLe.run (bytes ++ [7]) = .ok (c', [7]) ∧ c'.Same roundCache) ∧
    ∃ c, firstBatchNode.shutDown.1 = some c ∧ c.isValid (developmentAccount 0) = true := by
  let _ := developmentNetwork
  let _ := developmentLeaves
  have _ := developmentLeaves_lawful
  have hsurvives := proposalCache_survives (S := BFTMemoryService) (V := Chain)
  constructor
  · have hwrite : roundCache.writeLe.isOk = true := by decide +kernel
    obtain ⟨bytes, hbytes⟩ := exists_of_isOk hwrite
    have hfits : roundCache.Fits := by
      refine ⟨by decide, fun p hp => (by cases hp), by decide, by decide, by decide⟩
    obtain ⟨c', hread, hsame⟩ := hsurvives.1 roundCache roundCache.signedProposals bytes [7] hfits
      (List.Perm.refl _) hbytes
    exact ⟨bytes, c', hbytes, hread, hsame⟩
  · have hload : ownSurroundings.load (loads 1) := ⟨proposes_meets 1, trivial⟩
    have hlived : Primary.Lived ownSurroundings none firstBatchNode :=
      lived_proposedNode (proposes_meets 1)
        (.start (startedNode_starts hload trivial (by decide +kernel) none))
    have hsome : firstBatchNode.shutDown.1.isSome = true := by decide +kernel
    have haccount : firstBatchNode.account = developmentAccount 0 := by decide +kernel
    obtain ⟨c, hc⟩ := Option.isSome_iff_exists.mp hsome
    have hvalid := hsurvives.2 ownSurroundings none firstBatchNode
      ⟨fun _ h => h, fun _ h => h, fun _ h => h⟩ hlived c (by rw [hc]; rfl)
    exact ⟨c, hc, by rw [← haccount]; exact hvalid⟩

end Example

end AmareleoChain
