import AmareleoChain.BlockLocators
import AmareleoChain.ProposalCache

/-!
What the decoders accept: the block locators that a peer sends, and the proposal cache that
stands on the disk when a node starts.

Bytes come from anywhere. The checks of the readers decide which values are built from them,
and a form that was cut off, as by a crash while it was written, is never taken for a value.
-/

namespace AmareleoChain

lemma readU32_ok {n : ℕ} {bytes rest : List UInt8} (h : readU32.run bytes = .ok (n, rest)) :
    n < 2 ^ 32 ∧ bytes = littleEndian 4 n ++ rest := by
  obtain ⟨hlt, hbytes⟩ := readLittleEndian_ok h
  exact ⟨hlt.trans_eq (by norm_num), hbytes⟩

lemma writeCount_of_lt {n : ℕ} (h : n < 2 ^ 32) : writeCount n = .ok (littleEndian 4 n) := by
  rw [writeCount, if_pos h]

lemma lt_of_writeCount {n : ℕ} {bytes : List UInt8} (h : writeCount n = .ok bytes) :
    n < 2 ^ 32 := by
  by_contra hlarge
  rw [writeCount, if_neg hlarge] at h
  cases h

/-! ### Block locators -/

namespace BlockLocators

variable {H : Type}

/-- A height and the hash of its block. -/
def entry (hash : Codec H) : Codec (UInt32 × H) where
  write e := do
    let bytes ← hash.write e.2
    return littleEndian 4 e.1.toNat ++ bytes
  read := do
    let height ← readU32
    let bytes ← hash.read
    return (UInt32.ofNat height, bytes)

/-- The number of entries, and the entries. -/
def writeEntries (hash : Codec H) (entries : List (UInt32 × H)) : Except String (List UInt8) := do
  let count ← writeCount entries.length
  let bytes ← writeEach (entry hash).write entries
  return count ++ bytes

/-- The map of entries that come one after the other: a later one replaces an earlier one. -/
def collect (entries : List (UInt32 × H)) : IndexMap UInt32 H :=
  entries.foldl (fun m e => m.insert e.1 e.2) ∅

def readEntry (hash : Codec H) (m : IndexMap UInt32 H) : Reader (IndexMap UInt32 H) := do
  let e ← (entry hash).read
  return m.insert e.1 e.2

def readMap (hash : Codec H) : Reader (IndexMap UInt32 H) := do
  let count ← readU32
  readTimes (readEntry hash) count ∅

def writeLe (hash : Codec H) (b : BlockLocators H) : Except String (List UInt8) := do
  let recents ← writeEntries hash b.recents.entries
  let checkpoints ← writeEntries hash b.checkpoints.entries
  return recents ++ checkpoints

def readMaps (hash : Codec H) : Reader (IndexMap UInt32 H × IndexMap UInt32 H) := do
  let recents ← readMap hash
  let checkpoints ← readMap hash
  return (recents, checkpoints)

/-- `read_le`: the locators are checked when both maps are read. -/
def readLe [DecidableEq H] (hash : Codec H) (bytes : List UInt8) :
    Except Failure (BlockLocators H × List UInt8) := do
  let ((recents, checkpoints), rest) ← orFail ((readMaps hash).run bytes)
  let locators ← new recents checkpoints
  return (locators, rest)

section Maps

variable {hash : Codec H}

lemma entry_roundTrips (h : hash.RoundTrips) : (entry hash).RoundTrips := by
  rintro ⟨height, x⟩ bytes hwrite
  obtain ⟨written, hx, hwrite⟩ := bind_eq_ok.mp hwrite
  cases hwrite
  have hheight : Reads readU32 (littleEndian 4 height.toNat) height.toNat :=
    reads_littleEndian (height.toNat_lt.trans_eq (by norm_num))
  have hread := (h x written hx).map fun x => (UInt32.ofNat height.toNat, x)
  rw [UInt32.ofNat_toNat] at hread
  refine hheight.bind ?_
  rwa [UInt32.ofNat_toNat]

lemma entry_exact (h : hash.Exact) : (entry hash).Exact := by
  rintro bytes ⟨height, x⟩ rest hread
  obtain ⟨n, mid, hn, hread⟩ := run_bind_eq_ok.mp hread
  obtain ⟨x', mid', hx, hread⟩ := run_bind_eq_ok.mp hread
  cases hread
  obtain ⟨written, hwrite, rfl⟩ := h mid x rest hx
  obtain ⟨hlt, rfl⟩ := readU32_ok hn
  have hword : (UInt32.ofNat n).toNat = n := by
    rw [UInt32.toNat_ofNat']
    exact Nat.mod_eq_of_lt hlt
  refine ⟨littleEndian 4 n ++ written, bind_eq_ok.mpr ⟨written, hwrite, ?_⟩,
    (List.append_assoc _ _ _).symm⟩
  rw [hword]
  rfl

lemma reads_entries (h : hash.RoundTrips) {entries : List (UInt32 × H)} {bytes : List UInt8}
    (hwrite : writeEntries hash entries = .ok bytes) :
    Reads (readMap hash) bytes (collect entries) := by
  obtain ⟨count, hcount, hwrite⟩ := bind_eq_ok.mp hwrite
  obtain ⟨written, hentries, hwrite⟩ := bind_eq_ok.mp hwrite
  cases hwrite
  refine (reads_count hcount).bind ?_
  exact reads_times hentries
    (fun e _ bytes m he => (entry_roundTrips h e bytes he).map fun e => m.insert e.1 e.2) ∅

lemma readMap_ok (h : hash.Exact) {m : IndexMap UInt32 H} {bytes rest : List UInt8}
    (hread : (readMap hash).run bytes = .ok (m, rest)) :
    ∃ entries written, writeEntries hash entries = .ok written ∧ bytes = written ++ rest ∧
      m = collect entries := by
  obtain ⟨count, mid, hcount, htimes⟩ := run_bind_eq_ok.mp hread
  obtain ⟨hlt, rfl⟩ := readU32_ok hcount
  obtain ⟨entries, hlength, hm, heach⟩ := readTimes_ok (fun _ => rfl) htimes
  obtain ⟨written, hwrite, rfl⟩ := heach.exact (entry_exact h)
  refine ⟨entries, littleEndian 4 count ++ written, bind_eq_ok.mpr ⟨_, ?_, bind_eq_ok.mpr
    ⟨written, hwrite, rfl⟩⟩, (List.append_assoc _ _ _).symm, hm⟩
  rw [hlength]
  exact writeCount_of_lt hlt

lemma write_collect {entries : List (UInt32 × H)} {bytes : List UInt8}
    (hwrite : writeEntries hash entries = .ok bytes) :
    ∃ written, writeEntries hash (collect entries).entries = .ok written := by
  obtain ⟨count, hcount, hwrite⟩ := bind_eq_ok.mp hwrite
  obtain ⟨_, hwritten, -⟩ := bind_eq_ok.mp hwrite
  have hfew : (collect entries).entries.length < 2 ^ 32 :=
    (IndexMap.len_collect_le entries).trans_lt (lt_of_writeCount hcount)
  obtain ⟨written, heach⟩ := writeEach_iff.mpr fun e he =>
    writeEach_iff.mp ⟨_, hwritten⟩ e (IndexMap.entries_collect_subset entries he)
  exact ⟨_, bind_eq_ok.mpr ⟨_, writeCount_of_lt hfew, bind_eq_ok.mpr ⟨written, heach, rfl⟩⟩⟩

lemma reads_maps (h : hash.RoundTrips) {recents checkpoints : List (UInt32 × H)}
    {first second : List UInt8} (hrecents : writeEntries hash recents = .ok first)
    (hcheckpoints : writeEntries hash checkpoints = .ok second) :
    Reads (readMaps hash) (first ++ second) (collect recents, collect checkpoints) :=
  (reads_entries h hrecents).bind ((reads_entries h hcheckpoints).map _)

lemma collect_entries (m : IndexMap UInt32 H) : collect m.entries = m :=
  IndexMap.foldl_insert_entries m

end Maps

section Exact

variable [DecidableEq H] {hash : Codec H} {b : BlockLocators H} {bytes rest : List UInt8}

lemma new_eq_ok {recents checkpoints : IndexMap UInt32 H} :
    new recents checkpoints = .ok b ↔
      b = ⟨recents, checkpoints⟩ ∧ ∃ h, WellFormedAt h recents checkpoints := by
  rw [← checkBlockLocators_ok]
  unfold new
  cases hcheck : checkBlockLocators recents checkpoints with
  | error e => exact ⟨fun h => (by cases h), fun h => (by cases h.2)⟩
  | ok _ =>
    refine ⟨fun h => (by cases h; exact ⟨rfl, rfl⟩), fun h => ?_⟩
    rw [h.1]

lemma readLe_eq_ok :
    readLe hash bytes = .ok (b, rest) ↔
      (readMaps hash).run bytes = .ok ((b.recents, b.checkpoints), rest) ∧
        ∃ h, WellFormedAt h b.recents b.checkpoints := by
  unfold readLe
  constructor
  · intro h
    obtain ⟨⟨⟨recents, checkpoints⟩, rest'⟩, hmaps, h⟩ := bind_eq_ok.mp h
    obtain ⟨locators, hnew, h⟩ := bind_eq_ok.mp h
    cases h
    obtain ⟨rfl, hwell⟩ := new_eq_ok.mp hnew
    cases hrun : (readMaps hash).run bytes with
    | error e => rw [hrun] at hmaps; cases hmaps
    | ok result => rw [hrun] at hmaps; cases hmaps; exact ⟨rfl, hwell⟩
  · rintro ⟨hmaps, hwell⟩
    rw [hmaps]
    exact bind_eq_ok.mpr ⟨_, rfl, bind_eq_ok.mpr ⟨b, new_eq_ok.mpr ⟨rfl, hwell⟩, rfl⟩⟩

lemma not_panics_readLe : ¬ Panics (readLe hash bytes) := by
  unfold readLe
  refine not_panics_bind ?_ fun ⟨⟨recents, checkpoints⟩, rest⟩ _ => ?_
  · cases (readMaps hash).run bytes with
    | error e => exact fun ⟨_, h⟩ => (by cases h)
    | ok result => exact not_panics_ok _
  · refine not_panics_bind ?_ fun locators _ => not_panics_ok _
    unfold new
    split
    next e hcheck =>
      rw [panics_error, ← hcheck]
      exact not_panics_checkBlockLocators
    next => exact not_panics_ok _

/-- **The decoder of block locators**, on any bytes: it does not panic; it accepts the written
entries of two maps, in which a height may come again and then replaces the hash it had, when the
maps that they make up are well-formed; well-formed locators that are written are read back; and
what was accepted can be written. -/
theorem readLe_exact (hash : Codec H) (hround : hash.RoundTrips) (hexact : hash.Exact) :
    (∀ bytes, ¬ Panics (readLe hash bytes)) ∧
    (∀ bytes b rest, readLe hash bytes = .ok (b, rest) ↔
      (∃ h, WellFormedAt h b.recents b.checkpoints) ∧
      ∃ recents checkpoints first second, b = ⟨collect recents, collect checkpoints⟩ ∧
        writeEntries hash recents = .ok first ∧ writeEntries hash checkpoints = .ok second ∧
        bytes = first ++ second ++ rest) ∧
    (∀ b written, (∃ h, WellFormedAt h b.recents b.checkpoints) → b.writeLe hash = .ok written →
      ∀ rest, readLe hash (written ++ rest) = .ok (b, rest)) ∧
    ∀ bytes b rest, readLe hash bytes = .ok (b, rest) →
      ∃ written, b.writeLe hash = .ok written := by
  have haccepts : ∀ bytes b rest, readLe hash bytes = .ok (b, rest) →
      ∃ recents checkpoints first second, b = ⟨collect recents, collect checkpoints⟩ ∧
        writeEntries hash recents = .ok first ∧ writeEntries hash checkpoints = .ok second ∧
        bytes = first ++ second ++ rest := by
    intro bytes b rest h
    obtain ⟨hmaps, -⟩ := readLe_eq_ok.mp h
    obtain ⟨m, mid, hfirst, hnext⟩ := run_bind_eq_ok.mp hmaps
    obtain ⟨m', rest', hsecond, hpair⟩ := run_bind_eq_ok.mp hnext
    obtain ⟨recents, first, hrecents, rfl, hm⟩ := readMap_ok hexact hfirst
    obtain ⟨checkpoints, second, hcheckpoints, rfl, hm'⟩ := readMap_ok hexact hsecond
    cases hpair
    refine ⟨recents, checkpoints, first, second, ?_, hrecents, hcheckpoints,
      (List.append_assoc _ _ _).symm⟩
    rw [← hm, ← hm']
  refine ⟨fun bytes => not_panics_readLe, fun bytes b rest => ⟨fun h => ?_, ?_⟩, ?_, ?_⟩
  · exact ⟨(readLe_eq_ok.mp h).2, haccepts bytes b rest h⟩
  · rintro ⟨hwell, recents, checkpoints, first, second, rfl, hfirst, hsecond, rfl⟩
    exact readLe_eq_ok.mpr ⟨reads_maps hround hfirst hsecond rest, hwell⟩
  · intro b written hwell hwrite rest
    obtain ⟨first, hfirst, hwrite⟩ := bind_eq_ok.mp hwrite
    obtain ⟨second, hsecond, hwrite⟩ := bind_eq_ok.mp hwrite
    cases hwrite
    have hread := reads_maps hround hfirst hsecond rest
    rw [collect_entries, collect_entries] at hread
    exact readLe_eq_ok.mpr ⟨hread, hwell⟩
  · intro bytes b rest h
    obtain ⟨recents, checkpoints, first, second, rfl, hfirst, hsecond, -⟩ := haccepts bytes b rest h
    obtain ⟨written, hwritten⟩ := write_collect hfirst
    obtain ⟨written', hwritten'⟩ := write_collect hsecond
    exact ⟨_, bind_eq_ok.mpr ⟨written, hwritten, bind_eq_ok.mpr ⟨written', hwritten', rfl⟩⟩⟩

end Exact

section Example

/-- A codec for hashes in 32 bytes. -/
def hashCodec : Codec ℕ where
  write n := if n < 256 ^ 32 then .ok (littleEndian 32 n) else .error "out of range"
  read := readLittleEndian 32

lemma hashCodec_roundTrips : hashCodec.RoundTrips := by
  intro n bytes h
  unfold hashCodec at h ⊢
  dsimp only at h ⊢
  split at h
  next hlt =>
    cases h
    exact reads_littleEndian hlt
  · cases h

lemma hashCodec_exact : hashCodec.Exact := by
  intro bytes n rest h
  obtain ⟨hlt, hbytes⟩ := readLittleEndian_ok h
  exact ⟨littleEndian 32 n, if_pos hlt, hbytes⟩

/-- The locators of a genesis block, whose height is sent twice. -/
theorem readLe_exact_example : ∃ first second,
    writeEntries hashCodec [(0, 9), (0, 7)] = .ok first ∧
    writeEntries hashCodec [(0, 7)] = .ok second ∧
    readLe hashCodec (first ++ second ++ [5]) =
      .ok (⟨collect [(0, 7)], collect [(0, 7)]⟩, [5]) := by
  have hwritten : (writeEntries hashCodec [(0, 9), (0, 7)]).isOk = true := by decide
  have hwritten' : (writeEntries hashCodec [(0, 7)]).isOk = true := by decide
  obtain ⟨first, hfirst⟩ := exists_of_isOk hwritten
  obtain ⟨second, hsecond⟩ := exists_of_isOk hwritten'
  have hcheck : checkBlockLocators (collect [(0, 7)]) (collect [(0, 7)]) = .ok () := by decide
  refine ⟨first, second, hfirst, hsecond,
    ((readLe_exact hashCodec hashCodec_roundTrips hashCodec_exact).2.1 _ _ _).mpr
      ⟨checkBlockLocators_ok.mp hcheck, [(0, 9), (0, 7)], [(0, 7)], first, second, ?_, hfirst,
        hsecond, rfl⟩⟩
  decide

end Example

end BlockLocators

/-! ### The proposal cache -/

/-- The codec reads a stream, and every value that it reads can be written. -/
structure Codec.Streaming {α : Type} (c : Codec α) : Prop where
  streams : Streams c.read
  rewrites : c.Rewrites

/-- Each of the codecs is streaming. -/
class StreamingLeaves [Leaves] : Prop where
  batchHeader : Leaves.batchHeader.Streaming
  transmissionId : Leaves.transmissionId.Streaming
  transmission : Leaves.transmission.Streaming
  signature : Leaves.signature.Streaming
  address : Leaves.address.Streaming
  field : Leaves.field.Streaming
  certificate : Leaves.certificate.Streaming

section Leaves

variable [Leaves] [StreamingLeaves]

namespace Proposal

/-- The item of `readTransmission`. -/
def transmissionItem : Reader (TransmissionID × Transmission) := do
  let id ← Leaves.transmissionId.read
  let transmission ← Leaves.transmission.read
  return (id, transmission)

omit [StreamingLeaves] in
lemma readTransmission_eq (m : IndexMap TransmissionID Transmission) :
    readTransmission m = transmissionItem >>= fun e => pure (m.insert e.1 e.2) := by
  simp only [readTransmission, transmissionItem, bind_assoc, pure_bind]

lemma writeTransmission_ok {bytes rest : List UInt8} {e : TransmissionID × Transmission}
    (h : transmissionItem.run bytes = .ok (e, rest)) :
    ∃ written, writeTransmission e = .ok written := by
  obtain ⟨id, mid, hid, h⟩ := run_bind_eq_ok.mp h
  obtain ⟨transmission, mid', htransmission, h⟩ := run_bind_eq_ok.mp h
  cases h
  obtain ⟨first, hfirst⟩ := StreamingLeaves.transmissionId.rewrites _ _ _ hid
  obtain ⟨second, hsecond⟩ := StreamingLeaves.transmission.rewrites _ _ _ htransmission
  exact ⟨_, bind_eq_ok.mpr ⟨first, hfirst, bind_eq_ok.mpr ⟨second, hsecond, rfl⟩⟩⟩

variable [Network]

lemma streams_readLe : Streams readLe := by
  refine StreamingLeaves.batchHeader.streams.bind fun header => ?_
  refine (Streams.littleEndian 4).bind fun count => ?_
  split
  · exact .throw _
  · refine (Streams.times (fun m => ?_) _ _).bind fun transmissions => ?_
    · exact StreamingLeaves.transmissionId.streams.bind fun id =>
        StreamingLeaves.transmission.streams.bind fun transmission => .pure _
    · refine (Streams.littleEndian 4).bind fun countSig => ?_
      split
      · exact .throw _
      · split
        · exact .throw _
        · refine (Streams.times (fun m => ?_) _ _).bind fun signatures => ?_
          · exact StreamingLeaves.signature.streams.bind fun signature => .pure _
          · split
            · exact .throw _
            · split
              · exact .throw _
              · exact .pure _

omit [Leaves] [StreamingLeaves] [Network] in
lemma eq_of_zip {α : Type} [DecidableEq α] {as bs : List α} (hlength : as.length = bs.length)
    (h : ¬ (as.zip bs).any (fun e => e.1 ≠ e.2) = true) : as = bs := by
  rw [← List.forall₂_eq_eq_eq, List.forall₂_iff_zip]
  refine ⟨hlength, fun {a b} hin => ?_⟩
  by_contra hne
  exact h (List.any_eq_true.mpr ⟨(a, b), hin, decide_eq_true hne⟩)

/-- **What is read as a proposal** is one: it is within the bounds, its transmissions are those of
its header, and it can be written. -/
theorem fits_of_readLe {p : Proposal} {bytes rest : List UInt8}
    (h : readLe.run bytes = .ok (p, rest)) :
    p.Fits ∧ ∃ written, p.writeLe = .ok written := by
  obtain ⟨header, b₁, hheader, h⟩ := run_bind_eq_ok.mp h
  obtain ⟨count, b₂, hcount, h⟩ := run_bind_eq_ok.mp h
  split at h
  · cases h
  next hmany =>
  obtain ⟨transmissions, b₃, htransmissions, h⟩ := run_bind_eq_ok.mp h
  obtain ⟨countSig, b₄, hcountSig, h⟩ := run_bind_eq_ok.mp h
  split at h
  · cases h
  next size hsize =>
  split at h
  · cases h
  next hmanySig =>
  obtain ⟨signatures, b₅, hsignatures, h⟩ := run_bind_eq_ok.mp h
  split at h
  · cases h
  next hlength =>
  split at h
  · cases h
  next hkeys =>
  cases h
  obtain ⟨hlt, -⟩ := readU32_ok hcount
  obtain ⟨hltSig, -⟩ := readU32_ok hcountSig
  -- the items that were read, and what was collected from them
  obtain ⟨es, hes, rfl, heach⟩ := readTimes_ok readTransmission_eq htransmissions
  obtain ⟨ss, hss, rfl, heachSig⟩ := readTimes_ok (fun _ => rfl) hsignatures
  have hfew := IndexMap.len_collect_le es
  have hsub := IndexSet.toList_ofList_sublist ss
  have hfewSig := hsub.length_le
  rw [hes] at hfew
  rw [hss] at hfewSig
  constructor
  · refine ⟨(eq_of_zip ?_ hkeys).symm, hfew.trans (Nat.le_of_not_gt hmany), size, hsize,
      hfewSig.trans (Nat.le_of_not_gt hmanySig)⟩
    rw [IndexMap.keys, List.length_map]
    exact not_not.mp hlength
  · obtain ⟨first, hfirst⟩ := StreamingLeaves.batchHeader.rewrites _ _ _ hheader
    obtain ⟨second, hsecond⟩ := writeEach_iff.mpr fun e he =>
      heach.all (fun _ _ _ h => writeTransmission_ok h) e (IndexMap.entries_collect_subset es he)
    obtain ⟨third, hthird⟩ := writeEach_iff.mpr fun e he =>
      heachSig.all StreamingLeaves.signature.rewrites e (hsub.subset he)
    exact ⟨_, bind_eq_ok.mpr ⟨first, hfirst, bind_eq_ok.mpr
      ⟨_, writeCount_of_lt (hfew.trans_lt hlt), bind_eq_ok.mpr ⟨second, hsecond, bind_eq_ok.mpr
        ⟨_, writeCount_of_lt (hfewSig.trans_lt hltSig), bind_eq_ok.mpr ⟨third, hthird, rfl⟩⟩⟩⟩⟩⟩

end Proposal

namespace SignedProposals

/-- The item of `readProposal`. -/
def proposalItem : Reader (Address × ℕ × Field × Signature) := do
  let address ← Leaves.address.read
  let round ← readU64
  let batchId ← Leaves.field.read
  let signature ← Leaves.signature.read
  return (address, round, batchId, signature)

omit [StreamingLeaves] in
lemma readProposal_eq (m : SignedProposals) :
    readProposal m = proposalItem >>= fun e => pure (m.insert e.1 e.2) := by
  simp only [readProposal, proposalItem, bind_assoc, pure_bind]

lemma writeProposal_ok {bytes rest : List UInt8} {e : Address × ℕ × Field × Signature}
    (h : proposalItem.run bytes = .ok (e, rest)) :
    e.2.1 < 2 ^ 64 ∧ ∃ written, writeProposal e = .ok written := by
  obtain ⟨address, b₁, haddress, h⟩ := run_bind_eq_ok.mp h
  obtain ⟨round, b₂, hround, h⟩ := run_bind_eq_ok.mp h
  obtain ⟨batchId, b₃, hbatchId, h⟩ := run_bind_eq_ok.mp h
  obtain ⟨signature, b₄, hsignature, h⟩ := run_bind_eq_ok.mp h
  cases h
  obtain ⟨hlt, -⟩ := readLittleEndian_ok hround
  obtain ⟨first, hfirst⟩ := StreamingLeaves.address.rewrites _ _ _ haddress
  obtain ⟨third, hthird⟩ := StreamingLeaves.field.rewrites _ _ _ hbatchId
  obtain ⟨fourth, hfourth⟩ := StreamingLeaves.signature.rewrites _ _ _ hsignature
  exact ⟨hlt.trans_eq (by norm_num), _, bind_eq_ok.mpr ⟨first, hfirst, bind_eq_ok.mpr
    ⟨_, rfl, bind_eq_ok.mpr ⟨third, hthird, bind_eq_ok.mpr ⟨fourth, hfourth, rfl⟩⟩⟩⟩⟩

lemma streams_readLe : Streams readLe := by
  refine (Streams.littleEndian 4).bind fun count => Streams.times (fun m => ?_) count ∅
  exact StreamingLeaves.address.streams.bind fun address => (Streams.littleEndian 8).bind
    fun round => StreamingLeaves.field.streams.bind fun batchId =>
      StreamingLeaves.signature.streams.bind fun signature => .pure _

lemma fits_of_readLe {s : SignedProposals} {bytes rest : List UInt8}
    (h : readLe.run bytes = .ok (s, rest)) :
    (∀ e ∈ s.entries, e.2.1 < 2 ^ 64) ∧ ∃ written, s.writeLe = .ok written := by
  obtain ⟨count, mid, hcount, h⟩ := run_bind_eq_ok.mp h
  obtain ⟨hlt, -⟩ := readU32_ok hcount
  obtain ⟨es, hes, rfl, heach⟩ := readTimes_ok readProposal_eq h
  have hall := heach.all fun _ _ _ h => writeProposal_ok h
  have hin := IndexMap.entries_collect_subset es
  have hfew := IndexMap.len_collect_le es
  rw [hes] at hfew
  obtain ⟨written, hwritten⟩ := writeEach_iff.mpr fun e he => (hall e (hin he)).2
  exact ⟨fun e he => (hall e (hin he)).1, _, bind_eq_ok.mpr
    ⟨_, writeCount_of_lt (hfew.trans_lt hlt), bind_eq_ok.mpr ⟨written, hwritten, rfl⟩⟩⟩

end SignedProposals

namespace ProposalCache

variable [Network]

lemma streams_readProposal : Streams readProposal := by
  refine Streams.bool.bind fun b => ?_
  split
  · exact Proposal.streams_readLe.bind fun proposal => .pure _
  · exact .pure _

lemma streams_readLe : Streams readLe := by
  refine (Streams.littleEndian 8).bind fun latestRound => streams_readProposal.bind fun proposal =>
    SignedProposals.streams_readLe.bind fun signedProposals =>
      (Streams.littleEndian 4).bind fun count => ?_
  split
  · exact .throw _
  · refine (Streams.times (fun m => ?_) count ∅).bind fun certificates => .pure _
    exact StreamingLeaves.certificate.streams.bind fun certificate => .pure _

lemma fits_of_readProposal {proposal : Option Proposal} {bytes rest : List UInt8}
    (h : readProposal.run bytes = .ok (proposal, rest)) :
    (∀ p, proposal = some p → p.Fits) ∧ ∃ written, writeProposal proposal = .ok written := by
  obtain ⟨b, mid, hb, h⟩ := run_bind_eq_ok.mp h
  split at h
  · obtain ⟨p, mid', hp, h⟩ := run_bind_eq_ok.mp h
    cases h
    obtain ⟨hfits, written, hwritten⟩ := Proposal.fits_of_readLe hp
    exact ⟨fun q hq => (by cases hq; exact hfits), _,
      bind_eq_ok.mpr ⟨written, hwritten, rfl⟩⟩
  · cases h
    exact ⟨fun q hq => (by cases hq), _, rfl⟩

/-- **What is read as a cache** is within the bounds, and can be written. -/
theorem fits_of_readLe {c : ProposalCache} {bytes rest : List UInt8}
    (h : readLe.run bytes = .ok (c, rest)) : c.Fits ∧ ∃ written, c.writeLe = .ok written := by
  obtain ⟨latestRound, b₁, hlatest, h⟩ := run_bind_eq_ok.mp h
  obtain ⟨proposal, b₂, hproposal, h⟩ := run_bind_eq_ok.mp h
  obtain ⟨signedProposals, b₃, hsigned, h⟩ := run_bind_eq_ok.mp h
  obtain ⟨count, b₄, hcount, h⟩ := run_bind_eq_ok.mp h
  split at h
  · cases h
  next hmany =>
  obtain ⟨certificates, b₅, hcertificates, h⟩ := run_bind_eq_ok.mp h
  cases h
  obtain ⟨hltRound, -⟩ := readLittleEndian_ok hlatest
  obtain ⟨hlt, -⟩ := readU32_ok hcount
  obtain ⟨hfits, second, hsecond⟩ := fits_of_readProposal hproposal
  obtain ⟨hrounds, third, hthird⟩ := SignedProposals.fits_of_readLe hsigned
  obtain ⟨ds, hds, rfl, heach⟩ := readTimes_ok (fun _ => rfl) hcertificates
  have hsub := IndexSet.toList_ofList_sublist ds
  have hfew := hsub.length_le
  rw [hds] at hfew
  have hmax : maxCertificates ≤ 2 ^ Leaves.subdagCertificatesDepth := Nat.min_le_left _ _
  constructor
  · exact ⟨hltRound.trans_eq (by norm_num), hfits, hrounds, IndexSet.nodup _,
      (hfew.trans (Nat.le_of_not_gt hmany)).trans hmax⟩
  · obtain ⟨fourth, hfourth⟩ := writeEach_iff.mpr fun d hd =>
      heach.all StreamingLeaves.certificate.rewrites d (hsub.subset hd)
    exact ⟨_, bind_eq_ok.mpr ⟨_, rfl, bind_eq_ok.mpr ⟨second, hsecond, bind_eq_ok.mpr
      ⟨third, hthird, bind_eq_ok.mpr ⟨_, writeCount_of_lt (hfew.trans_lt hlt), bind_eq_ok.mpr
        ⟨fourth, hfourth, rfl⟩⟩⟩⟩⟩⟩

/-- The file of the proposal cache, when a node starts. -/
inductive File where
  | missing
  | unreadable
  | of (bytes : List UInt8)

/-- `load`. What comes after the cache in its file is not read. -/
def load (expectedSigner : Address) (path : String) : File → Except String ProposalCache
  | .of bytes =>
    match readLe.run bytes with
    | .ok (cache, _) =>
      if cache.isValid expectedSigner then .ok cache
      else .error s!"The proposal cache is invalid for the given address {expectedSigner.val}"
    | .error _ => .error s!"Couldn't deserialize the proposal stored at {path}"
  | _ => .error s!"Couldn't read the proposal stored at {path}"

variable {signer : Address} {path : String} {bytes : List UInt8} {c : ProposalCache}

omit [StreamingLeaves] in
lemma load_eq_ok :
    load signer path (.of bytes) = .ok c ↔
      (∃ rest, readLe.run bytes = .ok (c, rest)) ∧ c.isValid signer = true := by
  rw [load]
  cases hread : readLe.run bytes with
  | error e =>
    refine iff_of_false (fun h => (by cases h)) ?_
    rintro ⟨⟨rest, h⟩, -⟩
    cases h
  | ok result =>
    obtain ⟨cache, rest⟩ := result
    dsimp only
    by_cases hvalid : cache.isValid signer = true
    · rw [if_pos hvalid]
      constructor
      · intro h
        cases h
        exact ⟨⟨rest, rfl⟩, hvalid⟩
      · rintro ⟨⟨rest', h⟩, -⟩
        cases h
        rfl
    · rw [if_neg hvalid]
      refine iff_of_false (fun h => (by cases h)) ?_
      rintro ⟨⟨rest', h⟩, hvalid'⟩
      cases h
      exact hvalid hvalid'

/-- **Any file**: a cache that is loaded is within the bounds of its types, its proposal has the
transmissions of its header, and it is valid for the signer; it can be stored again, and what was
stored is loaded as the same cache. -/
theorem load_restores [LawfulLeaves] (signer : Address) (path : String) (file : File)
    (c : ProposalCache) (h : load signer path file = .ok c) :
    c.Fits ∧ c.isValid signer = true ∧ ∃ written, c.writeLe = .ok written ∧
      load signer path (.of written) = .ok c := by
  cases file with
  | missing => cases h
  | unreadable => cases h
  | of bytes =>
    obtain ⟨⟨rest, hread⟩, hvalid⟩ := load_eq_ok.mp h
    obtain ⟨hfits, written, hwritten⟩ := fits_of_readLe hread
    have hback := reads hfits hwritten []
    rw [List.append_nil] at hback
    exact ⟨hfits, hvalid, written, hwritten, load_eq_ok.mpr ⟨⟨[], hback⟩, hvalid⟩⟩

omit [Leaves] [StreamingLeaves] [Network] in
lemma same_order {order : SignedProposals}
    (hperm : order.entries.Perm c.signedProposals.entries) :
    ({ c with signedProposals := order } : ProposalCache).Same c := by
  refine ⟨rfl, rfl, fun a => ?_, rfl⟩
  ext e
  rw [IndexMap.get?_eq_some_iff, IndexMap.get?_eq_some_iff]
  exact hperm.mem_iff

omit [Leaves] [StreamingLeaves] [Network] in
lemma isValid_order {order : SignedProposals}
    (hperm : order.entries.Perm c.signedProposals.entries) (h : c.isValid signer = true) :
    ({ c with signedProposals := order } : ProposalCache).isValid signer = true := by
  rw [isValid, Bool.and_eq_true] at h ⊢
  refine ⟨h.1, SignedProposals.isValid_iff.mpr fun e he => ?_⟩
  exact SignedProposals.isValid_iff.mp h.2 e (hperm.subset he)

omit [StreamingLeaves] in
lemma load_of_error {e : String} (h : readLe.run bytes = .error e) :
    load signer path (.of bytes)
      = .error s!"Couldn't deserialize the proposal stored at {path}" := by
  rw [load, h]

lemma not_reads_cut_off [LawfulLeaves] {front back : List UInt8} (hfits : c.Fits)
    (hwrite : c.writeLe = .ok (front ++ back)) (hback : back ≠ []) :
    ∃ e, readLe.run front = .error e := by
  cases hfront : readLe.run front with
  | error e => exact ⟨e, rfl⟩
  | ok result => exact absurd hfront (streams_readLe.cut_off (reads hfits hwrite) hback result)

end ProposalCache

namespace Primary

variable {S V : Type} [StorageService S] [Network] [Ledger V]

/-- `load_proposal_cache`, from the file of the cache. -/
def loadCacheFile (envs : ℕ → LoadEnv) (path : String) (file : ProposalCache.File)
    (p : Primary S V) : Except Stop Unit × Primary S V :=
  match file with
  | .missing => (.ok (), p)
  | file =>
    match ProposalCache.load p.account path file with
    | .ok cache =>
      { p with
        proposedBatch := cache.proposal
        signedProposals := cache.signedProposals
        proposeLock := cache.latestRound }.loadCertificates envs 0 cache.pendingCertificates
    | .error err =>
      (.error (.error s!"Failed to read the signed proposals from the file system - {err}."), p)

variable {envs : ℕ → LoadEnv} {path : String} {bytes : List UInt8} {p : Primary S V}

omit [StreamingLeaves] in
lemma loadCacheFile_of_ok {c : ProposalCache}
    (h : ProposalCache.load p.account path (.of bytes) = .ok c) :
    p.loadCacheFile envs path (.of bytes) = p.loadProposalCache envs (some c) := by
  rw [loadProposalCache, loadCacheFile, h]
  · dsimp only
    rw [if_pos (ProposalCache.load_eq_ok.mp h).2]
  · exact fun h => (by cases h)

omit [StreamingLeaves] in
lemma loadCacheFile_of_error {e : String}
    (h : ProposalCache.load p.account path (.of bytes) = .error e) :
    p.loadCacheFile envs path (.of bytes) = (.error (.error
      s!"Failed to read the signed proposals from the file system - {e}."), p) := by
  rw [loadCacheFile, h]
  exact fun h => (by cases h)

/-- **A save that is interrupted**: whatever happened before a node is shut down, the next start
takes up what was saved when all of it is on the disk; when only a part of it is, the start fails
and leaves the primary as it was. -/
theorem interrupted_save [LawfulLeaves] {E : Surroundings V} (hE : E.Meets ownSignatures)
    {cache : Option ProposalCache} {p : Primary S V} (hlived : Lived E cache p) {c : ProposalCache}
    (hsaved : p.shutDown.1 = some c) (hfits : c.Fits) {order : SignedProposals}
    (hperm : order.entries.Perm c.signedProposals.entries) {front back : List UInt8}
    (hwrite : { c with signedProposals := order }.writeLe = .ok (front ++ back))
    (envs : ℕ → LoadEnv) (path : String) (q : Primary S V) (haccount : q.account = p.account) :
    (back = [] → ∃ c' : ProposalCache, c'.Same c ∧ c'.isValid q.account = true ∧
      q.loadCacheFile envs path (.of front) = q.loadProposalCache envs (some c')) ∧
    (back ≠ [] → q.loadCacheFile envs path (.of front) = (.error (.error
      ("Failed to read the signed proposals from the file system - Couldn't deserialize the " ++
        s!"proposal stored at {path}.")), q)) := by
  have hfits' : ({ c with signedProposals := order } : ProposalCache).Fits :=
    { hfits with rounds := fun e he => hfits.rounds e (hperm.subset he) }
  constructor
  · rintro rfl
    obtain ⟨hown, -⟩ := hlived.valid hE
    have hvalid := ProposalCache.isValid_order hperm (hown.shutDown.1 c hsaved).2
    have hread := ProposalCache.reads hfits' hwrite []
    rw [List.append_nil, List.append_nil] at hread
    rw [← haccount] at hvalid
    exact ⟨_, ProposalCache.same_order hperm, hvalid,
      loadCacheFile_of_ok (ProposalCache.load_eq_ok.mpr ⟨⟨[], hread⟩, hvalid⟩)⟩
  · intro hback
    obtain ⟨e, he⟩ := ProposalCache.not_reads_cut_off hfits' hwrite hback
    exact loadCacheFile_of_error (ProposalCache.load_of_error he)

end Primary

end Leaves

section Example

lemma tableCodec_streaming {α : Type} [DecidableEq α] (table : List α) :
    (tableCodec table).Streaming := by
  constructor
  · refine Streams.byte.bind fun b => ?_
    split
    · exact .pure _
    · exact .throw _
  · intro bytes a rest h
    obtain ⟨b, mid, -, h⟩ := run_bind_eq_ok.mp h
    split at h
    next a' hget =>
      cases h
      obtain ⟨hlt, hb⟩ := List.getElem?_eq_some_iff.mp hget
      have hle : table.idxOf a ≤ b.toNat := by
        by_contra hlt'
        have hne := List.not_of_lt_findIdx (Nat.lt_of_not_le hlt')
        rw [hb, beq_self_eq_true] at hne
        cases hne
      have hbyte := b.toNat_lt
      exact ⟨_, if_pos (lt_min (hle.trans_lt hlt) (by omega))⟩
    · cases h

lemma developmentLeaves_streaming : let _ := developmentLeaves; StreamingLeaves :=
  let _ := developmentLeaves
  { batchHeader := tableCodec_streaming _
    transmissionId := tableCodec_streaming _
    transmission := tableCodec_streaming _
    signature := tableCodec_streaming _
    address := tableCodec_streaming _
    field := tableCodec_streaming _
    certificate := tableCodec_streaming _ }

/-- The file of a cache is longer than what is read of it. -/
theorem ProposalCache.load_restores_example :
    let _ := developmentNetwork
    let _ := developmentLeaves
    ∃ bytes written,
      ProposalCache.load (developmentAccount 0) "cache" (.of bytes) = .ok roundCache ∧
      roundCache.writeLe = .ok written ∧ bytes = written ++ [7] ∧
      ProposalCache.load (developmentAccount 0) "cache" (.of written) = .ok roundCache := by
  let _ := developmentNetwork
  let _ := developmentLeaves
  have _ := developmentLeaves_lawful
  have _ := developmentLeaves_streaming
  have hwrite : roundCache.writeLe.isOk = true := by decide +kernel
  obtain ⟨bytes, hbytes⟩ := exists_of_isOk hwrite
  have hfits : roundCache.Fits := by
    refine ⟨by decide, fun p hp => (by cases hp), by decide, by decide, by decide⟩
  have hvalid : roundCache.isValid (developmentAccount 0) = true := by decide
  have hload : ProposalCache.load (developmentAccount 0) "cache" (.of (bytes ++ [7]))
      = .ok roundCache :=
    ProposalCache.load_eq_ok.mpr ⟨⟨[7], ProposalCache.reads hfits hbytes [7]⟩, hvalid⟩
  obtain ⟨-, -, written, hwritten, hagain⟩ :=
    ProposalCache.load_restores (developmentAccount 0) "cache" _ roundCache hload
  rw [hbytes] at hwritten
  cases hwritten
  exact ⟨_, bytes, hload, hbytes, rfl, hagain⟩

/-- What the development node saves after its first batch. -/
def savedCache : ProposalCache :=
  let _ := developmentNetwork
  firstBatchNode.shutDown.1.getD ⟨0, none, ∅, []⟩

/-- The codecs of the development node, with its certificates. -/
abbrev savingLeaves : Leaves :=
  { developmentLeaves with certificate := tableCodec savedCache.pendingCertificates }

lemma savingLeaves_lawful : let _ := savingLeaves; LawfulLeaves :=
  let _ := savingLeaves
  { developmentLeaves_lawful with certificate := tableCodec_roundTrips _ }

lemma savingLeaves_streaming : let _ := savingLeaves; StreamingLeaves :=
  let _ := savingLeaves
  { developmentLeaves_streaming with certificate := tableCodec_streaming _ }

/-- The development node is cut off when the last byte is left to be saved; with this byte, the
cache is taken up. -/
theorem interrupted_save_example :
    let _ := developmentNetwork
    let _ := savingLeaves
    ∃ front last, savedCache.writeLe = .ok (front ++ [last]) ∧
      firstBatchNode.loadCacheFile (fun _ => loads 1) "cache" (.of front) = (.error (.error
        ("Failed to read the signed proposals from the file system - Couldn't deserialize the " ++
          "proposal stored at cache.")), firstBatchNode) ∧
      ∃ c : ProposalCache, c.Same savedCache ∧ c.isValid firstBatchNode.account = true ∧
        firstBatchNode.loadCacheFile (fun _ => loads 1) "cache" (.of (front ++ [last]))
          = firstBatchNode.loadProposalCache (fun _ => loads 1) (some c) := by
  let _ := developmentNetwork
  let _ := savingLeaves
  have _ := savingLeaves_lawful
  have _ := savingLeaves_streaming
  have hload : ownSurroundings.load (loads 1) := ⟨proposes_meets 1, trivial⟩
  have hlived : Primary.Lived ownSurroundings none firstBatchNode :=
    lived_proposedNode (proposes_meets 1)
      (.start (startedNode_starts hload trivial (by decide +kernel) none))
  have hsaved : firstBatchNode.shutDown.1 = some savedCache := by
    have hsome : firstBatchNode.shutDown.1.isSome = true := by decide +kernel
    obtain ⟨c, hc⟩ := Option.isSome_iff_exists.mp hsome
    unfold savedCache
    rw [hc]
    rfl
  have hproposal : savedCache.proposal = none := by decide +kernel
  have hfits : savedCache.Fits :=
    ⟨by decide +kernel, fun p hp => (by rw [hproposal] at hp; cases hp), by decide +kernel,
      by decide +kernel, by decide +kernel⟩
  have hwrite : savedCache.writeLe.isOk = true := by decide +kernel
  obtain ⟨bytes, hbytes⟩ := exists_of_isOk hwrite
  have hne : bytes ≠ [] := by
    rintro rfl
    have hempty : savedCache.writeLe ≠ .ok [] := by decide +kernel
    exact hempty hbytes
  rw [← List.dropLast_append_getLast hne] at hbytes
  have hwhole : savedCache.writeLe
      = .ok ((bytes.dropLast ++ [bytes.getLast hne]) ++ []) := by
    rw [List.append_nil, hbytes]
  have hinterrupted := fun {front back : List UInt8}
    (h : savedCache.writeLe = .ok (front ++ back)) =>
    Primary.interrupted_save (S := BFTMemoryService) (V := Chain)
      (E := ownSurroundings) ⟨fun _ h => h, fun _ h => h, fun _ h => h⟩ hlived hsaved hfits
      (List.Perm.refl _) h (fun _ => loads 1) "cache" firstBatchNode rfl
  exact ⟨_, _, hbytes, (hinterrupted hbytes).2 (List.cons_ne_nil _ _), (hinterrupted hwhole).1 rfl⟩

end Example

end AmareleoChain
