import AmareleoChain.Sync

/-!
What becomes of the certificates of a storage: some come, and those at or below the GC round go.

`Storage.Onward` says so of two storages, and is shown of each operation, and of bootup.
-/

namespace AmareleoChain

open Std

namespace Storage

variable {S V : Type} {s t u : Storage S} {c d : BatchCertificate}

/-! ### Tidy storages -/

/-- The maps describe the same certificates, which are above the GC round. -/
structure Tidy (s : Storage S) : Prop where
  indexed : s.Indexed
  above : ∀ {id : Field} {c : BatchCertificate}, s.certificates[id]? = some c →
    s.gcRound < c.round

lemma SameCertificates.tidy (h : SameCertificates s t) (hs : s.Tidy) : t.Tidy := by
  refine ⟨h.indexed hs.indexed, ?_⟩
  rw [h.2.1, h.2.2.2]
  exact hs.above

lemma tidy_of_empty (hc : s.certificates = ∅) (hb : s.batchIds = ∅) (hr : s.rounds = ∅) :
    s.Tidy :=
  ⟨indexed_of_empty hc hb hr, by simp [hc]⟩

/-! ### From one storage to another -/

/-- Certificates with `X` came, and those at or below the GC round went, which went no further
than to `m`. -/
structure Onward (X : BatchCertificate → Prop) (m : ℕ) (s t : Storage S) : Prop where
  gc_le : s.gcRound ≤ t.gcRound
  gc : t.gcRound ≤ max s.gcRound m
  kept : ∀ {c : BatchCertificate}, s.certificates[c.id]? = some c → t.gcRound < c.round →
    t.certificates[c.id]? = some c
  added : ∀ {c : BatchCertificate}, t.certificates[c.id]? = some c →
    s.certificates[c.id]? = some c ∨ X c
  currentRound : s.currentRound ≤ t.currentRound
  maxGcRounds : t.maxGcRounds = s.maxGcRounds

variable {X Y : BatchCertificate → Prop} {m n : ℕ}

lemma Onward.refl (s : Storage S) : Onward X m s s :=
  ⟨Nat.le_refl _, le_max_left _ _, fun h _ => h, .inl, Nat.le_refl _, rfl⟩

lemma Onward.mono (h : Onward X m s t) (hX : ∀ c, X c → Y c) (hm : m ≤ n) : Onward Y n s t :=
  { h with
    gc := h.gc.trans (max_le_max le_rfl hm)
    added := fun hc => (h.added hc).imp_right (hX _) }

lemma Onward.trans (h : Onward X m s t) (h' : Onward X m t u) : Onward X m s u where
  gc_le := h.gc_le.trans h'.gc_le
  gc := by
    have h₁ := h.gc
    have h₂ := h'.gc
    omega
  kept hc hr := h'.kept (h.kept hc (h'.gc_le.trans_lt hr)) hr
  added hc := (h'.added hc).elim h.added .inr
  currentRound := h.currentRound.trans h'.currentRound
  maxGcRounds := h'.maxGcRounds.trans h.maxGcRounds

lemma SameCertificates.onward (h : SameCertificates s t) (hround : s.currentRound ≤ t.currentRound)
    (hmax : t.maxGcRounds = s.maxGcRounds) : Onward X m s t where
  gc_le := h.2.2.2.ge
  gc := h.2.2.2.le.trans (le_max_left _ _)
  kept hc _ := by rwa [h.2.1]
  added hc := .inl (by rwa [h.2.1] at hc)
  currentRound := hround
  maxGcRounds := hmax

section

variable [StorageService S]

omit [StorageService S] in
lemma le_currentRound_syncRoundWithBlock (s : Storage S) (r : ℕ) :
    s.currentRound ≤ (s.syncRoundWithBlock r).currentRound ∧
      max r 1 ≤ (s.syncRoundWithBlock r).currentRound := by
  unfold syncRoundWithBlock updateCurrentRound
  dsimp only
  split
  · dsimp only
    omega
  · omega

@[simp] lemma currentRound_garbageCollectCertificates (s : Storage S) (n : ℕ) :
    (s.garbageCollectCertificates n).currentRound = s.currentRound := by
  refine garbageCollectCertificates_induction
    (motive := fun t : Storage S => t.currentRound = s.currentRound) rfl ?_ (fun _ _ h => h) n
  intro t id h
  unfold removeCertificate
  split <;> exact h

lemma Tidy.garbageCollectCertificates (hs : s.Tidy) (n : ℕ) :
    (s.garbageCollectCertificates n).Tidy ∧ Onward X n s (s.garbageCollectCertificates n) := by
  obtain ⟨hi, hgc, hmem⟩ := garbageCollectCertificates_spec hs.indexed hs.above n
  refine ⟨⟨hi, fun {id c} hc => ?_⟩, ⟨?_, ?_, fun {c} hc hr => ?_, fun {c} hc => ?_, ?_, ?_⟩⟩
  · obtain ⟨hc, hn⟩ := (hmem id c).mp hc
    have := hs.above hc
    omega
  · omega
  · omega
  · exact (hmem c.id c).mpr ⟨hc, by omega⟩
  · exact .inl ((hmem c.id c).mp hc).1
  · rw [currentRound_garbageCollectCertificates]
  · rw [maxGcRounds_garbageCollectCertificates]

variable [Ledger V]

omit [StorageService S] in
lemma incrementToNextRound_onward (l : CoreLedgerService V) (s : Storage S) (r : ℕ) :
    Onward X m s (s.incrementToNextRound l r).2 := by
  refine (incrementToNextRound_same l s r).onward ?_ ?_
  · unfold incrementToNextRound
    dsimp only
    split
    · exact Nat.le_refl _
    split
    · exact Nat.le_refl _
    split
    · exact (le_currentRound_syncRoundWithBlock s _).1
    · unfold updateCurrentRound
      dsimp only
      split
      · omega
      · split <;> dsimp only <;> omega
  · unfold incrementToNextRound syncRoundWithBlock updateCurrentRound
    dsimp only
    split
    · rfl
    split
    · rfl
    split
    · split <;> rfl
    · split
      · rfl
      · split <;> rfl

variable [Network]

/-- A certificate is by a member of the committee of its round. -/
def ByMember (l : CoreLedgerService V) (c : BatchCertificate) : Prop :=
  ∃ committee, l.getCommitteeLookbackForRound c.round = .ok committee ∧ c.author ∈ committee.members

/-- **An insertion**: the storage is left as it is, or the certificate came, which is by a member
of the committee. -/
lemma Tidy.insertCertificate (hs : s.Tidy) (l : CoreLedgerService V) (now : ℤ)
    (c : BatchCertificate) (transmissions : IndexMap TransmissionID Transmission)
    (aborted : IndexSet TransmissionID) :
    (s.insertCertificate l now c transmissions aborted).2.Tidy ∧
      Onward (fun d => d = c ∧ ByMember l c) m s
        (s.insertCertificate l now c transmissions aborted).2 := by
  rcases insertCertificate_cases l now hs.indexed c transmissions aborted with
    ⟨e, hx⟩ | ⟨missing, haccepts, -, hx⟩
  · rw [hx]
    exact ⟨hs, .refl s⟩
  rw [hx]
  have hget := getElem?_insertCertificateAtomic haccepts.fresh aborted missing
  refine ⟨⟨indexed_insertCertificateAtomic hs.indexed haccepts, fun {id d} hd => ?_⟩,
    ⟨Nat.le_refl _, le_max_left _ _, fun hd _ => (hget _ _).mpr (.inl hd), fun {d} hd => ?_,
      Nat.le_refl _, rfl⟩⟩
  · rcases (hget id d).mp hd with hd | ⟨-, rfl⟩
    · exact hs.above hd
    · exact haccepts.above
  · rcases (hget d.id d).mp hd with hd | ⟨-, rfl⟩
    · exact .inl hd
    · exact .inr ⟨rfl, haccepts.lookback⟩

lemma Tidy.syncBlocks (hs : s.Tidy) (l : CoreLedgerService V) (now : ℤ) (blocks : List Block) :
    (blocks.foldl (syncBlock l now) s).Tidy ∧
      Onward (fun c => c ∈ blocks.flatMap Block.certificates ∧ ByMember l c) 0 s
        (blocks.foldl (syncBlock l now) s) := by
  refine List.foldlRecOn (motive := fun t : Storage S => t.Tidy ∧ Onward (fun c =>
    c ∈ blocks.flatMap Block.certificates ∧ ByMember l c) 0 s t) _ _ ⟨hs, .refl s⟩ ?_
  intro t ht block hblock
  refine List.foldlRecOn (motive := fun t : Storage S => t.Tidy ∧ Onward (fun c =>
    c ∈ blocks.flatMap Block.certificates ∧ ByMember l c) 0 s t) _ _ ht ?_
  intro u ⟨hu, hsu⟩ c hc
  have hin : c ∈ blocks.flatMap Block.certificates := List.mem_flatMap.mpr ⟨block, hblock, hc⟩
  unfold syncCertificateWithBlock
  split
  · exact ⟨hu, hsu⟩
  split
  · exact ⟨hu, hsu⟩
  dsimp only
  obtain ⟨htidy, honward⟩ := hu.insertCertificate (m := 0) l now c
    (c.transmissionIds.toList.foldl (syncTransmission l u block block.unconfirmedTransactions)
      ⟨∅, ∅⟩).missing
    (c.transmissionIds.toList.foldl (syncTransmission l u block block.unconfirmedTransactions)
      ⟨∅, ∅⟩).aborted
  refine ⟨htidy, hsu.trans (honward.mono (fun d hd => ?_) le_rfl)⟩
  obtain ⟨rfl, hmember⟩ := hd
  exact ⟨hin, hmember⟩

omit [Network] [Ledger V] in
lemma new_spec (committee : Committee) (transmissions : S) (g : ℕ) :
    (Storage.new committee transmissions g).Tidy ∧
      (∀ (id : Field) (c : BatchCertificate),
        (Storage.new committee transmissions g).certificates[id]? ≠ some c) ∧
      (Storage.new committee transmissions g).gcRound = max committee.startingRound 1 - g ∧
      (Storage.new committee transmissions g).currentRound = max committee.startingRound 1 ∧
      (Storage.new committee transmissions g).maxGcRounds = g := by
  unfold Storage.new
  dsimp only
  generalize hs : updateCurrentRound _ _ = s
  have htidy : s.Tidy := tidy_of_empty (by rw [← hs]; rfl) (by rw [← hs]; rfl) (by rw [← hs]; rfl)
  obtain ⟨-, hgc, hmem⟩ := garbageCollectCertificates_spec htidy.indexed htidy.above
    (max committee.startingRound 1)
  refine ⟨(htidy.garbageCollectCertificates (X := fun _ => False) _).1, fun id c hc => ?_, ?_, ?_,
    ?_⟩
  · have hstored := ((hmem id c).mp hc).1
    rw [← hs] at hstored
    simp [updateCurrentRound] at hstored
  · rw [hgc, ← hs]
    simp [updateCurrentRound]
  · rw [currentRound_garbageCollectCertificates, ← hs]
    rfl
  · rw [maxGcRounds_garbageCollectCertificates, ← hs]
    rfl

/-- **The storage after bootup**: certificates of the synced blocks came. -/
theorem Tidy.bootup {l : CoreLedgerService V} {now : ℤ} {cs : List BatchCertificate}
    (hs : s.Tidy) (h : s.syncStorageWithLedgerAtBootup l now = .ok (t, cs)) :
    t.Tidy ∧ Onward (fun c => c ∈ cs ∧ ByMember l c) l.latestRound s t ∧
      max l.latestRound 1 ≤ t.currentRound ∧
      t.gcRound = max s.gcRound (l.latestRound - s.maxGcRounds) := by
  unfold syncStorageWithLedgerAtBootup at h
  split at h
  · cases h
  dsimp only at h
  split at h
  · cases h
  next blocks hblocks =>
  cases h
  -- the height and the round, the garbage collection, and the blocks one after the other
  have hheight : SameCertificates s (s.syncHeightWithBlock l.latestBlockHeight) ∧
      (s.syncHeightWithBlock l.latestBlockHeight).currentRound = s.currentRound ∧
      (s.syncHeightWithBlock l.latestBlockHeight).maxGcRounds = s.maxGcRounds := by
    unfold syncHeightWithBlock
    split <;> exact ⟨⟨rfl, rfl, rfl, rfl⟩, rfl, rfl⟩
  generalize s.syncHeightWithBlock l.latestBlockHeight = s₁ at hheight ⊢
  have hround : SameCertificates s₁ (s₁.syncRoundWithBlock l.latestRound) ∧
      (s₁.syncRoundWithBlock l.latestRound).maxGcRounds = s₁.maxGcRounds := by
    unfold syncRoundWithBlock updateCurrentRound
    dsimp only
    split <;> exact ⟨⟨rfl, rfl, rfl, rfl⟩, rfl⟩
  obtain ⟨hle, hlatest⟩ := s₁.le_currentRound_syncRoundWithBlock l.latestRound
  generalize s₁.syncRoundWithBlock l.latestRound = s₂ at hround hle hlatest ⊢
  obtain ⟨hsame₁, hcurrent₁, hmax₁⟩ := hheight
  obtain ⟨hsame₂, hmax₂⟩ := hround
  have htidy₂ := hsame₂.tidy (hsame₁.tidy hs)
  obtain ⟨htidy₃, honward₃⟩ := htidy₂.garbageCollectCertificates
    (X := fun c => c ∈ blocks.flatMap Block.certificates ∧ ByMember l c) l.latestRound
  obtain ⟨-, hgc₃, -⟩ := garbageCollectCertificates_spec htidy₂.indexed htidy₂.above l.latestRound
  obtain ⟨htidy₄, honward₄⟩ := htidy₃.syncBlocks l now blocks
  have h₁ : Onward (fun c => c ∈ blocks.flatMap Block.certificates ∧ ByMember l c)
      l.latestRound s s₁ := hsame₁.onward hcurrent₁.ge hmax₁
  have h₂ := h₁.trans (hsame₂.onward hle hmax₂)
  refine ⟨htidy₄, (h₂.trans honward₃).trans (honward₄.mono (fun _ hc => hc) (Nat.zero_le _)),
    hlatest.trans ?_, ?_⟩
  · have hcurrent := honward₄.currentRound
    rwa [currentRound_garbageCollectCertificates] at hcurrent
  · have hge := honward₄.gc_le
    have hle' := honward₄.gc
    have hgc : s₂.gcRound = s.gcRound := hsame₂.2.2.2.trans hsame₁.2.2.2
    have hmax : s₂.maxGcRounds = s.maxGcRounds := hmax₂.trans hmax₁
    rw [hgc, hmax] at hgc₃
    omega

end

end Storage

lemma BFT.maxGcRounds_bootup {S V : Type} [StorageService S] [Network] [Ledger V] {b b' : BFT S V}
    {now : ℤ} (hb : b.storage.Tidy) (h : b.bootup now = .ok b') :
    b'.storage.maxGcRounds = b.storage.maxGcRounds := by
  unfold BFT.bootup at h
  split at h
  · cases h
  next storage cs hsync =>
  cases h
  obtain ⟨-, honward, -, -⟩ := hb.bootup hsync
  exact honward.maxGcRounds

end AmareleoChain
