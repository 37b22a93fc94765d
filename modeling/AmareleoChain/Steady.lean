import AmareleoChain.DevelopmentNode
import AmareleoChain.Keeping

/-!
The batches of a development node without transmissions, when every second call of `propose_batch`
fills a round: a universe for them, and a test that the batches of a call are among them.
-/

namespace AmareleoChain

namespace Primary

/-- The certificate of a batch, computed. -/
def certify [Network] (env : Certification) (author : Address) (signers : List Address)
    (round : ℕ) (committee : Committee) (previous : List BatchCertificate)
    (given : IndexMap TransmissionID Transmission) :
    Except Stop (BatchCertificate × IndexMap TransmissionID Transmission) := do
  let proposal ← newProposal env author round committee previous given
  let signed ← addSignatures env committee signers proposal
  orStop (signed.toCertificate committee)

lemma certify_eq [Network] {env : Certification} {author : Address} {signers : List Address}
    {round : ℕ} {committee : Committee} {previous : List BatchCertificate}
    {given transmissions : IndexMap TransmissionID Transmission} {c : BatchCertificate}
    (h : Certifies env author signers round committee previous given c transmissions) :
    certify env author signers round committee previous given = .ok (c, transmissions) := by
  obtain ⟨proposal, signed, hproposal, hsigned, hcertificate⟩ := h
  unfold certify
  rw [hproposal]
  dsimp only [bind, Except.bind]
  rw [hsigned]
  dsimp only
  rw [hcertificate]
  rfl

end Primary

/-- The certificate of a validator, when every second call fills a round. -/
def steadyCertificate (round author : ℕ) : BatchCertificate where
  batchHeader :=
    { batchId := ⟨20 * round - 10 + author⟩
      author := developmentAccount author
      round
      timestamp := 20 * round - 10
      committeeId := ⟨0⟩
      transmissionIds := ∅
      previousCertificateIds := IndexSet.ofList
        (if round = 1 then [] else (List.range 4).map fun i => ⟨20 * round - 30 + i⟩)
      signature := ⟨developmentAccount author, 0⟩ }
  signatures := IndexSet.ofList
    (([0, 1, 2, 3].erase author).map fun i => ⟨developmentAccount i, 0⟩)

/-- Those of the first three rounds. -/
def steadyCertificates : List BatchCertificate :=
  [1, 2, 3].flatMap fun round => (List.range 4).map (steadyCertificate round)

def steadyUniverse : Universe := Universe.ofList steadyCertificates (by decide +kernel)

variable {S V : Type} [StorageService S] [Ledger V]

/-- The batch that a validator makes without transmissions is of that universe. -/
def certifiesSteadily (round author timestamp : ℕ) (p : Primary S V) : Bool :=
  let _ := developmentNetwork
  let account := developmentAccount author
  match Primary.certify (certifies timestamp author) account
    ((List.ofFn fun i : Fin 4 => developmentAccount i).filter (· ≠ account)) round
    developmentCommittee (p.storage.getCertificatesForRound (round - 1)) ∅ with
  | .ok x => steadyUniverse.cert x.1.id == some x.1
  | .error _ => true

omit [StorageService S] [Ledger V] in
lemma steadyUniverse_of_certifies {round author timestamp : ℕ} {p : Primary S V}
    {c : BatchCertificate} {transmissions : IndexMap TransmissionID Transmission}
    (hp : certifiesSteadily round author timestamp p = true) :
    let _ := developmentNetwork
    Primary.Certifies (certifies timestamp author) (developmentAccount author)
      ((List.ofFn fun i : Fin 4 => developmentAccount i).filter (· ≠ developmentAccount author))
      round developmentCommittee (p.storage.getCertificatesForRound (round - 1)) ∅ c
      transmissions → steadyUniverse.Has c := by
  intro _ h
  unfold certifiesSteadily at hp
  dsimp only at hp
  rw [Primary.certify_eq h] at hp
  have hcert : steadyUniverse.cert c.id = some c := eq_of_beq hp
  exact hcert

/-- The batches that a call of `propose_batch` gets to storing are of that universe. -/
def makesSteadily (n : ℕ) (p : Primary S V) : Bool :=
  let _ := developmentNetwork
  let env := proposes n
  decide (p.currentRound ≤ p.proposeLock) ||
    (certifiesSteadily p.currentRound 0 n p &&
      match p.proposeBatchLite env.lite [developmentAccount 1, developmentAccount 2,
        developmentAccount 3] true with
      | (.ok round, q) => (List.finRange 4).tail.all fun vid =>
        match q.fakeProposals env (fun i => developmentAccount i) round
          ((List.finRange 4).tail.takeWhile (· ≠ vid)) with
        | (.ok (), q) => certifiesSteadily round vid.val n q
        | _ => true
      | _ => true)

lemma makesIn_of_makesSteadily {n : ℕ} {p : Primary S V} (h : makesSteadily n p = true)
    (haccount : p.account = developmentAccount 0) (hready : p.ready.numTransmissions = 0)
    (hlookback : let _ := developmentNetwork
      ∀ (q : Primary S V) r committee, q.ledger.getCommitteeLookbackForRound r = .ok committee →
        committee = developmentCommittee) :
    let _ := developmentNetwork
    Primary.MakesIn steadyUniverse (proposes n) p := by
  intro _
  unfold makesSteadily at h
  dsimp only at h
  refine ⟨fun {allAcc c transmissions q} haccounts hlite => ?_, fun {allAcc round q₀ q pre post vid
    c transmissions} haccounts hlite hround hsplit hpre hstores => ?_⟩
  · obtain ⟨committee, d, hcommittee, hdrain, hcertifies⟩ := hlite.drained
    have hahead := hlite.ahead
    cases haccounts
    obtain rfl := hlookback _ _ _ hcommittee
    rw [hready] at hdrain
    cases hdrain
    rw [haccount] at hcertifies
    rw [decide_eq_false (by omega), Bool.false_or, Bool.and_eq_true] at h
    exact steadyUniverse_of_certifies h.1 hcertifies
  · obtain ⟨⟨committee, hcommittee, hcertifies⟩, -⟩ := hstores
    cases haccounts
    obtain rfl := hlookback _ _ _ hcommittee
    obtain ⟨rfl, hahead, -⟩ := Primary.proposeBatchLite_ok hround hlite
    rw [decide_eq_false (by omega), Bool.false_or, Bool.and_eq_true] at h
    have hall := h.2
    have hlite : p.proposeBatchLite (proposes n).lite [developmentAccount 1,
      developmentAccount 2, developmentAccount 3] true = _ := hlite
    rw [hlite] at hall
    dsimp only at hall
    rw [List.all_eq_true] at hall
    have hsplit : (List.finRange 4).tail = pre ++ vid :: post := hsplit
    have hvid := hall vid (hsplit ▸ List.mem_append_right _ List.mem_cons_self)
    have htake : (List.finRange 4).tail.takeWhile (· ≠ vid) = pre := by
      have hnodup : (List.finRange 4).tail.Nodup := by decide
      rw [hsplit, List.nodup_append] at hnodup
      rw [hsplit, List.takeWhile_append_of_pos fun w hw =>
        decide_eq_true (hnodup.2.2 w hw vid List.mem_cons_self)]
      simp
    rw [htake, hpre] at hvid
    exact steadyUniverse_of_certifies hvid hcertifies

end AmareleoChain
