import AmareleoChain.DevelopmentNode
import AmareleoChain.Steps

/-!
The life of a node: it starts over a chain, its worker gets transmissions and its two tasks run, it
is stopped, at any moment and with or without a saved proposal cache, and it starts again over the
chain it left.
-/

namespace AmareleoChain

/-- What a node can meet. -/
structure Surroundings (V : Type) where
  propose : ProposeEnv → Prop
  increment : IncrementEnv → Prop
  load : LoadEnv → Prop
  sender : ConsensusSender V → Prop

/-- The environments meet what is asked of them. -/
structure Surroundings.Meets {V : Type} (E : Surroundings V) (M : Manner) : Prop where
  propose : ∀ env, E.propose env → env.Meets M
  increment : ∀ env, E.increment env → env.propose.Meets M
  load : ∀ env, E.load env → env.Meets M

namespace Primary

variable {S V : Type} [StorageService S] [Network] [Ledger V]

/-- A new primary over a ledger and the transmissions kept, started with a proposal cache. The
result is what the start ends with, once the storage and the DAG are synced with the ledger. -/
structure Starts (E : Surroundings V) (account : Address) (transmissions : S)
    (l : CoreLedgerService V) (cache : Option ProposalCache) (r : Except Stop Unit)
    (p : Primary S V) : Prop where
  starts : ∃ committee maxGcRounds keepState now envs send b,
    l.currentCommittee = .ok committee ∧
    (BFT.new account (Storage.new committee transmissions maxGcRounds) l).bootup now = .ok b ∧
    (∀ i, E.load (envs i)) ∧ E.sender send ∧
    (new account (Storage.new committee transmissions maxGcRounds) keepState l).runBft now envs
      cache send = (r, p)

/-- A node, and the proposal cache on its disk. -/
inductive Lived (E : Surroundings V) : Option ProposalCache → Primary S V → Prop
  | start {account : Address} {transmissions : S} {l : CoreLedgerService V}
      {r : Except Stop Unit} {p : Primary S V} :
      Starts E account transmissions l none r p → Lived E none p
  | propose {cache : Option ProposalCache} {p : Primary S V} (env : ProposeEnv) :
      Lived E cache p → E.propose env → Lived E cache (p.proposeTask env)
  | increment {cache : Option ProposalCache} {p : Primary S V} (env : IncrementEnv) :
      Lived E cache p → E.increment env → Lived E cache (p.incrementTask env)
  /-- The worker gets transmissions, or drops some. -/
  | submit {cache : Option ProposalCache} {p : Primary S V} (ready : Ready) : Lived E cache p →
      Lived E cache { p with ready }
  /-- The shutdown flag is raised. -/
  | flag {cache : Option ProposalCache} {p : Primary S V} : Lived E cache p →
      Lived E cache { p with bft := { p.bft with ledger := { p.ledger with shutdown := true } } }
  /-- The primary is shut down, and saves its state when asked to. -/
  | shutDown {cache : Option ProposalCache} {p : Primary S V} : Lived E cache p →
      Lived E (p.shutDown.1.or cache) p.shutDown.2
  /-- The node starts again, after a shutdown or a crash. -/
  | reboot {cache : Option ProposalCache} {p p' : Primary S V} {transmissions : S}
      {l : CoreLedgerService V} {r : Except Stop Unit} : Lived E cache p →
      l.blocks = p.ledger.blocks → Starts E p.account transmissions l cache r p' →
      Lived E cache p'

/-- Nothing is asked of the surroundings but that the consensus channel is faithful. -/
def anySurroundings (V : Type) [Ledger V] : Surroundings V :=
  ⟨fun _ => True, fun _ => True, fun _ => True, fun send => send.Faithful⟩

end Primary

/-! ### The development node -/

section Example

/-- The BFT of the new development node over a chain, after bootup. -/
def bootedBft (l : CoreLedgerService Chain) : BFT BFTMemoryService Chain :=
  let _ := developmentNetwork
  match (newNode l).bft.bootup 0 with
  | .ok b => b
  | .error _ => (newNode l).bft

lemma startedNode_starts {E : Surroundings Chain} {l : CoreLedgerService Chain} {round : ℕ}
    (hload : E.load (loads round)) (hsender : E.sender processBftSubdag)
    (hboot : let _ := developmentNetwork
      ((newNode l).bft.bootup (10 * round)).isOk = true) (cache : Option ProposalCache) :
    let _ := developmentNetwork
    Primary.Starts E (developmentAccount 0) BFTMemoryService.empty l cache
      (startedNode l cache round).1 (startedNode l cache round).2 := by
  let _ := developmentNetwork
  obtain ⟨b, hb⟩ := exists_of_isOk hboot
  exact ⟨developmentCommittee, developmentNetwork.maxGcRounds, true, 10 * round,
    fun _ => loads round, processBftSubdag, b, rfl, hb, fun _ => hload, hsender, rfl⟩

lemma lived_proposedNode {E : Surroundings Chain} {round : ℕ}
    (hpropose : E.propose (proposes round)) {cache : Option ProposalCache}
    {p : Primary BFTMemoryService Chain} :
    let _ := developmentNetwork
    Primary.Lived E cache p → Primary.Lived E cache (proposedNode round p) := by
  intro _ h
  exact h.propose (proposes round) hpropose

lemma lived_shuttingDown {E : Surroundings Chain} {cache : Option ProposalCache}
    {p : Primary BFTMemoryService Chain} :
    let _ := developmentNetwork
    Primary.Lived E cache p → Primary.Lived E cache (shuttingDown p) := by
  intro _ h
  exact h.flag

lemma lived_restart {E : Surroundings Chain} {round : ℕ} (hload : E.load (loads round))
    (hsender : E.sender processBftSubdag) {cache : Option ProposalCache}
    {p : Primary BFTMemoryService Chain} (haccount : p.account = developmentAccount 0)
    (hboot : let _ := developmentNetwork
      ((newNode ⟨p.ledger.ledger, none, false⟩).bft.bootup (10 * round)).isOk = true) :
    let _ := developmentNetwork
    Primary.Lived E cache p → Primary.Lived E (p.shutDown.1.or cache)
      (startedNode ⟨p.ledger.ledger, none, false⟩ (p.shutDown.1.or cache) round).2 := by
  intro _ h
  have hshut : p.shutDown.2.account = developmentAccount 0 ∧ p.shutDown.2.ledger = p.ledger := by
    unfold Primary.shutDown
    split <;> exact ⟨haccount, rfl⟩
  have hstarts := startedNode_starts hload hsender hboot (p.shutDown.1.or cache)
  rw [← hshut.1] at hstarts
  exact h.shutDown.reboot (by rw [hshut.2]; rfl) hstarts

end Example

end AmareleoChain
