import AmareleoChain.DevelopmentNode
import AmareleoChain.Onward

/-!
Rounds only grow, and the fast forward ends.

An increment answers with one of three rounds: that of the storage when this is ahead already,
that of the latest block when the committee starts later, and the next round otherwise. As long as
the committee of the ledger has started, each of them is the round of the storage from then on,
and lies above the round that was passed in. So the loop of `try_increment_to_the_next_round`
gets further with each turn, whatever other tasks do to the storage between its turns.
-/

namespace AmareleoChain

variable {S V : Type} [Ledger V]

/-- The current committee has started by the latest round. -/
def CoreLedgerService.CommitteeStarted (l : CoreLedgerService V) : Prop :=
  ∀ committee, l.currentCommittee = .ok committee → committee.startingRound ≤ l.latestRound

/-! ### Calls -/

/-- A call that sets the round of the storage, with the ledger that it reads. -/
inductive RoundCall (V : Type) where
  | incrementToNextRound (ledger : CoreLedgerService V) (currentRound : ℕ)
  | syncRoundWithBlock (round : ℕ)

namespace RoundCall

/-- The storage after a call. -/
def run (s : Storage S) : RoundCall V → Storage S
  | .incrementToNextRound l currentRound => (s.incrementToNextRound l currentRound).2
  | .syncRoundWithBlock round => s.syncRoundWithBlock round

/-- The ledger that a call reads has a committee that has started. -/
def Started : RoundCall V → Prop
  | .incrementToNextRound l _ => l.CommitteeStarted
  | .syncRoundWithBlock _ => True

end RoundCall

namespace Storage

variable {s : Storage S} {l : CoreLedgerService V} {round : ℕ}

/-- The storage after a sequence of calls. -/
def afterCalls (s : Storage S) (calls : List (RoundCall V)) : Storage S :=
  calls.foldl RoundCall.run s

omit [Ledger V] in
lemma le_syncRoundWithBlock (s : Storage S) (round : ℕ) :
    s.currentRound ≤ (s.syncRoundWithBlock round).currentRound := by
  rw [syncRoundWithBlock]
  split
  · next h => exact Nat.le_of_lt h
  · exact Nat.le_refl _

/-- **What an increment does to the rounds**: that of the storage does not decrease, and the
answer is the round of the storage and lies above the given one. -/
lemma incrementToNextRound_rounds (hl : l.CommitteeStarted) (s : Storage S) (round : ℕ) :
    s.currentRound ≤ (s.incrementToNextRound l round).2.currentRound ∧
      ∀ r, (s.incrementToNextRound l round).1 = .ok r →
        r = (s.incrementToNextRound l round).2.currentRound ∧ round < r := by
  rw [incrementToNextRound]
  dsimp only
  split
  · next hahead =>
    refine ⟨Nat.le_refl _, fun r hr => ?_⟩
    cases hr
    exact ⟨rfl, by omega⟩
  next hahead =>
  split
  · exact ⟨Nat.le_refl _, fun r hr => (by cases hr)⟩
  next committee hcommittee =>
  have hstarted := hl committee hcommittee
  split
  · -- the latest round is beyond the start of the committee, so the storage is set to it
    next hbehind =>
    refine ⟨le_syncRoundWithBlock _ _, fun r hr => ?_⟩
    cases hr
    have hmax : max l.latestRound 1 = l.latestRound := by omega
    have hlt : l.latestRound > s.currentRound := by omega
    have hset : (s.syncRoundWithBlock l.latestRound).currentRound = l.latestRound := by
      rw [syncRoundWithBlock, hmax, if_pos hlt]
      rfl
    exact ⟨hset.symm, by omega⟩
  have hset : (s.updateCurrentRound (round + 1)).currentRound = round + 1 := rfl
  rw [hset, if_neg fun hne => hne rfl]
  split
  · refine ⟨?_, fun r hr => (by cases hr)⟩
    rw [hset]
    omega
  · refine ⟨?_, fun r hr => ?_⟩
    · rw [hset]
      omega
    · cases hr
      exact ⟨hset.symm, Nat.lt_succ_self _⟩

lemma le_afterCalls {calls : List (RoundCall V)} (h : ∀ call ∈ calls, call.Started) :
    s.currentRound ≤ (s.afterCalls calls).currentRound := by
  induction calls generalizing s with
  | nil => exact Nat.le_refl _
  | cons call calls ih =>
    rw [List.forall_mem_cons] at h
    have hstep : s.currentRound ≤ (call.run s).currentRound := by
      cases call with
      | incrementToNextRound l round => exact (incrementToNextRound_rounds h.1 s round).1
      | syncRoundWithBlock round => exact le_syncRoundWithBlock s round
    exact hstep.trans (ih h.2)

/-! ### The fast forward -/

/-- The loop of `try_increment_to_the_next_round`, for a number of turns. Before a turn other
tasks may have called on the storage, and each turn reads the ledger as it is then. -/
def fastForward (nextRound : ℕ) : ℕ → (ℕ → List (RoundCall V) × CoreLedgerService V) → ℕ →
    Storage S → Option (Except String Unit × Storage S)
  | 0, _, _, _ => none
  | n + 1, turns, fastForwardRound, s =>
    if fastForwardRound < nextRound - 1 then
      match (s.afterCalls (turns 0).1).incrementToNextRound (turns 0).2 fastForwardRound with
      | (.error e, s) => some (.error e, s)
      | (.ok fastForwardRound, s) =>
        fastForward nextRound n (fun i => turns (i + 1)) fastForwardRound s
    else some (.ok (), s)

/-- **The loop ends**, after at most as many turns as rounds are missing, and when it ends without
an error the storage is at the penultimate round. -/
lemma fastForward_ends {nextRound n fastForwardRound : ℕ}
    {turns : ℕ → List (RoundCall V) × CoreLedgerService V}
    (hturns : ∀ i, (∀ call ∈ (turns i).1, call.Started) ∧ (turns i).2.CommitteeStarted)
    (hreached : fastForwardRound ≤ s.currentRound) (hn : nextRound ≤ n + fastForwardRound)
    (hpos : 0 < n) :
    ∃ result t, fastForward nextRound n turns fastForwardRound s = some (result, t) ∧
      s.currentRound ≤ t.currentRound ∧
      (result = .ok () → nextRound - 1 ≤ t.currentRound) := by
  induction n generalizing turns fastForwardRound s with
  | zero => omega
  | succ n ih =>
    rw [fastForward]
    split
    swap
    · exact ⟨_, _, rfl, Nat.le_refl _, fun _ => by omega⟩
    next hlt =>
    obtain ⟨hcalls, hl⟩ := hturns 0
    obtain ⟨hgrows, hok⟩ := incrementToNextRound_rounds hl (s.afterCalls (turns 0).1)
      fastForwardRound
    have hbefore : s.currentRound ≤ (s.afterCalls (turns 0).1).currentRound := le_afterCalls hcalls
    rcases hincrement : (s.afterCalls (turns 0).1).incrementToNextRound (turns 0).2
      fastForwardRound with ⟨_ | round, t⟩
    · rw [hincrement] at hgrows
      exact ⟨_, _, rfl, hbefore.trans hgrows, fun h => (by cases h)⟩
    · rw [hincrement] at hgrows hok
      obtain ⟨heq, hfurther⟩ := hok round rfl
      have hround : round = t.currentRound := heq
      subst hround
      have hturns' : ∀ i, (∀ call ∈ (turns (i + 1)).1, call.Started) ∧
          (turns (i + 1)).2.CommitteeStarted := fun i => hturns (i + 1)
      have hn' : nextRound ≤ n + t.currentRound := by omega
      obtain ⟨result, u, hu, htu, hend⟩ := ih hturns' (Nat.le_refl _) hn' (by omega)
      exact ⟨result, u, hu, (hbefore.trans hgrows).trans htu, hend⟩

end Storage

namespace Primary

/-- The loop of the primary is that of its storage, over one ledger and with no calls between its
turns. -/
lemma fastForward_eq (p : Primary S V) (nextRound n round : ℕ) :
    match Storage.fastForward nextRound n (fun _ => ([], p.ledger)) round p.storage with
    | none => (p.fastForward nextRound n round).1 = .error .diverged
    | some (result, s) => (p.fastForward nextRound n round).1 = orStop result ∧
      (p.fastForward nextRound n round).2.storage = s := by
  induction n generalizing round p with
  | zero => rfl
  | succ n ih =>
    rw [Storage.fastForward, Primary.fastForward]
    have hcalls : p.storage.afterCalls ([] : List (RoundCall V)) = p.storage := rfl
    dsimp only
    rw [hcalls, incrementToNextRound]
    by_cases hlt : round < nextRound - 1
    · rw [if_pos hlt, if_pos hlt]
      rcases p.storage.incrementToNextRound p.ledger round with ⟨_ | r, t⟩
      · exact ⟨rfl, rfl⟩
      · exact ih { p.withStorage t with proposedBatch := none } r
    · rw [if_neg hlt, if_neg hlt]
      exact ⟨rfl, rfl⟩

end Primary

/-- **Rounds only grow, and the fast forward ends.** Over ledgers whose committee has started, and
after any calls from a new storage: its round is at least `1`, no calls decrease it, and what an
increment answers is the round from then on. The loop of `try_increment_to_the_next_round` ends,
whatever is called between its turns, and unless it ends with an error it has reached the
penultimate round. -/
theorem rounds_grow [StorageService S] (committee : Committee) (transmissions : S)
    (maxGcRounds : ℕ) (calls : List (RoundCall V)) (h : ∀ call ∈ calls, call.Started) :
    let s := (Storage.new committee transmissions maxGcRounds).afterCalls calls
    1 ≤ s.currentRound ∧
    (∀ more : List (RoundCall V), (∀ call ∈ more, call.Started) →
      s.currentRound ≤ (s.afterCalls more).currentRound) ∧
    (∀ (l : CoreLedgerService V) round r, l.CommitteeStarted →
      (s.incrementToNextRound l round).1 = .ok r →
      r = (s.incrementToNextRound l round).2.currentRound) ∧
    (∀ nextRound (turns : ℕ → List (RoundCall V) × CoreLedgerService V),
      (∀ i, (∀ call ∈ (turns i).1, call.Started) ∧ (turns i).2.CommitteeStarted) →
      ∃ n result t, Storage.fastForward nextRound n turns s.currentRound s = some (result, t) ∧
        (result = .ok () → nextRound - 1 ≤ t.currentRound)) ∧
    ∀ (p : Primary S V) nextRound, p.storage = s → p.ledger.CommitteeStarted →
      (p.fastForward nextRound (2 * nextRound + 2) p.currentRound).1 ≠ .error .diverged ∧
      ((p.fastForward nextRound (2 * nextRound + 2) p.currentRound).1 = .ok () →
        nextRound - 1 ≤ (p.fastForward nextRound (2 * nextRound + 2) p.currentRound).2.currentRound)
      := by
  intro s
  have hnew : 1 ≤ (Storage.new committee transmissions maxGcRounds).currentRound := by
    rw [(Storage.new_spec committee transmissions maxGcRounds).2.2.2.1]
    exact Nat.le_max_right _ _
  refine ⟨hnew.trans (Storage.le_afterCalls h), fun more hmore => Storage.le_afterCalls hmore,
    fun l round r hl hr => ((Storage.incrementToNextRound_rounds hl s round).2 r hr).1,
    fun nextRound turns hturns => ?_, fun p nextRound _ hl => ?_⟩
  · have hn : nextRound ≤ nextRound + 1 + s.currentRound := by omega
    obtain ⟨result, t, ht, -, hend⟩ := Storage.fastForward_ends hturns
      (Nat.le_refl s.currentRound) hn (Nat.succ_pos _)
    exact ⟨_, result, t, ht, hend⟩
  · have hturns : ∀ i : ℕ, (∀ call ∈ (([], p.ledger) : List (RoundCall V) × CoreLedgerService V).1,
        call.Started) ∧ p.ledger.CommitteeStarted := fun _ => ⟨fun _ hc => (by cases hc), hl⟩
    have hn : nextRound ≤ 2 * nextRound + 2 + p.storage.currentRound := by omega
    obtain ⟨result, t, ht, -, hend⟩ := Storage.fastForward_ends hturns
      (Nat.le_refl p.storage.currentRound) hn (Nat.succ_pos _)
    have heq := p.fastForward_eq nextRound (2 * nextRound + 2) p.storage.currentRound
    rw [ht] at heq
    obtain ⟨hresult, hstorage⟩ := heq
    have hround : p.currentRound = p.storage.currentRound := rfl
    rw [hround, hresult, Primary.currentRound, hstorage]
    cases result with
    | error e => exact ⟨fun he => (by cases he), fun he => (by cases he)⟩
    | ok u => exact ⟨fun he => (by cases he), fun _ => hend rfl⟩

/-- An increment, a block of round 6 and another increment bring the node to round 7; it fast
forwards to round 9, while a block of round 8 comes in. -/
theorem rounds_grow_example :
    let _ := developmentNetwork
    let l := developmentLedger []
    let s := (newNode l).storage.afterCalls (V := Chain)
      [.incrementToNextRound l 1, .syncRoundWithBlock 6, .incrementToNextRound l 6]
    let p := (newNode l).withStorage s
    s.currentRound = 7 ∧ (∀ more : List (RoundCall Chain), (∀ call ∈ more, call.Started) →
      7 ≤ (s.afterCalls more).currentRound) ∧
    (∃ n result t, Storage.fastForward 10 n
      (fun i => (if i = 0 then [.syncRoundWithBlock 8] else [], l)) 7 s = some (result, t) ∧
      (result = .ok () → 9 ≤ t.currentRound)) ∧
    (p.fastForward 10 22 7).1 ≠ .error .diverged ∧
    ((p.fastForward 10 22 7).1 = .ok () → 9 ≤ (p.fastForward 10 22 7).2.currentRound) := by
  intro _ l s p
  have hstarted : l.CommitteeStarted := by
    intro committee hc
    cases hc
    exact Nat.zero_le _
  have hcalls : ∀ call ∈ ([.incrementToNextRound l 1, .syncRoundWithBlock 6,
      .incrementToNextRound l 6] : List (RoundCall Chain)), call.Started := by
    rw [List.forall_mem_cons, List.forall_mem_cons, List.forall_mem_singleton]
    exact ⟨hstarted, trivial, hstarted⟩
  have hround : s.currentRound = 7 := by decide +kernel
  obtain ⟨-, hgrows, -, hends, hprimary⟩ := rounds_grow (V := Chain) developmentCommittee
    BFTMemoryService.empty developmentNetwork.maxGcRounds _ hcalls
  have hturns : ∀ i : ℕ, (∀ call ∈ (if i = 0 then [.syncRoundWithBlock 8] else [] :
      List (RoundCall Chain)), call.Started) ∧ l.CommitteeStarted := by
    refine fun i => ⟨fun call hc => ?_, hstarted⟩
    split at hc
    · obtain rfl := List.mem_singleton.mp hc
      trivial
    · cases hc
  have hends := hends 10 (fun i => (if i = 0 then [.syncRoundWithBlock 8] else [], l)) hturns
  have hp := hprimary p 10 rfl hstarted
  have hcurrent : p.currentRound = 7 := hround
  rw [hcurrent] at hp
  exact ⟨hround, fun more hmore => hround ▸ hgrows more hmore, hround ▸ hends, hp⟩

end AmareleoChain
