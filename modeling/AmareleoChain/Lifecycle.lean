import AmareleoChain.Api

/-!
The shutdown flag over a history of calls of the API.

Each validator gets the flag of the node object, as does its ledger service. Stopping the node
raises the flag and nothing lowers it, so a node that was stopped once cannot add a block when
it is started again.
-/

namespace AmareleoChain

namespace AmareleoApi

variable {V : Type}

/-! ### The flag over a history of calls -/

/-- The flag has a cell, and it is the flag of the validator and of its ledger service. -/
structure Linked (a : AmareleoApi V) : Prop where
  allocated : a.data.shutdown < a.cells.values.length
  shared : ∀ v, a.data.validator.validator = some v →
    v.shutdown = a.data.shutdown ∧ v.ledgerShutdown = a.data.shutdown
  running : a.data.state = .started → ∃ v, a.data.validator.validator = some v

/-- Nothing but settings changed. -/
structure SameNode (a a' : AmareleoApi V) : Prop where
  cells : a'.cells = a.cells
  state : a'.data.state = a.data.state
  shutdown : a'.data.shutdown = a.data.shutdown
  validator : a'.data.validator = a.data.validator

lemma SameNode.linked {a a' : AmareleoApi V} (h : SameNode a a') (ha : a.Linked) : a'.Linked := by
  obtain ⟨hcells, hstate, hshutdown, hvalidator⟩ := h
  constructor
  · rw [hcells, hshutdown]
    exact ha.allocated
  · rw [hvalidator, hshutdown]
    exact ha.shared
  · rw [hstate, hvalidator]
    exact ha.running

lemma sameNode_cfg (states : List AmareleoApiState) {set : AmareleoApiData V → AmareleoApiData V}
    (a : AmareleoApi V) (hstate : (set a.data).state = a.data.state)
    (hshutdown : (set a.data).shutdown = a.data.shutdown)
    (hvalidator : (set a.data).validator = a.data.validator) :
    SameNode a (cfg states set a).2 := by
  unfold cfg
  split
  · exact ⟨rfl, hstate, hshutdown, hvalidator⟩
  · exact ⟨rfl, rfl, rfl, rfl⟩

lemma sameNode_cfgNetwork (networkId : ℕ) (a : AmareleoApi V) :
    SameNode a (a.cfgNetwork networkId).2 := by
  unfold cfgNetwork
  split
  · exact ⟨rfl, rfl, rfl, rfl⟩
  · split <;> exact ⟨rfl, rfl, rfl, rfl⟩

/-- The call is a setter. -/
def Call.IsSetter : Call V → Prop
  | .start _ => False
  | .endNode => False
  | _ => True

lemma sameNode_setter (a : AmareleoApi V) {c : Call V} (hc : c.IsSetter) :
    SameNode a (a.call c).2 := by
  cases c with
  | cfgNetwork networkId => exact sameNode_cfgNetwork _ _
  | cfgRest ipPort rps => exact sameNode_cfg _ _ rfl rfl rfl
  | cfgLedger keepState basePath naming => exact sameNode_cfg _ _ rfl rfl rfl
  | cfgFileLog logFile verbosity => exact sameNode_cfg _ _ rfl rfl rfl
  | cfgCustomLog tracing => exact sameNode_cfg _ _ rfl rfl rfl
  | cfgNoLog => exact sameNode_cfg _ _ rfl rfl rfl
  | start env => exact hc.elim
  | endNode => exact hc.elim

lemma traceInit_spec {env : Environment V} {data data' : AmareleoApiData V}
    (h : data.traceInit env = .ok data') : ∃ tracing, data' = { data with tracing } := by
  unfold AmareleoApiData.traceInit at h
  split at h
  · split at h
    · cases h
    · next path _ =>
      cases htracing : env.initializeTracing data.verbosity path with
      | error e => simp [htracing, Except.map] at h
      | ok tracing =>
        simp only [htracing, Except.map, Except.ok.injEq] at h
        exact ⟨_, h.symm⟩
  · exact ⟨_, (Except.ok.inj h).symm⟩
  · exact ⟨_, (Except.ok.inj h).symm⟩

lemma startPrep_cases (env : Environment V) (a : AmareleoApi V) :
    (∃ e a', a.startPrep env = (.error e, a') ∧ SameNode a a') ∨
    (∃ new a', a.startPrep env = (.ok new, a') ∧ a'.data.state = .startPending ∧
      a'.data.prevState = a.data.state ∧ a'.cells = a.cells ∧
      a'.data.shutdown = a.data.shutdown ∧ a'.data.validator = a.data.validator ∧
      new.shutdown = a.data.shutdown) := by
  unfold startPrep
  split
  · exact .inl ⟨_, _, rfl, rfl, rfl, rfl, rfl⟩
  · split
    · exact .inl ⟨_, _, rfl, rfl, rfl, rfl, rfl⟩
    · split
      · exact .inl ⟨_, _, rfl, rfl, rfl, rfl, rfl⟩
      · next data hdata =>
        obtain ⟨tracing, rfl⟩ := traceInit_spec hdata
        split
        · exact .inl ⟨_, _, rfl, rfl, rfl, rfl, rfl⟩
        · exact .inr ⟨_, _, rfl, rfl, rfl, rfl, rfl, rfl, rfl⟩

lemma validator_new {env : Environment V} {c : Cells} {data : ValidatorNewData}
    {vapi : ValidatorApi V} (h : ValidatorApi.new env c data = .ok vapi) :
    ∃ v, vapi.validator = some v ∧ v.shutdown = data.shutdown ∧
      v.ledgerShutdown = data.shutdown := by
  have hnew : ∀ {account genesis} {v : Validator V},
      Validator.new env c data account genesis = .ok v →
        v.shutdown = data.shutdown ∧ v.ledgerShutdown = data.shutdown := by
    intro account genesis v hv
    unfold Validator.new at hv
    dsimp only at hv
    repeat' split at hv
    all_goals cases hv
    exact ⟨rfl, rfl⟩
  unfold ValidatorApi.new at h
  split at h
  · split at h
    · cases h
    · split at h
      · cases h
      · split at h
        · cases h
        · next validator hv =>
          split at h
          · cases h
            exact ⟨validator, rfl, hnew hv⟩
          · split at h <;> cases h <;> exact ⟨validator, rfl, hnew hv⟩
  · cases h

/-- What a call can do: change settings only, start the node, leave it pending when it panics, or
stop it. -/
theorem call_cases (a : AmareleoApi V) (c : Call V) :
    (SameNode a (a.call c).2 ∧ (c = .endNode → a.data.state ≠ .started)) ∨
    (c ≠ .endNode ∧ (a.call c).2.data.state = .started ∧ (a.call c).2.cells = a.cells ∧
      (a.call c).2.data.shutdown = a.data.shutdown ∧
      ∃ v, (a.call c).2.data.validator.validator = some v ∧ v.shutdown = a.data.shutdown ∧
        v.ledgerShutdown = a.data.shutdown) ∨
    (c ≠ .endNode ∧ (a.call c).2.data.state = .startPending ∧ (a.call c).2.cells = a.cells ∧
      (a.call c).2.data.shutdown = a.data.shutdown ∧
      (a.call c).2.data.validator = a.data.validator) ∨
    (c = .endNode ∧ a.data.state = .started ∧ (a.call c).2.data.state = .stopped ∧
      (a.call c).2.cells = a.data.validator.shutDown a.cells ∧
      (a.call c).2.data.shutdown = a.data.shutdown ∧
      (a.call c).2.data.validator = .none) := by
  cases c with
  | start env =>
    simp only [call, start]
    rcases startPrep_cases env a with
      ⟨e, a', hprep, hsame⟩ | ⟨new, a', hprep, hstate, hprev, hcells, hshutdown, hval, hnew⟩
    · rw [hprep]
      exact .inl ⟨hsame, by simp⟩
    · rw [hprep]
      dsimp only
      cases hvapi : ValidatorApi.new env a'.cells new with
      | error f =>
        cases f with
        | error e => exact .inl ⟨⟨hcells, hprev, hshutdown, hval⟩, by simp⟩
        | panicked e => exact .inr (.inr (.inl ⟨by simp, hstate, hcells, hshutdown, hval⟩))
      | ok vapi =>
        obtain ⟨v, hv, hv₁, hv₂⟩ := validator_new hvapi
        refine .inr (.inl ⟨by simp, rfl, hcells, hshutdown, v, hv, ?_, ?_⟩)
        · rw [hv₁, hnew]
        · rw [hv₂, hnew]
  | endNode =>
    simp only [call, fallible, endNode, endPrep]
    by_cases hstate : a.data.state = .started
    · rw [if_neg (not_not_intro hstate)]
      exact .inr (.inr (.inr ⟨trivial, hstate, rfl, rfl, rfl, rfl⟩))
    · rw [if_pos hstate]
      exact .inl ⟨⟨rfl, rfl, rfl, rfl⟩, fun _ => hstate⟩
  | _ => exact .inl ⟨sameNode_setter a trivial, by simp⟩

lemma Linked.call {a : AmareleoApi V} (ha : a.Linked) (c : Call V) : (a.call c).2.Linked := by
  rcases a.call_cases c with ⟨hsame, -⟩ | ⟨-, -, hcells, hshutdown, v, hv, hv₁, hv₂⟩ |
    ⟨-, hpending, hcells, hshutdown, hval⟩ | ⟨-, hstate, hstate', hcells, hshutdown, hval⟩
  · exact hsame.linked ha
  · constructor
    · rw [hcells, hshutdown]
      exact ha.allocated
    · intro w hw
      rw [hv] at hw
      cases hw
      rw [hshutdown]
      exact ⟨hv₁, hv₂⟩
    · exact fun _ => ⟨v, hv⟩
  · constructor
    · rw [hcells, hshutdown]
      exact ha.allocated
    · rw [hval, hshutdown]
      exact ha.shared
    · intro h
      rw [hpending] at h
      cases h
  · obtain ⟨v, hv⟩ := ha.running hstate
    constructor
    · rw [hcells, hshutdown, ValidatorApi.shutDown, hv]
      simpa [Validator.shutDown] using ha.allocated
    · intro w hw
      rw [hval] at hw
      cases hw
    · intro h
      rw [hstate'] at h
      cases h

/-- The flag of the node after a call: set once the call stops the node. -/
lemma Linked.load_call {a : AmareleoApi V} (ha : a.Linked) (c : Call V) :
    (a.call c).2.cells.load (a.call c).2.data.shutdown = true ↔
      a.cells.load a.data.shutdown = true ∨ (c = .endNode ∧ a.data.state = .started) := by
  have hother : c ≠ .endNode → (a.call c).2.cells = a.cells →
      (a.call c).2.data.shutdown = a.data.shutdown →
      ((a.call c).2.cells.load (a.call c).2.data.shutdown = true ↔
        a.cells.load a.data.shutdown = true ∨ (c = .endNode ∧ a.data.state = .started)) := by
    intro hne hcells hshutdown
    rw [hcells, hshutdown]
    exact ⟨.inl, fun h => h.resolve_right fun hc => hne hc.1⟩
  rcases a.call_cases c with ⟨hsame, hend⟩ | ⟨hne, -, hcells, hshutdown, -⟩ |
    ⟨hne, -, hcells, hshutdown, -⟩ | ⟨hend, hstate, -, hcells, hshutdown, -⟩
  · rw [hsame.cells, hsame.shutdown]
    constructor
    · exact .inl
    · rintro (h | ⟨hc, hstate⟩)
      · exact h
      · exact absurd hstate (hend hc)
  · exact hother hne hcells hshutdown
  · exact hother hne hcells hshutdown
  · obtain ⟨v, hv⟩ := ha.running hstate
    have hflag := (ha.shared v hv).1
    rw [hcells, hshutdown, ValidatorApi.shutDown, hv]
    dsimp only
    rw [Validator.shutDown, hflag, Cells.load_store ha.allocated]
    simp [hend, hstate]

lemma run_concat (calls : List (Call V)) (c : Call V) :
    run (calls ++ [c]) = ((run calls).call c).2 := by
  simp [run]

/-- Some call of the history stopped the node. -/
def Stopped (calls : List (Call V)) : Prop :=
  ∃ pre post, calls = pre ++ .endNode :: post ∧ (run pre).data.state = .started

lemma stopped_concat (calls : List (Call V)) (c : Call V) :
    Stopped (calls ++ [c]) ↔
      Stopped calls ∨ (c = .endNode ∧ (run calls).data.state = .started) := by
  constructor
  · rintro ⟨pre, post, heq, hstate⟩
    rcases List.eq_nil_or_concat post with rfl | ⟨init, d, rfl⟩
    · obtain ⟨rfl, hc⟩ := List.append_inj' heq rfl
      exact .inr ⟨List.head_eq_of_cons_eq hc, hstate⟩
    · rw [List.concat_eq_append, ← List.cons_append, ← List.append_assoc] at heq
      exact .inl ⟨pre, init, (List.append_inj' heq rfl).1, hstate⟩
  · rintro (⟨pre, post, rfl, hstate⟩ | ⟨rfl, hstate⟩)
    · exact ⟨pre, post ++ [c], by simp, hstate⟩
    · exact ⟨calls, [], rfl, hstate⟩

lemma linked_run (calls : List (Call V)) : (run calls).Linked := by
  induction calls using List.reverseRecOn with
  | nil =>
    constructor
    · exact Nat.one_pos
    · intro v hv
      cases hv
    · intro h
      cases h
  | append_singleton calls c ih =>
    rw [run_concat]
    exact ih.call c

lemma load_run (calls : List (Call V)) :
    (run calls).cells.load (run calls).data.shutdown = true ↔ Stopped calls := by
  induction calls using List.reverseRecOn with
  | nil =>
    have hfalse : (run (V := V) []).cells.load (run (V := V) []).data.shutdown = false := rfl
    rw [hfalse]
    constructor
    · intro h
      cases h
    · rintro ⟨pre, post, heq, -⟩
      simp at heq
  | append_singleton calls c ih =>
    rw [run_concat, (linked_run calls).load_call, stopped_concat, ih]

/-- **A started node can advance the ledger** exactly when no call before has stopped it: the
flag is shared by all the validators of the node object, and is never lowered. -/
theorem started_can_advance [Ledger V] (calls : List (Call V))
    (hstarted : (run calls).data.state = .started) :
    ∃ l, (run calls).ledgerService = some l ∧ (l.shutdown = false ↔ ¬ Stopped calls) ∧
      (Stopped calls → ∀ block, l.advanceToNextBlock block = (.error
        s!"Skipping advancing to block {block.height} - The node is shutting down", l)) := by
  have hlinked := linked_run calls
  obtain ⟨v, hv⟩ := hlinked.running hstarted
  have hflag : (v.ledgerService (run calls).cells).shutdown = true ↔ Stopped calls := by
    rw [Validator.ledgerService, (hlinked.shared v hv).2]
    exact load_run calls
  refine ⟨v.ledgerService (run calls).cells, by rw [ledgerService, hv]; rfl, ?_,
    fun hstop block => ?_⟩
  · rw [← hflag, Bool.not_eq_true]
  · rw [CoreLedgerService.advanceToNextBlock, if_pos (hflag.mpr hstop)]

section Example

/-- A machine on which everything succeeds. -/
def developmentEnvironment : Environment Chain where
  endpointFileTag _ _ := .ok "0"
  currentDir := ⟨[]⟩
  tempDir := ⟨.ofString "tmp"⟩
  initializeTracing verbosity _ := .ok ⟨verbosity⟩
  cleanTmpLedger _ := .ok ()
  getNodeAccount _ := .ok (developmentAccount 0)
  getGenesis _ := .ok ⟨0, 0, .beacon, [], [], [], []⟩
  loadLedger genesis _ := .ok ⟨[genesis]⟩
  newConsensus _ _ _ := .ok ()
  runConsensus _ l := .ok l.ledger
  governorFinish period burstSize := period ≠ 0 && burstSize ≠ 0
  bindRest _ := .ok ()

/-- Started, stopped, and started again. -/
def restartCalls : List (Call Chain) :=
  [.start developmentEnvironment, .endNode, .start developmentEnvironment]

theorem started_can_advance_example :
    ∃ l, (run restartCalls).ledgerService = some l ∧
      (l.shutdown = false ↔ ¬ Stopped restartCalls) ∧
      (Stopped restartCalls → ∀ block, l.advanceToNextBlock block = (.error
        s!"Skipping advancing to block {block.height} - The node is shutting down", l)) :=
  started_can_advance restartCalls (by decide +kernel)

/-- After a restart no block is added. -/
theorem restarted_cannot_advance :
    ¬ ∀ calls : List (Call Chain), (run calls).data.state = .started →
      ∃ l, (run calls).ledgerService = some l ∧ l.shutdown = false := by
  intro hall
  obtain ⟨l, hl, hfalse⟩ := hall restartCalls (by decide +kernel)
  have htrue : (run restartCalls).ledgerService.map CoreLedgerService.shutdown = some true := by
    decide +kernel
  rw [hl, Option.map_some, hfalse] at htrue
  cases htrue

end Example

end AmareleoApi

end AmareleoChain
