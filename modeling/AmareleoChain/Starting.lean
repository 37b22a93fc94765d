import AmareleoChain.Lifecycle

/-!
How a start ends.

An error is answered by reverting the state, whichever step it comes from. The rate limit of the
REST server divides by the configured rate, after consensus was started, and a rate of zero is
accepted by the setter; the panic then leaves the node pending for good.
-/

namespace AmareleoChain

namespace AmareleoApi

variable {V : Type} {env : Environment V} {a : AmareleoApi V}

/-- All that a start does before the REST server succeeds. -/
structure ReachesRest (env : Environment V) (a : AmareleoApi V) : Prop where
  reaches : ∃ data a' account genesis ledger ledger', a.startPrep env = (.ok data, a') ∧
    isValidNetworkId data.networkId = true ∧
    env.getNodeAccount data.networkId = .ok account ∧
    env.getGenesis data.networkId = .ok genesis ∧
    env.loadLedger genesis data.storageMode = .ok ledger ∧
    env.newConsensus account data.keepState data.storageMode = .ok () ∧
    env.runConsensus account
      ((⟨ledger, data.shutdown, data.shutdown⟩ : Validator V).ledgerService a'.cells) = .ok ledger'

/-- A start ends with the node started, or with an error in the state it was called from; the
node is not left pending. -/
structure StartsCleanly (env : Environment V) (a : AmareleoApi V) : Prop where
  outcome : ((a.start env).1 = .ok () ∧ (a.start env).2.data.state = .started) ∨
    ∃ e, (a.start env).1 = .error (.error e) ∧ (a.start env).2.data.state = a.data.state
  not_pending : (a.start env).2.data.state ≠ .startPending

/-! ### One start -/

lemma restRps_startPrep {data : ValidatorNewData} {a' : AmareleoApi V}
    (h : a.startPrep env = (.ok data, a')) : data.restRps = a.data.restRps := by
  unfold startPrep at h
  split at h
  · cases h
  · split at h
    · cases h
    · split at h
      · cases h
      · next data' hdata =>
        obtain ⟨tracing, rfl⟩ := traceInit_spec hdata
        split at h <;> cases h
        rfl

lemma validator_new_panicked {c : Cells} {data : ValidatorNewData} :
    (∃ e, ValidatorApi.new env c data = .error (.panicked e)) ↔
      data.restRps = 0 ∧ isValidNetworkId data.networkId = true ∧
      ∃ account genesis ledger ledger', env.getNodeAccount data.networkId = .ok account ∧
        env.getGenesis data.networkId = .ok genesis ∧
        env.loadLedger genesis data.storageMode = .ok ledger ∧
        env.newConsensus account data.keepState data.storageMode = .ok () ∧
        env.runConsensus account
          ((⟨ledger, data.shutdown, data.shutdown⟩ : Validator V).ledgerService c)
            = .ok ledger' := by
  unfold ValidatorApi.new Validator.new spawnServer
  by_cases hnet : isValidNetworkId data.networkId = true
  · rw [if_pos hnet]
    rcases env.getNodeAccount data.networkId with e | account
    · simp
    rcases env.getGenesis data.networkId with e | genesis
    · simp
    rcases hledger : env.loadLedger genesis data.storageMode with e | ledger
    · simp [hledger]
    rcases hnew : env.newConsensus account data.keepState data.storageMode with e | ⟨⟩
    · simp [hledger, hnew]
    rcases hrun : env.runConsensus account
      ((⟨ledger, data.shutdown, data.shutdown⟩ : Validator V).ledgerService c) with e | ledger'
    · simp [hledger, hnew, hrun]
    by_cases hrps : data.restRps = 0
    · simp [hledger, hnew, hrun, hnet, hrps]
    · dsimp only
      rw [if_neg hrps]
      constructor
      · rintro ⟨e, he⟩
        cases env.governorFinish (1000000000 / data.restRps) data.restRps <;>
          cases env.bindRest data.restIp <;> simp [orFail, Except.mapError] at he <;>
          grind
      · exact fun h => absurd h.1 hrps
  · simp [hnet]

/-- **How a start ends**: started, with an error in the state it was called from, or with a
panic in the pending state. -/
theorem start_cases (env : Environment V) (a : AmareleoApi V) :
    ((a.start env).1 = .ok () ∧ (a.start env).2.data.state = .started) ∨
    (∃ e, (a.start env).1 = .error (.error e) ∧ (a.start env).2.data.state = a.data.state) ∨
    (∃ e, (a.start env).1 = .error (.panicked e) ∧
      (a.start env).2.data.state = .startPending ∧ a.data.restRps = 0 ∧ ReachesRest env a) := by
  rcases startPrep_cases env a with
    ⟨e, a', hprep, hsame⟩ | ⟨data, a', hprep, hpending, hprev, -, -, -, -⟩
  · rw [start, hprep]
    exact .inr (.inl ⟨e, rfl, hsame.state⟩)
  · rw [start, hprep]
    dsimp only
    cases hnew : ValidatorApi.new env a'.cells data with
    | ok vapi => exact .inl ⟨rfl, rfl⟩
    | error f =>
      cases f with
      | error e => exact .inr (.inl ⟨e, rfl, hprev⟩)
      | panicked e =>
        obtain ⟨hrps, hnet, account, genesis, ledger, ledger', hall⟩ :=
          validator_new_panicked.mp ⟨e, hnew⟩
        rw [restRps_startPrep hprep] at hrps
        exact .inr (.inr ⟨e, rfl, hpending, hrps,
          ⟨data, a', account, genesis, ledger, ledger', hprep, hnet, hall⟩⟩)

lemma start_panicked (hreach : ReachesRest env a) (hrps : a.data.restRps = 0) :
    ∃ e, (a.start env).1 = .error (.panicked e) := by
  obtain ⟨data, a', account, genesis, ledger, ledger', hprep, hnet, hall⟩ := hreach
  rw [← restRps_startPrep hprep] at hrps
  obtain ⟨e, he⟩ := validator_new_panicked.mpr
    ⟨hrps, hnet, account, genesis, ledger, ledger', hall⟩
  rw [start, hprep]
  dsimp only
  rw [he]
  exact ⟨e, rfl⟩

/-- A pending node refuses every call. -/
theorem pending_refuses (h : a.data.state = .startPending) (c : Call V) :
    ∃ e, a.call c = (.error (.error e), a) := by
  have hcfg : ∀ (states : List AmareleoApiState) (set : AmareleoApiData V → AmareleoApiData V),
      .startPending ∉ states → cfg states set a = (.error a.invalidState, a) := by
    intro states set hstates
    rw [cfg, h, if_neg hstates]
  cases c with
  | cfgNetwork networkId => exact ⟨_, by simp [call, fallible, cfgNetwork, h, orFail]; rfl⟩
  | cfgRest ipPort rps => exact ⟨_, by simp [call, fallible, cfgRest, hcfg, orFail]; rfl⟩
  | cfgLedger keepState path naming =>
    exact ⟨_, by simp [call, fallible, cfgLedger, hcfg, orFail]; rfl⟩
  | cfgFileLog logFile verbosity =>
    exact ⟨_, by simp [call, fallible, cfgFileLog, hcfg, orFail]; rfl⟩
  | cfgCustomLog tracing => exact ⟨_, by simp [call, fallible, cfgCustomLog, hcfg, orFail]; rfl⟩
  | cfgNoLog => exact ⟨_, by simp [call, fallible, cfgNoLog, hcfg, orFail]; rfl⟩
  | start env => exact ⟨_, by simp [call, start, startPrep, h]; rfl⟩
  | endNode => exact ⟨_, by simp [call, fallible, endNode, endPrep, h, orFail]; rfl⟩

/-! ### A start after some settings -/

lemma run_setters (calls : List (Call V)) (h : ∀ c ∈ calls, c.IsSetter) :
    (run calls).data.state = .init := by
  induction calls using List.reverseRecOn with
  | nil => rfl
  | append_singleton calls c ih =>
    rw [List.forall_mem_append, List.forall_mem_singleton] at h
    rw [run_concat, (sameNode_setter _ h.2).state]
    exact ih h.1

/-- **A configured node starts cleanly** exactly when its rate is not zero, or something fails
before the REST server is reached. -/
theorem starts_cleanly_iff (calls : List (Call V)) (hcalls : ∀ c ∈ calls, c.IsSetter)
    (env : Environment V) :
    StartsCleanly env (run calls) ↔
      (run calls).data.restRps ≠ 0 ∨ ¬ ReachesRest env (run calls) := by
  have hinit := run_setters calls hcalls
  constructor
  · intro h
    by_contra hne
    rw [not_or, not_not, not_not] at hne
    obtain ⟨e, he⟩ := start_panicked hne.2 hne.1
    rcases h.outcome with ⟨hok, -⟩ | ⟨e', herr, -⟩
    · rw [he] at hok
      cases hok
    · rw [he] at herr
      cases herr
  · intro h
    rcases start_cases env (run calls) with ⟨hok, hstate⟩ | ⟨e, herr, hstate⟩ |
      ⟨e, -, -, hrps, hreach⟩
    · exact ⟨.inl ⟨hok, hstate⟩, by simp [hstate]⟩
    · exact ⟨.inr ⟨e, herr, hstate⟩, by simp [hstate, hinit]⟩
    · exact absurd h (by simp [hrps, hreach])

section Example

/-- A rate of zero is set. -/
def zeroRateCalls : List (Call Chain) := [.cfgRest ⟨"0.0.0.0", 3030⟩ 0]

/-- The node cannot be bound to its address. -/
def portInUse : Environment Chain :=
  { developmentEnvironment with bindRest := fun _ => .error "Failed to bind to 0.0.0.0:3030" }

theorem starts_cleanly_iff_example :
    StartsCleanly portInUse (run [.cfgRest ⟨"0.0.0.0", 3030⟩ 5, .cfgNoLog]) :=
  (starts_cleanly_iff [.cfgRest ⟨"0.0.0.0", 3030⟩ 5, .cfgNoLog] (by simp [Call.IsSetter])
    portInUse).mpr (.inl (by decide +kernel))

/-- The start panics, and the node is left pending. -/
theorem zero_rate_stuck :
    ¬ ∀ (calls : List (Call Chain)), (∀ c ∈ calls, c.IsSetter) →
      (∀ n (hn : n < calls.length), ((run (calls.take n)).call calls[n]).1 = .ok ()) →
      ∀ env, StartsCleanly env (run calls) := by
  intro hall
  have hclean := hall zeroRateCalls (by simp [zeroRateCalls, Call.IsSetter])
    (by
      intro n hn
      obtain rfl : n = 0 := by simpa [zeroRateCalls] using hn
      rfl) developmentEnvironment
  have hpending : ((run zeroRateCalls).start developmentEnvironment).2.data.state
      = .startPending := by decide +kernel
  exact hclean.not_pending hpending

end Example

end AmareleoApi

end AmareleoChain
