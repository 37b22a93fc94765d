import AmareleoChain.Starting

/-!
The lifecycle of the node under concurrent callers.

Any number of calls of `start` and `end` can be under way, each between two of its steps under the
lock. The validators that run are those that were created and not shut down yet.
-/

namespace AmareleoChain

open Relation

/-- The settings of the network, the REST server and the ledger. -/
structure Settings where
  networkId : ℕ
  restIp : SocketAddr
  restRps : ℕ
  keepState : Bool
  ledgerBasePath : Option PathBuf
  ledgerDefaultNaming : Bool

def AmareleoApiData.settings {V : Type} (data : AmareleoApiData V) : Settings where
  networkId := data.networkId
  restIp := data.restIp
  restRps := data.restRps
  keepState := data.keepState
  ledgerBasePath := data.ledgerBasePath
  ledgerDefaultNaming := data.ledgerDefaultNaming

/-- A call of `start` or `end` between its preparation and its completion. A start remembers the
state it was called from, and the settings it was prepared with. -/
inductive InFlight (V : Type) where
  | starting (origin : AmareleoApiState) (settings : Settings) (data : ValidatorNewData)
  | created (origin : AmareleoApiState) (settings : Settings) (vapi : ValidatorApi V)
  | failed (origin : AmareleoApiState) (settings : Settings)
  | ending (vapi : ValidatorApi V)
  | shut

/-- The node object, the calls under way, and the validators that run. -/
structure Concurrent (V : Type) where
  api : AmareleoApi V
  inFlight : List (InFlight V)
  running : List (ValidatorApi V)

namespace Concurrent

open AmareleoApi

variable {V : Type}

def new : Concurrent V := ⟨AmareleoApi.new, [], []⟩

open Classical in
/-- One step of one caller. -/
inductive Step : Concurrent V → Concurrent V → Prop
  | setter (s : Concurrent V) {c : Call V} : c.IsSetter →
      Step s { s with api := (s.api.call c).2 }
  | startPrep (s : Concurrent V) {env : Environment V} {data : ValidatorNewData}
      {a : AmareleoApi V} : s.api.startPrep env = (.ok data, a) →
      Step s { s with
        api := a
        inFlight := .starting s.api.data.state s.api.data.settings data :: s.inFlight }
  | startRefused (s : Concurrent V) {env : Environment V} {e : String} {a : AmareleoApi V} :
      s.api.startPrep env = (.error e, a) → Step s { s with api := a }
  | create (s : Concurrent V) {env : Environment V} {data : ValidatorNewData}
      {vapi : ValidatorApi V} {origin : AmareleoApiState} {settings : Settings}
      {pre post : List (InFlight V)} :
      s.inFlight = pre ++ .starting origin settings data :: post →
      ValidatorApi.new env s.api.cells data = .ok vapi →
      Step s { s with
        inFlight := pre ++ .created origin settings vapi :: post
        running := vapi :: s.running }
  | fail (s : Concurrent V) {env : Environment V} {data : ValidatorNewData} {e : String}
      {origin : AmareleoApiState} {settings : Settings} {pre post : List (InFlight V)} :
      s.inFlight = pre ++ .starting origin settings data :: post →
      ValidatorApi.new env s.api.cells data = .error (.error e) →
      Step s { s with inFlight := pre ++ .failed origin settings :: post }
  | startComplete (s : Concurrent V) {vapi : ValidatorApi V} {origin : AmareleoApiState}
      {settings : Settings} {pre post : List (InFlight V)} :
      s.inFlight = pre ++ .created origin settings vapi :: post →
      Step s { s with api := s.api.startComplete vapi, inFlight := pre ++ post }
  | startRevert (s : Concurrent V) {origin : AmareleoApiState} {settings : Settings}
      {pre post : List (InFlight V)} : s.inFlight = pre ++ .failed origin settings :: post →
      Step s { s with api := s.api.startRevert, inFlight := pre ++ post }
  | endPrep (s : Concurrent V) {vapi : ValidatorApi V} {a : AmareleoApi V} :
      s.api.endPrep = (.ok vapi, a) →
      Step s { s with api := a, inFlight := .ending vapi :: s.inFlight }
  | endRefused (s : Concurrent V) {e : String} {a : AmareleoApi V} :
      s.api.endPrep = (.error e, a) → Step s { s with api := a }
  | shutDown (s : Concurrent V) {vapi : ValidatorApi V} {pre post : List (InFlight V)} :
      s.inFlight = pre ++ .ending vapi :: post →
      Step s
        { api := { s.api with cells := vapi.shutDown s.api.cells }
          inFlight := pre ++ .shut :: post
          running := s.running.erase vapi }
  | endComplete (s : Concurrent V) {pre post : List (InFlight V)} :
      s.inFlight = pre ++ .shut :: post →
      Step s { s with api := s.api.endComplete, inFlight := pre ++ post }

def Reachable (s : Concurrent V) : Prop := ReflTransGen Step new s

/-! ### What holds in each state -/

/-- The calls under way, the validators that run and the one that is held, by the state of the
node. -/
inductive Sound (s : Concurrent V) : Prop
  | idle : s.api.data.state = .init ∨ s.api.data.state = .stopped →
      s.api.data.validator = .none → s.inFlight = [] → s.running = [] → Sound s
  | starting (data : ValidatorNewData) : s.api.data.state = .startPending →
      s.api.data.prevState = .init ∨ s.api.data.prevState = .stopped →
      s.api.data.validator = .none →
      s.inFlight = [.starting s.api.data.prevState s.api.data.settings data] →
      s.running = [] → Sound s
  | created (vapi : ValidatorApi V) : s.api.data.state = .startPending →
      s.api.data.prevState = .init ∨ s.api.data.prevState = .stopped →
      s.api.data.validator = .none → vapi ≠ .none →
      s.inFlight = [.created s.api.data.prevState s.api.data.settings vapi] →
      s.running = [vapi] → Sound s
  | failed : s.api.data.state = .startPending →
      s.api.data.prevState = .init ∨ s.api.data.prevState = .stopped →
      s.api.data.validator = .none →
      s.inFlight = [.failed s.api.data.prevState s.api.data.settings] → s.running = [] → Sound s
  | started : s.api.data.state = .started → s.api.data.validator ≠ .none →
      s.inFlight = [] → s.running = [s.api.data.validator] → Sound s
  | ending : s.api.data.state = .stopPending → s.api.data.validator ≠ .none →
      s.inFlight = [.ending s.api.data.validator] → s.running = [s.api.data.validator] → Sound s
  | shut : s.api.data.state = .stopPending → s.api.data.validator ≠ .none →
      s.inFlight = [.shut] → s.running = [] → Sound s

/-- How the state of the node can move in one step. -/
inductive Moves (s s' : Concurrent V) : Prop
  | stays : s'.api.data.state = s.api.data.state → Moves s s'
  | starts : s.api.data.state = .init ∨ s.api.data.state = .stopped →
      s'.api.data.state = .startPending → Moves s s'
  | completes : s.api.data.state = .startPending → s'.api.data.state = .started → Moves s s'
  /-- Back to the state that the failed start was called from. -/
  | reverts {settings : Settings} : s.api.data.state = .startPending →
      .failed s'.api.data.state settings ∈ s.inFlight → Moves s s'
  | ends : s.api.data.state = .started → s'.api.data.state = .stopPending → Moves s s'
  | stops : s.api.data.state = .stopPending → s'.api.data.state = .stopped → Moves s s'

lemma append_cons_eq_singleton {α : Type} {pre post : List α} {x y : α}
    (h : [x] = pre ++ y :: post) : pre = [] ∧ y = x ∧ post = [] := by
  cases pre with
  | nil =>
    cases h
    exact ⟨rfl, rfl, rfl⟩
  | cons z pre => simp at h

/-- The lifecycle is left alone, and so are the settings unless the node is in its first state. -/
structure Untouched (a a' : AmareleoApi V) : Prop where
  state : a'.data.state = a.data.state
  prevState : a'.data.prevState = a.data.prevState
  validator : a'.data.validator = a.data.validator
  settings : a.data.state ≠ .init → a'.data.settings = a.data.settings

lemma untouched_setter (a : AmareleoApi V) {c : Call V} (hc : c.IsSetter) :
    Untouched a (a.call c).2 := by
  have hcfg : ∀ (states : List AmareleoApiState) (set : AmareleoApiData V → AmareleoApiData V),
      Untouched a { a with data := set a.data } ∨ (a.data.state ∈ states →
        Untouched a { a with data := set a.data }) → Untouched a (cfg states set a).2 := by
    intro states set h
    unfold cfg
    split
    · next hmem => exact h.elim id fun h => h hmem
    · exact ⟨rfl, rfl, rfl, fun _ => rfl⟩
  have hinit : ∀ set : AmareleoApiData V → AmareleoApiData V,
      (set a.data).state = a.data.state → (set a.data).prevState = a.data.prevState →
      (set a.data).validator = a.data.validator → Untouched a (cfg [.init] set a).2 := by
    intro set hstate hprev hvalidator
    refine hcfg _ _ (.inr fun hmem => ⟨hstate, hprev, hvalidator, fun hne => ?_⟩)
    exact absurd (List.mem_singleton.mp hmem) hne
  cases c with
  | cfgNetwork networkId =>
    rw [call, fallible, cfgNetwork]
    split
    · exact ⟨rfl, rfl, rfl, fun _ => rfl⟩
    next hstate =>
    split
    · exact ⟨rfl, rfl, rfl, fun _ => rfl⟩
    · exact ⟨rfl, rfl, rfl, fun hne => absurd hne hstate⟩
  | cfgRest ipPort rps => exact hinit _ rfl rfl rfl
  | cfgLedger keepState basePath naming => exact hinit _ rfl rfl rfl
  | cfgFileLog logFile verbosity => exact hcfg _ _ (.inl ⟨rfl, rfl, rfl, fun _ => rfl⟩)
  | cfgCustomLog tracing => exact hcfg _ _ (.inl ⟨rfl, rfl, rfl, fun _ => rfl⟩)
  | cfgNoLog => exact hcfg _ _ (.inl ⟨rfl, rfl, rfl, fun _ => rfl⟩)
  | start env => exact hc.elim
  | endNode => exact hc.elim

/-- A preparation that is refused touches the tracing only; one that is not is made in one of two
states, which it remembers. -/
lemma startPrep_settings (env : Environment V) (a : AmareleoApi V) :
    (∃ e a', a.startPrep env = (.error e, a') ∧ Untouched a a') ∨
    (∃ data a', a.startPrep env = (.ok data, a') ∧
      (a.data.state = .init ∨ a.data.state = .stopped) ∧ a'.data.state = .startPending ∧
      a'.data.prevState = a.data.state ∧ a'.data.validator = a.data.validator ∧
      a'.data.settings = a.data.settings) := by
  have hrefused : ∀ e, ∃ e' a', ((.error e, a) : Except String ValidatorNewData × AmareleoApi V)
      = (.error e', a') ∧ Untouched a a' := fun e => ⟨e, a, rfl, rfl, rfl, rfl, fun _ => rfl⟩
  unfold startPrep
  split
  · exact .inl (hrefused _)
  next hstate =>
  have hstate : a.data.state = .init ∨ a.data.state = .stopped := by
    simpa using not_not.mp hstate
  split
  · exact .inl (hrefused _)
  split
  · exact .inl (hrefused _)
  next data hdata =>
  obtain ⟨tracing, rfl⟩ := traceInit_spec hdata
  split
  · exact .inl ⟨_, _, rfl, rfl, rfl, rfl, fun _ => rfl⟩
  · exact .inr ⟨_, _, rfl, hstate, rfl, rfl, rfl, rfl⟩

/-! ### Steps -/

variable {s s' : Concurrent V}

lemma Sound.untouched (h : s.Sound) {a : AmareleoApi V} (ha : Untouched s.api a) :
    Sound { s with api := a } := by
  obtain ⟨hstate, hprev, hvalidator, hsettings⟩ := ha
  have hsame : s.api.data.state = .startPending → a.data.settings = s.api.data.settings :=
    fun h => hsettings (by rw [h]; simp)
  cases h with
  | idle h₁ h₂ h₃ h₄ => exact .idle (by rwa [hstate]) (by rwa [hvalidator]) h₃ h₄
  | starting data h₁ h₂ h₃ h₄ h₅ =>
    exact .starting data (by rwa [hstate]) (by rwa [hprev]) (by rwa [hvalidator])
      (by rw [hprev, hsame h₁]; exact h₄) h₅
  | created vapi h₁ h₂ h₃ h₄ h₅ h₆ =>
    exact .created vapi (by rwa [hstate]) (by rwa [hprev]) (by rwa [hvalidator]) h₄
      (by rw [hprev, hsame h₁]; exact h₅) h₆
  | failed h₁ h₂ h₃ h₄ h₅ =>
    exact .failed (by rwa [hstate]) (by rwa [hprev]) (by rwa [hvalidator])
      (by rw [hprev, hsame h₁]; exact h₄) h₅
  | started h₁ h₂ h₃ h₄ =>
    exact .started (by rwa [hstate]) (by rwa [hvalidator]) h₃ (by rwa [hvalidator])
  | ending h₁ h₂ h₃ h₄ =>
    exact .ending (by rwa [hstate]) (by rwa [hvalidator]) (by rwa [hvalidator])
      (by rwa [hvalidator])
  | shut h₁ h₂ h₃ h₄ => exact .shut (by rwa [hstate]) (by rwa [hvalidator]) h₃ h₄

lemma Sound.only (h : s.Sound) {p : InFlight V} {pre post : List (InFlight V)}
    (hp : s.inFlight = pre ++ p :: post) : pre = [] ∧ post = [] ∧ s.inFlight = [p] := by
  have hone : ∀ q, s.inFlight = [q] → pre = [] ∧ post = [] ∧ s.inFlight = [p] := by
    intro q hq
    rw [hq] at hp
    obtain ⟨hpre, rfl, hpost⟩ := append_cons_eq_singleton hp
    exact ⟨hpre, hpost, hq⟩
  have hnone : s.inFlight = [] → pre = [] ∧ post = [] ∧ s.inFlight = [p] := by
    intro hnil
    rw [hnil] at hp
    simp at hp
  cases h with
  | idle _ _ h => exact hnone h
  | starting _ _ _ _ h => exact hone _ h
  | created _ _ _ _ _ h => exact hone _ h
  | failed _ _ _ h => exact hone _ h
  | started _ _ h => exact hnone h
  | ending _ _ h => exact hone _ h
  | shut _ _ h => exact hone _ h

lemma Sound.of_idle (h : s.Sound)
    (hstate : s.api.data.state = .init ∨ s.api.data.state = .stopped) :
    s.api.data.validator = .none ∧ s.inFlight = [] ∧ s.running = [] := by
  cases h with
  | idle _ h₂ h₃ h₄ => exact ⟨h₂, h₃, h₄⟩
  | starting _ h₁ => simp [h₁] at hstate
  | created _ h₁ => simp [h₁] at hstate
  | failed h₁ => simp [h₁] at hstate
  | started h₁ => simp [h₁] at hstate
  | ending h₁ => simp [h₁] at hstate
  | shut h₁ => simp [h₁] at hstate

lemma Sound.of_started (h : s.Sound) (hstate : s.api.data.state = .started) :
    s.api.data.validator ≠ .none ∧ s.inFlight = [] ∧ s.running = [s.api.data.validator] := by
  cases h with
  | started _ h₂ h₃ h₄ => exact ⟨h₂, h₃, h₄⟩
  | idle h₁ => simp [hstate] at h₁
  | starting _ h₁ => simp [hstate] at h₁
  | created _ h₁ => simp [hstate] at h₁
  | failed h₁ => simp [hstate] at h₁
  | ending h₁ => simp [hstate] at h₁
  | shut h₁ => simp [hstate] at h₁

/-- What holds while a start is under way, before it created a validator. -/
lemma Sound.of_starting (h : s.Sound) {origin : AmareleoApiState} {settings : Settings}
    {data : ValidatorNewData} (hp : s.inFlight = [.starting origin settings data]) :
    s.api.data.state = .startPending ∧
      (s.api.data.prevState = .init ∨ s.api.data.prevState = .stopped) ∧
      s.api.data.validator = .none ∧ origin = s.api.data.prevState ∧
      settings = s.api.data.settings ∧ s.running = [] := by
  cases h with
  | starting _ h₁ h₂ h₃ h₄ h₅ =>
    rw [h₄] at hp
    cases hp
    exact ⟨h₁, h₂, h₃, rfl, rfl, h₅⟩
  | idle _ _ h => simp [h] at hp
  | created _ _ _ _ _ h => simp [h] at hp
  | failed _ _ _ h => simp [h] at hp
  | started _ _ h => simp [h] at hp
  | ending _ _ h => simp [h] at hp
  | shut _ _ h => simp [h] at hp

lemma Sound.of_created (h : s.Sound) {origin : AmareleoApiState} {settings : Settings}
    {vapi : ValidatorApi V} (hp : s.inFlight = [.created origin settings vapi]) :
    s.api.data.state = .startPending ∧ vapi ≠ .none ∧ settings = s.api.data.settings ∧
      s.running = [vapi] := by
  cases h with
  | created _ h₁ _ _ h₄ h₅ h₆ =>
    rw [h₅] at hp
    cases hp
    exact ⟨h₁, h₄, rfl, h₆⟩
  | idle _ _ h => simp [h] at hp
  | starting _ _ _ _ h => simp [h] at hp
  | failed _ _ _ h => simp [h] at hp
  | started _ _ h => simp [h] at hp
  | ending _ _ h => simp [h] at hp
  | shut _ _ h => simp [h] at hp

lemma Sound.of_failed (h : s.Sound) {origin : AmareleoApiState} {settings : Settings}
    (hp : s.inFlight = [.failed origin settings]) :
    s.api.data.state = .startPending ∧
      (s.api.data.prevState = .init ∨ s.api.data.prevState = .stopped) ∧
      s.api.data.validator = .none ∧ origin = s.api.data.prevState ∧
      settings = s.api.data.settings ∧ s.running = [] := by
  cases h with
  | failed h₁ h₂ h₃ h₄ h₅ =>
    rw [h₄] at hp
    cases hp
    exact ⟨h₁, h₂, h₃, rfl, rfl, h₅⟩
  | idle _ _ h => simp [h] at hp
  | starting _ _ _ _ h => simp [h] at hp
  | created _ _ _ _ _ h => simp [h] at hp
  | started _ _ h => simp [h] at hp
  | ending _ _ h => simp [h] at hp
  | shut _ _ h => simp [h] at hp

lemma Sound.of_ending (h : s.Sound) {vapi : ValidatorApi V} (hp : s.inFlight = [.ending vapi]) :
    s.api.data.state = .stopPending ∧ s.api.data.validator ≠ .none ∧
      vapi = s.api.data.validator ∧ s.running = [vapi] := by
  cases h with
  | ending h₁ h₂ h₃ h₄ =>
    rw [h₃] at hp
    cases hp
    exact ⟨h₁, h₂, rfl, h₄⟩
  | idle _ _ h => simp [h] at hp
  | starting _ _ _ _ h => simp [h] at hp
  | created _ _ _ _ _ h => simp [h] at hp
  | failed _ _ _ h => simp [h] at hp
  | started _ _ h => simp [h] at hp
  | shut _ _ h => simp [h] at hp

lemma Sound.of_shut (h : s.Sound) (hp : s.inFlight = [.shut]) :
    s.api.data.state = .stopPending ∧ s.running = [] := by
  cases h with
  | shut h₁ _ _ h₄ => exact ⟨h₁, h₄⟩
  | idle _ _ h => simp [h] at hp
  | starting _ _ _ _ h => simp [h] at hp
  | created _ _ _ _ _ h => simp [h] at hp
  | failed _ _ _ h => simp [h] at hp
  | started _ _ h => simp [h] at hp
  | ending _ _ h => simp [h] at hp

/-- **One step** keeps what holds, and moves the state along the lifecycle. -/
theorem Sound.step (h : s.Sound) (hs : Step s s') : s'.Sound ∧ s.Moves s' := by
  cases hs with
  | setter hc =>
    have ha := untouched_setter s.api hc
    exact ⟨h.untouched ha, .stays ha.state⟩
  | @startPrep env data a hprep =>
    obtain ⟨e, a', hprep', -⟩ | ⟨data', a', hprep', horigin, hstate, hprev, hval, hset⟩ :=
      startPrep_settings env s.api <;> rw [hprep] at hprep' <;> cases hprep'
    obtain ⟨hnone, hflight, hrunning⟩ := h.of_idle horigin
    refine ⟨.starting data hstate (by rwa [hprev]) (by rwa [hval]) ?_ hrunning,
      .starts horigin hstate⟩
    rw [hprev, hset, hflight]
  | @startRefused env e a hprep =>
    obtain ⟨e', a', hprep', ha⟩ | ⟨data', a', hprep', -⟩ := startPrep_settings env s.api <;>
      rw [hprep] at hprep' <;> cases hprep'
    exact ⟨h.untouched ha, .stays ha.state⟩
  | @create env data vapi origin settings pre post hp hnew =>
    obtain ⟨rfl, rfl, hone⟩ := h.only hp
    obtain ⟨hstate, hprev, hnone, rfl, rfl, hrunning⟩ := h.of_starting hone
    obtain ⟨v, hv, -⟩ := validator_new hnew
    have hvapi : vapi ≠ .none := by
      rintro rfl
      cases hv
    exact ⟨.created vapi hstate hprev hnone hvapi rfl (by rw [hrunning]), .stays rfl⟩
  | fail hp hnew =>
    obtain ⟨rfl, rfl, hone⟩ := h.only hp
    obtain ⟨hstate, hprev, hnone, rfl, rfl, hrunning⟩ := h.of_starting hone
    exact ⟨.failed hstate hprev hnone rfl hrunning, .stays rfl⟩
  | startComplete hp =>
    obtain ⟨rfl, rfl, hone⟩ := h.only hp
    obtain ⟨hstate, hvapi, -, hrunning⟩ := h.of_created hone
    exact ⟨.started rfl hvapi rfl hrunning, .completes hstate rfl⟩
  | startRevert hp =>
    obtain ⟨rfl, rfl, hone⟩ := h.only hp
    obtain ⟨hstate, hprev, hnone, rfl, rfl, hrunning⟩ := h.of_failed hone
    have hfailed : .failed s.api.startRevert.data.state s.api.data.settings ∈ s.inFlight := by
      rw [hone]
      exact List.mem_singleton_self _
    exact ⟨.idle hprev hnone rfl hrunning, .reverts hstate hfailed⟩
  | endPrep hend =>
    unfold endPrep at hend
    split at hend
    · cases hend
    next hstate =>
    cases hend
    have hstate := not_not.mp hstate
    obtain ⟨hvalidator, hflight, hrunning⟩ := h.of_started hstate
    exact ⟨.ending rfl hvalidator (by rw [hflight]) hrunning, .ends hstate rfl⟩
  | endRefused hend =>
    unfold endPrep at hend
    split at hend <;> cases hend
    exact ⟨h, .stays rfl⟩
  | shutDown hp =>
    obtain ⟨rfl, rfl, hone⟩ := h.only hp
    obtain ⟨hstate, hvalidator, -, hrunning⟩ := h.of_ending hone
    refine ⟨.shut hstate hvalidator rfl ?_, .stays rfl⟩
    rw [hrunning]
    simp
  | endComplete hp =>
    obtain ⟨rfl, rfl, hone⟩ := h.only hp
    obtain ⟨hstate, hrunning⟩ := h.of_shut hone
    exact ⟨.idle (.inr rfl) rfl rfl hrunning, .stops hstate rfl⟩

lemma Reachable.sound (h : Reachable s) : s.Sound := by
  induction h with
  | refl => exact .idle (.inl rfl) rfl rfl rfl
  | tail _ hs ih => exact (ih.step hs).1

/-! ### Settings -/

/-- The node has left its first state for good. -/
def Locked (s : Concurrent V) : Prop :=
  s.api.data.state ≠ .init ∧
    (s.api.data.state = .startPending → s.api.data.prevState ≠ .init)

lemma Locked.step (hs : Step s s') (hl : s.Locked) (h : s.Sound) :
    s'.Locked ∧ s'.api.data.settings = s.api.data.settings := by
  cases hs with
  | setter hc =>
    obtain ⟨hstate, hprev, -, hset⟩ := untouched_setter s.api hc
    exact ⟨by rw [Locked, hstate, hprev]; exact hl, hset hl.1⟩
  | @startPrep env data a hprep =>
    obtain ⟨e, a', hprep', -⟩ | ⟨data', a', hprep', horigin, hstate, hprev, hval, hset⟩ :=
      startPrep_settings env s.api <;> rw [hprep] at hprep' <;> cases hprep'
    exact ⟨⟨by rw [hstate]; simp, fun _ => by rw [hprev]; exact hl.1⟩, hset⟩
  | @startRefused env e a hprep =>
    obtain ⟨e', a', hprep', hstate, hprev, -, hset⟩ | ⟨data', a', hprep', -⟩ :=
      startPrep_settings env s.api <;> rw [hprep] at hprep' <;> cases hprep'
    exact ⟨by rw [Locked, hstate, hprev]; exact hl, hset hl.1⟩
  | create => exact ⟨hl, rfl⟩
  | fail => exact ⟨hl, rfl⟩
  | startComplete => exact ⟨⟨by simp [startComplete], by simp [startComplete]⟩, rfl⟩
  | startRevert hp =>
    obtain ⟨-, -, hone⟩ := h.only hp
    obtain ⟨hstate, hprev, -⟩ := h.of_failed hone
    have hstopped := hprev.resolve_left (hl.2 hstate)
    exact ⟨⟨by simp [startRevert, hstopped], by simp [startRevert, hstopped]⟩, rfl⟩
  | endPrep hend =>
    unfold endPrep at hend
    split at hend <;> cases hend
    exact ⟨⟨by simp, by simp⟩, rfl⟩
  | endRefused hend =>
    unfold endPrep at hend
    split at hend <;> cases hend
    exact ⟨hl, rfl⟩
  | shutDown => exact ⟨hl, rfl⟩
  | endComplete => exact ⟨⟨by simp [endComplete], by simp [endComplete]⟩, rfl⟩

lemma Locked.settings_eq (hsteps : ReflTransGen Step s s') (hl : s.Locked) (h : s.Sound) :
    s'.api.data.settings = s.api.data.settings := by
  suffices h' : s'.Locked ∧ s'.Sound ∧ s'.api.data.settings = s.api.data.settings from h'.2.2
  induction hsteps with
  | refl => exact ⟨hl, h, rfl⟩
  | tail _ hs ih =>
    obtain ⟨hlocked, hset⟩ := Locked.step hs ih.1 ih.2.1
    exact ⟨hlocked, (ih.2.1.step hs).1, hset.trans ih.2.2⟩

end Concurrent

/-- The settings that a start under way was prepared with. -/
def InFlight.settings {V : Type} : InFlight V → Option Settings
  | starting _ settings _ | created _ settings _ | failed _ settings => some settings
  | ending _ | shut => none

namespace Concurrent

open AmareleoApi

variable {V : Type}

/-- **The lifecycle under concurrent callers**: at most one start or end is under way; the state
moves along the lifecycle only; a validator is held exactly while the node is started or being
stopped, at most one runs, and one that runs is held or about to be; and the settings stay those
that a start was prepared with until it ends, and do not change once the node was started. -/
theorem lifecycle (s : Concurrent V) (hs : Reachable s) :
    s.inFlight.length ≤ 1 ∧
    (∀ s', Step s s' → s.Moves s') ∧
    (s.api.data.validator ≠ .none ↔
      s.api.data.state = .started ∨ s.api.data.state = .stopPending) ∧
    s.running.length ≤ 1 ∧
    (∀ vapi ∈ s.running, vapi = s.api.data.validator ∨
      ∃ origin settings, .created origin settings vapi ∈ s.inFlight) ∧
    (∀ p ∈ s.inFlight, ∀ settings, p.settings = some settings →
      s.api.data.settings = settings) ∧
    (s.api.data.state = .started → ∀ s', ReflTransGen Step s s' →
      s'.api.data.settings = s.api.data.settings) := by
  have h := hs.sound
  refine ⟨?_, fun s' hs => (h.step hs).2, ?_, ?_, ?_, ?_, fun hstarted s' hs => ?_⟩
  · cases h <;> simp_all
  · cases h with
    | idle h₁ h₂ => rcases h₁ with h₁ | h₁ <;> simp [h₁, h₂]
    | starting _ h₁ _ h₂ => simp [h₁, h₂]
    | created _ h₁ _ h₂ => simp [h₁, h₂]
    | failed h₁ _ h₂ => simp [h₁, h₂]
    | started h₁ h₂ => simp [h₁, h₂]
    | ending h₁ h₂ => simp [h₁, h₂]
    | shut h₁ h₂ => simp [h₁, h₂]
  · cases h <;> simp_all
  · cases h <;> simp_all
  · cases h <;> simp_all [InFlight.settings]
  · exact Locked.settings_eq hs ⟨by simp [hstarted], by simp [hstarted]⟩ h

section Example

/-- A start under way that has created its validator. -/
theorem lifecycle_example :
    ∃ s : Concurrent Chain, s.api.data.state = .startPending ∧ s.inFlight.length = 1 ∧
      s.running.length ≤ 1 := by
  have hok : (match (AmareleoApi.new (V := Chain)).startPrep developmentEnvironment with
      | (.ok data, a) => (ValidatorApi.new developmentEnvironment a.cells data).isOk
      | (.error _, _) => false) = true := by decide +kernel
  rcases hprep : (AmareleoApi.new (V := Chain)).startPrep developmentEnvironment with
    ⟨e | data, a⟩
  · rw [hprep] at hok
    cases hok
  rw [hprep] at hok
  obtain ⟨vapi, hvapi⟩ := exists_of_isOk hok
  have hstate : a.data.state = .startPending := by
    have h : ((AmareleoApi.new (V := Chain)).startPrep developmentEnvironment).2.data.state
      = .startPending := by decide +kernel
    rwa [hprep] at h
  have hprepared : Step new ⟨a, [.starting .init (AmareleoApi.new (V := Chain)).data.settings
      data], []⟩ := .startPrep new hprep
  have hcreated : Step
      ⟨a, [.starting .init (AmareleoApi.new (V := Chain)).data.settings data], []⟩
      ⟨a, [] ++ .created .init (AmareleoApi.new (V := Chain)).data.settings vapi :: [], [vapi]⟩ :=
    .create _ (List.nil_append _).symm hvapi
  have hreachable := (ReflTransGen.single hprepared).tail hcreated
  exact ⟨_, hstate, rfl, (lifecycle _ hreachable).2.2.2.1⟩

end Example

end Concurrent

end AmareleoChain
