import AmareleoChain.Development
import AmareleoChain.Library.Failure
import AmareleoChain.Library.UnixPath

/-!
The node object of the API: its lifecycle, its settings, and the shutdown flag it shares with
the validator it starts and with the ledger service of this validator.

A call takes what it needs of the machine it runs on as an environment. Each of `start_prep`,
`start_complete`, `start_revert`, `end_prep`, `end_complete` and the setters is one step under
the lock of the data.
-/

namespace AmareleoChain

/-! ### Shared flags -/

/-- The cells of the shared flags. A clone of a flag is the same cell. -/
structure Cells where
  values : List Bool

namespace Cells

def load (c : Cells) (flag : ℕ) : Bool := c.values.getD flag false

def store (c : Cells) (flag : ℕ) (value : Bool) : Cells := ⟨c.values.set flag value⟩

@[simp] lemma length_store (c : Cells) (flag : ℕ) (value : Bool) :
    (c.store flag value).values.length = c.values.length := by
  simp [store]

lemma load_store {c : Cells} {flag : ℕ} (h : flag < c.values.length) (value : Bool) :
    (c.store flag value).load flag = value := by
  simp [load, store, h]

end Cells

/-! ### Settings -/

structure SocketAddr where
  ip : String
  port : ℕ
  deriving DecidableEq, Repr

/-- A handle of the tracing subscribers. -/
structure TracingHandler where
  subscriber : ℕ
  deriving DecidableEq, Repr

inductive AmareleoLog where
  | file (path : Option PathBuf)
  | custom (tracing : TracingHandler)
  | none
  deriving DecidableEq, Repr

namespace AmareleoLog

def getPath : AmareleoLog → Option PathBuf
  | file path => path
  | _ => Option.none

def isFile : AmareleoLog → Bool
  | file _ => true
  | _ => false

end AmareleoLog

inductive AmareleoApiState where
  | init
  | startPending
  | started
  | stopPending
  | stopped
  deriving DecidableEq, Repr

/-- The name of a state in an error. -/
def AmareleoApiState.fmt : AmareleoApiState → String
  | init => "Init"
  | startPending => "StartPending"
  | started => "Started"
  | stopPending => "StopPending"
  | stopped => "Stopped"

def mainnetId : ℕ := 0
def testnetId : ℕ := 1
def canaryId : ℕ := 2

def isValidNetworkId (networkId : ℕ) : Bool :=
  networkId = canaryId || networkId = testnetId || networkId = mainnetId

namespace LedgerFiles

def ledgerStdDir : String := "amareleo-ledger"
def ledgerTmpDir : String := "amareleo-tmp-ledger"

/-- The name of a ledger folder. -/
def ledgerName (network : ℕ) (keepState : Bool) (endPointTag : String) : String :=
  s!".{if keepState then ledgerStdDir else ledgerTmpDir}-{network}-{endPointTag}"

def customLedgerDir (network : ℕ) (keepState : Bool) (endPointTag : String) (base : PathBuf) :
    PathBuf :=
  base.push (.ofString (ledgerName network keepState endPointTag))

end LedgerFiles

/-- `amareleo_log_file`, in the folder for temporary files. -/
def amareleoLogFile (network : ℕ) (keepState : Bool) (endPointTag : String) (tempDir : PathBuf) :
    PathBuf :=
  let file := if keepState then "amareleo-chain" else "amareleo-chain-tmp"
  tempDir.push (.ofString s!"{file}-{network}-{endPointTag}.log")

/-! ### Validators -/

/-- What a call finds on its machine; each of these may fail at each call. -/
structure Environment (V : Type) where
  endpointFileTag : Bool → SocketAddr → Except String String
  currentDir : PathBuf
  tempDir : PathBuf
  initializeTracing : ℕ → PathBuf → Except String TracingHandler
  cleanTmpLedger : PathBuf → Except String Unit
  getNodeAccount : ℕ → Except String Address
  getGenesis : ℕ → Except String Block
  loadLedger : Block → PathBuf → Except String V
  newConsensus : Address → Bool → PathBuf → Except String Unit
  /-- `Consensus::run`, and what it makes of the ledger. -/
  runConsensus : Address → CoreLedgerService V → Except String V
  /-- `GovernorConfigBuilder::finish`, by the period in nanoseconds and the burst size: whether
  there is a configuration. -/
  governorFinish : ℕ → ℕ → Bool
  bindRest : SocketAddr → Except String Unit

/-- `Rest::spawn_server`: the rate limit is set up, and the server bound. -/
def spawnServer {V : Type} (env : Environment V) (restIp : SocketAddr) (restRps : ℕ) :
    Except Failure Unit :=
  if restRps = 0 then .error (.panicked "attempt to divide by zero")
  else if env.governorFinish (1000000000 / restRps) restRps then orFail (env.bindRest restIp)
  else .error (.error "Couldn't set up rate limiting for the REST server")

/-- `Validator<N, C>`, with the flag of its ledger service next to its own. -/
structure Validator (V : Type) where
  ledger : V
  ledgerShutdown : ℕ
  shutdown : ℕ

structure ValidatorNewData where
  networkId : ℕ
  restIp : SocketAddr
  restRps : ℕ
  keepState : Bool
  storageMode : PathBuf
  tracing : Option TracingHandler
  shutdown : ℕ

namespace Validator

variable {V : Type}

/-- The ledger service of the validator, as it reads the flag. -/
def ledgerService (v : Validator V) (c : Cells) : CoreLedgerService V :=
  ⟨v.ledger, none, c.load v.ledgerShutdown⟩

/-- `Validator::new`. A validator that fails to start leaves the flag alone. -/
def new (env : Environment V) (c : Cells) (data : ValidatorNewData) (account : Address)
    (genesis : Block) : Except Failure (Validator V) :=
  match env.loadLedger genesis data.storageMode with
  | .error e => .error (.error e)
  | .ok ledger =>
    let validator : Validator V := ⟨ledger, data.shutdown, data.shutdown⟩
    match env.newConsensus account data.keepState data.storageMode with
    | .error e => .error (.error e)
    | .ok () =>
      match env.runConsensus account (validator.ledgerService c) with
      | .error e => .error (.error e)
      | .ok ledger =>
        match spawnServer env data.restIp data.restRps with
        | .error e => .error e
        | .ok () => .ok { validator with ledger }

/-- `Validator::shut_down`: flag that we are shutting down. This will prevent adding further
blocks to the ledger. -/
def shutDown (v : Validator V) (c : Cells) : Cells := c.store v.shutdown true

end Validator

inductive ValidatorApi (V : Type) where
  | canaryV0 (validator : Validator V)
  | mainnetV0 (validator : Validator V)
  | testnetV0 (validator : Validator V)
  | none

namespace ValidatorApi

variable {V : Type}

def new (env : Environment V) (c : Cells) (data : ValidatorNewData) :
    Except Failure (ValidatorApi V) :=
  if isValidNetworkId data.networkId then
    match env.getNodeAccount data.networkId with
    | .error e => .error (.error e)
    | .ok account =>
      match env.getGenesis data.networkId with
      | .error e => .error (.error e)
      | .ok genesis =>
        match Validator.new env c data account genesis with
        | .error e => .error e
        | .ok validator =>
          if data.networkId = canaryId then .ok (.canaryV0 validator)
          else if data.networkId = testnetId then .ok (.testnetV0 validator)
          else .ok (.mainnetV0 validator)
  else .error (.error "Unsupported network ID")

def validator : ValidatorApi V → Option (Validator V)
  | canaryV0 v | mainnetV0 v | testnetV0 v => some v
  | none => Option.none

def shutDown (v : ValidatorApi V) (c : Cells) : Cells :=
  match v.validator with
  | some v => v.shutDown c
  | Option.none => c

end ValidatorApi

/-! ### The node object -/

structure AmareleoApiData (V : Type) where
  state : AmareleoApiState
  prevState : AmareleoApiState
  networkId : ℕ
  restIp : SocketAddr
  restRps : ℕ
  keepState : Bool
  ledgerBasePath : Option PathBuf
  ledgerDefaultNaming : Bool
  logMode : AmareleoLog
  tracing : Option TracingHandler
  verbosity : ℕ
  shutdown : ℕ
  validator : ValidatorApi V

namespace AmareleoApiData

variable {V : Type}

def getLogFile (env : Environment V) (data : AmareleoApiData V) : Except String PathBuf :=
  if !data.logMode.isFile then .error "Logging to file is disabled!"
  else
    match data.logMode.getPath with
    | some path => .ok path
    | none => (env.endpointFileTag false data.restIp).map fun tag =>
        amareleoLogFile data.networkId data.keepState tag env.tempDir

def getLedgerFolder (env : Environment V) (data : AmareleoApiData V) : Except String PathBuf :=
  (env.endpointFileTag data.ledgerDefaultNaming data.restIp).map fun tag =>
    LedgerFiles.customLedgerDir data.networkId data.keepState tag
      (data.ledgerBasePath.getD env.currentDir)

def traceInit (env : Environment V) (data : AmareleoApiData V) :
    Except String (AmareleoApiData V) :=
  match data.logMode with
  | .file _ =>
    match data.getLogFile env with
    | .error e => .error e
    | .ok path => (env.initializeTracing data.verbosity path).map fun tracing =>
        { data with tracing := some tracing }
  | .custom tracing => .ok { data with tracing := some tracing }
  | .none => .ok { data with tracing := none }

end AmareleoApiData

/-- `AmareleoApi`, with the cells of the flags. -/
structure AmareleoApi (V : Type) where
  data : AmareleoApiData V
  cells : Cells

namespace AmareleoApi

variable {V : Type}

/-- The singleton as `new` creates it, with its flag in the first cell. -/
def new : AmareleoApi V where
  data :=
    { state := .init
      prevState := .init
      networkId := testnetId
      restIp := ⟨"0.0.0.0", 3030⟩
      restRps := 10
      keepState := false
      ledgerBasePath := none
      ledgerDefaultNaming := false
      logMode := .none
      tracing := none
      verbosity := 1
      shutdown := 0
      validator := .none }
  cells := ⟨[false]⟩

def invalidState (a : AmareleoApi V) : String := s!"Invalid node state {a.data.state.fmt}"

/-! #### Setters -/

/-- A setter that the node refuses in the other states. -/
def cfg (states : List AmareleoApiState) (set : AmareleoApiData V → AmareleoApiData V)
    (a : AmareleoApi V) : Except String Unit × AmareleoApi V :=
  if a.data.state ∈ states then (.ok (), { a with data := set a.data })
  else (.error a.invalidState, a)

/-- `cfg_network`. The state is checked before the network. -/
def cfgNetwork (networkId : ℕ) (a : AmareleoApi V) : Except String Unit × AmareleoApi V :=
  if a.data.state ≠ .init then (.error a.invalidState, a)
  else if !isValidNetworkId networkId then (.error s!"Invalid network id {networkId}", a)
  else (.ok (), { a with data := { a.data with networkId } })

def cfgRest (ipPort : SocketAddr) (rps : ℕ) : AmareleoApi V → Except String Unit × AmareleoApi V :=
  cfg [.init] fun data => { data with restIp := ipPort, restRps := rps }

def cfgLedger (keepState : Bool) (basePath : Option PathBuf) (defaultNaming : Bool) :
    AmareleoApi V → Except String Unit × AmareleoApi V :=
  cfg [.init] fun data => { data with
    keepState, ledgerBasePath := basePath, ledgerDefaultNaming := defaultNaming }

def cfgFileLog (logFile : Option PathBuf) (verbosity : ℕ) :
    AmareleoApi V → Except String Unit × AmareleoApi V :=
  cfg [.init, .stopped] fun data => { data with logMode := .file logFile, verbosity }

def cfgCustomLog (tracing : TracingHandler) : AmareleoApi V → Except String Unit × AmareleoApi V :=
  cfg [.init, .stopped] fun data => { data with logMode := .custom tracing }

def cfgNoLog : AmareleoApi V → Except String Unit × AmareleoApi V :=
  cfg [.init, .stopped] fun data => { data with logMode := .none }

/-! #### Starting and stopping -/

/-- `start_prep`. The tracing is replaced even when cleaning the ledger fails after it. -/
def startPrep (env : Environment V) (a : AmareleoApi V) :
    Except String ValidatorNewData × AmareleoApi V :=
  if a.data.state ∉ [.init, .stopped] then (.error a.invalidState, a)
  else
    match a.data.getLedgerFolder env with
    | .error e => (.error e, a)
    | .ok ledgerPath =>
      match a.data.traceInit env with
      | .error e => (.error e, a)
      | .ok data =>
        match if data.keepState then .ok () else env.cleanTmpLedger ledgerPath with
        | .error e => (.error e, { a with data })
        | .ok () =>
          let data := { data with prevState := data.state, state := .startPending }
          (.ok ⟨data.networkId, data.restIp, data.restRps, data.keepState, ledgerPath,
            data.tracing, data.shutdown⟩, { a with data })

def startComplete (validator : ValidatorApi V) (a : AmareleoApi V) : AmareleoApi V :=
  { a with data := { a.data with validator, prevState := a.data.state, state := .started } }

def startRevert (a : AmareleoApi V) : AmareleoApi V :=
  { a with data := { a.data with state := a.data.prevState } }

/-- `start`. A panic unwinds it before the state is reverted. -/
def start (env : Environment V) (a : AmareleoApi V) : Except Failure Unit × AmareleoApi V :=
  match a.startPrep env with
  | (.error e, a) => (.error (.error e), a)
  | (.ok validatorData, a) =>
    match ValidatorApi.new env a.cells validatorData with
    | .ok vapi => (.ok (), a.startComplete vapi)
    | .error (.error e) => (.error (.error e), a.startRevert)
    | .error (.panicked e) => (.error (.panicked e), a)

def endPrep (a : AmareleoApi V) : Except String (ValidatorApi V) × AmareleoApi V :=
  if a.data.state ≠ .started then (.error a.invalidState, a)
  else
    (.ok a.data.validator,
      { a with data := { a.data with prevState := a.data.state, state := .stopPending } })

def endComplete (a : AmareleoApi V) : AmareleoApi V :=
  { a with data :=
      { a.data with validator := .none, prevState := a.data.state, state := .stopped } }

/-- `end`. -/
def endNode (a : AmareleoApi V) : Except String Unit × AmareleoApi V :=
  match a.endPrep with
  | (.error e, a) => (.error e, a)
  | (.ok validator, a) => (.ok (), { a with cells := validator.shutDown a.cells }.endComplete)

/-- A call of the API. -/
inductive Call (V : Type) where
  | cfgNetwork (networkId : ℕ)
  | cfgRest (ipPort : SocketAddr) (rps : ℕ)
  | cfgLedger (keepState : Bool) (basePath : Option PathBuf) (defaultNaming : Bool)
  | cfgFileLog (logFile : Option PathBuf) (verbosity : ℕ)
  | cfgCustomLog (tracing : TracingHandler)
  | cfgNoLog
  | start (env : Environment V)
  | endNode

/-- The setters, and `end`, are fallible. -/
def fallible (r : Except String Unit × AmareleoApi V) : Except Failure Unit × AmareleoApi V :=
  (orFail r.1, r.2)

def call (a : AmareleoApi V) : Call V → Except Failure Unit × AmareleoApi V
  | .cfgNetwork networkId => fallible (a.cfgNetwork networkId)
  | .cfgRest ipPort rps => fallible (a.cfgRest ipPort rps)
  | .cfgLedger keepState basePath naming => fallible (a.cfgLedger keepState basePath naming)
  | .cfgFileLog logFile verbosity => fallible (a.cfgFileLog logFile verbosity)
  | .cfgCustomLog tracing => fallible (a.cfgCustomLog tracing)
  | .cfgNoLog => fallible a.cfgNoLog
  | .start env => a.start env
  | .endNode => fallible a.endNode

/-- The node after some calls, one after the other. -/
def run (calls : List (Call V)) : AmareleoApi V :=
  calls.foldl (fun a c => (a.call c).2) new

/-- The ledger service of the running validator. -/
def ledgerService (a : AmareleoApi V) : Option (CoreLedgerService V) :=
  a.data.validator.validator.map fun v => v.ledgerService a.cells

end AmareleoApi

end AmareleoChain
