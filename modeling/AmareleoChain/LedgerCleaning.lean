import AmareleoChain.LedgerFiles
import AmareleoChain.Library.UnixFiles
import AmareleoChain.Lifecycle

/-!
Cleaning the temporary ledger, on the files of the machine.

The paths of all configurations lie in the base path, under names that differ. So a cleaning, even
one that fails on its way, spares the ledgers and the proposal caches of the other configurations,
and so does the start of a node, which cleans under its own configuration.
-/

namespace AmareleoChain

open FileSystem

namespace LedgerFiles

def cleanTmpLedger (faults : Faults) (fs : FileSystem) (ledgerPath : PathBuf) :
    Except String Unit × FileSystem :=
  -- remove the current proposal cache file, if it exists
  match proposalCachePath (amareleoStorageMode ledgerPath) with
  | .error e => (.error e, fs)
  | .ok cachePath =>
    match if fs.exists? faults cachePath then fs.removeFile faults cachePath else (.ok (), fs) with
    | (.error err, fs) =>
      (.error s!"Failed on removing proposal cache file at {cachePath.display}: {err.fmt}", fs)
    | (.ok (), fs) =>
      -- remove ledger
      match if fs.exists? faults ledgerPath then fs.removeDirAll faults ledgerPath
        else (.ok (), fs) with
      | (.error err, fs) =>
        (.error s!"Failed on removing ledger folder {ledgerPath.display}: {err.fmt}", fs)
      | (.ok (), fs) => (.ok (), fs)

/-- What the paths depend on, next to the base path. -/
@[ext] structure Configuration where
  network : ℕ
  keepState : Bool
  tag : String
  isFileTag : IsFileTag tag

namespace Configuration

def ledgerPath (c : Configuration) (base : PathBuf) : PathBuf :=
  customLedgerDir c.network c.keepState c.tag base

def cachePath (c : Configuration) (base : PathBuf) : Except String PathBuf :=
  proposalCachePath (amareleoStorageMode (c.ledgerPath base))

/-- The ledger and the proposal cache are as they were. -/
def Spared (d : Configuration) (base : PathBuf) (fs fs' : FileSystem) : Prop :=
  FileSystem.Spared fs fs' (d.ledgerPath base) ∧
    ∀ cachePath, d.cachePath base = .ok cachePath → FileSystem.Spared fs fs' cachePath

lemma Spared.refl (d : Configuration) (base : PathBuf) (fs : FileSystem) :
    d.Spared base fs fs :=
  ⟨fun _ _ _ _ => rfl, fun _ _ _ _ _ _ => rfl⟩

variable {c d : Configuration} {base : PathBuf} {cache cache' : PathBuf}

lemma components_ledgerPath (c : Configuration) (base : PathBuf) : (c.ledgerPath base).components
    = base.components ++ [.normal (.ofString (ledgerName c.network c.keepState c.tag))] :=
  components_customLedgerDir c.isFileTag base

lemma cachePath_ok (c : Configuration) (base : PathBuf) : ∃ cache, c.cachePath base = .ok cache ∧
    cache.components
      = base.components ++ [.normal (.ofString (cacheName c.network c.keepState c.tag))] :=
  proposalCachePath_customLedgerDir c.isFileTag base

lemma components_cachePath (h : c.cachePath base = .ok cache) : cache.components
    = base.components ++ [.normal (.ofString (cacheName c.network c.keepState c.tag))] := by
  obtain ⟨cachePath, hcache, hcomponents⟩ := c.cachePath_ok base
  cases h.symm.trans hcache
  exact hcomponents

lemma name_eq_of_components {p q : PathBuf} {name name' : String}
    (hp : p.components = base.components ++ [.normal (.ofString name)])
    (hq : q.components = base.components ++ [.normal (.ofString name')])
    (h : p.components = q.components) : name = name' := by
  rw [hp, hq] at h
  have hnames := List.singleton_inj.mp (List.append_cancel_left h)
  rw [Component.normal.injEq] at hnames
  exact OsString.ofString_inj.mp hnames

lemma eq_of_ledgerName (h : ledgerName c.network c.keepState c.tag
    = ledgerName d.network d.keepState d.tag) : c = d := by
  obtain ⟨hnetwork, hkeep, htag⟩ := ledgerName_inj c.isFileTag h
  exact Configuration.ext hnetwork hkeep htag

lemma eq_of_cacheName (h : cacheName c.network c.keepState c.tag
    = cacheName d.network d.keepState d.tag) : c = d := by
  obtain ⟨hnetwork, hkeep, htag⟩ := cacheName_inj c.isFileTag h
  exact Configuration.ext hnetwork hkeep htag

end Configuration

section Cleaning

variable {faults : Faults} {fs fs' : FileSystem} {p : PathBuf} {b : Bool}
  {r : Except Errno Unit × FileSystem}

lemma onlyRemoved_ite (h : OnlyRemoved [p] fs r.2) :
    OnlyRemoved [p] fs (if b then r else (.ok (), fs)).2 := by
  cases b with
  | true => exact h
  | false => exact .refl _ _

lemma exists?_ite (fs : FileSystem) (r : Except Errno Unit × FileSystem)
    (hr : r.1 = .ok () → r.2.exists? faults p = false)
    (h : (if fs.exists? faults p then r else (.ok (), fs)).1 = .ok ()) :
    (if fs.exists? faults p then r else (.ok (), fs)).2.exists? faults p = false := by
  cases hexists : fs.exists? faults p with
  | true =>
    rw [hexists] at h
    exact hr h
  | false => exact hexists

variable {c : Configuration} {base cachePath : PathBuf}

/-- What a cleaning does: it removes the cache, and then the ledger, unless it fails. -/
theorem cleanTmpLedger_spec (faults : Faults) (fs : FileSystem)
    (hcache : c.cachePath base = .ok cachePath) :
    ∃ fs' fs'', OnlyRemoved [cachePath] fs fs' ∧ OnlyRemoved [c.ledgerPath base] fs' fs'' ∧
      (cleanTmpLedger faults fs (c.ledgerPath base)).2 = fs'' ∧
      ((cleanTmpLedger faults fs (c.ledgerPath base)).1 = .ok () →
        fs'.exists? faults cachePath = false ∧
          fs''.exists? faults (c.ledgerPath base) = false) := by
  have hclean : proposalCachePath (amareleoStorageMode (c.ledgerPath base)) = .ok cachePath :=
    hcache
  unfold cleanTmpLedger
  rw [hclean]
  dsimp only
  have hfirst : OnlyRemoved [cachePath] fs
      (if fs.exists? faults cachePath then fs.removeFile faults cachePath else (.ok (), fs)).2 :=
    onlyRemoved_ite onlyRemoved_removeFile
  have hgone := exists?_ite fs (fs.removeFile faults cachePath)
    (exists?_removeFile (c.components_cachePath hcache))
  generalize (if fs.exists? faults cachePath then fs.removeFile faults cachePath
    else (.ok (), fs)) = r at hfirst hgone ⊢
  obtain ⟨e | _, fs'⟩ := r
  · refine ⟨fs', fs', hfirst, .refl _ _, rfl, fun h => ?_⟩
    cases h
  have hsecond : OnlyRemoved [c.ledgerPath base] fs' (if fs'.exists? faults (c.ledgerPath base) then
      fs'.removeDirAll faults (c.ledgerPath base) else (.ok (), fs')).2 :=
    onlyRemoved_ite onlyRemoved_removeDirAll
  have hgone' := exists?_ite fs' (fs'.removeDirAll faults (c.ledgerPath base))
    (exists?_removeDirAll (c.components_ledgerPath base))
  dsimp only
  generalize (if fs'.exists? faults (c.ledgerPath base) then
    fs'.removeDirAll faults (c.ledgerPath base) else (.ok (), fs')) = r at hsecond hgone' ⊢
  obtain ⟨e | _, fs''⟩ := r
  · refine ⟨fs', fs'', hfirst, hsecond, rfl, fun h => ?_⟩
    cases h
  · exact ⟨fs', fs'', hfirst, hsecond, rfl, fun _ => ⟨hgone rfl, hgone' rfl⟩⟩

/-- **A cleaning**, whether it fails or not, removes nothing but what lies at the two paths. -/
theorem onlyRemoved_cleanTmpLedger (hcache : c.cachePath base = .ok cachePath) :
    OnlyRemoved [cachePath, c.ledgerPath base] fs
      (cleanTmpLedger faults fs (c.ledgerPath base)).2 := by
  obtain ⟨fs', fs'', hfirst, hsecond, hclean, -⟩ := cleanTmpLedger_spec faults fs hcache
  rw [hclean]
  exact hfirst.trans hsecond

/-- **A cleaning that succeeds** leaves neither the ledger nor its proposal cache. -/
theorem exists?_cleanTmpLedger (hcache : c.cachePath base = .ok cachePath)
    (h : cleanTmpLedger faults fs (c.ledgerPath base) = (.ok (), fs')) :
    fs'.exists? faults cachePath = false ∧ fs'.exists? faults (c.ledgerPath base) = false := by
  obtain ⟨fs₁, fs₂, -, hsecond, hclean, hgone⟩ := cleanTmpLedger_spec faults fs hcache
  rw [h] at hclean hgone
  cases hclean
  obtain ⟨hcacheGone, hledgerGone⟩ := hgone rfl
  exact ⟨hsecond.exists?_eq_false hcacheGone, hledgerGone⟩

end Cleaning

/-- A cleaning spares the other configurations. -/
theorem Configuration.spared_cleanTmpLedger {c d : Configuration} (h : c ≠ d) (faults : Faults)
    (fs : FileSystem) (base : PathBuf) :
    d.Spared base fs (cleanTmpLedger faults fs (c.ledgerPath base)).2 := by
  obtain ⟨cache, hcache, hcomponents⟩ := c.cachePath_ok base
  have honly : OnlyRemoved [cache, c.ledgerPath base] fs
      (cleanTmpLedger faults fs (c.ledgerPath base)).2 := onlyRemoved_cleanTmpLedger hcache
  -- what is removed has one of two names
  have hother : ∀ {name : String}, ledgerName c.network c.keepState c.tag ≠ name →
      cacheName c.network c.keepState c.tag ≠ name → ∀ r ∈ [cache, c.ledgerPath base],
        ∃ other, other ≠ OsString.ofString name ∧
          r.components = base.components ++ [.normal other] := by
    intro name hledgerName hcacheName
    rw [List.forall_mem_cons, List.forall_mem_singleton]
    exact ⟨⟨_, fun heq => hcacheName (OsString.ofString_inj.mp heq), hcomponents⟩,
      ⟨_, fun heq => hledgerName (OsString.ofString_inj.mp heq), c.components_ledgerPath base⟩⟩
  refine ⟨honly.spared (d.components_ledgerPath base) ?_, fun cache' hcache' =>
    honly.spared (components_cachePath hcache') ?_⟩
  · exact hother (fun heq => h (eq_of_ledgerName heq)) (ledgerName_ne_cacheName d.isFileTag).symm
  · exact hother (ledgerName_ne_cacheName c.isFileTag) fun heq => h (eq_of_cacheName heq)

end LedgerFiles

/-! ### The start of a node -/

variable {V : Type}

/-- An environment on the files of the machine, with the hash of an endpoint. -/
def Environment.onFiles (env : Environment V) (hash : String → Except String (Vector UInt8 32))
    (faults : Faults) (fs : FileSystem) : Environment V :=
  { env with
    endpointFileTag := LedgerFiles.endpointFileTag hash
    cleanTmpLedger := fun ledgerPath =>
      (LedgerFiles.cleanTmpLedger faults fs ledgerPath).1 }

/-- The files that `start_prep` leaves: it cleans once the tracing is there, and only for a
configuration that does not keep its state. -/
def AmareleoApi.filesAfterStartPrep (env : Environment V)
    (hash : String → Except String (Vector UInt8 32)) (faults : Faults) (fs : FileSystem)
    (a : AmareleoApi V) : FileSystem :=
  let env := env.onFiles hash faults fs
  if a.data.state ∉ [.init, .stopped] then fs
  else
    match a.data.getLedgerFolder env with
    | .error _ => fs
    | .ok ledgerPath =>
      match a.data.traceInit env with
      | .error _ => fs
      | .ok data =>
        if data.keepState then fs
        else (LedgerFiles.cleanTmpLedger faults fs ledgerPath).2

namespace AmareleoApi

variable {env : Environment V} {hash : String → Except String (Vector UInt8 32)} {faults : Faults}
  {fs : FileSystem} {a : AmareleoApi V}

lemma of_getLedgerFolder {ledgerPath : PathBuf}
    (h : a.data.getLedgerFolder (env.onFiles hash faults fs) = .ok ledgerPath) : ∃ tag,
    LedgerFiles.endpointFileTag hash a.data.ledgerDefaultNaming a.data.restIp = .ok tag ∧
      ledgerPath = LedgerFiles.customLedgerDir a.data.networkId a.data.keepState tag
        (a.data.ledgerBasePath.getD env.currentDir) := by
  unfold AmareleoApiData.getLedgerFolder at h
  cases htag : (env.onFiles hash faults fs).endpointFileTag a.data.ledgerDefaultNaming
      a.data.restIp with
  | error e =>
    rw [htag] at h
    cases h
  | ok tag =>
    rw [htag] at h
    cases h
    exact ⟨tag, htag, rfl⟩

/-- The start of a node cleans under the configuration of the node, which does not keep its
state, or it changes no file. -/
lemma filesAfterStartPrep_cases (env : Environment V)
    (hash : String → Except String (Vector UInt8 32)) (faults : Faults) (fs : FileSystem)
    (a : AmareleoApi V) :
    a.filesAfterStartPrep env hash faults fs = fs ∨
      a.data.keepState = false ∧ ∃ tag,
        LedgerFiles.endpointFileTag hash a.data.ledgerDefaultNaming a.data.restIp = .ok tag ∧
        a.filesAfterStartPrep env hash faults fs
          = (LedgerFiles.cleanTmpLedger faults fs
              (LedgerFiles.customLedgerDir a.data.networkId false tag
                (a.data.ledgerBasePath.getD env.currentDir))).2 := by
  unfold filesAfterStartPrep
  dsimp only
  split
  · exact .inl rfl
  split
  · exact .inl rfl
  next ledgerPath hfolder =>
  split
  · exact .inl rfl
  next data hdata =>
  obtain ⟨tracing, rfl⟩ := traceInit_spec hdata
  obtain ⟨tag, htag, hpath⟩ := of_getLedgerFolder hfolder
  dsimp only
  cases hstate : a.data.keepState with
  | true => exact .inl rfl
  | false =>
    rw [if_neg Bool.false_ne_true, hpath, hstate]
    exact .inr ⟨rfl, tag, htag, rfl⟩

/-- A node that starts has cleaned the ledger that it is going to load, unless it keeps it. -/
theorem cleaned_of_startPrep {data : ValidatorNewData}
    (h : (a.startPrep (env.onFiles hash faults fs)).1 = .ok data) :
    a.filesAfterStartPrep env hash faults fs
        = (if data.keepState then fs
          else (LedgerFiles.cleanTmpLedger faults fs data.storageMode).2) ∧
      (data.keepState = false →
        (LedgerFiles.cleanTmpLedger faults fs data.storageMode).1 = .ok ()) := by
  unfold startPrep at h
  unfold filesAfterStartPrep
  dsimp only
  split at h
  · cases h
  next hstate =>
  rw [if_neg hstate]
  cases hfolder : a.data.getLedgerFolder (env.onFiles hash faults fs) with
  | error e =>
    rw [hfolder] at h
    cases h
  | ok ledgerPath =>
    rw [hfolder] at h
    cases htrace : a.data.traceInit (env.onFiles hash faults fs) with
    | error e =>
      dsimp only at h
      rw [htrace] at h
      cases h
    | ok traced =>
      dsimp only at h ⊢
      rw [htrace] at h
      dsimp only at h
      split at h
      · cases h
      · next hclean =>
        cases h
        refine ⟨rfl, fun hkeep => ?_⟩
        dsimp only at hkeep
        rw [hkeep, if_neg Bool.false_ne_true] at hclean
        exact hclean

end AmareleoApi

namespace LedgerFiles

/-- In a base path, the ledgers and the proposal caches of all configurations lie directly there,
and they are all apart. -/
structure FilesApart (base : PathBuf) : Prop where
  ledger : ∀ c : Configuration, ∃ name,
    (c.ledgerPath base).components = base.components ++ [.normal name]
  cache : ∀ c : Configuration, ∃ cache name, c.cachePath base = .ok cache ∧
    cache.components = base.components ++ [.normal name]
  ledger_inj : ∀ c d : Configuration,
    (c.ledgerPath base).components = (d.ledgerPath base).components → c = d
  cache_inj : ∀ (c d : Configuration) {cache cache' : PathBuf}, c.cachePath base = .ok cache →
    d.cachePath base = .ok cache' → cache.components = cache'.components → c = d
  cache_ne_ledger : ∀ (c d : Configuration) {cache : PathBuf}, c.cachePath base = .ok cache →
    cache.components ≠ (d.ledgerPath base).components

lemma filesApart (base : PathBuf) : FilesApart base where
  ledger c := ⟨_, c.components_ledgerPath base⟩
  cache c := by
    obtain ⟨cache, hcache, hcomponents⟩ := c.cachePath_ok base
    exact ⟨cache, _, hcache, hcomponents⟩
  ledger_inj c d h := Configuration.eq_of_ledgerName
    (Configuration.name_eq_of_components (c.components_ledgerPath base)
      (d.components_ledgerPath base) h)
  cache_inj c d _ _ hc hd h := Configuration.eq_of_cacheName
    (Configuration.name_eq_of_components (Configuration.components_cachePath hc)
      (Configuration.components_cachePath hd) h)
  cache_ne_ledger c d _ hc h := ledgerName_ne_cacheName d.isFileTag
    (Configuration.name_eq_of_components (Configuration.components_cachePath hc)
      (d.components_ledgerPath base) h).symm

/-- **Cleaning never touches retained state.** The tags of endpoints are file tags, for which the
files of all configurations are apart in any base path; a cleaning, even one that fails, removes
nothing of another configuration; and the start of a node that does not keep its state removes
nothing of those that keep theirs, or are of another network or another tag. -/
theorem cleaning_spares_retained (V : Type) :
    (∀ {hash forceDefault endpoint tag},
      endpointFileTag hash forceDefault endpoint = .ok tag → IsFileTag tag) ∧
    (∀ base, FilesApart base) ∧
    (∀ (c d : Configuration) (faults : Faults) (fs : FileSystem) (base : PathBuf), c ≠ d →
      d.Spared base fs (cleanTmpLedger faults fs (c.ledgerPath base)).2) ∧
    (∀ (env : Environment V) (hash : String → Except String (Vector UInt8 32)) (faults : Faults)
      (fs : FileSystem) (a : AmareleoApi V) (d : Configuration),
      d.keepState = true ∨ d.network ≠ a.data.networkId ∨
        endpointFileTag hash a.data.ledgerDefaultNaming a.data.restIp ≠ .ok d.tag →
      d.Spared (a.data.ledgerBasePath.getD env.currentDir) fs
        (a.filesAfterStartPrep env hash faults fs)) := by
  refine ⟨isFileTag_endpointFileTag, filesApart, fun c d faults fs base h =>
    Configuration.spared_cleanTmpLedger h faults fs base, fun env hash faults fs a d h => ?_⟩
  rcases a.filesAfterStartPrep_cases env hash faults fs with hsame | ⟨hkeep, tag, htag, hclean⟩
  · rw [hsame]
    exact .refl _ _ _
  · rw [hclean]
    have hconfig : (⟨a.data.networkId, false, tag, isFileTag_endpointFileTag htag⟩ : Configuration)
        ≠ d := by
      rintro rfl
      rcases h with h | h | h
      · cases h
      · exact h rfl
      · exact h htag
    exact Configuration.spared_cleanTmpLedger hconfig faults fs _

end LedgerFiles

end AmareleoChain
