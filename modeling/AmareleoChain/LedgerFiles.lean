import AmareleoChain.Api
import AmareleoChain.Library.Text
import Std.Data.String.ToNat

/-!
The folders of the ledgers and the files of the proposal caches.

The path of a proposal cache is made of the path of its ledger, by a replacement in the name of
the folder. Names of different configurations differ, and so do their caches, as the marker
that is replaced occurs once in each of them.
-/

namespace AmareleoChain

/-- How `Display` writes the address of an endpoint. -/
def SocketAddr.fmt (endpoint : SocketAddr) : String := s!"{endpoint.ip}:{endpoint.port}"

/-- `hex::encode`. -/
def hexEncode (bytes : List UInt8) : List Char :=
  bytes.flatMap fun byte => [(byte.toNat / 16).digitChar, (byte.toNat % 16).digitChar]

inductive StorageMode where
  | production
  | development (id : ℕ)
  | custom (path : PathBuf)

namespace LedgerFiles

def ledgerDirTag : String := "-ledger-"
def proposalCacheTag : String := "-proposal-cache-"
def defaultFileTag : String := "0"

/-- `endpoint_file_tag`, by the hash of an endpoint: a field element, in little-endian bytes. -/
def endpointFileTag (hash : String → Except String (Vector UInt8 32)) (forceDefault : Bool)
    (endpoint : SocketAddr) : Except String String :=
  if forceDefault then .ok defaultFileTag
  else if endpoint = ⟨"0.0.0.0", 3030⟩ then .ok defaultFileTag
  else
    match hash endpoint.fmt with
    | .error e => .error e
    | .ok hash =>
      let hashStr := hexEncode hash.toList
      .ok (String.ofList (hashStr.take (min hashStr.length 8)))

def amareleoStorageMode (ledgerPath : PathBuf) : StorageMode := .custom ledgerPath

def proposalCachePath : StorageMode → Except String PathBuf
  | .custom path =>
    match path.fileName.bind OsString.toStr? with
    | none => .error "Failed: Cannot extract ledger folder name"
    | some filename =>
      if Text.contains ledgerDirTag.toList filename.toList then
        let filename := String.ofList
          (Text.replace ledgerDirTag.toList proposalCacheTag.toList filename.toList)
        .ok (path.pop.push (.ofString filename))
      else .error "Failed: Unexpected ledger folder name!"
  | _ => .error "Failed: Custom StorageMode expected!"

/-! ### File tags -/

/-- A tag that is not empty, of hexadecimal digits. -/
def IsFileTag (tag : String) : Prop := tag ≠ "" ∧ ∀ c ∈ tag.toList, c.isHexDigit = true

instance (tag : String) : Decidable (IsFileTag tag) :=
  decidable_of_iff (tag ≠ "" ∧ tag.toList.all Char.isHexDigit = true)
    (and_congr_right fun _ => List.all_eq_true)

lemma isHexDigit_of_mem_hexEncode {bytes : List UInt8} {c : Char} (h : c ∈ hexEncode bytes) :
    c.isHexDigit = true := by
  have hdigit : ∀ n < 16, n.digitChar.isHexDigit = true := by decide
  obtain ⟨byte, -, hc⟩ := List.mem_flatMap.mp h
  have hbyte := byte.toNat_lt
  rcases List.mem_cons.mp hc with rfl | hc
  · exact hdigit _ (by omega)
  · rw [List.mem_singleton.mp hc]
    exact hdigit _ (by omega)

lemma length_hexEncode (bytes : List UInt8) : (hexEncode bytes).length = bytes.length * 2 := by
  rw [hexEncode, List.length_flatMap]
  simp

/-- **The tags of endpoints** are file tags. -/
theorem isFileTag_endpointFileTag {hash : String → Except String (Vector UInt8 32)}
    {forceDefault : Bool} {endpoint : SocketAddr} {tag : String}
    (h : endpointFileTag hash forceDefault endpoint = .ok tag) : IsFileTag tag := by
  unfold endpointFileTag at h
  split at h
  · cases h
    decide
  split at h
  · cases h
    decide
  split at h
  · cases h
  next bytes hbytes =>
  cases h
  have hlen : (hexEncode bytes.toList).length = 64 := by
    rw [length_hexEncode, Vector.length_toList]
  refine ⟨fun hempty => ?_, fun c hc => ?_⟩
  · have hnil := congrArg (fun s : String => s.toList.length) hempty
    rw [String.toList_ofList, List.length_take, hlen] at hnil
    cases hnil
  · rw [String.toList_ofList] at hc
    exact isHexDigit_of_mem_hexEncode (List.mem_of_mem_take hc)

/-! ### Names -/

/-- What a name begins with, up to the marker. -/
def stem (keepState : Bool) : List Char :=
  if keepState then ".amareleo".toList else ".amareleo-tmp".toList

/-- What comes after the marker. -/
def suffix (network : ℕ) (endPointTag : String) : List Char :=
  network.repr.toList ++ '-' :: endPointTag.toList

/-- The name of a proposal cache. -/
def cacheName (network : ℕ) (keepState : Bool) (endPointTag : String) : String :=
  String.ofList (stem keepState ++ (proposalCacheTag.toList ++ suffix network endPointTag))

variable {network network' : ℕ} {keepState keepState' : Bool} {tag tag' : String}

lemma toList_ledgerName : (ledgerName network keepState tag).toList
    = stem keepState ++ (ledgerDirTag.toList ++ suffix network tag) := by
  have hname : ledgerName network keepState tag
      = "." ++ (if keepState then ledgerStdDir else ledgerTmpDir) ++ "-" ++ network.repr ++ "-"
        ++ tag := rfl
  rw [hname]
  simp only [String.toList_append, List.append_assoc]
  cases keepState <;> rfl

lemma isDigit_of_mem_repr {c : Char} (h : c ∈ network.repr.toList) : c.isDigit = true := by
  rw [Nat.toList_repr] at h
  exact Nat.isDigit_of_mem_toDigits (by decide) (by decide) h

lemma not_mem_suffix (htag : IsFileTag tag) {c : Char} (hhex : c.isHexDigit = false)
    (hdash : c ≠ '-') : c ∉ suffix network tag := by
  rw [suffix, List.mem_append, List.mem_cons, not_or, not_or]
  refine ⟨fun h => ?_, hdash, fun h => ?_⟩
  · rw [Char.isHexDigit, isDigit_of_mem_repr h] at hhex
    cases hhex
  · rw [htag.2 c h] at hhex
    cases hhex

lemma suffix_inj (htag : IsFileTag tag) (h : suffix network tag = suffix network' tag') :
    network = network' ∧ tag = tag' := by
  have hnetwork : '-' ∉ network.repr.toList := fun hn => by
    have hdigit := isDigit_of_mem_repr hn
    cases hdigit
  have hdash : '-' ∉ tag.toList := fun hn => by
    have hhex := htag.2 _ hn
    cases hhex
  obtain ⟨hrepr, -, htags⟩ := (List.append_cons_inj_of_notMem hnetwork hdash).mp h
  exact ⟨Nat.repr_inj.mp (String.toList_inj.mp hrepr), String.toList_inj.mp htags⟩

/-- The marker of a ledger, and that of a proposal cache. -/
def markers : List (List Char) := [ledgerDirTag.toList, proposalCacheTag.toList]

/-- The first characters tell the modes and the markers apart. -/
lemma stem_append_marker_inj : ∀ k k' : Bool, ∀ m ∈ markers, ∀ m' ∈ markers,
    (stem k ++ m).take 15 = (stem k' ++ m').take 15 → k = k' ∧ m = m' := by decide

/-- **The names** of different configurations differ, and so do those of a ledger and a cache. -/
theorem name_inj {marker marker' : List Char} (hmarker : marker ∈ markers)
    (hmarker' : marker' ∈ markers) (htag : IsFileTag tag)
    (h : stem keepState ++ (marker ++ suffix network tag)
      = stem keepState' ++ (marker' ++ suffix network' tag')) :
    marker = marker' ∧ network = network' ∧ keepState = keepState' ∧ tag = tag' := by
  have hlong : ∀ k, ∀ m ∈ markers, 15 ≤ (stem k ++ m).length := by decide
  rw [← List.append_assoc, ← List.append_assoc] at h
  have hhead := congrArg (List.take 15) h
  rw [List.take_append_of_le_length (hlong keepState marker hmarker),
    List.take_append_of_le_length (hlong keepState' marker' hmarker')] at hhead
  obtain ⟨rfl, rfl⟩ := stem_append_marker_inj _ _ _ hmarker _ hmarker' hhead
  obtain ⟨hnetwork, htags⟩ := suffix_inj htag (List.append_cancel_left h)
  exact ⟨rfl, hnetwork, rfl, htags⟩

lemma ledgerName_inj (htag : IsFileTag tag)
    (h : ledgerName network keepState tag = ledgerName network' keepState' tag') :
    network = network' ∧ keepState = keepState' ∧ tag = tag' := by
  have hchars := congrArg String.toList h
  rw [toList_ledgerName, toList_ledgerName] at hchars
  exact (name_inj (.head _) (.head _) htag hchars).2

lemma cacheName_inj (htag : IsFileTag tag)
    (h : cacheName network keepState tag = cacheName network' keepState' tag') :
    network = network' ∧ keepState = keepState' ∧ tag = tag' := by
  have hchars := congrArg String.toList h
  rw [cacheName, cacheName, String.toList_ofList, String.toList_ofList] at hchars
  exact (name_inj (.tail _ (.head _)) (.tail _ (.head _)) htag hchars).2

lemma ledgerName_ne_cacheName (htag : IsFileTag tag) :
    ledgerName network keepState tag ≠ cacheName network' keepState' tag' := by
  intro h
  have hchars := congrArg String.toList h
  rw [toList_ledgerName, cacheName, String.toList_ofList] at hchars
  have hmarker := (name_inj (.head _) (.tail _ (.head _)) htag hchars).1
  exact absurd hmarker (by decide)

/-! ### Paths -/

lemma isName_of_stem {name : String} {chars : List Char}
    (hname : name.toList = stem keepState ++ chars) (h : '/' ∉ chars) :
    PathBuf.IsName (.ofString name) := by
  apply PathBuf.isName_of_length
  · rw [PathBuf.sep, OsString.mem_ofString, hname, List.mem_append]
    exact fun hmem => hmem.elim (by cases keepState <;> decide) h
  · have hlong : 2 < (stem keepState).length := by cases keepState <;> decide
    rw [OsString.length_ofString, hname, List.length_append]
    omega

lemma isName_ledgerName (htag : IsFileTag tag) :
    PathBuf.IsName (.ofString (ledgerName network keepState tag)) := by
  apply isName_of_stem toList_ledgerName
  rw [List.mem_append]
  exact fun h => h.elim (by decide) (not_mem_suffix htag (by decide) (by decide))

lemma isName_cacheName (htag : IsFileTag tag) :
    PathBuf.IsName (.ofString (cacheName network keepState tag)) := by
  apply isName_of_stem String.toList_ofList
  rw [List.mem_append]
  exact fun h => h.elim (by decide) (not_mem_suffix htag (by decide) (by decide))

lemma replace_marker (htag : IsFileTag tag) :
    Text.replace ledgerDirTag.toList proposalCacheTag.toList
        (ledgerName network keepState tag).toList
      = (cacheName network keepState tag).toList := by
  have hfront : ∀ t ∈ (stem keepState).tails, t ≠ [] →
      ¬ ledgerDirTag.toList <+: t ++ ledgerDirTag.toList := by
    cases keepState <;> decide
  have hmarker : ledgerDirTag.toList ≠ [] := by decide
  have hl : 'l' ∈ ledgerDirTag.toList := by decide
  rw [toList_ledgerName, Text.replace_append hmarker _ hfront,
    Text.replace_of_not_mem hl (not_mem_suffix htag (by decide) (by decide)), cacheName,
    String.toList_ofList]

/-- The ledger folder lies in the base path. -/
theorem components_customLedgerDir (htag : IsFileTag tag) (base : PathBuf) :
    (customLedgerDir network keepState tag base).components
      = base.components ++ [.normal (.ofString (ledgerName network keepState tag))] :=
  PathBuf.components_push (isName_ledgerName htag) base

/-- **The path of a proposal cache** is the one of its ledger with the name of the cache. -/
theorem proposalCachePath_customLedgerDir (htag : IsFileTag tag) (base : PathBuf) :
    ∃ cachePath, proposalCachePath (.custom (customLedgerDir network keepState tag base))
        = .ok cachePath ∧
      cachePath.components
        = base.components ++ [.normal (.ofString (cacheName network keepState tag))] := by
  have hname : PathBuf.IsName (.ofString (ledgerName network keepState tag)) :=
    isName_ledgerName htag
  have hcontains : Text.contains ledgerDirTag.toList
      (ledgerName network keepState tag).toList = true := by
    rw [toList_ledgerName]
    exact decide_eq_true ⟨stem keepState, suffix network tag, List.append_assoc _ _ _⟩
  refine ⟨(customLedgerDir network keepState tag base).pop.push
    (.ofString (cacheName network keepState tag)), ?_, ?_⟩
  · unfold proposalCachePath customLedgerDir
    dsimp only
    rw [PathBuf.fileName_push hname, Option.bind_some, OsString.toStr?_ofString]
    dsimp only
    rw [hcontains, replace_marker htag, String.ofList_toList]
    rfl
  · rw [PathBuf.components_push (isName_cacheName htag),
      PathBuf.components_pop (components_customLedgerDir htag base)]

-- the marker in the base path stays
example : (proposalCachePath
      (.custom (customLedgerDir 1 false "0" ⟨.ofString "a-ledger-"⟩))).toOption
    = some ⟨.ofString "a-ledger-/.amareleo-tmp-proposal-cache-1-0"⟩ := by decide +kernel

end LedgerFiles

end AmareleoChain
