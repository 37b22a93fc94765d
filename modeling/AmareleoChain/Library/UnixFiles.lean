import AmareleoChain.Library.UnixPath
import Mathlib.Data.List.Infix

/-!
Files of a Unix system, as the standard library of Rust finds and removes them.

A path is walked from the working directory, through the links on its way. A removal may fail,
and the removal of a folder may fail when a part of it is gone. The results say that nothing but
what lies at the path is ever removed, and that a path that still leads somewhere leads where it
led before.
-/

namespace AmareleoChain

/-- An error of the system, with what it is displayed as. -/
inductive Errno where
  | noEntry
  | notDir
  | isDir
  | loop
  | other (text : String)
  deriving DecidableEq, Repr

def Errno.fmt : Errno → String
  | noEntry => "No such file or directory (os error 2)"
  | notDir => "Not a directory (os error 20)"
  | isDir => "Is a directory (os error 21)"
  | loop => "Too many levels of symbolic links (os error 40)"
  | other text => text

/-- A place in the tree: the names of the folders from the root, and of what is there. -/
abbrev Place := List OsString

/-- What is at a place. -/
inductive Node where
  | file (contents : List UInt8)
  | dir
  | link (target : PathBuf)
  deriving DecidableEq, Repr

/-- The tree of files, and the working directory. What is in something is in a folder. -/
structure FileSystem where
  workDir : Place
  node : Place → Option Node
  nested : ∀ place name, node (place ++ [name]) ≠ none → node place = some .dir

/-- What goes wrong on the machine: metadata that cannot be read, and removals that fail. The
removal of a folder may leave some of what is in it. -/
structure Faults where
  stat : PathBuf → Bool
  removeFile : PathBuf → Option Errno
  removeDirAll : PathBuf → Option (Errno × (Place → Bool))

/-- The links that the system follows in one walk. -/
def maxSymlinks : ℕ := 40

/-- Where some components lead, from a place, with links to follow. -/
def walk (node : Place → Option Node) : ℕ → Place → List Component → Except Errno Place
  | _, here, [] => .ok here
  | links, _, .rootDir :: cs => walk node links [] cs
  | links, here, .curDir :: cs => walk node links here cs
  | links, here, .parentDir :: cs => walk node links here.dropLast cs
  | links, here, .normal name :: cs =>
    match node (here ++ [name]) with
    | none => .error .noEntry
    | some .dir => walk node links (here ++ [name]) cs
    | some (.file _) => if cs = [] then .ok (here ++ [name]) else .error .notDir
    | some (.link target) =>
      match links with
      | 0 => .error .loop
      | links + 1 => walk node links here (target.components ++ cs)
  termination_by links _ cs => (links, cs.length)

/-- A walk in a smaller tree leads where the walk in the tree leads, or nowhere. -/
lemma walk_mono {node node' : Place → Option Node}
    (h : ∀ q, node' q = none ∨ node' q = node q) {links : ℕ} {here place : Place}
    {cs : List Component} (hwalk : walk node' links here cs = .ok place) :
    walk node links here cs = .ok place := by
  have of_some : ∀ {q : Place} {n : Node}, node' q = some n → node q = some n := fun hq =>
    ((h _).resolve_left fun hnone => by rw [hnone] at hq; cases hq).symm.trans hq
  fun_induction walk node' links here cs with
  | case1 => rw [walk, hwalk]
  | case2 _ _ _ ih => rw [walk, ih hwalk]
  | case3 _ _ _ ih => rw [walk, ih hwalk]
  | case4 _ _ _ ih => rw [walk, ih hwalk]
  | case5 => cases hwalk
  | case6 links here name cs hnode ih =>
    rw [walk, of_some hnode]
    exact ih hwalk
  | case7 links here name contents hnode =>
    rw [walk, of_some hnode]
    exact hwalk
  | case8 => cases hwalk
  | case9 => cases hwalk
  | case10 here name cs target hnode links ih =>
    rw [walk, of_some hnode]
    exact ih hwalk

lemma walk_concat {node : Place → Option Node} {links : ℕ} {here place : Place}
    {cs : List Component} {name : OsString}
    (h : walk node links here (cs ++ [.normal name]) = .ok place) :
    ∃ folder, walk node links here cs = .ok folder ∧ node (folder ++ [name]) ≠ none := by
  fun_induction walk node links here cs with
  | case1 links here =>
    refine ⟨here, rfl, fun hnode => ?_⟩
    rw [List.nil_append, walk, hnode] at h
    cases h
  | case2 links here cs ih =>
    rw [List.cons_append, walk] at h
    exact ih h
  | case3 links here cs ih =>
    rw [List.cons_append, walk] at h
    exact ih h
  | case4 links here cs ih =>
    rw [List.cons_append, walk] at h
    exact ih h
  | case5 links here first cs hnode =>
    rw [List.cons_append, walk, hnode] at h
    cases h
  | case6 links here first cs hnode ih =>
    rw [List.cons_append, walk, hnode] at h
    exact ih h
  | case7 links here first contents hnode =>
    rw [List.cons_append, walk, hnode] at h
    cases h
  | case8 links here first cs contents hnode =>
    rw [List.cons_append, walk, hnode] at h
    dsimp only at h
    rw [if_neg (by simp)] at h
    cases h
  | case9 here first cs target hnode =>
    rw [List.cons_append, walk, hnode] at h
    cases h
  | case10 here first cs target hnode links ih =>
    rw [List.cons_append, walk, hnode] at h
    rw [List.append_assoc] at ih
    exact ih h

namespace FileSystem

/-- Where a path leads. -/
def follow (fs : FileSystem) (cs : List Component) : Except Errno Place :=
  walk fs.node maxSymlinks fs.workDir cs

/-- What a path names: a link at its end is not followed. -/
def locate (fs : FileSystem) (p : PathBuf) : Except Errno Place :=
  match p.components.getLast? with
  | some (.normal name) => (fs.follow p.components.dropLast).map (· ++ [name])
  | _ => fs.follow p.components

/-- `Path::exists`: whether the metadata of where the path leads can be read. -/
def exists? (fs : FileSystem) (faults : Faults) (p : PathBuf) : Bool :=
  !faults.stat p && !p.inner.isEmpty && (fs.follow p.components).isOk

lemma all_inits {keep : Place → Bool} {q : Place} :
    q.inits.all keep = true ↔ ∀ r, r <+: q → keep r = true := by
  simp only [List.all_eq_true, List.mem_inits]

/-- What is left when only some of the nodes are kept: those with all that they lie in. -/
def restrict (fs : FileSystem) (keep : Place → Bool) : FileSystem where
  workDir := fs.workDir
  node q := if q.inits.all keep then fs.node q else none
  nested place name h := by
    split at h
    · next hkeep =>
      have hplace : ∀ r, r <+: place → keep r = true := fun r hr =>
        all_inits.mp hkeep r (hr.trans (List.prefix_append _ _))
      rw [if_pos (all_inits.mpr hplace)]
      exact fs.nested place name h
    · exact absurd rfl h

/-- `std::fs::remove_file`. -/
def removeFile (fs : FileSystem) (faults : Faults) (p : PathBuf) :
    Except Errno Unit × FileSystem :=
  match fs.locate p with
  | .error e => (.error e, fs)
  | .ok place =>
    match fs.node place, faults.removeFile p with
    | none, _ => (.error .noEntry, fs)
    | some .dir, _ => (.error .isDir, fs)
    | some _, some e => (.error e, fs)
    | some _, none => (.ok (), fs.restrict (· ≠ place))

/-- `std::fs::remove_dir_all`: a link is removed, not followed. -/
def removeDirAll (fs : FileSystem) (faults : Faults) (p : PathBuf) :
    Except Errno Unit × FileSystem :=
  match fs.locate p with
  | .error e => (.error e, fs)
  | .ok place =>
    match fs.node place, faults.removeDirAll p with
    | none, _ => (.error .noEntry, fs)
    | some (.file _), _ => (.error .notDir, fs)
    | some (.link _), _ => fs.removeFile faults p
    | some .dir, some (e, leaves) =>
      (.error e, fs.restrict fun q => !place.isPrefixOf q || leaves q)
    | some .dir, none => (.ok (), fs.restrict fun q => !place.isPrefixOf q)

/-! ### What is removed -/

variable {fs fs' fs'' : FileSystem} {faults : Faults} {p : PathBuf} {paths paths' : List PathBuf}

/-- Nothing was removed but what lies at some paths. -/
structure OnlyRemoved (paths : List PathBuf) (fs fs' : FileSystem) : Prop where
  workDir : fs'.workDir = fs.workDir
  fewer : ∀ q, fs'.node q = none ∨ fs'.node q = fs.node q
  rest : ∀ q, (∀ p ∈ paths, ∀ place, fs.locate p = .ok place → ¬ place <+: q) →
    fs'.node q = fs.node q

lemma OnlyRemoved.refl (paths : List PathBuf) (fs : FileSystem) : OnlyRemoved paths fs fs :=
  ⟨rfl, fun _ => .inr rfl, fun _ _ => rfl⟩

lemma node_restrict_of_all {keep : Place → Bool} {q : Place}
    (h : ∀ r, r <+: q → keep r = true) : (fs.restrict keep).node q = fs.node q :=
  if_pos (all_inits.mpr h)

lemma onlyRemoved_restrict {place : Place} {keep : Place → Bool} (hp : fs.locate p = .ok place)
    (hkeep : ∀ q, ¬ place <+: q → keep q = true) : OnlyRemoved [p] fs (fs.restrict keep) where
  workDir := rfl
  fewer q := by
    dsimp only [restrict]
    split
    · exact .inr rfl
    · exact .inl rfl
  rest q hq := by
    have hout : ¬ place <+: q := hq p (.head _) place hp
    exact node_restrict_of_all fun r hr => hkeep r fun hplace => hout (hplace.trans hr)

lemma OnlyRemoved.follow (h : OnlyRemoved paths fs fs') {cs : List Component} {place : Place}
    (hfollow : fs'.follow cs = .ok place) : fs.follow cs = .ok place := by
  unfold FileSystem.follow at hfollow ⊢
  rw [h.workDir] at hfollow
  exact walk_mono h.fewer hfollow

lemma OnlyRemoved.locate (h : OnlyRemoved paths fs fs') {place : Place}
    (hlocate : fs'.locate p = .ok place) : fs.locate p = .ok place := by
  unfold FileSystem.locate at hlocate ⊢
  split at hlocate
  · next name _ =>
    cases hfollow : fs'.follow p.components.dropLast with
    | error e =>
      rw [hfollow] at hlocate
      cases hlocate
    | ok place =>
      rw [hfollow] at hlocate
      rw [h.follow hfollow]
      exact hlocate
  · exact h.follow hlocate

lemma OnlyRemoved.trans (h : OnlyRemoved paths fs fs') (h' : OnlyRemoved paths' fs' fs'') :
    OnlyRemoved (paths ++ paths') fs fs'' where
  workDir := h'.workDir.trans h.workDir
  fewer q := by
    rcases h'.fewer q with hq | hq
    · exact .inl hq
    · rw [hq]
      exact h.fewer q
  rest q hq := by
    have hfirst : fs'.node q = fs.node q := h.rest q fun p hp =>
      hq p (List.mem_append_left _ hp)
    have hsecond : fs''.node q = fs'.node q := h'.rest q fun p hp place hplace =>
      hq p (List.mem_append_right _ hp) place (h.locate hplace)
    exact hsecond.trans hfirst

lemma onlyRemoved_removeFile : OnlyRemoved [p] fs (fs.removeFile faults p).2 := by
  unfold removeFile
  cases hplace : fs.locate p with
  | error e => exact .refl _ _
  | ok place =>
    dsimp only
    split
    · exact .refl _ _
    · exact .refl _ _
    · exact .refl _ _
    · refine onlyRemoved_restrict hplace fun q hq => decide_eq_true ?_
      rintro rfl
      exact hq (List.prefix_refl _)

lemma not_isPrefixOf {place q : Place} (h : ¬ place <+: q) : (!place.isPrefixOf q) = true := by
  rw [Bool.not_eq_true', ← Bool.not_eq_true, List.isPrefixOf_iff_prefix]
  exact h

/-- Also a removal that fails removes nothing else. -/
lemma onlyRemoved_removeDirAll : OnlyRemoved [p] fs (fs.removeDirAll faults p).2 := by
  unfold removeDirAll
  cases hplace : fs.locate p with
  | error e => exact .refl _ _
  | ok place =>
    dsimp only
    split
    · exact .refl _ _
    · exact .refl _ _
    · exact onlyRemoved_removeFile
    · refine onlyRemoved_restrict hplace fun q hq => ?_
      rw [not_isPrefixOf hq, Bool.true_or]
    · exact onlyRemoved_restrict hplace fun q hq => not_isPrefixOf hq

/-! ### What is gone -/

lemma OnlyRemoved.exists?_eq_false (h : OnlyRemoved paths fs fs')
    (hexists : fs.exists? faults p = false) : fs'.exists? faults p = false := by
  unfold FileSystem.exists? at hexists ⊢
  cases hfollow : fs'.follow p.components with
  | error e => exact Bool.and_false _
  | ok place =>
    rw [h.follow hfollow] at hexists
    exact hexists

lemma locate_name {cs : List Component} {name : OsString}
    (hp : p.components = cs ++ [.normal name]) :
    fs.locate p = (fs.follow cs).map (· ++ [name]) := by
  unfold locate
  rw [hp, List.getLast?_concat, List.dropLast_concat]

lemma exists?_eq_false_of_node {cs : List Component} {name : OsString}
    (hp : p.components = cs ++ [.normal name])
    (h : ∀ place, fs.locate p = .ok place → fs.node place = none) :
    fs.exists? faults p = false := by
  unfold exists?
  cases hfollow : fs.follow p.components with
  | error e => exact Bool.and_false _
  | ok place =>
    rw [hp] at hfollow
    obtain ⟨folder, hfolder, hnode⟩ := walk_concat hfollow
    have hlocate : fs.locate p = .ok (folder ++ [name]) := by
      rw [locate_name hp, follow, hfolder]
      rfl
    exact absurd (h _ hlocate) hnode

lemma node_restrict_self {keep : Place → Bool} {place : Place} (h : keep place = false) :
    (fs.restrict keep).node place = none :=
  if_neg fun hkeep => by
    rw [all_inits.mp hkeep place (List.prefix_refl _)] at h
    cases h

lemma node_removeFile (h : (fs.removeFile faults p).1 = .ok ()) {place : Place}
    (hplace : fs.locate p = .ok place) : (fs.removeFile faults p).2.node place = none := by
  unfold removeFile at h ⊢
  rw [hplace] at h ⊢
  dsimp only at h ⊢
  split at h
  · cases h
  · cases h
  · cases h
  · exact node_restrict_self (decide_eq_false (not_not_intro rfl))

lemma node_removeDirAll (h : (fs.removeDirAll faults p).1 = .ok ()) {place : Place}
    (hplace : fs.locate p = .ok place) : (fs.removeDirAll faults p).2.node place = none := by
  unfold removeDirAll at h ⊢
  rw [hplace] at h ⊢
  dsimp only at h ⊢
  split at h
  · cases h
  · cases h
  · exact node_removeFile h hplace
  · cases h
  · refine node_restrict_self ?_
    rw [List.isPrefixOf_iff_prefix.mpr (List.prefix_refl _), Bool.not_true]

/-- **A removal that succeeds** leaves nothing that has the path. -/
theorem exists?_removeFile {cs : List Component} {name : OsString}
    (hp : p.components = cs ++ [.normal name]) (h : (fs.removeFile faults p).1 = .ok ()) :
    (fs.removeFile faults p).2.exists? faults p = false :=
  exists?_eq_false_of_node hp fun _ hplace =>
    node_removeFile h (onlyRemoved_removeFile.locate hplace)

theorem exists?_removeDirAll {cs : List Component} {name : OsString}
    (hp : p.components = cs ++ [.normal name]) (h : (fs.removeDirAll faults p).1 = .ok ()) :
    (fs.removeDirAll faults p).2.exists? faults p = false :=
  exists?_eq_false_of_node hp fun _ hplace =>
    node_removeDirAll h (onlyRemoved_removeDirAll.locate hplace)

/-! ### What lies next to it -/

/-- All that lies at a path, which may lead there through links, is as it was. -/
def Spared (fs fs' : FileSystem) (p : PathBuf) : Prop :=
  ∀ place, fs.locate p = .ok place → ∀ q, place <+: q → fs'.node q = fs.node q

/-- **The removal of some names in a folder** spares what has another name there. -/
theorem OnlyRemoved.spared {cs : List Component} {name : OsString}
    (h : OnlyRemoved paths fs fs') (hp : p.components = cs ++ [.normal name])
    (hpaths : ∀ r ∈ paths, ∃ other, other ≠ name ∧ r.components = cs ++ [.normal other]) :
    Spared fs fs' p := by
  intro place hplace q hq
  refine h.rest q fun r hr place' hplace' hq' => ?_
  obtain ⟨other, hother, hcomponents⟩ := hpaths r hr
  rw [locate_name hp] at hplace
  rw [locate_name hcomponents] at hplace'
  cases hfolder : fs.follow cs with
  | error e =>
    rw [hfolder] at hplace
    cases hplace
  | ok folder =>
    rw [hfolder] at hplace hplace'
    cases hplace
    cases hplace'
    have hlength : (folder ++ [other]).length = (folder ++ [name]).length := by
      rw [List.length_append, List.length_append]
      rfl
    have heq : folder ++ [other] = folder ++ [name] :=
      (List.prefix_of_prefix_length_le hq' hq hlength.le).eq_of_length hlength
    exact hother (List.singleton_inj.mp (List.append_cancel_left heq))

end FileSystem

end AmareleoChain
