import Mathlib.Data.List.DropRight

/-!
Paths of a Unix system, as the standard library of Rust reads and changes them.

A path is a buffer of units, and two paths are the same when their components are: repeated
separators, a trailing separator and the component `.` make no difference, except that `.` at the
front is a component of its own. Pushing and popping work on the buffer; the results here say
what they do to the components.
-/

namespace AmareleoChain

/-- A unit of an `OsString`: a character, or a run of bytes that decodes to none. -/
inductive OsUnit where
  | char (c : Char)
  | invalid (bytes : List UInt8)
  deriving DecidableEq, Repr

def OsUnit.char? : OsUnit → Option Char
  | .char c => some c
  | .invalid _ => none

abbrev OsString := List OsUnit

namespace OsString

def ofString (s : String) : OsString := s.toList.map OsUnit.char

/-- `to_str`. -/
def toStr? (s : OsString) : Option String :=
  (s.mapM OsUnit.char?).map String.ofList

def toStringLossy (s : OsString) : String :=
  String.ofList (s.map fun unit => unit.char?.getD (Char.ofNat 0xFFFD))

@[simp] lemma toStr?_ofString (s : String) : toStr? (ofString s) = some s := by
  have hchars : ∀ l : List Char, (l.map OsUnit.char).mapM OsUnit.char? = some l := by
    intro l
    induction l with
    | nil => rfl
    | cons c l ih => rw [List.map_cons, List.mapM_cons, ih]; rfl
  rw [toStr?, ofString, hchars, Option.map_some, String.ofList_toList]

@[simp] lemma length_ofString (s : String) : (ofString s).length = s.toList.length :=
  List.length_map _

lemma mem_ofString {s : String} {c : Char} : OsUnit.char c ∈ ofString s ↔ c ∈ s.toList := by
  simp [ofString]

lemma ofString_inj {s t : String} : ofString s = ofString t ↔ s = t := by
  refine ⟨fun h => ?_, fun h => by rw [h]⟩
  have hs := congrArg toStr? h
  simpa using hs

end OsString

/-- A component of a path. -/
inductive Component where
  | rootDir
  | curDir
  | parentDir
  | normal (name : OsString)
  deriving DecidableEq, Repr

structure PathBuf where
  inner : OsString
  deriving DecidableEq, Repr

namespace PathBuf

def sep : OsUnit := .char '/'

def dot : OsUnit := .char '.'

def parseSingleComponent (segment : OsString) : Option Component :=
  if segment = [] ∨ segment = [dot] then none
  else if segment = [dot, dot] then some .parentDir
  else some (.normal segment)

/-- What the first segments stand for: the root, when the path begins with a separator, or the
current directory. -/
def start : List OsString → List Component
  | [] :: _ :: _ => [.rootDir]
  | segment :: _ => if segment = [dot] then [.curDir] else []
  | [] => []

/-- The components that some segments stand for. -/
def parse (segments : List OsString) : List Component :=
  start segments ++ segments.filterMap parseSingleComponent

def segments (p : PathBuf) : List OsString := p.inner.splitOn sep

def components (p : PathBuf) : List Component := parse p.segments

/-- `push`: an absolute path replaces the buffer. -/
def push (p : PathBuf) (path : OsString) : PathBuf :=
  if path.head? = some sep then ⟨path⟩
  else if p.inner = [] ∨ p.inner.getLast? = some sep then ⟨p.inner ++ path⟩
  else ⟨p.inner ++ sep :: path⟩

def fileName (p : PathBuf) : Option OsString :=
  match p.components.getLast? with
  | some (.normal name) => some name
  | _ => none

/-- The segments without those at the end that are no component. -/
def trim (segments : List OsString) : List OsString :=
  segments.rdropWhile fun segment => (parseSingleComponent segment).isNone

/-- The buffer of a path that is all start. -/
def startPath (p : PathBuf) : PathBuf :=
  match start p.segments with
  | [.rootDir] => ⟨[sep]⟩
  | [.curDir] => ⟨[dot]⟩
  | _ => ⟨[]⟩

/-- `parent`: the buffer up to the end of the component before the last. -/
def parent (p : PathBuf) : Option PathBuf :=
  match trim p.segments with
  | [] => if start p.segments = [.curDir] then some ⟨[]⟩ else none
  | segments =>
    match trim segments.dropLast with
    | [] => some p.startPath
    | segments => some ⟨[sep].intercalate segments⟩

def pop (p : PathBuf) : PathBuf := p.parent.getD p

def display (p : PathBuf) : String := p.inner.toStringLossy

/-! ### Segments -/

variable {p : PathBuf} {name : OsString} {segments : List OsString}

lemma sep_not_mem_of_mem_segments {segment : OsString} (h : segment ∈ p.segments) :
    sep ∉ segment := by
  rw [PathBuf.segments, List.splitOn_eq_splitOnP] at h
  have hnone : ∀ (l : OsString) (segment : OsString), segment ∈ l.splitOnP (· == sep) →
      sep ∉ segment := by
    intro l
    induction l with
    | nil => simp [List.splitOnP_nil]
    | cons unit l ih =>
      intro segment hmem
      rw [List.splitOnP_cons_eq_if_modifyHead] at hmem
      split at hmem
      · rcases List.mem_cons.mp hmem with rfl | hmem
        · exact List.not_mem_nil
        · exact ih segment hmem
      · next hunit =>
        obtain ⟨first, rest, hrest⟩ :=
          List.exists_cons_of_ne_nil (List.splitOnP_ne_nil (· == sep) l)
        rw [hrest, List.modifyHead_cons] at hmem
        rw [hrest] at ih
        rcases List.mem_cons.mp hmem with rfl | hmem
        · rw [List.mem_cons, not_or]
          exact ⟨fun h => hunit (by simp [h]), ih first (List.mem_cons_self ..)⟩
        · exact ih segment (List.mem_cons_of_mem _ hmem)
  exact hnone _ _ h

lemma start_cons_append (segment : OsString) {rest : List OsString} (other : List OsString)
    (h : rest = [] → segment ≠ []) :
    start (segment :: (rest ++ other)) = start (segment :: rest) := by
  cases rest with
  | nil =>
    have hne := h rfl
    cases other <;> simp [start, hne]
  | cons next rest =>
    cases segment <;> simp [start]

lemma start_concat (h : segments ≠ []) (last other : OsString) :
    start (segments ++ [last]) = start (segments ++ [other]) := by
  obtain ⟨segment, rest, rfl⟩ := List.exists_cons_of_ne_nil h
  cases rest <;> cases segment <;> simp [start]

/-! ### Pushing a name -/

/-- A file name: a segment that is a normal component. -/
def IsName (name : OsString) : Prop := sep ∉ name ∧ parseSingleComponent name = some (.normal name)

lemma isName_of_length (hsep : sep ∉ name) (hlen : 2 < name.length) : IsName name := by
  refine ⟨hsep, ?_⟩
  unfold parseSingleComponent
  rw [if_neg, if_neg]
  · rintro rfl
    exact absurd hlen (by decide)
  · rintro (rfl | rfl) <;> exact absurd hlen (by decide)

lemma IsName.filterMap (hname : IsName name) :
    [name].filterMap parseSingleComponent = [.normal name] := by
  rw [List.filterMap_cons_some hname.2, List.filterMap_nil]

lemma filterMap_empty : [([] : OsString)].filterMap parseSingleComponent = [] := rfl

lemma parse_singleton (hname : IsName name) : parse [name] = parse [[]] ++ [.normal name] := by
  have hdot : name ≠ [dot] := fun h => by
    have hparse := hname.2
    rw [h] at hparse
    cases hparse
  cases name with
  | nil => exact absurd hname.2 (by decide)
  | cons unit name =>
    rw [parse, parse, hname.filterMap, filterMap_empty]
    simp [start, hdot]

lemma parse_append_name (hname : IsName name) {segments : List OsString}
    (h : segments ≠ [] ∧ segments ≠ [[]]) :
    parse (segments ++ [name]) = parse segments ++ [.normal name] := by
  obtain ⟨segment, rest, rfl⟩ := List.exists_cons_of_ne_nil h.1
  rw [parse, List.cons_append, start_cons_append segment [name] fun hrest => by
    rintro rfl
    exact h.2 (by rw [hrest]), ← List.cons_append, List.filterMap_append, hname.filterMap,
    ← List.append_assoc, parse]

/-- **Pushing a name** adds it to the components. -/
theorem components_push (hname : IsName name) (p : PathBuf) :
    (p.push name).components = p.components ++ [.normal name] := by
  have hrelative : name.head? ≠ some sep := fun h => hname.1 (List.mem_of_mem_head? h)
  have hsingle : name.splitOn sep = [name] := List.splitOn_eq_singleton hname.1
  unfold push components segments
  rw [if_neg hrelative]
  split
  · next hinner =>
    rcases hinner with hempty | hlast
    · rw [hempty, List.nil_append, hsingle]
      exact parse_singleton hname
    · -- the separator is there: the empty segment after it becomes the name
      obtain ⟨front, hfront⟩ := List.getLast?_eq_some_iff.mp hlast
      rw [hfront, List.append_assoc, List.singleton_append, List.splitOn_append_cons_self,
        List.splitOn_append_cons_self, hsingle, List.splitOn_nil]
      rw [parse, parse, start_concat (List.splitOn_ne_nil _ _) name [], List.filterMap_append,
        List.filterMap_append, hname.filterMap, filterMap_empty, List.append_nil,
        List.append_assoc]
  · next hinner =>
    rw [List.splitOn_append_cons_self, hsingle]
    refine parse_append_name hname ⟨List.splitOn_ne_nil _ _, fun hempty => hinner (.inl ?_)⟩
    have hinter : [sep].intercalate (p.inner.splitOn sep) = p.inner :=
      List.intercalate_splitOn sep
    rw [hempty] at hinter
    exact hinter.symm

/-- The name pushed is the file name. -/
theorem fileName_push (hname : IsName name) (p : PathBuf) : (p.push name).fileName = some name := by
  rw [fileName, components_push hname, List.getLast?_concat]

/-! ### The parent -/

lemma filterMap_trim : (trim segments).filterMap parseSingleComponent
    = segments.filterMap parseSingleComponent := by
  induction segments using List.reverseRecOn with
  | nil => rfl
  | append_singleton segments last ih =>
    unfold trim
    cases hlast : parseSingleComponent last with
    | none =>
      rw [List.rdropWhile_concat_pos _ _ _ (by rw [hlast]; rfl), List.filterMap_append,
        List.filterMap_cons_none hlast, List.filterMap_nil, List.append_nil]
      exact ih
    | some component =>
      rw [List.rdropWhile_concat_neg _ _ _ (by rw [hlast]; exact Bool.false_ne_true)]

lemma trim_spec (segments : List OsString) :
    trim segments = [] ∨ ∃ front last component, trim segments = front ++ [last] ∧
      front ++ [last] <+: segments ∧ parseSingleComponent last = some component := by
  induction segments using List.reverseRecOn with
  | nil => exact .inl rfl
  | append_singleton segments last ih =>
    unfold trim at ih ⊢
    cases hlast : parseSingleComponent last with
    | none =>
      rw [List.rdropWhile_concat_pos _ _ _ (by rw [hlast]; rfl)]
      refine ih.imp_right ?_
      rintro ⟨front, last', component, htrim, hpre, hlast'⟩
      exact ⟨front, last', component, htrim, hpre.trans (List.prefix_append _ _), hlast'⟩
    | some component =>
      refine .inr ⟨segments, last, component, ?_, List.prefix_refl _, hlast⟩
      exact List.rdropWhile_concat_neg _ _ _ (by rw [hlast]; exact Bool.false_ne_true)

/-- Segments that end in a component start like all of those they are the front of. -/
lemma start_of_prefix {front : List OsString} {last : OsString} {component : Component}
    (hpre : front ++ [last] <+: segments)
    (hlast : parseSingleComponent last = some component) :
    start (front ++ [last]) = start segments := by
  obtain ⟨rest, rfl⟩ := hpre
  have hne : last ≠ [] := by
    rintro rfl
    cases hlast
  cases front with
  | nil => exact (start_cons_append last rest fun _ => hne).symm
  | cons segment front =>
    exact (start_cons_append segment rest fun h => absurd h (by simp)).symm

lemma start_cases (segments : List OsString) :
    start segments = [.rootDir] ∨ start segments = [.curDir] ∨ start segments = [] := by
  unfold start
  split
  · exact .inl rfl
  · split
    · exact .inr (.inl rfl)
    · exact .inr (.inr rfl)
  · exact .inr (.inr rfl)

lemma components_startPath (p : PathBuf) : p.startPath.components = start p.segments := by
  unfold startPath
  rcases start_cases p.segments with h | h | h <;> rw [h] <;> rfl

/-- **The parent** has all components but the last one. -/
theorem components_parent {q : PathBuf} (h : p.parent = some q) :
    q.components = p.components.dropLast := by
  have hp : p.components
      = start p.segments ++ (trim p.segments).filterMap parseSingleComponent := by
    rw [filterMap_trim]
    rfl
  unfold parent at h
  rcases trim_spec p.segments with htrim | ⟨front, last, component, htrim, hpre, hlast⟩
  · rw [htrim] at h hp
    dsimp only at h
    split at h
    · next hstart =>
      cases h
      rw [hp, hstart]
      rfl
    · cases h
  · rw [htrim] at h hp
    have hcomponents : p.components
        = start p.segments ++ front.filterMap parseSingleComponent ++ [component] := by
      rw [hp, List.filterMap_append, List.filterMap_cons_some hlast, List.append_assoc]
      rfl
    rw [hcomponents, List.dropLast_concat]
    split at h
    · next hnil => exact absurd hnil (by simp)
    rw [List.dropLast_concat] at h
    rw [← filterMap_trim]
    have hfront : front <+: p.segments := (List.prefix_append _ _).trans hpre
    rcases trim_spec front with htrim | ⟨front', last', component', htrim, hpre', hlast'⟩
    · rw [htrim] at h ⊢
      cases h
      rw [components_startPath, List.filterMap_nil, List.append_nil]
    · have hsegments : ∀ segment ∈ front' ++ [last'], sep ∉ segment := fun segment hmem =>
        sep_not_mem_of_mem_segments (hfront.subset (hpre'.subset hmem))
      rw [htrim] at h ⊢
      split at h
      · next hnil => exact absurd hnil (by simp)
      · cases h
        rw [components, segments, List.splitOn_intercalate sep hsegments (by simp), parse,
          start_of_prefix (hpre'.trans hfront) hlast']

/-- **Popping a name** leaves the components before it. -/
theorem components_pop {cs : List Component} (h : p.components = cs ++ [.normal name]) :
    p.pop.components = cs := by
  cases hparent : p.parent with
  | some q =>
    rw [pop, hparent, Option.getD_some, components_parent hparent, h, List.dropLast_concat]
  | none =>
    exfalso
    unfold parent at hparent
    rcases trim_spec p.segments with htrim | ⟨front, last, component, htrim, -, -⟩
    · -- a path that is all start does not end in a name
      have hstart : p.components = start p.segments := by
        rw [components, parse, ← filterMap_trim, htrim, List.filterMap_nil, List.append_nil]
      rw [hstart] at h
      have hlast := congrArg List.getLast? h
      rw [List.getLast?_concat] at hlast
      rcases start_cases p.segments with hs | hs | hs <;> rw [hs] at hlast <;> cases hlast
    · rw [htrim] at hparent
      split at hparent
      · next hnil => simp at hnil
      · split at hparent <;> cases hparent

example : (PathBuf.mk (.ofString "/a/./b//")).components
    = [.rootDir, .normal (.ofString "a"), .normal (.ofString "b")] := by decide

end PathBuf

end AmareleoChain
