import AmareleoChain.Narwhal

/-!
The DAG of the BFT: certificates by round and author, and the certificates committed
recently, that is in rounds above the garbage collection horizon.
-/

namespace AmareleoChain

open Std

structure DAG where
  graph : ExtTreeMap ℕ (ExtTreeMap Address BatchCertificate)
  recentCommittedIds : ExtTreeMap ℕ (IndexSet Field)
  lastCommittedRound : ℕ

namespace DAG

def new : DAG := ⟨∅, ∅, 0⟩

def isRecentlyCommitted (d : DAG) (round : ℕ) (certificateId : Field) : Bool :=
  (d.recentCommittedIds[round]?.map fun ids => decide (certificateId ∈ ids)).getD false

def getCertificateForRoundWithAuthor (d : DAG) (round : ℕ) (author : Address) :
    Option BatchCertificate :=
  d.graph[round]?.bind fun m => m[author]?

def getCertificateForRoundWithId (d : DAG) (round : ℕ) (certificateId : Field) :
    Option BatchCertificate :=
  d.graph[round]?.bind fun m => (mapValues m).find? fun c => c.id == certificateId

def getCertificatesForRound (d : DAG) (round : ℕ) :
    Option (ExtTreeMap Address BatchCertificate) :=
  d.graph[round]?

/-- `insert`: not for a certificate that was recently committed. -/
def insert (d : DAG) (certificate : BatchCertificate) : DAG :=
  if d.isRecentlyCommitted certificate.round certificate.id then d
  else
    { d with
      graph := d.graph.insert certificate.round
        ((d.graph[certificate.round]?.getD ∅).insert certificate.author certificate) }

/-- `commit`: the certificates of this author at or below this round leave the DAG. -/
def commit (d : DAG) (certificate : BatchCertificate) (maxGcRounds : ℕ) : DAG :=
  let recentCommittedIds := d.recentCommittedIds.insert certificate.round
    ((d.recentCommittedIds[certificate.round]?.getD ∅).insert certificate.id)
  let lastCommittedRound := max d.lastCommittedRound certificate.round
  { recentCommittedIds :=
      recentCommittedIds.filter fun round _ => round + maxGcRounds > lastCommittedRound
    lastCommittedRound
    graph :=
      (d.graph.filter fun round _ => round + maxGcRounds > lastCommittedRound).filterMap
        fun round map =>
          if round > certificate.round then some map
          else
            let map := map.erase certificate.author
            if map.isEmpty then none else some map }

/-- Some certificates committed one after the other. -/
def commitAll (d : DAG) (certificates : List BatchCertificate) (maxGcRounds : ℕ) : DAG :=
  certificates.foldl (fun d c => d.commit c maxGcRounds) d

variable {d : DAG} {c : BatchCertificate} {r g : ℕ} {a : Address} {id : Field}

/-! ### Insertion -/

@[simp] lemma lastCommittedRound_insert :
    (d.insert c).lastCommittedRound = d.lastCommittedRound := by
  unfold insert; split <;> rfl

@[simp] lemma isRecentlyCommitted_insert :
    (d.insert c).isRecentlyCommitted r id = d.isRecentlyCommitted r id := by
  unfold insert; split <;> rfl

lemma getCertificatesForRound_insert_of_ne (h : r ≠ c.round) :
    (d.insert c).getCertificatesForRound r = d.getCertificatesForRound r := by
  unfold insert getCertificatesForRound
  split
  · rfl
  · rw [getElem?_insertKey, if_neg (Ne.symm h)]

lemma getCertificateForRoundWithAuthor_insert
    (h : d.isRecentlyCommitted c.round c.id = false) :
    (d.insert c).getCertificateForRoundWithAuthor r a =
      if r = c.round ∧ a = c.author then some c
      else d.getCertificateForRoundWithAuthor r a := by
  unfold getCertificateForRoundWithAuthor insert
  rw [if_neg (by simp [h]), getElem?_insertKey]
  rcases eq_or_ne c.round r with rfl | hr
  · rw [if_pos rfl, Option.bind_some, getElem?_insertKey]
    rcases eq_or_ne c.author a with rfl | ha
    · simp
    · rw [if_neg ha, if_neg (fun h => ha h.2.symm)]
      cases d.graph[c.round]? <;> simp
  · rw [if_neg hr, if_neg (fun h => hr h.1.symm)]

/-! ### Commits -/

@[simp] lemma lastCommittedRound_commit :
    (d.commit c g).lastCommittedRound = max d.lastCommittedRound c.round := rfl

/-- **Recently committed**: what was, and the committed certificate, above the horizon. -/
theorem isRecentlyCommitted_commit :
    (d.commit c g).isRecentlyCommitted r id = true ↔
      (d.isRecentlyCommitted r id = true ∨ (r = c.round ∧ id = c.id)) ∧
        max d.lastCommittedRound c.round < r + g := by
  unfold isRecentlyCommitted commit
  rw [getElem?_retain, getElem?_insertKey]
  by_cases hg : max d.lastCommittedRound c.round < r + g
  · rcases eq_or_ne c.round r with rfl | hr
    · cases h : d.recentCommittedIds[c.round]? <;> simp [Option.filter, hg]
    · cases h : d.recentCommittedIds[r]? <;> simp [Option.filter, hg, hr, Ne.symm hr]
  · simp [hg]

lemma getCertificatesForRound_commit (h : max d.lastCommittedRound c.round < r) :
    (d.commit c g).getCertificatesForRound r = d.getCertificatesForRound r := by
  unfold getCertificatesForRound commit
  rw [getElem?_retainMap, getElem?_retain]
  have hg : max d.lastCommittedRound c.round < r + g := by omega
  have hr : c.round < r := by omega
  cases d.graph[r]? <;> simp [Option.filter, hg, hr]

/-- **What a commit leaves in the graph.** -/
theorem getCertificateForRoundWithAuthor_commit :
    (d.commit c g).getCertificateForRoundWithAuthor r a =
      if max d.lastCommittedRound c.round < r + g ∧ (c.round < r ∨ a ≠ c.author) then
        d.getCertificateForRoundWithAuthor r a
      else none := by
  unfold getCertificateForRoundWithAuthor commit
  rw [getElem?_retainMap, getElem?_retain]
  cases d.graph[r]? with
  | none => simp
  | some m =>
    by_cases hg : max d.lastCommittedRound c.round < r + g
    · rw [Option.filter_some, if_pos (decide_eq_true hg), Option.bind_some]
      dsimp only
      by_cases hr : c.round < r
      · simp [hg, hr]
      · rw [if_neg hr, bind_dropEmpty, getElem?_eraseKey]
        by_cases ha : c.author = a
        · simp [hr, ha]
        · simp [hg, ha, Ne.symm ha]
    · simp [Option.filter, hg]

/-! ### Well-formed graphs -/

/-- Certificates are stored under their round and author, and no round is empty. -/
structure WellFormed (d : DAG) : Prop where
  keyed : ∀ {r : ℕ} {a : Address} {c : BatchCertificate},
    d.getCertificateForRoundWithAuthor r a = some c → c.round = r ∧ c.author = a
  nonempty : ∀ r : ℕ, d.graph[r]? ≠ some ∅

lemma wellFormed_new : WellFormed new := ⟨by simp [getCertificateForRoundWithAuthor, new],
  by simp [new]⟩

lemma WellFormed.insert (h : d.WellFormed) (c : BatchCertificate) : (d.insert c).WellFormed := by
  cases hc : d.isRecentlyCommitted c.round c.id with
  | true => rw [DAG.insert, if_pos hc]; exact h
  | false =>
    refine ⟨fun {r a c'} hget => ?_, fun r => ?_⟩
    · rw [getCertificateForRoundWithAuthor_insert hc] at hget
      split at hget
      · next hra => cases hget; exact ⟨hra.1.symm, hra.2.symm⟩
      · exact h.keyed hget
    · rw [DAG.insert, if_neg (by simp [hc]), getElem?_insertKey]
      split
      · intro he
        have hmem := congrArg (fun m => m[c.author]?) (Option.some_inj.mp he)
        simp at hmem
      · exact h.nonempty r

lemma WellFormed.commit (h : d.WellFormed) (c : BatchCertificate) (g : ℕ) :
    (d.commit c g).WellFormed := by
  refine ⟨fun {r a c'} hget => ?_, fun r => ?_⟩
  · rw [getCertificateForRoundWithAuthor_commit] at hget
    split at hget
    · exact h.keyed hget
    · cases hget
  · unfold DAG.commit
    rw [getElem?_retainMap, getElem?_retain]
    intro he
    obtain ⟨m, hm, hf⟩ := Option.bind_eq_some_iff.mp he
    rw [Option.filter_eq_some_iff] at hm
    dsimp only at hf
    split at hf
    · exact h.nonempty r (hm.1.trans hf)
    · split at hf
      · cases hf
      · next hne => exact hne (by rw [Option.some_inj.mp hf]; rfl)

lemma WellFormed.commitAll (h : d.WellFormed) (cs : List BatchCertificate) (g : ℕ) :
    (d.commitAll cs g).WellFormed := by
  induction cs generalizing d with
  | nil => exact h
  | cons c cs ih => exact ih (h.commit c g)

lemma getCertificateForRoundWithId_some (h : d.getCertificateForRoundWithId r id = some c) :
    c.id = id ∧ ∃ a, d.getCertificateForRoundWithAuthor r a = some c := by
  obtain ⟨m, hm, hf⟩ := Option.bind_eq_some_iff.mp h
  obtain ⟨a, ha⟩ := mem_mapValues.mp (List.mem_of_find?_eq_some hf)
  refine ⟨by simpa using List.find?_some hf, a, ?_⟩
  rw [getCertificateForRoundWithAuthor, hm]
  exact ha

/-! ### Commits of a subdag -/

/-- The recently committed identifiers of `d` are those of the certificates `cs`, above the
horizon. -/
def Recents (d : DAG) (g : ℕ) (cs : List BatchCertificate) : Prop :=
  ∀ (r : ℕ) (id : Field), d.isRecentlyCommitted r id = true ↔
    (∃ c ∈ cs, c.round = r ∧ c.id = id) ∧ d.lastCommittedRound < r + g

lemma recents_new : new.Recents g [] := fun r id => by simp [isRecentlyCommitted, new]

lemma Recents.insert {cs : List BatchCertificate} (h : d.Recents g cs) (c : BatchCertificate) :
    (d.insert c).Recents g cs := fun r id => by simpa using h r id

lemma Recents.commit {cs : List BatchCertificate} (h : d.Recents g cs) (c : BatchCertificate) :
    (d.commit c g).Recents g (cs ++ [c]) := by
  intro r id
  have hmem : (∃ c' ∈ cs ++ [c], c'.round = r ∧ c'.id = id) ↔
      (∃ c' ∈ cs, c'.round = r ∧ c'.id = id) ∨ (r = c.round ∧ id = c.id) := by
    simp only [List.mem_append, List.mem_singleton, or_and_right, exists_or, exists_eq_left]
    exact or_congr_right ⟨fun h => ⟨h.1.symm, h.2.symm⟩, fun h => ⟨h.1.symm, h.2.symm⟩⟩
  rw [isRecentlyCommitted_commit, h r id, lastCommittedRound_commit, hmem]
  refine and_congr_left fun hlt => or_congr_left (and_iff_left ?_)
  exact (le_max_left _ _).trans_lt hlt

lemma Recents.commitAll {cs : List BatchCertificate} (h : d.Recents g cs)
    (ds : List BatchCertificate) : (d.commitAll ds g).Recents g (cs ++ ds) := by
  induction ds generalizing d cs with
  | nil => rw [List.append_nil]; exact h
  | cons c ds ih => rw [List.append_cons]; exact ih (h.commit c)

lemma le_lastCommittedRound_commitAll (cs : List BatchCertificate) :
    d.lastCommittedRound ≤ (d.commitAll cs g).lastCommittedRound := by
  induction cs generalizing d with
  | nil => exact Nat.le_refl _
  | cons c cs ih =>
    calc d.lastCommittedRound ≤ (d.commit c g).lastCommittedRound := by simp
      _ ≤ _ := ih

lemma lastCommittedRound_commitAll_le {cs : List BatchCertificate} {n : ℕ}
    (hd : d.lastCommittedRound ≤ n) (h : ∀ c ∈ cs, c.round ≤ n) :
    (d.commitAll cs g).lastCommittedRound ≤ n := by
  induction cs generalizing d with
  | nil => exact hd
  | cons c cs ih =>
    rw [List.forall_mem_cons] at h
    exact ih (by simpa using ⟨hd, h.1⟩) h.2

lemma round_le_lastCommittedRound_commitAll {cs : List BatchCertificate} (h : c ∈ cs) :
    c.round ≤ (d.commitAll cs g).lastCommittedRound := by
  induction cs generalizing d with
  | nil => cases h
  | cons c' cs ih =>
    rcases List.mem_cons.mp h with rfl | h
    · calc c.round ≤ (d.commit c g).lastCommittedRound := by simp
        _ ≤ _ := le_lastCommittedRound_commitAll cs
    · exact ih h

lemma getCertificatesForRound_commitAll {cs : List BatchCertificate}
    (hd : d.lastCommittedRound < r) (h : ∀ c ∈ cs, c.round < r) :
    (d.commitAll cs g).getCertificatesForRound r = d.getCertificatesForRound r := by
  induction cs generalizing d with
  | nil => rfl
  | cons c cs ih =>
    rw [List.forall_mem_cons] at h
    have hm : max d.lastCommittedRound c.round < r := max_lt hd h.1
    rw [commitAll, List.foldl_cons]
    exact (ih hm h.2).trans (getCertificatesForRound_commit hm)

lemma getCertificateForRoundWithAuthor_of_commitAll {cs : List BatchCertificate}
    (h : (d.commitAll cs g).getCertificateForRoundWithAuthor r a = some c) :
    d.getCertificateForRoundWithAuthor r a = some c := by
  induction cs generalizing d with
  | nil => exact h
  | cons c' cs ih =>
    have h' := ih h
    rw [getCertificateForRoundWithAuthor_commit] at h'
    split at h'
    · exact h'
    · cases h'

end DAG

end AmareleoChain
