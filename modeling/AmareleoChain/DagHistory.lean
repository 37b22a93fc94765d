import AmareleoChain.Dag
import AmareleoChain.Development
import AmareleoChain.Library.Failure

/-!
The DAG after any calls of `insert` and `commit`, in terms of these calls alone.

Commits may come in any order of rounds, as they do at bootup. What is kept of them does not
depend on that order, and no certificate above the last committed round is lost to one.
-/

namespace AmareleoChain

open Std

/-- A call that changes the DAG. -/
inductive DAGCall where
  | insert (certificate : BatchCertificate)
  | commit (certificate : BatchCertificate)

namespace DAGCall

/-- The certificates inserted, in order. -/
def inserted (calls : List DAGCall) : List BatchCertificate :=
  calls.filterMap fun
    | insert certificate => some certificate
    | commit _ => none

/-- The certificates committed, in order. -/
def committed (calls : List DAGCall) : List BatchCertificate :=
  calls.filterMap fun
    | insert _ => none
    | commit certificate => some certificate

variable {calls : List DAGCall} {c : BatchCertificate}

@[simp] lemma inserted_concat_insert :
    inserted (calls ++ [insert c]) = inserted calls ++ [c] := by simp [inserted]

@[simp] lemma inserted_concat_commit : inserted (calls ++ [commit c]) = inserted calls := by
  simp [inserted]

@[simp] lemma committed_concat_insert : committed (calls ++ [insert c]) = committed calls := by
  simp [committed]

@[simp] lemma committed_concat_commit :
    committed (calls ++ [commit c]) = committed calls ++ [c] := by simp [committed]

end DAGCall

namespace DAG

open DAGCall

/-- Whether the round of a map overflows a 64-bit word when `max_gc_rounds` is added to it. -/
def overflows {υ : Type} (m : ExtTreeMap ℕ υ) (maxGcRounds : ℕ) : Bool :=
  m.keys.any fun round => 2 ^ 64 ≤ round + maxGcRounds

/-- `commit`, on words of 64 bits: the additions of the two garbage collections are checked. -/
def checkedCommit (d : DAG) (certificate : BatchCertificate) (maxGcRounds : ℕ) :
    Except Failure DAG :=
  let recentCommittedIds := d.recentCommittedIds.insert certificate.round
    ((d.recentCommittedIds[certificate.round]?.getD ∅).insert certificate.id)
  if overflows recentCommittedIds maxGcRounds || overflows d.graph maxGcRounds then
    .error (.panicked "attempt to add with overflow")
  else .ok (d.commit certificate maxGcRounds)

def call (maxGcRounds : ℕ) (d : DAG) : DAGCall → Except Failure DAG
  | .insert certificate => .ok (d.insert certificate)
  | .commit certificate => d.checkedCommit certificate maxGcRounds

/-- The DAG after some calls, one after the other. -/
def run (maxGcRounds : ℕ) (calls : List DAGCall) : Except Failure DAG :=
  calls.foldlM (call maxGcRounds) new

/-- What the DAG holds after some calls. -/
structure Represents (d : DAG) (g : ℕ) (calls : List DAGCall) : Prop where
  lastCommittedRound : d.lastCommittedRound
    = ((committed calls).map BatchCertificate.round).max?.getD 0
  recents : d.Recents g (committed calls)
  wellFormed : d.WellFormed
  graph : ∀ r a, d.lastCommittedRound < r → d.getCertificateForRoundWithAuthor r a
    = (inserted calls).reverse.find? fun c => c.round = r ∧ c.author = a
  /-- The rounds of both maps are rounds of these certificates. -/
  mem_inserted : ∀ r a c, d.getCertificateForRoundWithAuthor r a = some c → c ∈ inserted calls
  mem_committed : ∀ (r : ℕ) ids, d.recentCommittedIds[r]? = some ids →
    ∃ c ∈ committed calls, c.round = r

variable {d : DAG} {g : ℕ} {calls : List DAGCall} {c : BatchCertificate}

lemma represents_new : new.Represents g [] where
  lastCommittedRound := rfl
  recents := recents_new
  wellFormed := wellFormed_new
  graph := fun r a _ => by simp [getCertificateForRoundWithAuthor, new, inserted]
  mem_inserted := fun r a c h => by simp [getCertificateForRoundWithAuthor, new] at h
  mem_committed := fun r ids h => by simp [new] at h

lemma max?_getD_concat (rounds : List ℕ) (round : ℕ) :
    (rounds ++ [round]).max?.getD 0 = max (rounds.max?.getD 0) round := by
  cases rounds with
  | nil => simp
  | cons first rounds =>
    rw [List.cons_append, List.max?_cons', List.max?_cons', List.foldl_concat]
    rfl

lemma Represents.round_le (h : d.Represents g calls) (hc : c ∈ committed calls) :
    c.round ≤ d.lastCommittedRound := by
  rw [h.lastCommittedRound]
  exact List.le_max?_getD_of_mem (List.mem_map_of_mem hc)

lemma Represents.not_recent (h : d.Represents g calls) (hc : d.lastCommittedRound < c.round) :
    d.isRecentlyCommitted c.round c.id = false := by
  rw [← Bool.not_eq_true, h.recents c.round c.id]
  rintro ⟨⟨c', hc', hround, -⟩, -⟩
  have hle := h.round_le hc'
  omega

lemma getCertificateForRoundWithAuthor_insert_of_ne {r : ℕ} {a : Address}
    (h : ¬ (c.round = r ∧ c.author = a)) :
    (d.insert c).getCertificateForRoundWithAuthor r a
      = d.getCertificateForRoundWithAuthor r a := by
  cases hrec : d.isRecentlyCommitted c.round c.id with
  | true => rw [DAG.insert, if_pos hrec]
  | false =>
    rw [getCertificateForRoundWithAuthor_insert hrec,
      if_neg fun hra => h ⟨hra.1.symm, hra.2.symm⟩]

/-- **An insertion** is the last one for its round and author. -/
theorem Represents.insert (h : d.Represents g calls) (c : BatchCertificate) :
    (d.insert c).Represents g (calls ++ [.insert c]) where
  lastCommittedRound := by
    rw [lastCommittedRound_insert, h.lastCommittedRound, committed_concat_insert]
  recents := by
    rw [committed_concat_insert]
    exact h.recents.insert c
  wellFormed := h.wellFormed.insert c
  graph := fun r a hr => by
    rw [lastCommittedRound_insert] at hr
    rw [inserted_concat_insert, List.reverse_concat, List.find?_cons]
    by_cases hra : c.round = r ∧ c.author = a
    · obtain ⟨rfl, rfl⟩ := hra
      rw [getCertificateForRoundWithAuthor_insert (h.not_recent hr), if_pos ⟨rfl, rfl⟩]
      simp
    · rw [← h.graph r a hr, getCertificateForRoundWithAuthor_insert_of_ne hra, decide_eq_false hra]
  mem_inserted := fun r a c' hc' => by
    rw [inserted_concat_insert, List.mem_append, List.mem_singleton]
    by_cases hra : c.round = r ∧ c.author = a
    · cases hrec : d.isRecentlyCommitted c.round c.id with
      | true =>
        rw [DAG.insert, if_pos hrec] at hc'
        exact .inl (h.mem_inserted r a c' hc')
      | false =>
        rw [getCertificateForRoundWithAuthor_insert hrec, if_pos ⟨hra.1.symm, hra.2.symm⟩] at hc'
        exact .inr (Option.some_inj.mp hc').symm
    · rw [getCertificateForRoundWithAuthor_insert_of_ne hra] at hc'
      exact .inl (h.mem_inserted r a c' hc')
  mem_committed := fun r ids hids => by
    rw [committed_concat_insert]
    refine h.mem_committed r ids ?_
    rw [← hids, DAG.insert]
    split <;> rfl

/-- **A commit** takes nothing above the last committed round. -/
theorem Represents.commit (h : d.Represents g calls) (c : BatchCertificate) :
    (d.commit c g).Represents g (calls ++ [.commit c]) where
  lastCommittedRound := by
    rw [lastCommittedRound_commit, h.lastCommittedRound, committed_concat_commit, List.map_append]
    exact (max?_getD_concat _ _).symm
  recents := by
    rw [committed_concat_commit]
    exact h.recents.commit c
  wellFormed := h.wellFormed.commit c g
  graph := fun r a hr => by
    rw [lastCommittedRound_commit] at hr
    have hround : c.round < r := (le_max_right _ _).trans_lt hr
    have habove : max d.lastCommittedRound c.round < r + g := hr.trans_le (Nat.le_add_right r g)
    rw [getCertificateForRoundWithAuthor_commit, if_pos ⟨habove, .inl hround⟩,
      inserted_concat_commit]
    exact h.graph r a ((le_max_left _ _).trans_lt hr)
  mem_inserted := fun r a c' hc' => by
    rw [inserted_concat_commit]
    rw [getCertificateForRoundWithAuthor_commit] at hc'
    split at hc'
    · exact h.mem_inserted r a c' hc'
    · cases hc'
  mem_committed := fun r ids hids => by
    rw [DAG.commit, getElem?_retain, getElem?_insertKey] at hids
    obtain ⟨hids, -⟩ := Option.filter_eq_some_iff.mp hids
    rw [committed_concat_commit]
    split at hids
    · next hround => exact ⟨c, List.mem_append_right _ (List.mem_singleton_self c), hround⟩
    · obtain ⟨c', hc', hround⟩ := h.mem_committed r ids hids
      exact ⟨c', List.mem_append_left _ hc', hround⟩

/-! ### The additions -/

lemma overflows_eq_false {υ : Type} {m : ExtTreeMap ℕ υ} :
    overflows m g = false ↔ ∀ (r : ℕ) v, m[r]? = some v → r + g < 2 ^ 64 := by
  simp only [overflows, List.any_eq_false, ExtTreeMap.mem_keys, decide_eq_true_eq, Nat.not_le,
    ExtTreeMap.mem_iff_isSome_getElem?, Option.isSome_iff_exists, forall_exists_index]

lemma exists_getElem?_of_ne_empty {m : ExtTreeMap Address BatchCertificate} (h : m ≠ ∅) :
    ∃ (a : Address) (c : BatchCertificate), m[a]? = some c := by
  by_contra hno
  refine h (ExtTreeMap.ext_getElem? fun a => ?_)
  rw [ExtTreeMap.getElem?_empty]
  exact Option.eq_none_iff_forall_ne_some.mpr fun c hc => hno ⟨a, c, hc⟩

lemma Represents.checkedCommit (h : d.Represents g calls) (c : BatchCertificate)
    (hfit : ∀ c' ∈ inserted calls ++ committed (calls ++ [.commit c]), c'.round + g < 2 ^ 64) :
    d.checkedCommit c g = .ok (d.commit c g) := by
  have hids : overflows (d.recentCommittedIds.insert c.round
      ((d.recentCommittedIds[c.round]?.getD ∅).insert c.id)) g = false := by
    refine overflows_eq_false.mpr fun r ids hr => ?_
    rw [getElem?_insertKey] at hr
    split at hr
    · next hround =>
      have hc := hfit c (List.mem_append_right _ (by simp))
      rwa [hround] at hc
    · obtain ⟨c', hc', rfl⟩ := h.mem_committed r ids hr
      refine hfit c' (List.mem_append_right _ ?_)
      rw [committed_concat_commit]
      exact List.mem_append_left _ hc'
  have hgraph : overflows d.graph g = false := by
    refine overflows_eq_false.mpr fun r m hr => ?_
    obtain ⟨a, c', hc'⟩ := exists_getElem?_of_ne_empty fun he => h.wellFormed.nonempty r (he ▸ hr)
    have hget : d.getCertificateForRoundWithAuthor r a = some c' := by
      rw [getCertificateForRoundWithAuthor, hr]
      exact hc'
    rw [← (h.wellFormed.keyed hget).1]
    exact hfit c' (List.mem_append_left _ (h.mem_inserted r a c' hget))
  unfold DAG.checkedCommit
  simp [hids, hgraph]

/-- **Every run** whose rounds are small enough. -/
theorem run_represents (g : ℕ) (calls : List DAGCall)
    (hfit : ∀ c ∈ inserted calls ++ committed calls, c.round + g < 2 ^ 64) :
    ∃ d, run g calls = .ok d ∧ d.Represents g calls := by
  induction calls using List.reverseRecOn with
  | nil => exact ⟨new, rfl, represents_new⟩
  | append_singleton calls next ih =>
    have hbefore : ∀ c ∈ inserted calls ++ committed calls, c.round + g < 2 ^ 64 := by
      intro c hc
      refine hfit c ?_
      rw [inserted, committed, List.filterMap_append, List.filterMap_append]
      rcases List.mem_append.mp hc with h | h
      · exact List.mem_append_left _ (List.mem_append_left _ h)
      · exact List.mem_append_right _ (List.mem_append_left _ h)
    obtain ⟨d, hd, h⟩ := ih hbefore
    have hrun : run g (calls ++ [next]) = call g d next := by
      rw [run, List.foldlM_append, ← run, hd]
      cases hnext : call g d next <;> simp [bind, Except.bind, hnext, pure, Except.pure]
    rw [hrun]
    cases next with
    | insert c => exact ⟨d.insert c, rfl, h.insert c⟩
    | commit c =>
      refine ⟨d.commit c g, h.checkedCommit c fun c' hc' => hfit c' ?_, h.commit c⟩
      rwa [inserted_concat_commit]

/-- **The representation of the DAG**: the last committed round is the latest one committed, the
recently committed certificates are those above the horizon, the graph has no empty round and
holds each certificate under its own round and author, and above the last committed round it
holds the last certificate inserted for each of them. -/
theorem representation (g : ℕ) (calls : List DAGCall)
    (hfit : ∀ c ∈ inserted calls ++ committed calls, c.round + g < 2 ^ 64) :
    ∃ d, run g calls = .ok d ∧
      d.lastCommittedRound = ((committed calls).map BatchCertificate.round).max?.getD 0 ∧
      (∀ r id, d.isRecentlyCommitted r id = true ↔
        (∃ c ∈ committed calls, c.round = r ∧ c.id = id) ∧ d.lastCommittedRound < r + g) ∧
      (∀ r : ℕ, d.graph[r]? ≠ some ∅) ∧
      (∀ r a c, d.getCertificateForRoundWithAuthor r a = some c → c.round = r ∧ c.author = a) ∧
      ∀ r a, d.lastCommittedRound < r → d.getCertificateForRoundWithAuthor r a
        = (inserted calls).reverse.find? fun c => c.round = r ∧ c.author = a := by
  obtain ⟨d, hd, h⟩ := run_represents g calls hfit
  exact ⟨d, hd, h.lastCommittedRound, h.recents, h.wellFormed.nonempty,
    fun r a c => h.wellFormed.keyed, h.graph⟩

/-- Commits out of the order of rounds, with an insertion before and one after them. -/
theorem representation_example :
    let inserted := developmentCertificate 7 1 11 []
    let calls := [.insert (developmentCertificate 6 1 11 []),
      .commit (developmentCertificate 8 2 9 []), .commit (developmentCertificate 9 3 4 []),
      .insert inserted]
    ∃ d, run 5 calls = .ok d ∧ d.lastCommittedRound = 9 ∧
      d.isRecentlyCommitted 4 ⟨9⟩ = false ∧
      d.getCertificateForRoundWithAuthor 11 ⟨1⟩ = some inserted := by
  intro inserted calls
  obtain ⟨d, hd, hlast, hrecent, -, -, hgraph⟩ := representation 5 calls (by decide)
  have hround : d.lastCommittedRound = 9 := hlast.trans (by decide)
  refine ⟨d, hd, hround, ?_, ?_⟩
  · rw [← Bool.not_eq_true, hrecent, hround]
    omega
  · rw [hgraph 11 ⟨1⟩ (by omega)]
    decide

end DAG

end AmareleoChain
