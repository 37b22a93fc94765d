import Mathlib.Data.Finset.Card
import Mathlib.Data.List.Nodup

/-!
Depth-first search with an explicit stack, over nodes that refer to each other by identifier.

A search pops a node, goes through the identifiers it refers to, and pushes the nodes found
under those it neither has seen nor skips; looking an identifier up can fail, and then the
search fails. The nodes are returned in the order in which they were popped.
-/

namespace AmareleoChain

variable {ι ν ε : Type}

/-- How a search reads the nodes. -/
structure Search (ι ν ε : Type) where
  key : ν → ι
  /-- The identifiers a node refers to, in the order in which they are pushed. -/
  children : ν → List ι
  skip : ν → ι → Bool
  lookup : ν → ι → Except ε ν

namespace Search

section
variable [DecidableEq ι]

/-- The nodes pushed for the identifiers of one node. -/
def push (S : Search ι ν ε) (n : ν) :
    List ι → List ι → List ν → Except ε (List ι × List ν)
  | [], seen, stack => .ok (seen, stack)
  | i :: is, seen, stack =>
    if i ∈ seen then S.push n is seen stack
    else if S.skip n i then S.push n is seen stack
    else
      match S.lookup n i with
      | .error e => .error e
      | .ok p => S.push n is (S.key p :: seen) (p :: stack)

/-- The search with some fuel, one unit for each node popped. -/
def run (S : Search ι ν ε) : ℕ → List ι → List ν → Option (Except ε (List ν))
  | 0, _, _ => none
  | _ + 1, _, [] => some (.ok [])
  | fuel + 1, seen, n :: stack =>
    match S.push n (S.children n) seen stack with
    | .error e => some (.error e)
    | .ok next => (S.run fuel next.1 next.2).map fun r => r.map (n :: ·)

end

/-- A node found under an identifier carries this identifier. -/
def Keyed (S : Search ι ν ε) : Prop :=
  ∀ n i p, S.lookup n i = .ok p → S.key p = i

/-- `p` is found from `n`. -/
def Step (S : Search ι ν ε) (n p : ν) : Prop :=
  ∃ i ∈ S.children n, S.skip n i = false ∧ S.lookup n i = .ok p

/-- `p` is found from `n` under `i`. -/
def Finds (S : Search ι ν ε) (n : ν) (i : ι) (p : ν) : Prop :=
  i ∈ S.children n ∧ S.skip n i = false ∧ S.lookup n i = .ok p

lemma Step.finds {S : Search ι ν ε} {n p : ν} (h : S.Step n p) : ∃ i, S.Finds n i p := h

variable [DecidableEq ι] {S : Search ι ν ε} {n : ν} {is seen seen' : List ι}
  {stack stack' out : List ν} {fuel : ℕ}

/-! ### Pushing -/

/-- **Pushing**: fresh distinct nodes go on top of the stack, and every identifier that is not
skipped has been seen afterwards. -/
theorem push_spec (hS : S.Keyed) (h : S.push n is seen stack = .ok (seen', stack')) :
    ∃ ps : List ν, stack' = ps ++ stack ∧ (∀ i, i ∈ seen' ↔ i ∈ seen ∨ i ∈ ps.map S.key) ∧
      (ps.map S.key).Nodup ∧ (∀ p ∈ ps, S.key p ∉ seen) ∧
      (∀ p ∈ ps, ∃ i ∈ is, S.skip n i = false ∧ S.lookup n i = .ok p) ∧
      (∀ i ∈ is, S.skip n i = false → i ∈ seen') := by
  induction is generalizing seen stack with
  | nil =>
    cases h
    exact ⟨[], rfl, by simp, by simp, by simp, by simp, by simp⟩
  | cons i is ih =>
    rw [push] at h
    split at h
    · next hseen =>
      obtain ⟨ps, hst, hs, hnd, hf, hp, hc⟩ := ih h
      refine ⟨ps, hst, hs, hnd, hf, fun p hm => ?_, fun j hj hk => ?_⟩
      · obtain ⟨j, hj, hrest⟩ := hp p hm
        exact ⟨j, List.mem_cons_of_mem _ hj, hrest⟩
      · rcases List.mem_cons.mp hj with rfl | hj
        · exact (hs j).mpr (.inl hseen)
        · exact hc j hj hk
    · next hseen =>
      split at h
      · next hskip =>
        obtain ⟨ps, hst, hs, hnd, hf, hp, hc⟩ := ih h
        refine ⟨ps, hst, hs, hnd, hf, fun p hm => ?_, fun j hj hk => ?_⟩
        · obtain ⟨j, hj, hrest⟩ := hp p hm
          exact ⟨j, List.mem_cons_of_mem _ hj, hrest⟩
        · rcases List.mem_cons.mp hj with rfl | hj
          · rw [hskip] at hk; cases hk
          · exact hc j hj hk
      · next hskip =>
        split at h
        · cases h
        · next q hq =>
          have hkey := hS _ _ _ hq
          obtain ⟨ps, hst, hs, hnd, hf, hp, hc⟩ := ih h
          refine ⟨ps ++ [q], by simp [hst], fun j => ?_, ?_, fun p hm => ?_, fun p hm => ?_,
            fun j hj hk => ?_⟩
          · rw [hs, List.map_append, List.mem_append, List.mem_cons]
            simp only [List.map_cons, List.map_nil, List.mem_singleton]
            tauto
          · rw [List.map_append, List.nodup_append]
            refine ⟨hnd, by simp, ?_⟩
            rintro _ ha _ hb rfl
            obtain ⟨p, hpm, hpk⟩ := List.mem_map.mp ha
            simp only [List.map_cons, List.map_nil, List.mem_singleton] at hb
            exact hf p hpm (List.mem_cons.mpr (.inl (hpk.trans hb)))
          · rcases List.mem_append.mp hm with hm | hm
            · exact fun hmem => hf p hm (List.mem_cons_of_mem _ hmem)
            · rw [List.mem_singleton.mp hm, hkey]; exact hseen
          · rcases List.mem_append.mp hm with hm | hm
            · obtain ⟨j, hj, hrest⟩ := hp p hm
              exact ⟨j, List.mem_cons_of_mem _ hj, hrest⟩
            · rw [List.mem_singleton.mp hm]
              exact ⟨i, by simp, by simpa using hskip, hq⟩
          · rcases List.mem_cons.mp hj with rfl | hj
            · exact (hs j).mpr (.inl (by rw [hkey]; exact List.mem_cons_self))
            · exact hc j hj hk

/-! ### The result of a search -/

lemma run_cons (h : S.run (fuel + 1) seen (n :: stack) = some (.ok out)) :
    ∃ seen' stack' out', S.push n (S.children n) seen stack = .ok (seen', stack') ∧
      S.run fuel seen' stack' = some (.ok out') ∧ out = n :: out' := by
  rw [run] at h
  split at h
  · cases h
  · next next hp =>
    rw [Option.map_eq_some_iff] at h
    obtain ⟨r, hr, hmap⟩ := h
    cases r with
    | error e => cases hmap
    | ok out' =>
      cases hmap
      exact ⟨next.1, next.2, out', hp, hr, rfl⟩

/-- Induction over a search that succeeds: what holds of the end and is kept by a pop holds of
every search. -/
theorem run_induction {motive : List ι → List ν → List ν → Prop}
    (done : ∀ seen, motive seen [] [])
    (pop : ∀ n seen stack seen' stack' out,
      S.push n (S.children n) seen stack = .ok (seen', stack') →
      motive seen' stack' out → motive seen (n :: stack) (n :: out))
    (h : S.run fuel seen stack = some (.ok out)) : motive seen stack out := by
  induction fuel generalizing seen stack out with
  | zero => cases h
  | succ fuel ih =>
    cases stack with
    | nil => cases h; exact done seen
    | cons n stack =>
      obtain ⟨seen', stack', out', hp, hr, rfl⟩ := run_cons h
      exact pop n seen stack seen' stack' out' hp (ih hr)

/-- **What a search returns**: the stack, the nodes found from what it returns, and nothing
else; and for each identifier that is not skipped a node found under it, unless it was seen
before. -/
theorem run_spec (hS : S.Keyed) (h : S.run fuel seen stack = some (.ok out)) :
    (∀ m ∈ stack, m ∈ out) ∧
    (∀ m ∈ out, m ∈ stack ∨ ∃ n ∈ out, S.Step n m) ∧
    (∀ n ∈ out, ∀ i ∈ S.children n, S.skip n i = false →
      i ∈ seen ∨ ∃ m ∈ out, ∃ p ∈ out, S.Finds m i p) := by
  refine run_induction (motive := fun seen stack out => (∀ m ∈ stack, m ∈ out) ∧
    (∀ m ∈ out, m ∈ stack ∨ ∃ n ∈ out, S.Step n m) ∧
    (∀ n ∈ out, ∀ i ∈ S.children n, S.skip n i = false →
      i ∈ seen ∨ ∃ m ∈ out, ∃ p ∈ out, S.Finds m i p))
    (fun _ => ⟨by simp, by simp, by simp⟩) ?_ h
  intro n seen stack seen' stack' out hp ⟨hstack, hfrom, hclosed⟩
  obtain ⟨ps, rfl, hs, -, -, hps, hc⟩ := push_spec hS hp
  -- an identifier seen after the pop was seen before, or found from the node popped
  have hseen : ∀ i, i ∈ seen' → i ∈ seen ∨ ∃ m ∈ n :: out, ∃ p ∈ n :: out, S.Finds m i p := by
    intro i hi
    rcases (hs i).mp hi with hi | hi
    · exact .inl hi
    · obtain ⟨p, hpm, rfl⟩ := List.mem_map.mp hi
      obtain ⟨i, hfinds⟩ := Step.finds (hps p hpm)
      rw [hS _ _ _ hfinds.2.2]
      exact .inr ⟨n, List.mem_cons_self, p,
        List.mem_cons_of_mem _ (hstack p (List.mem_append_left _ hpm)), hfinds⟩
  refine ⟨fun m hm => ?_, fun m hm => ?_, fun m hm i hi hk => ?_⟩
  · rcases List.mem_cons.mp hm with rfl | hm
    · exact List.mem_cons_self
    · exact List.mem_cons_of_mem _ (hstack m (List.mem_append_right _ hm))
  · rcases List.mem_cons.mp hm with rfl | hm
    · exact .inl List.mem_cons_self
    · rcases hfrom m hm with hm | ⟨m', hm', hstep⟩
      · rcases List.mem_append.mp hm with hm | hm
        · exact .inr ⟨n, List.mem_cons_self, hps m hm⟩
        · exact .inl (List.mem_cons_of_mem _ hm)
      · exact .inr ⟨m', List.mem_cons_of_mem _ hm', hstep⟩
  · rcases List.mem_cons.mp hm with rfl | hm
    · exact hseen i (hc i hi hk)
    · rcases hclosed m hm i hi hk with hi | ⟨d, hd, p, hpm, hfinds⟩
      · exact hseen i hi
      · exact .inr ⟨d, List.mem_cons_of_mem _ hd, p, List.mem_cons_of_mem _ hpm, hfinds⟩

/-- What holds of the stack and of what is found holds of everything returned. -/
lemma run_preserves (hS : S.Keyed) {P : ν → Prop} (hstep : ∀ n p, P n → S.Step n p → P p)
    (hstack : ∀ m ∈ stack, P m) (h : S.run fuel seen stack = some (.ok out)) :
    ∀ m ∈ out, P m := by
  refine run_induction (motive := fun _ stack out => (∀ m ∈ stack, P m) → ∀ m ∈ out, P m)
    (fun _ _ => by simp) ?_ h hstack
  intro n seen stack seen' stack' out hp ih hstack
  obtain ⟨ps, rfl, -, -, -, hps, -⟩ := push_spec hS hp
  rw [List.forall_mem_cons] at hstack ⊢
  refine ⟨hstack.1, ih fun m hm => ?_⟩
  rcases List.mem_append.mp hm with hm | hm
  · exact hstep n m hstack.1 (hps m hm)
  · exact hstack.2 m hm

/-- **No node is returned twice**, when the nodes of the stack have been seen, or are roots
that no search step finds. -/
theorem run_nodup (hS : S.Keyed) {P : ν → Prop} (root : List ι)
    (hstep : ∀ n p, P n → S.Step n p → P p ∧ S.key p ∉ root)
    (hstack : ∀ m ∈ stack, P m ∧ (S.key m ∈ seen ∨ S.key m ∈ root))
    (hnd : (stack.map S.key).Nodup) (h : S.run fuel seen stack = some (.ok out)) :
    (out.map S.key).Nodup ∧
      ∀ m ∈ out, m ∈ stack ∨ (S.key m ∉ seen ∧ S.key m ∉ root) := by
  refine run_induction (motive := fun seen stack out =>
    (∀ m ∈ stack, P m ∧ (S.key m ∈ seen ∨ S.key m ∈ root)) → (stack.map S.key).Nodup →
    (out.map S.key).Nodup ∧ ∀ m ∈ out, m ∈ stack ∨ (S.key m ∉ seen ∧ S.key m ∉ root))
    (fun _ _ _ => ⟨by simp, by simp⟩) ?_ h hstack hnd
  intro n seen stack seen' stack' out hp ih hstack hnd
  obtain ⟨ps, rfl, hs, hpnd, hfresh, hps, -⟩ := push_spec hS hp
  rw [List.forall_mem_cons] at hstack
  rw [List.map_cons, List.nodup_cons] at hnd
  have hroot : ∀ p ∈ ps, P p ∧ S.key p ∉ root := fun p hm => hstep n p hstack.1.1 (hps p hm)
  obtain ⟨hout, hfrom⟩ := ih (fun m hm => by
    rcases List.mem_append.mp hm with hm | hm
    · exact ⟨(hroot m hm).1, .inl ((hs _).mpr (.inr (List.mem_map_of_mem hm)))⟩
    · exact ⟨(hstack.2 m hm).1, (hstack.2 m hm).2.imp (fun hi => (hs _).mpr (.inl hi)) id⟩) (by
    rw [List.map_append, List.nodup_append]
    refine ⟨hpnd, hnd.2, ?_⟩
    rintro _ ha _ hb rfl
    obtain ⟨p, hpm, hpk⟩ := List.mem_map.mp ha
    obtain ⟨m, hm, hmk⟩ := List.mem_map.mp hb
    rcases (hstack.2 m hm).2 with hi | hi
    · exact hfresh p hpm (hpk ▸ hmk ▸ hi)
    · exact (hroot p hpm).2 (hpk ▸ hmk ▸ hi))
  -- where a returned node comes from, now in terms of the stack before the pop
  have hfrom' : ∀ m ∈ out, m ∈ stack ∨ (S.key m ∉ seen ∧ S.key m ∉ root) := fun m hm => by
    rcases hfrom m hm with hm | ⟨h₁, h₂⟩
    · rcases List.mem_append.mp hm with hm | hm
      · exact .inr ⟨hfresh m hm, (hroot m hm).2⟩
      · exact .inl hm
    · exact .inr ⟨fun hi => h₁ ((hs _).mpr (.inl hi)), h₂⟩
  refine ⟨?_, fun m hm => ?_⟩
  · rw [List.map_cons, List.nodup_cons]
    refine ⟨fun hm => ?_, hout⟩
    obtain ⟨m, hm, hk⟩ := List.mem_map.mp hm
    rcases hfrom' m hm with hm | ⟨h₁, h₂⟩
    · exact hnd.1 (hk ▸ List.mem_map_of_mem hm)
    · rcases hstack.1.2 with hi | hi
      · exact h₁ (hk ▸ hi)
      · exact h₂ (hk ▸ hi)
  · rcases List.mem_cons.mp hm with rfl | hm
    · exact .inl List.mem_cons_self
    · exact (hfrom' m hm).imp (List.mem_cons_of_mem _) id

/-! ### Searches that do not fail -/

/-- Every identifier that a node refers to and that is not skipped is looked up without an
error. -/
def Total (S : Search ι ν ε) (P : ν → Prop) : Prop :=
  ∀ n, P n → ∀ i ∈ S.children n, S.skip n i = false → ∃ p, S.lookup n i = .ok p ∧ P p

lemma Total.push {P : ν → Prop} (hS : S.Total P) (hn : P n) (his : ∀ i ∈ is, i ∈ S.children n)
    (hstack : ∀ m ∈ stack, P m) :
    ∃ seen' stack', S.push n is seen stack = .ok (seen', stack') ∧ ∀ m ∈ stack', P m := by
  induction is generalizing seen stack with
  | nil => exact ⟨seen, stack, rfl, hstack⟩
  | cons i is ih =>
    rw [List.forall_mem_cons] at his
    rw [Search.push]
    split
    · exact ih his.2 hstack
    · split
      · exact ih his.2 hstack
      · next hskip =>
        obtain ⟨p, hp, hPp⟩ := hS n hn i his.1 (by simpa using hskip)
        rw [hp]
        exact ih his.2 (by rw [List.forall_mem_cons]; exact ⟨hPp, hstack⟩)

/-- **Such a search does not fail**, if it returns. -/
theorem Total.run {P : ν → Prop} (hS : S.Total P) (hstack : ∀ m ∈ stack, P m)
    (h : (S.run fuel seen stack).isSome) : ∃ out, S.run fuel seen stack = some (.ok out) := by
  induction fuel generalizing seen stack with
  | zero => cases h
  | succ fuel ih =>
    cases stack with
    | nil => exact ⟨[], rfl⟩
    | cons n stack =>
      rw [List.forall_mem_cons] at hstack
      obtain ⟨seen', stack', hp, hstack'⟩ := hS.push hstack.1 (fun _ hi => hi) hstack.2
      rw [Search.run, hp] at h ⊢
      rw [Option.isSome_map] at h
      obtain ⟨out, hout⟩ := ih hstack' h
      refine ⟨n :: out, ?_⟩
      dsimp only at hout ⊢
      rw [hout]
      rfl

/-! ### Two searches -/

/-- `T` finds what `S` finds on the nodes that satisfy `P`. -/
structure RefinesOn (S T : Search ι ν ε) (P : ν → Prop) : Prop where
  key : T.key = S.key
  children : ∀ n, P n → T.children n = S.children n
  skip : ∀ n, P n → ∀ i ∈ S.children n, T.skip n i = S.skip n i
  lookup : ∀ n, P n → ∀ i ∈ S.children n, S.skip n i = false → ∀ p, S.lookup n i = .ok p →
    T.lookup n i = .ok p ∧ P p

lemma RefinesOn.push {T : Search ι ν ε} {P : ν → Prop} (hST : S.RefinesOn T P) (hn : P n)
    (his : ∀ i ∈ is, i ∈ S.children n) (hstack : ∀ m ∈ stack, P m)
    (h : S.push n is seen stack = .ok (seen', stack')) :
    T.push n is seen stack = .ok (seen', stack') ∧ ∀ m ∈ stack', P m := by
  induction is generalizing seen stack with
  | nil => cases h; exact ⟨rfl, hstack⟩
  | cons i is ih =>
    rw [List.forall_mem_cons] at his
    rw [Search.push] at h ⊢
    rw [hST.skip n hn i his.1]
    split at h
    · next hseen => rw [if_pos hseen]; exact ih his.2 hstack h
    · next hseen =>
      rw [if_neg hseen]
      split at h
      · next hskip => rw [if_pos hskip]; exact ih his.2 hstack h
      · next hskip =>
        rw [if_neg hskip]
        split at h
        · cases h
        · next p hp =>
          obtain ⟨hlook, hPp⟩ := hST.lookup n hn i his.1 (by simpa using hskip) p hp
          rw [hlook, hST.key]
          exact ih his.2 (by rw [List.forall_mem_cons]; exact ⟨hPp, hstack⟩) h

/-- **Refinement**: a search that finds what another finds returns what it returns. -/
theorem RefinesOn.run {T : Search ι ν ε} {P : ν → Prop} (hST : S.RefinesOn T P)
    (hstack : ∀ m ∈ stack, P m) (h : S.run fuel seen stack = some (.ok out)) :
    T.run fuel seen stack = some (.ok out) := by
  induction fuel generalizing seen stack out with
  | zero => cases h
  | succ fuel ih =>
    cases stack with
    | nil => exact h
    | cons n stack =>
      rw [List.forall_mem_cons] at hstack
      obtain ⟨seen', stack', out', hp, hr, rfl⟩ := run_cons h
      obtain ⟨hp', hstack'⟩ := hST.push hstack.1 (fun i hi => hi) hstack.2 hp
      rw [Search.run, hST.children n hstack.1, hp']
      dsimp only
      rw [ih hstack' hr]
      rfl

/-- Two searches that find the same on the nodes that satisfy `P`, and fail alike. -/
structure AgreesOn (S T : Search ι ν ε) (P : ν → Prop) : Prop where
  key : T.key = S.key
  children : ∀ n, P n → T.children n = S.children n
  skip : ∀ n, P n → ∀ i ∈ S.children n, T.skip n i = S.skip n i
  lookup : ∀ n, P n → ∀ i ∈ S.children n, S.skip n i = false → T.lookup n i = S.lookup n i
  step : ∀ n p, P n → S.Step n p → P p

lemma AgreesOn.push {T : Search ι ν ε} {P : ν → Prop} (hST : S.AgreesOn T P) (hn : P n)
    (his : ∀ i ∈ is, i ∈ S.children n) (hstack : ∀ m ∈ stack, P m) :
    T.push n is seen stack = S.push n is seen stack ∧
      ∀ seen' stack', S.push n is seen stack = .ok (seen', stack') → ∀ m ∈ stack', P m := by
  induction is generalizing seen stack with
  | nil =>
    refine ⟨rfl, fun seen' stack' h => ?_⟩
    cases h
    exact hstack
  | cons i is ih =>
    rw [List.forall_mem_cons] at his
    rw [Search.push, Search.push, hST.skip n hn i his.1]
    split
    · exact ih his.2 hstack
    · split
      · exact ih his.2 hstack
      · next hskip =>
        have hskip : S.skip n i = false := by simpa using hskip
        rw [hST.lookup n hn i his.1 hskip]
        split
        · exact ⟨rfl, fun seen' stack' h => by cases h⟩
        · next p hp =>
          rw [hST.key]
          refine ih his.2 (List.forall_mem_cons.mpr ⟨?_, hstack⟩)
          exact hST.step n p hn ⟨i, his.1, hskip, hp⟩

/-- **Agreement**: such searches return the same, also when they fail. -/
theorem AgreesOn.run {T : Search ι ν ε} {P : ν → Prop} (hST : S.AgreesOn T P)
    (hstack : ∀ m ∈ stack, P m) : T.run fuel seen stack = S.run fuel seen stack := by
  induction fuel generalizing seen stack with
  | zero => rfl
  | succ fuel ih =>
    cases stack with
    | nil => rfl
    | cons n stack =>
      rw [List.forall_mem_cons] at hstack
      obtain ⟨hpush, hnext⟩ : T.push n (S.children n) seen stack
          = S.push n (S.children n) seen stack ∧ _ := hST.push hstack.1 (fun i hi => hi) hstack.2
      rw [Search.run, Search.run, hST.children n hstack.1, hpush]
      split
      · rfl
      · next next hp => rw [ih (hnext _ _ hp)]

/-! ### Fuel -/

lemma run_add {r : Except ε (List ν)} (h : S.run fuel seen stack = some r) (k : ℕ) :
    S.run (fuel + k) seen stack = some r := by
  induction fuel generalizing seen stack r with
  | zero => cases h
  | succ fuel ih =>
    rw [Nat.add_right_comm]
    cases stack with
    | nil => exact h
    | cons n stack =>
      rw [Search.run] at h ⊢
      split at h
      · next hp => rw [← h]
      · next next hp =>
        rw [Option.map_eq_some_iff] at h
        obtain ⟨r', hr, hmap⟩ := h
        rw [ih hr, ← hmap]
        rfl

lemma run_unique {r r' : Except ε (List ν)} {fuel' : ℕ} (h : S.run fuel seen stack = some r)
    (h' : S.run fuel' seen stack = some r') : r = r' := by
  have h₁ := run_add h fuel'
  have h₂ := run_add h' fuel
  rw [Nat.add_comm, h₂] at h₁
  exact (Option.some.inj h₁).symm

/-- **Enough fuel**: when all nodes that can be found have their identifiers in `ids`, a search
returns with one unit of fuel for each node of the stack and each identifier not yet seen. -/
theorem run_isSome (hS : S.Keyed) {ids : Finset ι}
    (hids : ∀ n i p, S.lookup n i = .ok p → i ∈ ids)
    (hfuel : stack.length + (ids \ seen.toFinset).card < fuel) :
    (S.run fuel seen stack).isSome := by
  induction fuel generalizing seen stack with
  | zero => omega
  | succ fuel ih =>
    cases stack with
    | nil => rfl
    | cons n stack =>
      rw [Search.run]
      split
      · rfl
      · next next hp =>
        rw [Option.isSome_map]
        obtain ⟨ps, hst, hs, hnd, hfresh, hps, -⟩ := push_spec hS hp
        apply ih
        -- the identifiers pushed are no longer among those not yet seen
        have hcard : ps.length + (ids \ next.1.toFinset).card
            ≤ (ids \ seen.toFinset).card := by
          rw [← List.length_map S.key, ← List.toFinset_card_of_nodup hnd,
            ← Finset.card_union_of_disjoint]
          · refine Finset.card_le_card fun i hi => ?_
            simp only [Finset.mem_union, List.mem_toFinset, Finset.mem_sdiff, hs] at hi ⊢
            rcases hi with hi | ⟨hi, hn⟩
            · obtain ⟨p, hpm, rfl⟩ := List.mem_map.mp hi
              obtain ⟨j, -, -, hj⟩ := hps p hpm
              exact ⟨hS _ _ _ hj ▸ hids n j p hj, hfresh p hpm⟩
            · exact ⟨hi, fun hm => hn (.inl hm)⟩
          · rw [Finset.disjoint_left]
            intro i hi hn
            simp only [List.mem_toFinset, Finset.mem_sdiff, hs] at hi hn
            exact hn.2 (.inr hi)
        rw [hst, List.length_append]
        rw [List.length_cons] at hfuel
        omega

end Search

end AmareleoChain
