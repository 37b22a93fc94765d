import Mathlib.Data.Nat.Basic

/-!
Fallible calls, and the arithmetic of 32-bit words that can fail.

A call returns an error to its caller, or it panics. Plain subtraction and `unwrap` panic; the
saturating operations do not.
-/

namespace AmareleoChain

/-- How a call fails: by an error, or by a panic, which unwinds its task. -/
inductive Failure where
  | error (e : String)
  | panicked (e : String)
  deriving DecidableEq, Repr

/-- What a fallible call comes to that does not panic. -/
def orFail {α : Type} (r : Except String α) : Except Failure α := r.mapError Failure.error

/-- `bail!`. -/
def bail {α : Type} (e : String) : Except Failure α := .error (.error e)

/-- The call panics. -/
def Panics {α : Type} (r : Except Failure α) : Prop := ∃ e, r = .error (.panicked e)

@[simp] lemma not_panics_ok {α : Type} (a : α) : ¬ Panics (.ok a : Except Failure α) :=
  fun ⟨_, h⟩ => (by cases h)

@[simp] lemma not_panics_bail {α : Type} (e : String) : ¬ Panics (bail e : Except Failure α) :=
  fun ⟨_, h⟩ => (by cases h)

@[simp] lemma bail_ne_ok {α : Type} (e : String) (a : α) : bail e ≠ .ok a :=
  fun h => (by cases h)

lemma panics_error {α β : Type} {e : Failure} :
    Panics (.error e : Except Failure α) ↔ Panics (.error e : Except Failure β) := by
  constructor <;>
    · rintro ⟨e, h⟩
      cases h
      exact ⟨e, rfl⟩

lemma not_panics_bind {α β : Type} {x : Except Failure α} {next : α → Except Failure β}
    (hx : ¬ Panics x) (hnext : ∀ a, x = .ok a → ¬ Panics (next a)) : ¬ Panics (x >>= next) := by
  cases x with
  | error e => exact fun h => hx (panics_error.mp h)
  | ok a => exact hnext a rfl

lemma error_of_not_panics {r : Except Failure Unit} (h : ¬ Panics r) (hok : r ≠ .ok ()) :
    ∃ e, r = .error (.error e) := by
  rcases r with (e | e) | ⟨⟩
  · exact ⟨e, rfl⟩
  · exact absurd ⟨e, rfl⟩ h
  · exact absurd rfl hok

def unwrap {α : Type} : Option α → Except Failure α
  | some a => .ok a
  | none => .error (.panicked "called `Option::unwrap()` on a `None` value")

/-! ### Words -/

/-- `a - b`. -/
def checkedSub (a b : UInt32) : Except Failure UInt32 :=
  if b ≤ a then .ok (a - b) else .error (.panicked "attempt to subtract with overflow")

/-- `u32::MAX`. -/
def u32Max : UInt32 := 4294967295

/-- `a.saturating_add(b)`. -/
def saturatingAdd (a b : UInt32) : UInt32 := UInt32.ofNat (min (a.toNat + b.toNat) u32Max.toNat)

/-- `a.saturating_sub(b)`. -/
def saturatingSub (a b : UInt32) : UInt32 := UInt32.ofNat (a.toNat - b.toNat)

variable {a b : UInt32}

lemma checkedSub_of_le (h : b ≤ a) : checkedSub a b = .ok (a - b) := if_pos h

lemma toNat_saturatingAdd :
    (saturatingAdd a b).toNat = min (a.toNat + b.toNat) u32Max.toNat := by
  have hmax := u32Max.toNat_lt
  rw [saturatingAdd, UInt32.toNat_ofNat']
  exact Nat.mod_eq_of_lt (by omega)

lemma toNat_saturatingSub : (saturatingSub a b).toNat = a.toNat - b.toNat := by
  have ha := a.toNat_lt
  rw [saturatingSub, UInt32.toNat_ofNat']
  exact Nat.mod_eq_of_lt (by omega)

end AmareleoChain
