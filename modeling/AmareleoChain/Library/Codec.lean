import Mathlib.Data.List.Basic
import Mathlib.Tactic.Ring

/-!
Readers and writers of bytes.

A reader takes what it reads from the front of the bytes and leaves the rest. `Reads r bytes a`
says that it reads `a` from `bytes`, whatever comes after them, and then leaves exactly that;
such facts compose along the binds of a reader, as the written bytes are concatenated.
-/

namespace AmareleoChain

abbrev Reader (α : Type) := StateT (List UInt8) (Except String) α

/-- The reader reads `a` from `bytes` and consumes them exactly. -/
def Reads {α : Type} (r : Reader α) (bytes : List UInt8) (a : α) : Prop :=
  ∀ rest, r.run (bytes ++ rest) = .ok (a, rest)

namespace Reads

variable {α β σ : Type}

lemma pure (a : α) : Reads (Pure.pure a) [] a := fun _ => rfl

lemma bind {r : Reader α} {next : α → Reader β} {bytes bytes' : List UInt8} {a : α} {b : β}
    (h : Reads r bytes a) (h' : Reads (next a) bytes' b) :
    Reads (r >>= next) (bytes ++ bytes') b := by
  intro rest
  rw [StateT.run_bind, List.append_assoc, h]
  exact h' rest

lemma map {r : Reader α} {bytes : List UInt8} {a : α} (h : Reads r bytes a) (f : α → β) :
    Reads (r >>= fun a => Pure.pure (f a)) bytes (f a) := by
  have hread : Reads (r >>= fun a => Pure.pure (f a)) (bytes ++ []) (f a) :=
    h.bind (Reads.pure (f a))
  rwa [List.append_nil] at hread

end Reads

/-- How the values of a type are written and read. -/
structure Codec (α : Type) where
  write : α → Except String (List UInt8)
  read : Reader α

/-- What was written is read back. -/
def Codec.RoundTrips {α : Type} (c : Codec α) : Prop :=
  ∀ a bytes, c.write a = .ok bytes → Reads c.read bytes a

lemma bind_eq_ok {ε α β : Type} {x : Except ε α} {next : α → Except ε β} {b : β} :
    (x >>= next) = .ok b ↔ ∃ a, x = .ok a ∧ next a = .ok b := by
  cases x with
  | error e => exact ⟨fun h => (by cases h), fun ⟨a, h, _⟩ => (by cases h)⟩
  | ok a => exact ⟨fun h => ⟨a, rfl, h⟩, fun ⟨a', h, h'⟩ => (by cases h; exact h')⟩

/-! ### Numbers -/

/-- The next byte. -/
def readByte : Reader UInt8 := fun bytes =>
  match bytes with
  | [] => .error "failed to fill whole buffer"
  | b :: rest => .ok (b, rest)

/-- A number in a given number of bytes, from the least significant one. -/
def littleEndian : ℕ → ℕ → List UInt8
  | 0, _ => []
  | k + 1, n => UInt8.ofNat (n % 256) :: littleEndian k (n / 256)

/-- A number from a given number of bytes. -/
def readLittleEndian : ℕ → Reader ℕ
  | 0 => pure 0
  | k + 1 => do
    let low ← readByte
    let high ← readLittleEndian k
    return low.toNat + 256 * high

lemma reads_byte (b : UInt8) : Reads readByte [b] b := fun _ => rfl

lemma reads_littleEndian {k n : ℕ} (h : n < 256 ^ k) :
    Reads (readLittleEndian k) (littleEndian k n) n := by
  induction k generalizing n with
  | zero =>
    obtain rfl : n = 0 := by simpa using h
    exact Reads.pure 0
  | succ k ih =>
    have hhigh : n / 256 < 256 ^ k := Nat.div_lt_of_lt_mul (by rwa [pow_succ'] at h)
    have hlow : (UInt8.ofNat (n % 256)).toNat + 256 * (n / 256) = n := by
      rw [UInt8.toNat_ofNat']
      omega
    have hread : Reads (readLittleEndian (k + 1)) (littleEndian (k + 1) n)
        ((UInt8.ofNat (n % 256)).toNat + 256 * (n / 256)) :=
      (reads_byte (UInt8.ofNat (n % 256))).bind ((ih hhigh).map _)
    rwa [hlow] at hread

/-! ### Flags -/

def writeBool (b : Bool) : List UInt8 := [if b then 1 else 0]

def readBool : Reader Bool := do
  match ← readByte with
  | 0 => return false
  | 1 => return true
  | _ => throw "FromBytes::read failed for bool"

lemma reads_bool (b : Bool) : Reads readBool (writeBool b) b := by
  cases b <;> exact fun _ => rfl

/-! ### Repetitions -/

/-- The written items, one after the other. -/
def writeEach {α : Type} (write : α → Except String (List UInt8)) :
    List α → Except String (List UInt8)
  | [] => return []
  | a :: as => do
    let bytes ← write a
    let rest ← writeEach write as
    return bytes ++ rest

/-- A step repeated a number of times. -/
def readTimes {σ : Type} (step : σ → Reader σ) : ℕ → σ → Reader σ
  | 0, s => pure s
  | n + 1, s => do
    let s ← step s
    readTimes step n s

lemma reads_times {α σ : Type} {write : α → Except String (List UInt8)} {step : σ → Reader σ}
    {add : σ → α → σ} {as : List α} {bytes : List UInt8} (h : writeEach write as = .ok bytes)
    (hstep : ∀ a ∈ as, ∀ bytes s, write a = .ok bytes → Reads (step s) bytes (add s a)) (s : σ) :
    Reads (readTimes step as.length s) bytes (as.foldl add s) := by
  induction as generalizing bytes s with
  | nil => cases h; exact Reads.pure s
  | cons a as ih =>
    obtain ⟨first, ha, h⟩ := bind_eq_ok.mp h
    obtain ⟨others, has, h⟩ := bind_eq_ok.mp h
    cases h
    exact (hstep a (.head _) first s ha).bind
      (ih has (fun b hb => hstep b (.tail _ hb)) (add s a))

/-! ### What a reader accepts -/

section

variable {α β σ : Type}

lemma run_bind_eq_ok {r : Reader α} {next : α → Reader β} {bytes rest : List UInt8} {b : β} :
    (r >>= next).run bytes = .ok (b, rest) ↔
      ∃ a mid, r.run bytes = .ok (a, mid) ∧ (next a).run mid = .ok (b, rest) := by
  rw [StateT.run_bind, bind_eq_ok, Prod.exists]

/-- Every value that is read can be written. -/
def Codec.Rewrites (c : Codec α) : Prop :=
  ∀ bytes a rest, c.read.run bytes = .ok (a, rest) → ∃ written, c.write a = .ok written

/-- Every value is read from its written form. -/
def Codec.Exact (c : Codec α) : Prop :=
  ∀ bytes a rest, c.read.run bytes = .ok (a, rest) →
    ∃ written, c.write a = .ok written ∧ bytes = written ++ rest

/-- A reader of a stream: what it reads does not depend on what comes after it. -/
def Streams (r : Reader α) : Prop :=
  ∀ bytes tail a rest, r.run bytes = .ok (a, rest) →
    r.run (bytes ++ tail) = .ok (a, rest ++ tail)

namespace Streams

lemma pure (a : α) : Streams (Pure.pure a : Reader α) := by
  rintro bytes tail _ _ ⟨⟩
  rfl

lemma throw (e : String) : Streams (MonadExcept.throw e : Reader α) := by
  rintro bytes tail _ _ ⟨⟩

lemma bind {r : Reader α} {next : α → Reader β} (h : Streams r) (h' : ∀ a, Streams (next a)) :
    Streams (r >>= next) := by
  intro bytes tail b rest hb
  obtain ⟨a, mid, ha, hb⟩ := run_bind_eq_ok.mp hb
  exact run_bind_eq_ok.mpr ⟨a, mid ++ tail, h bytes tail a mid ha, h' a mid tail b rest hb⟩

lemma byte : Streams readByte := by
  rintro (_ | ⟨b, bytes⟩) tail _ _ ⟨⟩
  rfl

lemma littleEndian (k : ℕ) : Streams (readLittleEndian k) := by
  induction k with
  | zero => exact pure 0
  | succ k ih => exact byte.bind fun low => ih.bind fun high => pure _

lemma bool : Streams readBool := by
  refine byte.bind fun b => ?_
  split
  · exact pure false
  · exact pure true
  · exact throw _

lemma times {step : σ → Reader σ} (h : ∀ s, Streams (step s)) (n : ℕ) (s : σ) :
    Streams (readTimes step n s) := by
  induction n generalizing s with
  | zero => exact pure s
  | succ n ih => exact (h s).bind ih

/-- **A form that was cut off is not read.** -/
theorem cut_off {r : Reader α} (h : Streams r) {front back : List UInt8} {a : α}
    (hread : Reads r (front ++ back) a) (hback : back ≠ []) (result : α × List UInt8) :
    r.run front ≠ .ok result := by
  intro hfront
  obtain ⟨a', rest⟩ := result
  have hlonger := h front back a' rest hfront
  have hwhole := hread []
  rw [List.append_nil, hlonger, Except.ok.injEq, Prod.mk.injEq] at hwhole
  exact hback (List.append_eq_nil_iff.mp hwhole.2).2

end Streams

lemma readLittleEndian_ok {k n : ℕ} {bytes rest : List UInt8}
    (h : (readLittleEndian k).run bytes = .ok (n, rest)) :
    n < 256 ^ k ∧ bytes = littleEndian k n ++ rest := by
  induction k generalizing n bytes with
  | zero =>
    cases h
    exact ⟨Nat.one_pos, rfl⟩
  | succ k ih =>
    obtain ⟨low, mid, hlow, h⟩ := run_bind_eq_ok.mp h
    obtain ⟨high, rest', hhigh, h⟩ := run_bind_eq_ok.mp h
    cases h
    obtain ⟨hlt, rfl⟩ := ih hhigh
    cases bytes with
    | nil => cases hlow
    | cons b bytes =>
      cases hlow
      have hb := low.toNat_lt
      have hmod : (low.toNat + 256 * high) % 256 = low.toNat := by omega
      have hdiv : (low.toNat + 256 * high) / 256 = high := by omega
      constructor
      · rw [pow_succ]
        omega
      · rw [littleEndian, hmod, hdiv, UInt8.ofNat_toNat]
        rfl

/-- The items that are read from the bytes, one after the other. -/
def ReadsEach (item : Reader α) : List UInt8 → List α → List UInt8 → Prop
  | bytes, [], rest => bytes = rest
  | bytes, a :: as, rest => ∃ mid, item.run bytes = .ok (a, mid) ∧ ReadsEach item mid as rest

/-- **A loop that reads items** has read as many of them as it was told, and added each. -/
theorem readTimes_ok {item : Reader α} {step : σ → Reader σ} {add : σ → α → σ}
    (hstep : ∀ s, step s = item >>= fun a => Pure.pure (add s a)) {n : ℕ} {s s' : σ}
    {bytes rest : List UInt8} (h : (readTimes step n s).run bytes = .ok (s', rest)) :
    ∃ as : List α, as.length = n ∧ s' = as.foldl add s ∧ ReadsEach item bytes as rest := by
  induction n generalizing s bytes with
  | zero =>
    cases h
    exact ⟨[], rfl, rfl, rfl⟩
  | succ n ih =>
    obtain ⟨t, mid, ht, h⟩ := run_bind_eq_ok.mp h
    rw [hstep] at ht
    obtain ⟨a, mid', ha, ht⟩ := run_bind_eq_ok.mp ht
    cases ht
    obtain ⟨as, hlength, hfold, hreads⟩ := ih h
    exact ⟨a :: as, congrArg Nat.succ hlength, hfold, mid, ha, hreads⟩

/-- Each of the items that were read has what every item that is read has. -/
lemma ReadsEach.all {item : Reader α} {P : α → Prop}
    (hitem : ∀ bytes a rest, item.run bytes = .ok (a, rest) → P a) {bytes rest : List UInt8}
    {as : List α} (h : ReadsEach item bytes as rest) : ∀ a ∈ as, P a := by
  induction as generalizing bytes with
  | nil => exact fun a ha => (by cases ha)
  | cons a as ih =>
    obtain ⟨mid, ha, h⟩ := h
    exact List.forall_mem_cons.mpr ⟨hitem bytes a mid ha, ih h⟩

lemma writeEach_iff {write : α → Except String (List UInt8)} {as : List α} :
    (∃ written, writeEach write as = .ok written) ↔ ∀ a ∈ as, ∃ written, write a = .ok written := by
  induction as with
  | nil => exact ⟨fun _ a ha => (by cases ha), fun _ => ⟨[], rfl⟩⟩
  | cons a as ih =>
    rw [List.forall_mem_cons, ← ih]
    constructor
    · rintro ⟨written, h⟩
      obtain ⟨first, ha, h⟩ := bind_eq_ok.mp h
      obtain ⟨others, has, -⟩ := bind_eq_ok.mp h
      exact ⟨⟨first, ha⟩, others, has⟩
    · rintro ⟨⟨first, ha⟩, others, has⟩
      exact ⟨first ++ others, bind_eq_ok.mpr ⟨first, ha, bind_eq_ok.mpr ⟨others, has, rfl⟩⟩⟩

/-- Items that are read from their written forms are read from these, one after the other. -/
lemma ReadsEach.exact {c : Codec α} (hc : c.Exact) {bytes rest : List UInt8} {as : List α}
    (h : ReadsEach c.read bytes as rest) :
    ∃ written, writeEach c.write as = .ok written ∧ bytes = written ++ rest := by
  induction as generalizing bytes with
  | nil => exact ⟨[], rfl, h⟩
  | cons a as ih =>
    obtain ⟨mid, ha, h⟩ := h
    obtain ⟨first, hfirst, rfl⟩ := hc bytes a mid ha
    obtain ⟨others, hothers, rfl⟩ := ih h
    refine ⟨first ++ others, ?_, (List.append_assoc first others rest).symm⟩
    exact bind_eq_ok.mpr ⟨first, hfirst, bind_eq_ok.mpr ⟨others, hothers, rfl⟩⟩

end

end AmareleoChain
