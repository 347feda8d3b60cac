import KernelSmp.Base.Words

/-! Byte-addressed memory with little-endian loads and stores. -/

namespace KernelSmp.Base

open BitVec

abbrev Mem := ℕ → Byte

namespace Mem

def readLE (m : Mem) (a : ℕ) : ℕ → ℕ
  | 0 => 0
  | n + 1 => (m a).toNat + 256 * readLE m (a + 1) n

def writeLE (m : Mem) (a v n : ℕ) : Mem :=
  fun x => if a ≤ x ∧ x < a + n then BitVec.ofNat 8 (v / 256 ^ (x - a)) else m x

def fill (m : Mem) (a n : ℕ) (b : Byte) : Mem :=
  fun x => if a ≤ x ∧ x < a + n then b else m x

def copy (m : Mem) (a : ℕ) (m' : Mem) (b n : ℕ) : Mem :=
  fun x => if a ≤ x ∧ x < a + n then m' (b + (x - a)) else m x

def load64 (m : Mem) (a : ℕ) : Word := BitVec.ofNat 64 (readLE m a 8)
def load32 (m : Mem) (a : ℕ) : BitVec 32 := BitVec.ofNat 32 (readLE m a 4)
def store64 (m : Mem) (a : ℕ) (v : Word) : Mem := writeLE m a v.toNat 8
def store32 (m : Mem) (a : ℕ) (v : BitVec 32) : Mem := writeLE m a v.toNat 4

variable {m : Mem} {a n : ℕ}

lemma readLE_congr {m' : Mem} (h : ∀ x, a ≤ x → x < a + n → m x = m' x) : readLE m a n = readLE m' a n := by
  induction n generalizing a with
  | zero => rfl
  | succ n ih =>
    rw [readLE, readLE, h a (by omega) (by omega), ih fun x hx hn => h x (by omega) (by omega)]

lemma readLE_inj {m' : Mem} (h : readLE m a n = readLE m' a n) : ∀ x < n, m (a + x) = m' (a + x) := by
  induction n generalizing a with
  | zero =>
    intro x hx
    omega
  | succ n ih =>
    rw [readLE, readLE] at h
    intro x hx
    cases x with
    | zero =>
      apply eq_of_toNat_eq
      rw [Nat.add_zero]
      omega
    | succ x =>
      have hrest := ih (a := a + 1) (by omega) x (by omega)
      rwa [Nat.add_assoc, Nat.add_comm 1 x] at hrest

lemma readLE_lt (m : Mem) (a n : ℕ) : readLE m a n < 256 ^ n := by
  induction n generalizing a with
  | zero => simp [readLE]
  | succ n ih =>
    have hr := ih (a + 1)
    rw [readLE, pow_succ]
    omega

lemma readLE_of_digits {v : ℕ} (h : ∀ k < n, m (a + k) = BitVec.ofNat 8 (v / 256 ^ k)) : readLE m a n = v % 256 ^ n := by
  induction n generalizing a v with
  | zero => simp [readLE, Nat.mod_one]
  | succ n ih =>
    have hh : m a = BitVec.ofNat 8 v := by simpa using h 0 (by omega)
    have ht := ih (a := a + 1) fun k hk => by
      have hd := h (k + 1) (by omega)
      rw [pow_succ', ← Nat.div_div_eq_div_mul] at hd
      rw [← hd]
      congr 1
      omega
    rw [readLE, hh, ht, toNat_ofNat, pow_succ' 256 n, Nat.mod_mul]

lemma readLE_writeLE (m : Mem) (a v n : ℕ) : readLE (writeLE m a v n) a n = v % 256 ^ n := by
  apply readLE_of_digits
  intro k hk
  rw [writeLE, if_pos ⟨by omega, by omega⟩, Nat.add_sub_cancel_left]

variable {b : ℕ}

lemma readLE_writeLE_disjoint (m : Mem) {v k : ℕ} (h : a + n ≤ b ∨ b + k ≤ a) :
    readLE (writeLE m a v n) b k = readLE m b k := by
  apply readLE_congr
  intro x hx hk
  rw [writeLE, if_neg (by omega)]

lemma readLE_fill_disjoint (m : Mem) {k : ℕ} {c : Byte} (h : a + n ≤ b ∨ b + k ≤ a) :
    readLE (fill m a n c) b k = readLE m b k := by
  apply readLE_congr
  intro x hx hk
  rw [fill, if_neg (by omega)]

lemma readLE_fill_zero (m : Mem) {k : ℕ} (h : a ≤ b ∧ b + k ≤ a + n) : readLE (fill m a n 0) b k = 0 := by
  have hd := readLE_of_digits (m := fill m a n 0) (a := b) (n := k) fun j hj => by
    rw [fill, if_pos ⟨by omega, by omega⟩, Nat.zero_div]
    rfl
  rw [hd, Nat.zero_mod]

@[simp] lemma load64_store64 (m : Mem) (a : ℕ) (v : Word) : load64 (store64 m a v) a = v := by
  apply eq_of_toNat_eq
  have hv := v.isLt
  rw [load64, store64, readLE_writeLE, toNat_ofNat]
  omega

lemma load64_store64_disjoint (m : Mem) (v : Word) (h : a + 8 ≤ b ∨ b + 8 ≤ a) : load64 (store64 m a v) b = load64 m b := by
  rw [load64, load64, store64, readLE_writeLE_disjoint m h]

lemma load64_fill_disjoint (m : Mem) (c : Byte) (h : a + n ≤ b ∨ b + 8 ≤ a) : load64 (fill m a n c) b = load64 m b := by
  rw [load64, load64, readLE_fill_disjoint m h]

lemma load32_fill_disjoint (m : Mem) (c : Byte) (h : a + n ≤ b ∨ b + 4 ≤ a) : load32 (fill m a n c) b = load32 m b := by
  rw [load32, load32, readLE_fill_disjoint m h]

lemma load64_copy_disjoint (m m' : Mem) {c : ℕ} (h : a + n ≤ c ∨ c + 8 ≤ a) : load64 (copy m a m' b n) c = load64 m c := by
  rw [load64, load64, readLE_congr]
  intro x hx hx'
  rw [copy, if_neg (by omega)]

lemma load64_fill_zero (m : Mem) (h : a ≤ b ∧ b + 8 ≤ a + n) : load64 (fill m a n 0) b = 0 := by
  rw [load64, readLE_fill_zero m h]
  rfl

end Mem

end KernelSmp.Base
