import KernelSmp.Base.ByteMemory

/-! Records in byte memory: a layout gives the place and the width of each field. -/

namespace KernelSmp.Base

structure Layout (F : Type) where
  offset : F → ℕ
  width : F → ℕ
  bytes : ℕ
  inside : ∀ f, offset f + width f ≤ bytes
  apart : ∀ f g, f ≠ g → offset f + width f ≤ offset g ∨ offset g + width g ≤ offset f

namespace Layout

variable {F : Type} (L : Layout F)

def get (m : Mem) (a : Word) (f : F) : Word := BitVec.ofNat 64 (m.readLE (a.toNat + L.offset f) (L.width f))

def set (m : Mem) (a : Word) (f : F) (v : Word) : Mem := m.writeLE (a.toNat + L.offset f) v.toNat (L.width f)

def Off (a b : Word) : Prop := a.toNat + L.bytes ≤ b.toNat ∨ b.toNat + L.bytes ≤ a.toNat

variable {L} {m m' : Mem} {a b v : Word} {f g : F}

lemma Off.symm (h : L.Off a b) : L.Off b a := Or.symm h

lemma get_set_self (hv : v.toNat < 256 ^ L.width f) : L.get (L.set m a f v) a f = v := by
  rw [get, set, Mem.readLE_writeLE, Nat.mod_eq_of_lt hv]
  simp

lemma get_set_field (h : f ≠ g) : L.get (L.set m a f v) a g = L.get m a g := by
  have hapart := L.apart f g h
  rw [get, set, Mem.readLE_writeLE_disjoint m (by omega), get]

lemma get_set_off (h : L.Off a b) : L.get (L.set m a f v) b g = L.get m b g := by
  have hf := L.inside f
  have hg := L.inside g
  rw [Off] at h
  rw [get, set, Mem.readLE_writeLE_disjoint m (by omega), get]

lemma get_congr (h : ∀ x, a.toNat ≤ x → x < a.toNat + L.bytes → m' x = m x) : L.get m' a f = L.get m a f := by
  have hf := L.inside f
  rw [get, get, Mem.readLE_congr fun x hx hx' => h x (by omega) (by omega)]

end Layout

end KernelSmp.Base
