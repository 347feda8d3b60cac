import KernelSmp.Base.Radix
import KernelSmp.Memory.PmmSpec
import KernelSmp.Memory.Vmm

/-! Page tables seen as a store of tables: a table is a frame number, and a present entry names
the frame in its address bits. -/

namespace KernelSmp.Memory

open Base Base.Radix BitVec

abbrev Index := Fin 512

def tables (m : Mem) (f : ℕ) (i : Index) : Word := m.load64 (pageSize * f + 8 * i)

def frameOf (e : Word) : ℕ := frameIndex (e &&& vmmAddrMask)

def target (e : Word) : Option ℕ := if isPresent e then some (frameOf e) else none

def tableEntry (f : ℕ) : Word := (frameAddr f &&& vmmAddrMask) ||| ptePresent ||| pteWritable ||| pteUser

def leafEntry (phys flags : Word) : Word := (phys &&& vmmAddrMask) ||| flags ||| ptePresent

def upperPath (virt : Word) : List Index := [pdIdx virt, pdptIdx virt, pml4Idx virt]

def leafPath (virt : Word) : List Index := ptIdx virt :: upperPath virt

lemma indexAt_val (shift : ℕ) (v : Word) : (indexAt shift v : ℕ) = v.toNat / 2 ^ shift % 512 := by
  rw [indexAt]
  simp only [toNat_and, toNat_ushiftRight, Nat.shiftRight_eq_div_pow]
  exact Nat.and_two_pow_sub_one_eq_mod _ 9

variable {f : ℕ}

lemma frameAddr_toNat (h : f < 2 ^ 52) : (frameAddr f).toNat = pageSize * f := by
  rw [frameAddr, toNat_ofNat, pageSize]
  omega

lemma frameIndex_frameAddr' (h : f < 2 ^ 52) : frameIndex (frameAddr f) = f :=
  frameIndex_frameAddr (by rw [pageSize]; omega)

lemma and_addrMask_toNat (e : Word) : (e &&& vmmAddrMask).toNat = e.toNat / 2 ^ 12 % 2 ^ 28 * 2 ^ 12 :=
  Word.toNat_and_field e 12 28 (by decide)

lemma frameOf_lt (e : Word) : frameOf e < 2 ^ 28 := by
  rw [frameOf, frameIndex, and_addrMask_toNat, pageSize]
  omega

lemma and_addrMask (e : Word) : e &&& vmmAddrMask = frameAddr (frameOf e) := by
  apply eq_of_toNat_eq
  rw [frameAddr_toNat ((frameOf_lt e).trans (by decide)), frameOf, frameIndex, and_addrMask_toNat, pageSize]
  omega

lemma frameAddr_and_addrMask (h : f < 2 ^ 28) : frameAddr f &&& vmmAddrMask = frameAddr f := by
  apply eq_of_toNat_eq
  rw [and_addrMask_toNat, frameAddr_toNat (by omega), pageSize]
  omega

lemma isPresent_eq (e : Word) : isPresent e = e.getLsbD 0 := Word.and_bit_ne_zero e (by decide)
lemma hasFlag_eq (e : Word) {k : ℕ} (hk : k < 64) : hasFlag e (1#64 <<< k) = e.getLsbD k :=
  Word.and_bit_ne_zero e hk

lemma entry_frameAddr (m : Mem) (h : f < 2 ^ 52) (i : Index) : entry m (frameAddr f) i = tables m f i := by
  rw [entry, tables, frameAddr_toNat h]

lemma tables_setEntry (m : Mem) (h : f < 2 ^ 52) (i : Index) (e : Word) :
    tables (setEntry m (frameAddr f) i e) = set (tables m) f i e := by
  funext g j
  rw [setEntry, frameAddr_toNat h, tables]
  by_cases hgj : g = f ∧ j = i
  · obtain ⟨rfl, rfl⟩ := hgj
    rw [set_self, Mem.load64_store64]
  · rw [set_of_ne _ _ hgj, tables, Mem.load64_store64_disjoint]
    rw [Fin.ext_iff] at hgj
    rw [pageSize]
    omega

lemma tables_zeroPage (m : Mem) (h : f < 2 ^ 52) : tables (zeroPage m (frameAddr f)) = setRow (tables m) f fun _ => 0 := by
  funext g j
  rw [zeroPage, frameAddr_toNat h, tables]
  rcases eq_or_ne g f with rfl | hg
  · rw [setRow, Function.update_self, Mem.load64_fill_zero]
    rw [pageSize]
    omega
  · rw [setRow_of_ne _ _ hg, tables, Mem.load64_fill_disjoint]
    rw [pageSize]
    omega

lemma or_and_addrMask (a : Word) {b : Word} (hb : b &&& vmmAddrMask = 0) : (a ||| b) &&& vmmAddrMask = a &&& vmmAddrMask := by
  apply eq_of_getLsbD_eq
  intro i hi
  have h := congrArg (fun y => BitVec.getLsbD y i) hb
  simp only [getLsbD_and, getLsbD_or] at h ⊢
  rw [Bool.and_or_distrib_right, h]
  simp

lemma tableEntry_frameOf (h : f < 2 ^ 28) : frameOf (tableEntry f) = f := by
  rw [frameOf, tableEntry, or_and_addrMask _ (by decide), or_and_addrMask _ (by decide),
    or_and_addrMask _ (by decide), frameAddr_and_addrMask h, frameAddr_and_addrMask h,
    frameIndex_frameAddr' (by omega)]

lemma tableEntry_present (f : ℕ) : isPresent (tableEntry f) = true := by
  rw [isPresent_eq, tableEntry]
  simp [ptePresent]

lemma tableEntry_target (h : f < 2 ^ 28) : target (tableEntry f) = some f := by
  rw [target, if_pos (tableEntry_present f), tableEntry_frameOf h]

lemma tableEntry_or_user (f : ℕ) : tableEntry f ||| pteUser = tableEntry f := by
  rw [tableEntry, BitVec.or_assoc, BitVec.or_self]

lemma tableEntry_or_writable (f : ℕ) : tableEntry f ||| pteWritable = tableEntry f := by
  rw [tableEntry, BitVec.or_assoc, BitVec.or_comm pteUser, ← BitVec.or_assoc, BitVec.or_assoc _ pteWritable pteWritable,
    BitVec.or_self]

lemma target_eq_some {e : Word} (h : target e = some f) : isPresent e = true ∧ frameOf e = f := by
  rwa [target, Option.ite_none_right_eq_some, Option.some.injEq] at h

lemma target_lt {e : Word} (h : target e = some f) : f < 2 ^ 28 := by
  rw [← (target_eq_some h).2]
  exact frameOf_lt e

lemma tableEntry_hasFlag (f : ℕ) : hasFlag (tableEntry f) pteWritable = true ∧ hasFlag (tableEntry f) pteUser = true ∧
    hasFlag (tableEntry f) pteHuge = false ∧ hasFlag (tableEntry f) pteNx = false := by
  refine ⟨?_, ?_, ?_, ?_⟩
  all_goals
    simp only [pteWritable, pteUser, pteHuge, pteNx]
    rw [hasFlag_eq _ (by decide), tableEntry]
    simp [ptePresent, pteWritable, pteUser, vmmAddrMask]

lemma leafEntry_hasFlag (phys flags : Word) {k : ℕ} (hk : k < 64) (h0 : k ≠ 0) (hmask : vmmAddrMask.getLsbD k = false) :
    hasFlag (leafEntry phys flags) (1#64 <<< k) = hasFlag flags (1#64 <<< k) := by
  rw [hasFlag_eq _ hk, hasFlag_eq _ hk, leafEntry]
  simp [ptePresent, hmask, h0]

lemma frameOf_leafEntry (hf : f < 2 ^ 28) {flags : Word} (hflags : flags &&& vmmAddrMask = 0) :
    frameOf (leafEntry (frameAddr f) flags) = f := by
  rw [frameOf, leafEntry, or_and_addrMask _ (by decide), or_and_addrMask _ hflags, frameAddr_and_addrMask hf,
    frameAddr_and_addrMask hf, frameIndex_frameAddr' (by omega)]

lemma checkMapped_eq {σ : Type} {virt : Word} {res : Bool × Paging σ} {u : Paging σ} (h : checkMapped virt res = some u) :
    res.2 = u := by
  rw [checkMapped] at h
  split at h
  · cases h
  · exact Option.some.inj h

end KernelSmp.Memory
