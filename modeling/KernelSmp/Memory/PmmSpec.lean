import KernelSmp.Memory.Pmm

/-! What the operations of the frame allocator do to the bits of its bitmap. -/

namespace KernelSmp.Memory

open Base Function BitVec

namespace Pmm

lemma isSet_eq (p : Pmm) (k : ℕ) : p.isSet k = (p.bitmap (k / 8)).getLsbD (k % 8) :=
  Word.and_bit_ne_zero _ (by omega)

lemma isSet_setBit (p : Pmm) (k j : ℕ) : (p.setBit k).isSet j = (p.isSet j || decide (j = k)) := by
  rw [isSet_eq, isSet_eq]
  change (update p.bitmap (k / 8) (p.bitmap (k / 8) ||| 1#8 <<< (k % 8)) (j / 8)).getLsbD _ = _
  by_cases hb : j / 8 = k / 8
  · rw [hb, update_self, getLsbD_or, Word.getLsbD_bit (by omega)]
    congr 2
    rw [eq_iff_iff]
    omega
  · rw [update_of_ne hb, decide_eq_false (by rintro rfl; exact hb rfl), Bool.or_false]

lemma isSet_clearBit (p : Pmm) (k j : ℕ) : (p.clearBit k).isSet j = (p.isSet j && decide (j ≠ k)) := by
  rw [isSet_eq, isSet_eq]
  change (update p.bitmap (k / 8) (p.bitmap (k / 8) &&& ~~~(1#8 <<< (k % 8))) (j / 8)).getLsbD _ = _
  by_cases hb : j / 8 = k / 8
  · rw [hb, update_self, getLsbD_and, getLsbD_not, Word.getLsbD_bit (by omega),
      decide_eq_true (show j % 8 < 8 by omega), Bool.true_and, ← decide_not]
    congr 2
    rw [eq_iff_iff, ne_eq, not_iff_not]
    omega
  · rw [update_of_ne hb, decide_eq_true (by rintro rfl; exact hb rfl), Bool.and_true]

@[simp] lemma setBit_size (p : Pmm) (k : ℕ) : (p.setBit k).bitmapSize = p.bitmapSize := rfl
@[simp] lemma setBit_ptr (p : Pmm) (k : ℕ) : (p.setBit k).bitmapPtr = p.bitmapPtr := rfl
@[simp] lemma clearBit_size (p : Pmm) (k : ℕ) : (p.clearBit k).bitmapSize = p.bitmapSize := rfl
@[simp] lemma clearBit_ptr (p : Pmm) (k : ℕ) : (p.clearBit k).bitmapPtr = p.bitmapPtr := rfl

def Fits (p : Pmm) : Prop := p.bitmapSize * 8 * pageSize ≤ 2 ^ 64

end Pmm

lemma frameIndex_frameAddr {k : ℕ} (h : k * pageSize < 2 ^ 64) : frameIndex (frameAddr k) = k := by
  rw [frameIndex, frameAddr, toNat_ofNat, Nat.mod_eq_of_lt h, pageSize]
  omega

lemma frameAddr_ne_zero {k : ℕ} (h : k * pageSize < 2 ^ 64) (hk : k ≠ 0) : frameAddr k ≠ 0 := by
  intro hz
  have hi := frameIndex_frameAddr h
  rw [hz] at hi
  exact hk (by simpa [frameIndex] using hi.symm)

lemma ctz_lt {x : Byte} (h : x ≠ 0) : ctz x < 8 := by
  revert x
  decide +kernel

lemma ctz_spec {x : Byte} (h : ctz x < 8) : x.getLsbD (ctz x) = true := by
  rw [ctz] at h ⊢
  cases hf : (List.range 8).find? fun b => x.getLsbD b with
  | none => simp [hf] at h
  | some => simpa using List.find?_some hf

lemma searchByte_spec {bitmap : Mem} {fuel i : ℕ} {j b : ℕ} (h : searchByte bitmap fuel i = some (j, b)) :
    i ≤ j ∧ j < i + fuel ∧ b < 8 ∧ (bitmap j).getLsbD b = false ∧ frameAddr (j * 8 + b) ≠ 0 := by
  induction fuel generalizing i with
  | zero => cases h
  | succ fuel ih =>
    have next : searchByte bitmap fuel (i + 1) = some (j, b) →
        i ≤ j ∧ j < i + (fuel + 1) ∧ b < 8 ∧ (bitmap j).getLsbD b = false ∧ frameAddr (j * 8 + b) ≠ 0 := by
      intro h
      obtain ⟨_, _, hh⟩ := ih h
      exact ⟨by omega, by omega, hh⟩
    rw [searchByte] at h
    split at h
    · exact next h
    · dsimp only at h
      split at h
      next hc =>
        cases h
        refine ⟨le_rfl, by omega, hc.2.1, ?_, hc.2.2⟩
        have hs := ctz_spec hc.2.1
        simpa [hc.2.1] using hs
      next => exact next h

lemma pmmAllocFrame_spec (p : Pmm) (cpu : Option ℕ) :
    pmmAllocFrame p cpu = (0, p) ∨
      ∃ k q, pmmAllocFrame p cpu = (frameAddr k, q) ∧ frameAddr k ≠ 0 ∧ k < p.bitmapSize * 8 ∧
        p.isSet k = false ∧ q.bitmapSize = p.bitmapSize ∧ q.bitmapPtr = p.bitmapPtr ∧
        ∀ j, q.isSet j = (p.isSet j || decide (j = k)) := by
  rw [pmmAllocFrame]
  split
  · exact .inl rfl
  · dsimp only
    split
    · exact .inl rfl
    next i b hs =>
      obtain ⟨_, _, _, hfree, hne⟩ := searchByte_spec hs
      refine .inr ⟨i * 8 + b, _, rfl, hne, by omega, ?_, rfl, rfl, ?_⟩
      · rw [Pmm.isSet_eq, show (i * 8 + b) / 8 = i by omega, show (i * 8 + b) % 8 = b by omega, hfree]
      · exact fun j => p.isSet_setBit (i * 8 + b) j

lemma freeFound_eq_iff (p : Pmm) (count cur : ℕ) : freeFound p count cur = count ↔ ∀ j < count, cur + j < p.bitmapSize * 8 ∧
    p.isSet (cur + j) = false := by
  induction count generalizing cur with
  | zero => simp [freeFound]
  | succ count ih =>
    have split_first : (∀ j < count + 1, cur + j < p.bitmapSize * 8 ∧ p.isSet (cur + j) = false) ↔
        (cur < p.bitmapSize * 8 ∧ p.isSet cur = false) ∧
          ∀ j < count, cur + 1 + j < p.bitmapSize * 8 ∧ p.isSet (cur + 1 + j) = false := by
      constructor
      · intro h
        refine ⟨h 0 (by omega), fun j hj => ?_⟩
        have hh := h (j + 1) (by omega)
        rwa [show cur + (j + 1) = cur + 1 + j by omega] at hh
      · rintro ⟨h0, hs⟩ j _
        cases j with
        | zero => exact h0
        | succ j =>
          rw [show cur + (j + 1) = cur + 1 + j by omega]
          exact hs j (by omega)
    rw [split_first, ← ih, freeFound]
    split
    next hc => exact ⟨fun h => by omega, fun h => by omega⟩
    next hc =>
      split
      next hset => simp [hset]
      next hset =>
        have hlt : cur < p.bitmapSize * 8 := by omega
        simp [hlt, hset]

lemma searchQword_spec {p : Pmm} {count i fuel b start : ℕ} (h : searchQword p count i fuel b = some start) :
    freeFound p count start = count := by
  induction fuel generalizing b with
  | zero => cases h
  | succ fuel ih =>
    rw [searchQword] at h
    split at h
    next hc => cases h; exact hc
    next => exact ih h

lemma searchRun_spec {p : Pmm} {count fuel i start : ℕ} (h : searchRun p count fuel i = some start) :
    freeFound p count start = count := by
  induction fuel generalizing i with
  | zero => cases h
  | succ fuel ih =>
    rw [searchRun] at h
    split at h
    · exact ih h
    · split at h
      next hq => cases h; exact searchQword_spec hq
      next => exact ih h

lemma markRun_size (p : Pmm) (start n : ℕ) : (markRun p start n).bitmapSize = p.bitmapSize := by
  induction n with
  | zero => rfl
  | succ n ih => exact ih

lemma markRun_ptr (p : Pmm) (start n : ℕ) : (markRun p start n).bitmapPtr = p.bitmapPtr := by
  induction n with
  | zero => rfl
  | succ n ih => exact ih

lemma isSet_markRun (p : Pmm) (start n j : ℕ) :
    (markRun p start n).isSet j = (p.isSet j || decide (start ≤ j ∧ j < start + n)) := by
  induction n with
  | zero => simp [markRun]
  | succ n ih =>
    rw [markRun, Pmm.isSet_setBit, ih, Bool.or_assoc, ← Bool.decide_or]
    congr 2
    rw [eq_iff_iff]
    omega

lemma pmmAllocFrames_spec (p : Pmm) (count : ℕ) :
    pmmAllocFrames p count = (0, p) ∨
      ∃ start q, pmmAllocFrames p count = (frameAddr start, q) ∧ 0 < count ∧
        (∀ j < count, start + j < p.bitmapSize * 8 ∧ p.isSet (start + j) = false) ∧
        q.bitmapSize = p.bitmapSize ∧ q.bitmapPtr = p.bitmapPtr ∧
        ∀ j, q.isSet j = (p.isSet j || decide (start ≤ j ∧ j < start + count)) := by
  rw [pmmAllocFrames]
  split
  · exact .inl rfl
  next hc =>
    split
    · exact .inl rfl
    next start hs =>
      refine .inr ⟨start, _, rfl, by omega, (freeFound_eq_iff p count start).mp (searchRun_spec hs),
        markRun_size p start count, markRun_ptr p start count, isSet_markRun p start count⟩

lemma isSet_pmmFreeFrame (p : Pmm) (cpu : Option ℕ) {k : ℕ} (hk : k * pageSize < 2 ^ 64) (h0 : k ≠ 0) (j : ℕ) :
    (pmmFreeFrame p cpu (frameAddr k)).isSet j = (p.isSet j && decide (j ≠ k)) := by
  rw [pmmFreeFrame, if_neg (frameAddr_ne_zero hk h0), pmmUnsetFrame, frameIndex_frameAddr hk]
  exact p.isSet_clearBit k j

lemma pmmFreeFrame_size (p : Pmm) (cpu : Option ℕ) (f : Word) : (pmmFreeFrame p cpu f).bitmapSize = p.bitmapSize := by
  rw [pmmFreeFrame]
  split <;> rfl

end KernelSmp.Memory
