import Mathlib
import KernelSmp.Memory.PmmBoot
import KernelSmp.Memory.Vmm

/-! `smp_init_cpu` on physical memory: what the start of the APs writes, and the bitmap of the frame allocator. -/

namespace KernelSmp.Smp

open Base Base.Runs Memory Memory.PmmInit Memory.PmmBoot List

def trampolinePhysAddr : ℕ := 0x8000
def apConfigPhysAddr : ℕ := 0x7000

def cpuContextSize : ℕ := 576

structure Trampoline where
  code : Mem
  size : ℕ
  pml4 : Word
  entry : Word
  size_le : size ≤ pageSize

structure Ap where
  lapicId : BitVec 8
  cpuId : Word

structure State where
  phys : Mem
  bitmapPtr : Word
  bitmapSize : ℕ
  pmmLastIndex : ℕ → ℕ
  taken : List ℕ

def State.pmm (s : State) : Pmm := ⟨s.bitmapPtr, fun j => s.phys (s.bitmapPtr.toNat + j), s.bitmapSize, s.pmmLastIndex⟩

def State.setPmm (s : State) (p : Pmm) : State :=
  { s with
    phys := fun a => if s.bitmapPtr.toNat ≤ a ∧ a < s.bitmapPtr.toNat + s.bitmapSize then
      p.bitmap (a - s.bitmapPtr.toNat) else s.phys a
    pmmLastIndex := p.pmmLastIndex }

def State.store (s : State) (a : ℕ) (v : Word) : State := { s with phys := s.phys.store64 a v }

def allocContext (s : State) (cpu : Option ℕ) : Word × State :=
  let r := pmmAllocFrame s.pmm cpu
  (r.1, { s.setPmm r.2 with taken := if r.1 = 0 then s.taken else frameIndex r.1 :: s.taken })

def allocStack (s : State) : Word × State :=
  let r := pmmAllocFrames s.pmm 4
  (r.1, { s.setPmm r.2 with taken := if r.1 = 0 then s.taken else (List.range 4).map (frameIndex r.1 + ·) ++ s.taken })

def smpInitCpu (t : Trampoline) (cpu : Option ℕ) (s : State) (ap : Ap) : State :=
  let s := { s with phys := s.phys.copy trampolinePhysAddr t.code 0 t.size }
  let (frame, s) := allocContext s cpu
  let ctx := frame.toNat
  let s := { s with phys := s.phys.fill ctx cpuContextSize 0 }
  let s := s.store (ctx + 8) ap.cpuId
  let s := s.store (ctx + 16) (ap.lapicId.setWidth 64)
  let s := s.store ctx (hhdmOffset + frame)
  let (stack, s) := allocStack s
  let s := s.store (ctx + 32) (hhdmOffset + (stack + 0x4000))
  let s := s.store apConfigPhysAddr (s.phys.load64 (ctx + 32))
  let s := s.store (apConfigPhysAddr + 8) t.pml4
  let s := s.store (apConfigPhysAddr + 16) t.entry
  let s := s.store (apConfigPhysAddr + 24) (hhdmOffset + frame)
  let s := s.store (apConfigPhysAddr + 32) 0
  -- the trampoline's own write
  s.store (apConfigPhysAddr + 32) 1

variable {s s' s₀ : State} {a n k : ℕ}

def State.Off (s : State) (a n : ℕ) : Prop := a + n ≤ s.bitmapPtr.toNat ∨ s.bitmapPtr.toNat + s.bitmapSize ≤ a

lemma State.Off.sub {b m : ℕ} (h : s.Off a n) (hlow : a ≤ b) (hhigh : b + m ≤ a + n) : s.Off b m := by
  rw [State.Off] at *
  omega

structure Same (s s' : State) : Prop where
  ptr : s'.bitmapPtr = s.bitmapPtr
  size : s'.bitmapSize = s.bitmapSize
  taken : s'.taken = s.taken
  bytes : ∀ j < s.bitmapSize, s'.phys (s.bitmapPtr.toNat + j) = s.phys (s.bitmapPtr.toNat + j)

lemma same_store (s : State) (v : Word) (h : s.Off a 8) : Same s (s.store a v) := by
  refine ⟨rfl, rfl, rfl, fun j hj => ?_⟩
  rw [State.Off] at h
  exact if_neg (by omega)

lemma same_fill (s : State) (b : Byte) (h : s.Off a n) : Same s { s with phys := s.phys.fill a n b } := by
  refine ⟨rfl, rfl, rfl, fun j hj => ?_⟩
  rw [State.Off] at h
  exact if_neg (by omega)

lemma same_copy (s : State) (m : Mem) (b : ℕ) (h : s.Off a n) : Same s { s with phys := s.phys.copy a m b n } := by
  refine ⟨rfl, rfl, rfl, fun j hj => ?_⟩
  rw [State.Off] at h
  exact if_neg (by omega)

lemma Same.isSet (h : Same s s') (hk : k < s.bitmapSize * 8) : s'.pmm.isSet k = s.pmm.isSet k := by
  rw [Pmm.isSet_eq, Pmm.isSet_eq]
  dsimp only [State.pmm]
  rw [h.ptr, h.bytes (k / 8) (by omega)]

lemma isSet_setPmm {p : Pmm} (hk : k < s.bitmapSize * 8) : (s.setPmm p).pmm.isSet k = p.isSet k := by
  rw [Pmm.isSet_eq, Pmm.isSet_eq]
  dsimp only [State.pmm, State.setPmm]
  rw [if_pos (by omega), Nat.add_sub_cancel_left]

structure Clear (s : State) : Prop where
  aligned : s.bitmapPtr.toNat % pageSize = 0
  nonnull : s.bitmapPtr.toNat ≠ 0
  config : s.Off apConfigPhysAddr (2 * pageSize)
  fits : s.bitmapSize * 8 * pageSize ≤ 2 ^ 64
  zero : s.pmm.isSet 0 = true
  own : ∀ k < s.bitmapSize * 8, Meets k s.bitmapPtr.toNat (s.bitmapPtr.toNat + s.bitmapSize) → s.pmm.isSet k = true

structure Booting (s₀ s : State) : Prop where
  ptr : s.bitmapPtr = s₀.bitmapPtr
  size : s.bitmapSize = s₀.bitmapSize
  bits : ∀ k < s₀.bitmapSize * 8, s.pmm.isSet k = (s₀.pmm.isSet k || decide (k ∈ s.taken))

lemma Booting.same (h : Booting s₀ s) (hs : Same s s') : Booting s₀ s' := by
  refine ⟨hs.ptr.trans h.ptr, hs.size.trans h.size, fun k hk => ?_⟩
  rw [hs.isSet (by rw [h.size]; exact hk), h.bits k hk, hs.taken]

lemma Booting.off_iff (h : Booting s₀ s) : s.Off a n ↔ s₀.Off a n := by
  rw [State.Off, h.ptr, h.size, State.Off]

lemma Booting.store (h : Booting s₀ s) (hoff : s₀.Off a 8) (v : Word) : Booting s₀ (s.store a v) :=
  h.same (same_store s v (h.off_iff.mpr hoff))

lemma Clear.free_off (h : Clear s₀) (hb : Booting s₀ s) (hk : k < s.bitmapSize * 8) (hfree : s.pmm.isSet k = false) :
    s.Off (frameAddr k).toNat pageSize := by
  have hfits := h.fits
  rw [hb.size] at hk
  have haddr : (frameAddr k).toNat = k * pageSize := by
    rw [frameAddr, BitVec.toNat_ofNat]
    refine Nat.mod_eq_of_lt ?_
    rw [pageSize] at hfits ⊢
    omega
  by_contra hoff
  have hmeets : Meets k s₀.bitmapPtr.toNat (s₀.bitmapPtr.toNat + s₀.bitmapSize) := by
    rw [State.Off, haddr, hb.ptr, hb.size] at hoff
    rw [Meets, Nat.add_mul, Nat.one_mul]
    omega
  simp [hb.bits k hk, h.own k hk hmeets] at hfree

lemma Clear.zero_off (h : Clear s₀) (hb : Booting s₀ s) : s.Off 0 pageSize := by
  have haligned := h.aligned
  have hnonnull := h.nonnull
  rw [State.Off, hb.ptr]
  rw [pageSize] at *
  omega

lemma Clear.context (h : Clear s₀) (hb : Booting s₀ s) (cpu : Option ℕ) :
    Booting s₀ (allocContext s cpu).2 ∧ (allocContext s cpu).2.Off (allocContext s cpu).1.toNat pageSize := by
  have hback : ∀ {p : Pmm}, ∀ k < s₀.bitmapSize * 8, (s.setPmm p).pmm.isSet k = p.isSet k :=
    fun k hk => isSet_setPmm (by rw [hb.size]; exact hk)
  have hsize : s.pmm.bitmapSize = s₀.pmm.bitmapSize := hb.size
  rw [allocContext]
  obtain he | ⟨k, q, he, hne, hk, hfree, -, -, hbits⟩ := pmmAllocFrame_spec s.pmm cpu
  · rw [he, if_pos rfl]
    exact ⟨⟨hb.ptr, hb.size, fun j hj => (hback j hj).trans (hb.bits j hj)⟩, show s.Off 0 pageSize from h.zero_off hb⟩
  · have hindex := frameIndex_frameAddr (PmmRuns.frame_bound (p := s₀.pmm) h.fits (hsize ▸ hk))
    rw [he, if_neg hne, hindex]
    refine ⟨⟨hb.ptr, hb.size, fun j hj => (hback j hj).trans ?_⟩, show s.Off _ pageSize from h.free_off hb hk hfree⟩
    rw [hbits, hb.bits j hj, Bool.or_assoc, ← Bool.decide_or]
    simp only [mem_cons, or_comm]

lemma Clear.stack (h : Clear s₀) (hb : Booting s₀ s) : Booting s₀ (allocStack s).2 := by
  have hback : ∀ {p : Pmm}, ∀ k < s₀.bitmapSize * 8, (s.setPmm p).pmm.isSet k = p.isSet k :=
    fun k hk => isSet_setPmm (by rw [hb.size]; exact hk)
  have hsize : s.pmm.bitmapSize = s₀.pmm.bitmapSize := hb.size
  rw [allocStack]
  obtain he | ⟨start, q, he, hpos, hrun, -, -, hbits⟩ := pmmAllocFrames_spec s.pmm 4
  · rw [he, if_pos rfl]
    exact ⟨hb.ptr, hb.size, fun j hj => (hback j hj).trans (hb.bits j hj)⟩
  · obtain ⟨hlt, hfree⟩ := hrun 0 hpos
    have hbound : start * pageSize < 2 ^ 64 := PmmRuns.frame_bound (p := s₀.pmm) h.fits (hsize ▸ hlt)
    have hstart : start ≠ 0 := by
      rintro rfl
      simp [hb.bits 0 (hb.size ▸ hlt), h.zero] at hfree
    rw [he, if_neg (frameAddr_ne_zero hbound hstart), frameIndex_frameAddr hbound]
    refine ⟨hb.ptr, hb.size, fun j hj => (hback j hj).trans ?_⟩
    rw [hbits, hb.bits j hj, Bool.or_assoc, ← Bool.decide_or]
    congr 2
    rw [eq_iff_iff, mem_append, mem_map, or_comm]
    refine or_congr_left ⟨fun hj' => ⟨j - start, mem_range.mpr (by omega), by omega⟩, ?_⟩
    rintro ⟨_, hi, rfl⟩
    have := mem_range.mp hi
    omega

lemma Clear.smpInitCpu (h : Clear s₀) (t : Trampoline) (cpu : Option ℕ) (hb : Booting s₀ s) (ap : Ap) :
    Booting s₀ (smpInitCpu t cpu s ap) := by
  have htramp := t.size_le
  have hconfig : ∀ i, i + 8 ≤ pageSize → s₀.Off (apConfigPhysAddr + i) 8 := by
    intro i hi
    refine h.config.sub (by omega) ?_
    omega
  have hcopied : Booting s₀ { s with phys := s.phys.copy trampolinePhysAddr t.code 0 t.size } := by
    refine hb.same (same_copy s t.code 0 (hb.off_iff.mpr (h.config.sub ?_ ?_)))
    · decide
    · rw [trampolinePhysAddr, apConfigPhysAddr]
      rw [pageSize] at htramp ⊢
      omega
  obtain ⟨halloc, hoff⟩ := h.context hcopied cpu
  rw [Smp.smpInitCpu]
  generalize allocContext { s with phys := s.phys.copy trampolinePhysAddr t.code 0 t.size } cpu = r at halloc hoff ⊢
  have hctx := halloc.off_iff.mp hoff
  have hfield : ∀ i, i + 8 ≤ pageSize → s₀.Off (r.1.toNat + i) 8 := fun i hi => hctx.sub (by omega) (by omega)
  have hcleared : Booting s₀ { r.2 with phys := r.2.phys.fill r.1.toNat cpuContextSize 0 } :=
    halloc.same (same_fill r.2 0 (hoff.sub le_rfl (Nat.add_le_add_left (by decide) _)))
  have hfilled := ((hcleared.store (hfield 8 (by decide)) ap.cpuId).store (hfield 16 (by decide))
      (ap.lapicId.setWidth 64)).store
    (hfield 0 (by decide)) (hhdmOffset + r.1)
  have hstack := h.stack hfilled
  exact (((((((hstack.store (hfield 32 (by decide)) _).store (hconfig 0 (by decide)) _).store (hconfig 8 (by decide)) _).store
    (hconfig 16 (by decide)) _).store (hconfig 24 (by decide)) _).store (hconfig 32 (by decide)) _).store
        (hconfig 32 (by decide)) _)

variable {phys : Mem} {hints : ℕ → ℕ} {bi : BootInfo} {p : Pmm}

def bitmapDescriptor (bi : BootInfo) : Option EfiMemoryDescriptor :=
  bi.memoryMap.find? fun d => d.type = efiConventionalMemory ∧
    bitmapSize bi.memoryMap ≤ (d.numPages * BitVec.ofNat 64 pageSize).toNat

def PlacedClear (bi : BootInfo) : Prop :=
  ∃ d, bitmapDescriptor bi = some d ∧ d.physicalStart ≠ 0 ∧
    (d.physicalStart.toNat + bitmapSize bi.memoryMap ≤ apConfigPhysAddr ∨
      trampolinePhysAddr + pageSize ≤ d.physicalStart.toNat)

def bitmapBytes (p : Pmm) : Set ℕ := Set.Ico p.bitmapPtr.toNat (p.bitmapPtr.toNat + p.bitmapSize)

lemma placed_at (phys : Mem) (hints : ℕ → ℕ) (hwf : WellFormed bi.memoryMap) (hclear : PlacedClear bi) :
    ∃ d ∈ bi.memoryMap, (placed phys hints bi).bitmapPtr = d.physicalStart ∧
      bitmapSize bi.memoryMap ≤ d.numPages.toNat * pageSize ∧ d.physicalStart ≠ 0 ∧
      (d.physicalStart.toNat + bitmapSize bi.memoryMap ≤ apConfigPhysAddr ∨
        trampolinePhysAddr + pageSize ≤ d.physicalStart.toNat) := by
  obtain ⟨d, hfind, hnonnull, hplace⟩ := hclear
  have hmem := List.mem_of_find?_eq_some hfind
  have hfound := List.find?_some hfind
  rw [decide_eq_true_eq, BitVec.toNat_mul] at hfound
  refine ⟨d, hmem, ?_, hfound.2.trans (Nat.mod_le _ _), hnonnull, hplace⟩
  rw [bitmapDescriptor] at hfind
  rw [placed, placeBitmap, hfind]
  exact pageAlignUp_eq_self (hwf d hmem).1

structure Before (p : Pmm) (s : State) : Prop where
  ptr : s.bitmapPtr = p.bitmapPtr
  size : s.bitmapSize = p.bitmapSize
  taken : s.taken = []
  zero : s.pmm.isSet 0 = true
  own : ∀ k < p.bitmapSize * 8, Meets k p.bitmapPtr.toNat (p.bitmapPtr.toNat + p.bitmapSize) → s.pmm.isSet k = true

def State.ofPmm (p : Pmm) : State :=
  ⟨fun a => p.bitmap (a - p.bitmapPtr.toNat), p.bitmapPtr, p.bitmapSize, p.pmmLastIndex, []⟩

lemma pmm_ofPmm (p : Pmm) : (State.ofPmm p).pmm = p := by
  rw [State.ofPmm, State.pmm]
  simp only [Nat.add_sub_cancel_left]

def bootWith (first : Word) : BootInfo := ⟨[⟨7, first, 1⟩, ⟨7, 0x100000, 16⟩], 0x100000, 0x1000⟩

def testTrampoline : Trampoline := ⟨fun _ => 0, 0xE0, 0x1000, 0xFFFFFFFF80000000, by decide⟩

end KernelSmp.Smp
