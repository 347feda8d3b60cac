import KernelSmp.Fs.Elf
import KernelSmp.Memory.Kernel
import KernelSmp.Memory.VmaRanges
import KernelSmp.Syscall.Handler

/-! The heap of a user task: `sys_malloc_handler` and `sys_free_handler` of `syscall_funcs.c`. -/

namespace KernelSmp.Syscall

open Base Memory Memory.VmaRanges Option BitVec

def heapFlags : BitVec 32 := Fs.vmaRead ||| vmaWrite ||| Fs.vmaUser ||| Fs.vmaHeap

def alignSize (size : Word) : Word := (size + 0x0F) &&& ~~~0x0F

def setHeapCurr (s : Vm) (a : Word) : Vm := { s with task := { s.task with heapCurr := a } }
def setHeapEnd (s : Vm) (a : Word) : Vm := { s with task := { s.task with heapEnd := a } }

def mallocGrowth (s : Vm) (size : Word) : Word :=
  let needed := s.task.heapCurr + size - s.task.heapEnd
  roundUp needed

def sysMallocHandler (s : Vm) (cpu : Option ℕ) (kmalloc : Option Word) (frame : InterruptFrame) : Option (Word × Vm) :=
  let size := frame.rdi
  if size = 0 then some (0, s)
  else
    let alignedSize := alignSize size
    if s.task.heapCurr + alignedSize ≤ s.task.heapEnd then
      some (s.task.heapCurr, setHeapCurr s (s.task.heapCurr + alignedSize))
    else do
      let alignedNeeded := mallocGrowth s size
      let (res, s) ← vmaMap s cpu kmalloc s.task.heapEnd alignedNeeded heapFlags
      if res ≠ 0 then return (0, s)
      else
        let s := setHeapEnd s (s.task.heapEnd + alignedNeeded)
        return (s.task.heapCurr, setHeapCurr s (s.task.heapCurr + alignedSize))

def freeRelease (s : Vm) : Word :=
  let gap := s.task.heapEnd - s.task.heapCurr
  (gap - BitVec.ofNat 64 pageSize) &&& ~~~0xFFF

def freeStart (s : Vm) : Word :=
  let unmapStart := s.task.heapEnd - freeRelease s
  if unmapStart < s.task.heapCurr then (s.task.heapCurr + 0xFFF) &&& ~~~0xFFF else unmapStart

def sysFreeHandler (s : Vm) (cpu : Option ℕ) (frame : InterruptFrame) : Option (Word × Vm) :=
  let addr := frame.rdi
  let size := frame.rsi
  if addr = 0 ∨ size = 0 then some (0, s)
  else if addr + alignSize size = s.task.heapCurr then
    let s := setHeapCurr s addr
    let gap := s.task.heapEnd - s.task.heapCurr
    if gap ≥ 4 * BitVec.ofNat 64 pageSize then do
      let unmapStart := freeStart s
      let (res, s) ← vmaUnmap s cpu unmapStart (freeRelease s)
      return (0, if res = 0 then setHeapEnd s unmapStart else s)
    else some (0, s)
  else some (0, s)

inductive HeapCall
  | malloc (cpu : Option ℕ) (kmalloc : Option Word) (frame : InterruptFrame)
  | free (cpu : Option ℕ) (frame : InterruptFrame)

namespace HeapCall

def handle (s : Vm) : HeapCall → Option (Word × Vm)
  | malloc cpu kmalloc frame => sysMallocHandler s cpu kmalloc frame
  | free cpu frame => sysFreeHandler s cpu frame

def step (s : Vm) (c : HeapCall) : Option Vm := (c.handle s).map Prod.snd

/-- No addition of `sys_malloc` wraps around, and `sys_free` takes nothing from `heap_curr` that the heap does not have. -/
def Sized (s : Vm) : HeapCall → Prop
  | malloc cpu kmalloc frame => frame.rdi.toNat + 15 < 2 ^ 64 ∧ s.task.heapCurr.toNat + (alignSize frame.rdi).toNat < 2 ^ 64 ∧
      (s.task.heapCurr + alignSize frame.rdi > s.task.heapEnd →
        ∀ s', vmaMap s cpu kmalloc s.task.heapEnd (mallocGrowth s frame.rdi) heapFlags = some (0, s') →
          s.task.heapEnd.toNat + (mallocGrowth s frame.rdi).toNat < 2 ^ 64)
  | free _ frame => frame.rdi ≠ 0 → frame.rsi ≠ 0 → frame.rdi + alignSize frame.rsi = s.task.heapCurr →
      s.task.heapStart ≤ frame.rdi ∧ frame.rdi ≤ s.task.heapCurr

def Served (s : Vm) : HeapCall → Prop
  | malloc cpu kmalloc frame => ∀ addr s', sysMallocHandler s cpu kmalloc frame = some (addr, s') → addr ≠ 0 →
      s'.task.heapStart ≤ addr ∧ addr.toNat + frame.rdi.toNat ≤ s'.task.heapEnd.toNat
  | free _ _ => True

end HeapCall

variable {s s' : Vm} {cpu : Option ℕ} {kmalloc : Option Word} {frame : InterruptFrame} {addr size a : Word} {flags : BitVec 32}
  {code : Int}

inductive MallocOutcome (s : Vm) (cpu : Option ℕ) (kmalloc : Option Word) (size : Word) : Word → Vm → Prop
  | nothing : MallocOutcome s cpu kmalloc size 0 s
  | within (hpos : size ≠ 0) (hfits : s.task.heapCurr + alignSize size ≤ s.task.heapEnd) :
      MallocOutcome s cpu kmalloc size s.task.heapCurr (setHeapCurr s (s.task.heapCurr + alignSize size))
  | refused {code : Int} {s' : Vm} (hpos : size ≠ 0) (hcode : code ≠ 0)
      (hmap : vmaMap s cpu kmalloc s.task.heapEnd (mallocGrowth s size) heapFlags = some (code, s')) :
      MallocOutcome s cpu kmalloc size 0 s'
  | grown {s' : Vm} (hpos : size ≠ 0) (hfull : ¬ s.task.heapCurr + alignSize size ≤ s.task.heapEnd)
      (hmap : vmaMap s cpu kmalloc s.task.heapEnd (mallocGrowth s size) heapFlags = some (0, s')) :
      MallocOutcome s cpu kmalloc size s.task.heapCurr
        (setHeapCurr (setHeapEnd s' (s.task.heapEnd + mallocGrowth s size)) (s.task.heapCurr + alignSize size))

theorem sysMallocHandler_cases (h : sysMallocHandler s cpu kmalloc frame = some (a, s')) :
    MallocOutcome s cpu kmalloc frame.rdi a s' := by
  rw [sysMallocHandler] at h
  dsimp only at h
  split at h
  · cases h
    exact .nothing
  rename_i hpos
  split at h
  · rename_i hfits
    cases h
    exact .within hpos hfits
  rename_i hfull
  obtain ⟨⟨code, s₁⟩, hmap, h⟩ := bind_eq_some_iff.mp h
  split_ifs at h with hcode
  · cases h
    exact .refused hpos hcode hmap
  · obtain rfl : code = 0 := not_not.mp hcode
    have hheap := vmaMap_heapOf hmap
    have hcurr : s₁.task.heapCurr = s.task.heapCurr := congrArg (·.2.1) hheap
    have hend : s₁.task.heapEnd = s.task.heapEnd := congrArg (·.2.2) hheap
    obtain ⟨rfl, rfl⟩ : s₁.task.heapCurr = a ∧ _ = s' := by simpa [setHeapEnd] using h
    rw [hcurr, hend]
    exact .grown hpos hfull hmap

inductive FreeOutcome (s : Vm) (cpu : Option ℕ) (addr size : Word) : Vm → Prop
  | nothing : FreeOutcome s cpu addr size s
  | dropped (haddr : addr ≠ 0) (hpos : size ≠ 0) (htop : addr + alignSize size = s.task.heapCurr) :
      FreeOutcome s cpu addr size (setHeapCurr s addr)
  | kept {code : Int} {s' : Vm} (haddr : addr ≠ 0) (hpos : size ≠ 0) (htop : addr + alignSize size = s.task.heapCurr)
      (hgap : s.task.heapEnd - addr ≥ 4 * BitVec.ofNat 64 pageSize) (hcode : code ≠ 0)
      (hunmap : vmaUnmap (setHeapCurr s addr) cpu (freeStart (setHeapCurr s addr)) (freeRelease (setHeapCurr s addr)) =
        some (code, s')) :
      FreeOutcome s cpu addr size s'
  | released {s' : Vm} (haddr : addr ≠ 0) (hpos : size ≠ 0) (htop : addr + alignSize size = s.task.heapCurr)
      (hgap : s.task.heapEnd - addr ≥ 4 * BitVec.ofNat 64 pageSize)
      (hunmap : vmaUnmap (setHeapCurr s addr) cpu (freeStart (setHeapCurr s addr)) (freeRelease (setHeapCurr s addr)) =
        some (0, s')) :
      FreeOutcome s cpu addr size (setHeapEnd s' (freeStart (setHeapCurr s addr)))

theorem sysFreeHandler_cases (h : sysFreeHandler s cpu frame = some (a, s')) : FreeOutcome s cpu frame.rdi frame.rsi s' := by
  rw [sysFreeHandler] at h
  dsimp only at h
  split at h
  · cases h
    exact .nothing
  rename_i hzero
  obtain ⟨haddr, hpos⟩ := not_or.mp hzero
  split at h
  swap
  · cases h
    exact .nothing
  rename_i htop
  split at h
  swap
  · cases h
    exact .dropped haddr hpos htop
  rename_i hgap
  obtain ⟨⟨_, _⟩, hunmap, h⟩ := bind_eq_some_iff.mp h
  split_ifs at h with hcode
  · subst hcode
    cases h
    exact .released haddr hpos htop hgap hunmap
  · cases h
    exact .kept haddr hpos htop hgap hcode hunmap

structure Bounded (s : Vm) : Prop where
  start_le : s.task.heapStart ≤ s.task.heapCurr
  curr_le : s.task.heapCurr ≤ s.task.heapEnd
  curr_aligned : s.task.heapCurr.toNat % 16 = 0
  end_aligned : s.task.heapEnd.toNat % 4096 = 0

lemma Bounded.congr (h : Bounded s) (hheap : heapOf s' = heapOf s) : Bounded s' := by
  have hstart : s'.task.heapStart = s.task.heapStart := congrArg Prod.fst hheap
  have hcurr : s'.task.heapCurr = s.task.heapCurr := congrArg (·.2.1) hheap
  have hend : s'.task.heapEnd = s.task.heapEnd := congrArg (·.2.2) hheap
  refine ⟨?_, ?_, ?_, ?_⟩
  · rw [hstart, hcurr]
    exact h.start_le
  · rw [hcurr, hend]
    exact h.curr_le
  · rw [hcurr]
    exact h.curr_aligned
  · rw [hend]
    exact h.end_aligned

lemma alignSize_toNat (h : size.toNat + 15 < 2 ^ 64) : (alignSize size).toNat = (size.toNat + 15) / 16 * 16 := by
  have hmask : (size + 0x0F) &&& ~~~0x0F = (size + 0x0F) &&& BitVec.ofNat 64 ((2 ^ 60 - 1) * 2 ^ 4) := rfl
  have hadd : (size + 0x0F).toNat = size.toNat + 15 := Word.toNat_add_ofNat h
  rw [alignSize, hmask, Word.toNat_and_field _ 4 60 (by decide), hadd]
  omega

lemma roundUp_eq_zero (h : 2 ^ 64 ≤ size.toNat + 4095) : roundUp size = 0 := by
  have hmask : (size + 0xFFF) &&& ~~~0xFFF = (size + 0xFFF) &&& BitVec.ofNat 64 ((2 ^ 52 - 1) * 2 ^ 12) := rfl
  have hadd : (size + 0xFFF).toNat = size.toNat + 4095 - 2 ^ 64 := by
    rw [BitVec.toNat_add]
    change (size.toNat + 4095) % 2 ^ 64 = _
    omega
  apply eq_of_toNat_eq
  rw [roundUp, hmask, Word.toNat_and_field _ 12 52 (by decide), hadd]
  change _ = 0
  omega

lemma alignSize_mod (size : Word) : (alignSize size).toNat % 16 = 0 := by
  have hmask : (size + 0x0F) &&& ~~~0x0F = (size + 0x0F) &&& BitVec.ofNat 64 ((2 ^ 60 - 1) * 2 ^ 4) := rfl
  rw [alignSize, hmask, Word.toNat_and_field _ 4 60 (by decide)]
  exact Nat.mul_mod_left _ _

lemma Bounded.growth (h : Bounded s) (hsize : size.toNat + 15 < 2 ^ 64)
    (hsum : s.task.heapCurr.toNat + (alignSize size).toNat < 2 ^ 64)
    (hfull : ¬ s.task.heapCurr + alignSize size ≤ s.task.heapEnd) (hpos : mallocGrowth s size ≠ 0)
    (hwrap : s.task.heapEnd.toNat + (mallocGrowth s size).toNat < 2 ^ 64) :
    (s.task.heapEnd + mallocGrowth s size).toNat = (s.task.heapCurr.toNat + size.toNat + 4095) / 4096 * 4096 := by
  have hcurr := h.curr_aligned
  have hend := h.end_aligned
  rw [alignSize_toNat hsize] at hsum
  have haligned : (s.task.heapCurr + alignSize size).toNat = s.task.heapCurr.toNat + (size.toNat + 15) / 16 * 16 := by
    rw [toNat_add_of_lt (by rw [alignSize_toNat hsize]; exact hsum), alignSize_toNat hsize]
  rw [le_def, haligned] at hfull
  have hadd : (s.task.heapCurr + size).toNat = s.task.heapCurr.toNat + size.toNat := toNat_add_of_lt (by omega)
  have hneeded : (s.task.heapCurr + size - s.task.heapEnd).toNat =
      s.task.heapCurr.toNat + size.toNat - s.task.heapEnd.toNat := by
    rw [toNat_sub_of_le (le_def.mpr (by omega)), hadd]
  rw [toNat_add_of_lt hwrap]
  by_cases hround : (s.task.heapCurr + size - s.task.heapEnd).toNat + 4095 < 2 ^ 64
  · rw [mallocGrowth, roundUp_toNat hround, hneeded]
    omega
  · exact absurd (roundUp_eq_zero (not_lt.mp hround)) hpos

lemma Bounded.malloc (h : Bounded s) (hsized : (HeapCall.malloc cpu kmalloc frame).Sized s)
    (hmalloc : sysMallocHandler s cpu kmalloc frame = some (a, s')) : Bounded s' ∧ s'.task.heapStart = s.task.heapStart ∧
    (a ≠ 0 → a = s.task.heapCurr ∧ a.toNat + (alignSize frame.rdi).toNat = s'.task.heapCurr.toNat) := by
  obtain ⟨hsize, hsum, hgrows⟩ := hsized
  have hadd : (s.task.heapCurr + alignSize frame.rdi).toNat = s.task.heapCurr.toNat + (frame.rdi.toNat + 15) / 16 * 16 := by
    rw [toNat_add_of_lt hsum, alignSize_toNat hsize]
  have hstart := le_def.mp h.start_le
  have hcurr := h.curr_aligned
  have hfrom : s.task.heapStart ≤ s.task.heapCurr + alignSize frame.rdi := le_def.mpr (by omega)
  cases sysMallocHandler_cases hmalloc with
  | nothing => exact ⟨h, rfl, fun hzero => absurd rfl hzero⟩
  | within hpos hfits =>
    refine ⟨⟨hfrom, hfits, ?_, h.end_aligned⟩, rfl, fun _ => ⟨rfl, ?_⟩⟩
    · show (s.task.heapCurr + alignSize frame.rdi).toNat % 16 = 0
      omega
    · exact (toNat_add_of_lt hsum).symm
  | refused hpos hcode hmap =>
    have hheap := vmaMap_heapOf hmap
    exact ⟨h.congr hheap, congrArg Prod.fst hheap, fun hzero => absurd rfl hzero⟩
  | grown hpos hfull hmap =>
    have hheap := vmaMap_heapOf hmap
    have hend := h.growth hsize hsum hfull (size_ne_zero_of_vmaMap hmap) (hgrows (BitVec.not_le.mp hfull) _ hmap)
    refine ⟨⟨(congrArg Prod.fst hheap).trans_le hfrom, ?_, ?_, ?_⟩, congrArg Prod.fst hheap, fun _ => ⟨rfl, ?_⟩⟩
    · show s.task.heapCurr + alignSize frame.rdi ≤ s.task.heapEnd + mallocGrowth s frame.rdi
      exact le_def.mpr (by omega)
    · show (s.task.heapCurr + alignSize frame.rdi).toNat % 16 = 0
      omega
    · show (s.task.heapEnd + mallocGrowth s frame.rdi).toNat % 4096 = 0
      omega
    · exact (toNat_add_of_lt hsum).symm

lemma release_spec (hle : s.task.heapCurr ≤ s.task.heapEnd) (hend : s.task.heapEnd.toNat % 4096 = 0)
    (hgap : s.task.heapEnd - s.task.heapCurr ≥ 4 * BitVec.ofNat 64 pageSize) :
    (freeStart s).toNat % 4096 = 0 ∧ s.task.heapCurr.toNat + 4096 ≤ (freeStart s).toNat ∧
      (freeStart s).toNat < s.task.heapCurr.toNat + 2 * 4096 ∧
      (freeStart s).toNat + (freeRelease s).toNat = s.task.heapEnd.toNat := by
  have hdiff := toNat_sub_of_le hle
  have hpages : 4 * 4096 ≤ (s.task.heapEnd - s.task.heapCurr).toNat := le_def.mp hgap
  have hsub : (s.task.heapEnd - s.task.heapCurr - BitVec.ofNat 64 pageSize).toNat =
      s.task.heapEnd.toNat - s.task.heapCurr.toNat - 4096 := by
    rw [toNat_sub_of_le (le_def.mpr (le_trans (by decide) hpages)), hdiff]
    rfl
  have hmask : ∀ x : Word, x &&& ~~~0xFFF = x &&& BitVec.ofNat 64 ((2 ^ 52 - 1) * 2 ^ 12) := fun _ => rfl
  have hrelease : (freeRelease s).toNat = (s.task.heapEnd.toNat - s.task.heapCurr.toNat - 4096) / 4096 * 4096 := by
    rw [freeRelease, hmask, Word.toNat_and_field _ 12 52 (by decide), hsub]
    omega
  have hstart : (s.task.heapEnd - freeRelease s).toNat = s.task.heapEnd.toNat - (freeRelease s).toNat :=
    toNat_sub_of_le (le_def.mpr (by omega))
  have habove : ¬ s.task.heapEnd - freeRelease s < s.task.heapCurr := by
    rw [lt_def]
    omega
  rw [freeStart, if_neg habove]
  omega

lemma Bounded.drop (h : Bounded s) (hsized : (HeapCall.free cpu frame).Sized s) (haddr : frame.rdi ≠ 0) (hpos : frame.rsi ≠ 0)
    (htop : frame.rdi + alignSize frame.rsi = s.task.heapCurr) : Bounded (setHeapCurr s frame.rdi) := by
  obtain ⟨hstart, hbelow⟩ := hsized haddr hpos htop
  have hcurr := h.curr_aligned
  have hle := le_def.mp h.curr_le
  refine ⟨hstart, le_def.mpr ((le_def.mp hbelow).trans hle), ?_, h.end_aligned⟩
  show frame.rdi.toNat % 16 = 0
  have hmod := alignSize_mod frame.rsi
  have hsum := congrArg BitVec.toNat htop
  rw [BitVec.toNat_add] at hsum
  omega

lemma Bounded.free (h : Bounded s) (hsized : (HeapCall.free cpu frame).Sized s)
    (hfree : sysFreeHandler s cpu frame = some (a, s')) : Bounded s' := by
  cases sysFreeHandler_cases hfree with
  | nothing => exact h
  | dropped haddr hpos htop => exact h.drop hsized haddr hpos htop
  | kept haddr hpos htop hgap hcode hunmap => exact (h.drop hsized haddr hpos htop).congr (vmaUnmap_heapOf hunmap)
  | @released s₁ haddr hpos htop hgap hunmap =>
    have hheap := vmaUnmap_heapOf hunmap
    have hdropped := h.drop hsized haddr hpos htop
    have hkept := hdropped.congr hheap
    obtain ⟨haligned, habove, -⟩ := release_spec hdropped.curr_le hdropped.end_aligned hgap
    refine ⟨hkept.start_le, ?_, hkept.curr_aligned, haligned⟩
    show s₁.task.heapCurr ≤ freeStart (setHeapCurr s frame.rdi)
    rw [show s₁.task.heapCurr = frame.rdi from congrArg (·.2.1) hheap]
    exact le_def.mpr ((Nat.le_add_right _ _).trans habove)

lemma sysFreeHandler_curr (hfree : sysFreeHandler s cpu frame = some (a, s')) : s'.task.heapStart = s.task.heapStart ∧
    (s'.task.heapCurr = s.task.heapCurr ∨ frame.rdi + alignSize frame.rsi = s.task.heapCurr ∧ s'.task.heapCurr =
      frame.rdi) := by
  cases sysFreeHandler_cases hfree with
  | nothing => exact ⟨rfl, .inl rfl⟩
  | dropped haddr hpos htop => exact ⟨rfl, .inr ⟨htop, rfl⟩⟩
  | kept haddr hpos htop hgap hcode hunmap =>
    have hheap := vmaUnmap_heapOf hunmap
    exact ⟨congrArg Prod.fst hheap, .inr ⟨htop, congrArg (·.2.1) hheap⟩⟩
  | released haddr hpos htop hgap hunmap =>
    have hheap := vmaUnmap_heapOf hunmap
    exact ⟨congrArg Prod.fst hheap, .inr ⟨htop, congrArg (·.2.1) hheap⟩⟩

lemma Bounded.step {c : HeapCall} (h : Bounded s) (hsized : c.Sized s) (hstep : c.step s = some s') : Bounded s' := by
  obtain ⟨⟨_, _⟩, hhandle, rfl⟩ := map_eq_some_iff.mp hstep
  cases c with
  | malloc => exact (h.malloc hsized hhandle).1
  | free => exact h.free hsized hhandle

lemma Bounded.served {c : HeapCall} (h : Bounded s) (hsized : c.Sized s) : c.Served s := by
  cases c with
  | malloc =>
    intro addr s' hmalloc haddr
    obtain ⟨hbounded, hstart, hblock⟩ := h.malloc hsized hmalloc
    obtain ⟨hat, _⟩ := hblock haddr
    have hle := le_def.mp hbounded.curr_le
    have hsize := alignSize_toNat hsized.1
    refine ⟨?_, by omega⟩
    rw [hstart, hat]
    exact h.start_le
  | free => trivial

theorem heap_in_bounds {calls : List HeapCall} (h : Bounded s)
    (hg : Runs.Guarded HeapCall.step (fun s c => c.Sized s) s calls) :
    Runs.Always HeapCall.step (fun s => s.task.heapStart ≤ s.task.heapCurr ∧ s.task.heapCurr ≤ s.task.heapEnd) s calls ∧
    Runs.Guarded HeapCall.step (fun s c => c.Served s) s calls := by
  have halways := Runs.invariant (fun s c s' hs hc hstep => hs.step hc hstep) h hg
  exact ⟨halways.mono fun s hs => ⟨hs.start_le, hs.curr_le⟩, halways.guarded (fun s c hs hc => hs.served hc) hg⟩

def callFrame (rdi rsi : Word) : InterruptFrame := ⟨0, 0, 0, 0, 0, 0, 0, 0, rdi, rsi, 0, 0, 0, 0, 0, 0, 0, 0, 0, 0, 0, 0⟩

def userHeap : Vm :=
  { VmaRanges.blankVm with task := { VmaRanges.blankVm.task with heapStart := 0x406000, heapCurr := 0x406000, heapEnd := 0x40A000 } }

lemma bounded_userHeap : Bounded userHeap := ⟨by decide, by decide, by decide, by decide⟩

theorem heap_out_of_bounds :
    (∃ s, sysMallocHandler userHeap none none (callFrame 0xFFFFFFFFFFFFFFFF 0) = some (0x406000, s) ∧
      s.task.heapEnd.toNat < 0x406000 + 0xFFFFFFFFFFFFFFFF) ∧
    (∃ s, (HeapCall.malloc none none (callFrame 0xFFFFFFFFFFF00000 0)).step userHeap = some s ∧
      ¬ s.task.heapStart ≤ s.task.heapCurr) ∧
    ∃ s, (HeapCall.free none (callFrame 0x400000 0x6000)).step userHeap = some s ∧ ¬ s.task.heapStart ≤ s.task.heapCurr := by
  exact ⟨⟨_, rfl, by decide⟩, ⟨_, rfl, by decide⟩, by decide +kernel⟩

def takeAndGive : List HeapCall := [.malloc none none (callFrame 24 0), .free none (callFrame 0x406000 24)]

theorem heap_in_bounds_takeAndGive : ∃ s, Runs.run HeapCall.step userHeap takeAndGive = some s ∧
    s.task.heapStart ≤ s.task.heapCurr ∧ s.task.heapCurr ≤ s.task.heapEnd := by
  have hsized : Runs.Guarded HeapCall.step (fun s c => c.Sized s) userHeap takeAndGive := by
    refine ⟨⟨by decide, by decide, fun hfull => absurd hfull (by decide)⟩, fun s hs => ?_⟩
    cases hs
    exact ⟨fun _ _ _ => ⟨by decide, by decide⟩, fun _ _ => trivial⟩
  have hrun := (heap_in_bounds bounded_userHeap hsized).1
  exact ⟨_, rfl, hrun.last rfl⟩

end KernelSmp.Syscall
