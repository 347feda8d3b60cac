import KernelSmp.Memory.PmmRuns

/-! `pmm_init` as the sequence of its calls of `pmm_set_frame` and `pmm_unset_frame`, and the bitmap it leaves. -/

namespace KernelSmp.Memory.PmmBoot

open Base PmmInit List

inductive FrameCall
  | set (addr : Word)
  | unset (addr : Word)

def FrameCall.addr : FrameCall → Word
  | .set addr | .unset addr => addr

def FrameCall.apply (p : Pmm) : FrameCall → Pmm
  | .set addr => pmmSetFrame p addr
  | .unset addr => pmmUnsetFrame p addr

def pagesFrom (start : Word) (n : ℕ) : List Word :=
  (List.range n).map fun j => start + BitVec.ofNat 64 (j * pageSize)

def unlockPages (d : EfiMemoryDescriptor) : List Word :=
  if d.type = efiConventionalMemory ∨ d.type = 4 then
    (pagesFrom d.physicalStart d.numPages.toNat).filter fun addr => addr ≥ 0x100000
  else []

def lowPages : List Word := (List.range (0x100000 / pageSize)).map fun i => BitVec.ofNat 64 (i * pageSize)

def kernelPages (bi : BootInfo) : Option (List Word) :=
  Word.below (BitVec.ofNat 64 pageSize) (bi.kernelBase + bi.kernelSize + BitVec.ofNat 64 pageSize) (2 ^ 64) bi.kernelBase

def bitmapPages (p : Pmm) : List Word := pagesFrom p.bitmapPtr ((p.bitmapSize + pageSize - 1) / pageSize)

def placed (phys : Mem) (hints : ℕ → ℕ) (bi : BootInfo) : Pmm :=
  placeBitmap phys (bitmapSize bi.memoryMap) hints bi.memoryMap

def initCalls (phys : Mem) (hints : ℕ → ℕ) (bi : BootInfo) : Option (List FrameCall) :=
  (kernelPages bi).map fun kernel =>
    (bi.memoryMap.flatMap unlockPages).map .unset ++
      (lowPages ++ kernel ++ bitmapPages (placed phys hints bi)).map .set

variable {phys : Mem} {hints : ℕ → ℕ} {bi : BootInfo} {p : Pmm} {k : ℕ}

lemma unlockDescriptor_eq (p : Pmm) (d : EfiMemoryDescriptor) :
    unlockDescriptor p d = (unlockPages d).foldl pmmUnsetFrame p := by
  rw [unlockDescriptor, unlockPages]
  split
  · rw [foldl_filter, pagesFrom, foldl_map]
    simp only [decide_eq_true_eq]
  · rfl

lemma calls_keep (p : Pmm) (calls : List FrameCall) :
    (calls.foldl FrameCall.apply p).bitmapPtr = p.bitmapPtr ∧ (calls.foldl FrameCall.apply p).bitmapSize = p.bitmapSize ∧
      (calls.foldl FrameCall.apply p).pmmLastIndex = p.pmmLastIndex := by
  induction calls generalizing p with
  | nil => exact ⟨rfl, rfl, rfl⟩
  | cons c calls ih =>
    cases c with
    | set a => exact ih (pmmSetFrame p a)
    | unset a => exact ih (pmmUnsetFrame p a)

lemma lockBitmap_eq (p : Pmm) : lockBitmap p = (bitmapPages p).foldl pmmSetFrame p := by
  rw [lockBitmap, bitmapPages, pagesFrom, foldl_map]
  -- the pointer read in a round is the one before the loop
  suffices h : ∀ (l : List ℕ) (q : Pmm), q.bitmapPtr = p.bitmapPtr →
      l.foldl (fun q i => pmmSetFrame q (q.bitmapPtr + BitVec.ofNat 64 (i * pageSize))) q =
        l.foldl (fun q i => pmmSetFrame q (p.bitmapPtr + BitVec.ofNat 64 (i * pageSize))) q from h _ p rfl
  intro l
  induction l with
  | nil => exact fun _ _ => rfl
  | cons i l ih =>
    intro q hq
    rw [foldl_cons, foldl_cons, hq]
    exact ih _ hq

theorem pmmInit_eq (phys : Mem) (hints : ℕ → ℕ) (bi : BootInfo) :
    pmmInit phys hints bi = (initCalls phys hints bi).map (·.foldl FrameCall.apply (placed phys hints bi)) := by
  have hlow : ∀ p, lockLow p = lowPages.foldl pmmSetFrame p := by
    intro p
    rw [lockLow, lowPages, foldl_map]
  have hunlock : bi.memoryMap.foldl unlockDescriptor (placed phys hints bi) =
      ((bi.memoryMap.flatMap unlockPages).map FrameCall.unset).foldl FrameCall.apply (placed phys hints bi) := by
    rw [foldl_map, foldl_flatMap]
    exact congrArg (fun f => bi.memoryMap.foldl f _) (funext₂ unlockDescriptor_eq)
  have hset : ∀ (pages : List Word) (q : Pmm), pages.foldl pmmSetFrame q = (pages.map FrameCall.set).foldl FrameCall.apply q :=
    fun pages q => by
      rw [foldl_map]
      rfl
  simp only [pmmInit, lockKernel]
  rw [Word.forBelow_eq_foldl, initCalls, Option.map_map, Option.map_map, ← placed, hunlock, hlow]
  refine congrArg (fun f => Option.map f (kernelPages bi)) (funext fun kernel => ?_)
  rw [Function.comp_apply, Function.comp_apply, map_append, ← append_assoc, foldl_append, ← hset,
    foldl_append, ← hset, foldl_append, lockBitmap_eq]
  have hkept := calls_keep (placed phys hints bi)
    ((bi.memoryMap.flatMap unlockPages).map FrameCall.unset ++ (lowPages ++ kernel).map FrameCall.set)
  rw [foldl_append, ← hset, foldl_append] at hkept
  rw [bitmapPages, bitmapPages, hkept.1, hkept.2.1]

lemma pmmInit_keeps (h : pmmInit phys hints bi = some p) :
    p.bitmapPtr = (placed phys hints bi).bitmapPtr ∧ p.bitmapSize = bitmapSize bi.memoryMap ∧ p.pmmLastIndex = hints := by
  rw [pmmInit_eq, Option.map_eq_some_iff] at h
  obtain ⟨calls, -, rfl⟩ := h
  obtain ⟨hptr, hsize, hlast⟩ := calls_keep (placed phys hints bi) calls
  refine ⟨hptr, hsize.trans (PmmRuns.placeBitmap_size _ _ _ _), hlast.trans ?_⟩
  rw [placed, placeBitmap]
  split <;> rfl

variable {d : EfiMemoryDescriptor} {descs : List EfiMemoryDescriptor} {start : Word} {n : ℕ}

def descEnd (d : EfiMemoryDescriptor) : ℕ := d.physicalStart.toNat + d.numPages.toNat * pageSize

def WellFormed (descs : List EfiMemoryDescriptor) : Prop :=
  ∀ d ∈ descs, d.physicalStart.toNat % pageSize = 0 ∧ descEnd d < 2 ^ 64

def Usable (d : EfiMemoryDescriptor) : Prop := d.type = efiConventionalMemory ∨ d.type = 4

def Meets (k first last : ℕ) : Prop := first < (k + 1) * pageSize ∧ k * pageSize < last

def Covers (d : EfiMemoryDescriptor) (k : ℕ) : Prop :=
  d.physicalStart.toNat ≤ k * pageSize ∧ (k + 1) * pageSize ≤ descEnd d

lemma frameIndex_page (hfit : start.toNat + n * pageSize < 2 ^ 64) :
    frameIndex (start + BitVec.ofNat 64 (n * pageSize)) = start.toNat / pageSize + n := by
  have hn : (BitVec.ofNat 64 (n * pageSize)).toNat = n * pageSize := by
    rw [BitVec.toNat_ofNat]
    exact Nat.mod_eq_of_lt (by omega)
  rw [frameIndex, BitVec.toNat_add_of_lt (by rw [hn]; exact hfit), hn, Nat.add_mul_div_right _ _ (by decide)]

lemma mem_pagesFrom (hfit : start.toNat + n * pageSize ≤ 2 ^ 64) :
    (∃ a ∈ pagesFrom start n, frameIndex a = k) ↔ start.toNat / pageSize ≤ k ∧ k < start.toNat / pageSize + n := by
  have hindex : ∀ j < n, frameIndex (start + BitVec.ofNat 64 (j * pageSize)) = start.toNat / pageSize + j := by
    intro j hj
    apply frameIndex_page
    rw [pageSize] at hfit ⊢
    omega
  simp only [pagesFrom, mem_map, mem_range]
  constructor
  · rintro ⟨_, ⟨j, hj, rfl⟩, rfl⟩
    rw [hindex j hj]
    omega
  · rintro ⟨_, _⟩
    exact ⟨_, ⟨k - start.toNat / pageSize, by omega, rfl⟩, by rw [hindex _ (by omega)]; omega⟩

lemma mem_unlockPages (hfit : descEnd d ≤ 2 ^ 64) : (∃ a ∈ unlockPages d, frameIndex a = k) ↔ Usable d ∧ 256 ≤ k ∧
    d.physicalStart.toNat / pageSize ≤ k ∧ k < d.physicalStart.toNat / pageSize + d.numPages.toNat := by
  rw [← mem_pagesFrom hfit, unlockPages]
  have hlow : ∀ a : Word, a ≥ 0x100000 ↔ 256 ≤ frameIndex a := by
    intro a
    rw [ge_iff_le, BitVec.le_def, frameIndex, pageSize]
    change 1048576 ≤ a.toNat ↔ _
    omega
  split
  next huse =>
    simp only [mem_filter, decide_eq_true_eq, hlow]
    constructor
    · rintro ⟨a, ⟨ha, hge⟩, rfl⟩
      exact ⟨huse, hge, a, ha, rfl⟩
    · rintro ⟨-, hge, a, ha, rfl⟩
      exact ⟨a, ⟨ha, hge⟩, rfl⟩
  next huse =>
    refine ⟨?_, fun hall => absurd hall.1 huse⟩
    rintro ⟨a, ha, -⟩
    cases ha

lemma mem_lowPages : (∃ a ∈ lowPages, frameIndex a = k) ↔ k < 256 := by
  have hlow : lowPages = pagesFrom 0 256 := by
    rw [lowPages, pagesFrom]
    exact congrArg (fun f => (List.range 256).map f) (funext fun i => (BitVec.zero_add _).symm)
  rw [hlow, mem_pagesFrom (by decide)]
  simp

lemma covers_iff (halign : d.physicalStart.toNat % pageSize = 0) :
    d.physicalStart.toNat / pageSize ≤ k ∧ k < d.physicalStart.toNat / pageSize + d.numPages.toNat ↔ Covers d k := by
  rw [Covers, descEnd]
  rw [pageSize] at halign ⊢
  omega

lemma kernelPages_spec (hfit : bi.kernelBase.toNat + bi.kernelSize.toNat + 2 * pageSize ≤ 2 ^ 64) :
    ∃ kernel, kernelPages bi = some kernel ∧ ∀ a, a ∈ kernel ↔ ∃ j, a.toNat = bi.kernelBase.toNat + j * pageSize ∧
      a.toNat < bi.kernelBase.toNat + bi.kernelSize.toNat + pageSize := by
  rw [pageSize] at hfit
  have hsum : (bi.kernelBase + bi.kernelSize).toNat = bi.kernelBase.toNat + bi.kernelSize.toNat :=
    BitVec.toNat_add_of_lt (by omega)
  have hpage : (BitVec.ofNat 64 pageSize).toNat = pageSize := rfl
  have hstop : (bi.kernelBase + bi.kernelSize + BitVec.ofNat 64 pageSize).toNat =
      bi.kernelBase.toNat + bi.kernelSize.toNat + pageSize := by
    rw [BitVec.toNat_add_of_lt] <;> rw [hsum, hpage, pageSize]
    omega
  obtain ⟨kernel, hkernel, hmem⟩ : ∃ kernel, kernelPages bi = some kernel ∧ _ :=
    Word.below_spec (by decide) (by rw [hstop, hpage, pageSize]; omega) (by rw [hstop, pageSize]; omega)
  rw [hstop, hpage] at hmem
  exact ⟨kernel, hkernel, hmem⟩

lemma mem_kernel {base size : ℕ} {kernel : List Word} (halign : base % pageSize = 0)
    (hfit : base + size + 2 * pageSize ≤ 2 ^ 64) (hmem : ∀ a : Word, a ∈ kernel ↔ ∃ j, a.toNat = base + j * pageSize ∧
    a.toNat < base + size + pageSize) : (∃ a ∈ kernel, frameIndex a = k) ↔ Meets k base (base + size + pageSize) := by
  rw [Meets]
  rw [pageSize] at *
  constructor
  · rintro ⟨a, ha, rfl⟩
    obtain ⟨_, _, _⟩ := (hmem a).mp ha
    rw [frameIndex, pageSize]
    omega
  · rintro ⟨_, _⟩
    have hk : (BitVec.ofNat 64 (k * 4096)).toNat = k * 4096 := by
      rw [BitVec.toNat_ofNat]
      exact Nat.mod_eq_of_lt (by omega)
    refine ⟨BitVec.ofNat 64 (k * 4096), (hmem _).mpr ⟨k - base / 4096, ?_, ?_⟩, ?_⟩
    · omega
    · omega
    · rw [frameIndex, hk, pageSize]
      omega

lemma isSet_setFrames (p : Pmm) (pages : List Word) :
    (pages.foldl pmmSetFrame p).isSet k = true ↔ p.isSet k = true ∨ ∃ a ∈ pages, frameIndex a = k := by
  induction pages generalizing p with
  | nil => simp
  | cons a pages ih =>
    rw [foldl_cons, ih, pmmSetFrame, Pmm.isSet_setBit, Bool.or_eq_true, decide_eq_true_eq, exists_mem_cons_iff,
      or_assoc, @eq_comm ℕ k]

lemma isSet_unsetFrames (p : Pmm) (pages : List Word) :
    (pages.foldl pmmUnsetFrame p).isSet k = true ↔ p.isSet k = true ∧ ¬ ∃ a ∈ pages, frameIndex a = k := by
  induction pages generalizing p with
  | nil => simp
  | cons a pages ih =>
    rw [foldl_cons, ih, pmmUnsetFrame, Pmm.isSet_clearBit, Bool.and_eq_true, decide_eq_true_eq, exists_mem_cons_iff,
      not_or, and_assoc, ne_eq, @eq_comm ℕ k]

variable {a : Word}

lemma pageAlignUp_eq_self (h : a.toNat % pageSize = 0) : pageAlignUp a = a := by
  rw [pageSize] at h
  have hmask : (a + 0xFFF) &&& ~~~0xFFF = (a + 0xFFF) &&& BitVec.ofNat 64 ((2 ^ 52 - 1) * 2 ^ 12) := rfl
  have hfits : a.toNat + 4095 < 2 ^ 64 := by omega
  have hadd : (a + 0xFFF).toNat = a.toNat + 4095 := Word.toNat_add_ofNat hfits
  apply BitVec.eq_of_toNat_eq
  rw [pageAlignUp, hmask, Word.toNat_and_field _ 12 52 (by decide), hadd]
  omega

lemma last_toNat (h : descEnd d < 2 ^ 64) : (d.physicalStart + d.numPages * BitVec.ofNat 64 pageSize).toNat = descEnd d := by
  rw [descEnd] at *
  have hpages : (d.numPages * BitVec.ofNat 64 pageSize).toNat = d.numPages.toNat * pageSize :=
    BitVec.toNat_mul_of_lt (lt_of_le_of_lt (Nat.le_add_left _ _) h)
  rw [BitVec.toNat_add_of_lt (by rw [hpages]; exact h), hpages]

lemma last_le_highest (hwf : WellFormed descs) (hd : d ∈ descs) : descEnd d ≤ (highestAddr descs).toNat := by
  suffices h : ∀ (l : List EfiMemoryDescriptor) (top : Word), WellFormed l →
      top.toNat ≤ (l.foldl (fun highest d =>
        let endAddr := d.physicalStart + d.numPages * BitVec.ofNat 64 pageSize
        if endAddr > highest then endAddr else highest) top).toNat ∧
      ∀ d ∈ l, descEnd d ≤ (l.foldl (fun highest d =>
        let endAddr := d.physicalStart + d.numPages * BitVec.ofNat 64 pageSize
        if endAddr > highest then endAddr else highest) top).toNat from (h descs 0 hwf).2 d hd
  intro l
  induction l with
  | nil => exact fun top _ => ⟨le_rfl, fun d hd => absurd hd not_mem_nil⟩
  | cons e l ih =>
    intro top hl
    have he := last_toNat (hl e mem_cons_self).2
    rw [foldl_cons]
    generalize htop : (if e.physicalStart + e.numPages * BitVec.ofNat 64 pageSize > top then _ else top) = top'
    have hmax : top.toNat ≤ top'.toNat ∧ descEnd e ≤ top'.toNat := by
      rw [← htop, ← he]
      split
      next hgt => exact ⟨(BitVec.lt_def.mp hgt).le, le_rfl⟩
      next hle =>
        rw [gt_iff_lt, BitVec.lt_def] at hle
        exact ⟨le_rfl, by omega⟩
    obtain ⟨hrise, hall⟩ := ih top' fun d hd => hl d (mem_cons_of_mem e hd)
    refine ⟨hmax.1.trans hrise, fun d hd => ?_⟩
    rcases mem_cons.mp hd with rfl | hd
    · exact hmax.2.trans hrise
    · exact hall d hd

lemma isSet_fill {ptr : Word} {mem : Mem} {size : ℕ} (hk : k < size * 8) :
    Pmm.isSet ⟨ptr, Mem.fill mem 0 size 0xFF, size, hints⟩ k = true := by
  have hall : ∀ b < 8, (0xFF : Byte).getLsbD b = true := by decide
  rw [Pmm.isSet_eq]
  dsimp only [Mem.fill]
  rw [if_pos (by omega)]
  exact hall _ (Nat.mod_lt k (by decide))

lemma placed_spec (phys : Mem) (hints : ℕ → ℕ) (halign : ∀ d ∈ bi.memoryMap, d.physicalStart.toNat % pageSize = 0) :
    (∃ d ∈ bi.memoryMap, d.type = efiConventionalMemory ∧
        bitmapSize bi.memoryMap ≤ (d.numPages * BitVec.ofNat 64 pageSize).toNat ∧
        (placed phys hints bi).bitmapPtr = d.physicalStart ∧
        ∀ k < bitmapSize bi.memoryMap * 8, (placed phys hints bi).isSet k = true) ∨
      (∀ d ∈ bi.memoryMap, d.type = efiConventionalMemory →
        (d.numPages * BitVec.ofNat 64 pageSize).toNat < bitmapSize bi.memoryMap) ∧ (placed phys hints bi).bitmapPtr = 0 := by
  rw [placed, placeBitmap]
  split
  next d hd =>
    have hfound := List.find?_some hd
    rw [decide_eq_true_eq] at hfound
    obtain ⟨htype, hroom⟩ := hfound
    have hmem := List.mem_of_find?_eq_some hd
    refine .inl ⟨d, hmem, htype, hroom, pageAlignUp_eq_self (halign d hmem), fun k hk => isSet_fill hk⟩
  next hnone =>
    refine .inr ⟨fun d hd htype => ?_, rfl⟩
    have hno := List.find?_eq_none.mp hnone d hd
    simp only [decide_eq_true_eq, not_and, not_le] at hno
    exact hno htype

lemma placed_room (phys : Mem) (hints : ℕ → ℕ) (hwf : WellFormed bi.memoryMap)
    (hroom : ∃ d ∈ bi.memoryMap, d.type = efiConventionalMemory ∧ bitmapSize bi.memoryMap ≤ d.numPages.toNat * pageSize) :
    ∃ d ∈ bi.memoryMap, bitmapSize bi.memoryMap ≤ d.numPages.toNat * pageSize ∧
      (placed phys hints bi).bitmapPtr = d.physicalStart ∧
      ∀ k < bitmapSize bi.memoryMap * 8, (placed phys hints bi).isSet k = true := by
  have hproduct : ∀ d ∈ bi.memoryMap, (d.numPages * BitVec.ofNat 64 pageSize).toNat = d.numPages.toNat * pageSize := by
    intro d hd
    have hlast := (hwf d hd).2
    exact BitVec.toNat_mul_of_lt (lt_of_le_of_lt (Nat.le_add_left _ _) hlast)
  obtain ⟨d, hd, -, hlarge, hstart, hfull⟩ | ⟨hnone, -⟩ := placed_spec phys hints fun d hd => (hwf d hd).1
  · exact ⟨d, hd, hproduct d hd ▸ hlarge, hstart, hfull⟩
  · obtain ⟨d, hd, htype, _⟩ := hroom
    have hsmall := hnone d hd htype
    rw [hproduct d hd] at hsmall
    omega

variable {kernel : List Word}

lemma mem_bitmapPages {pages : ℕ} (halign : p.bitmapPtr.toNat % pageSize = 0) (hroom : p.bitmapSize ≤ pages * pageSize)
    (hlast : p.bitmapPtr.toNat + pages * pageSize ≤ 2 ^ 64) : (∃ a ∈ bitmapPages p, frameIndex a = k) ↔
    Meets k p.bitmapPtr.toNat (p.bitmapPtr.toNat + p.bitmapSize) := by
  have hcount : (p.bitmapSize + pageSize - 1) / pageSize ≤ pages := by
    rw [pageSize] at hroom ⊢
    omega
  have hfit := (Nat.add_le_add_left (Nat.mul_le_mul_right pageSize hcount) p.bitmapPtr.toNat).trans hlast
  rw [bitmapPages, mem_pagesFrom hfit, Meets, pageSize]
  rw [pageSize] at halign
  omega

lemma kernelPages_of_init (hinit : pmmInit phys hints bi = some p) : ∃ kernel, kernelPages bi = some kernel := by
  rw [pmmInit_eq, initCalls, Option.map_map, Option.map_eq_some_iff] at hinit
  obtain ⟨kernel, hkernel, -⟩ := hinit
  exact ⟨kernel, hkernel⟩

lemma isSet_pmmInit (hkernel : kernelPages bi = some kernel) (hinit : pmmInit phys hints bi = some p) :
    p.isSet k = true ↔ ((placed phys hints bi).isSet k = true ∧ ¬ ∃ d ∈ bi.memoryMap, ∃ a ∈ unlockPages d, frameIndex a = k) ∨
      (∃ a ∈ lowPages, frameIndex a = k) ∨ (∃ a ∈ kernel, frameIndex a = k) ∨
        ∃ a ∈ bitmapPages (placed phys hints bi), frameIndex a = k := by
  rw [pmmInit_eq, initCalls, hkernel] at hinit
  cases hinit
  have hunset : ∀ (pages : List Word) (q : Pmm), (pages.map FrameCall.unset).foldl FrameCall.apply q =
      pages.foldl pmmUnsetFrame q :=
    fun pages q => by
      rw [foldl_map]
      rfl
  have hset : ∀ (pages : List Word) (q : Pmm), (pages.map FrameCall.set).foldl FrameCall.apply q = pages.foldl pmmSetFrame q :=
    fun pages q => by
      rw [foldl_map]
      rfl
  have hflat : (∃ a ∈ bi.memoryMap.flatMap unlockPages, frameIndex a = k) ↔
      ∃ d ∈ bi.memoryMap, ∃ a ∈ unlockPages d, frameIndex a = k := by
    simp only [mem_flatMap]
    exact ⟨fun ⟨a, ⟨d, hd, ha⟩, hk⟩ => ⟨d, hd, a, ha, hk⟩, fun ⟨d, hd, a, ha, hk⟩ => ⟨a, ⟨d, hd, ha⟩, hk⟩⟩
  dsimp only
  rw [foldl_append, hunset, hset, isSet_setFrames, isSet_unsetFrames, hflat]
  refine or_congr_right ?_
  simp only [mem_append, or_and_right, exists_or, or_assoc]

theorem free_after_init (phys : Mem) (hints : ℕ → ℕ) (bi : BootInfo) (hwf : WellFormed bi.memoryMap)
    (hhighest : (highestAddr bi.memoryMap).toNat % 0x8000 = 0)
    (hroom : ∃ d ∈ bi.memoryMap, d.type = efiConventionalMemory ∧ bitmapSize bi.memoryMap ≤ d.numPages.toNat * pageSize)
    (hbase : bi.kernelBase.toNat % pageSize = 0)
    (hkernel : bi.kernelBase.toNat + bi.kernelSize.toNat ≤ (highestAddr bi.memoryMap).toNat) :
    ∃ p, pmmInit phys hints bi = some p ∧ ∀ k, (k < p.bitmapSize * 8 ∧ p.isSet k = false) ↔
      (∃ d ∈ bi.memoryMap, Usable d ∧ Covers d k) ∧ 0x100000 ≤ k * pageSize ∧
        ¬ Meets k bi.kernelBase.toNat (bi.kernelBase.toNat + bi.kernelSize.toNat + pageSize) ∧
        ¬ Meets k p.bitmapPtr.toNat (p.bitmapPtr.toNat + p.bitmapSize) := by
  have htop := (highestAddr bi.memoryMap).isLt
  have hfits : bi.kernelBase.toNat + bi.kernelSize.toNat + 2 * pageSize ≤ 2 ^ 64 := by
    rw [pageSize]
    omega
  obtain ⟨kernel, hcalls, hmem⟩ := kernelPages_spec hfits
  obtain ⟨p, hinit⟩ : ∃ p, pmmInit phys hints bi = some p := by
    rw [pmmInit_eq, initCalls, hcalls]
    exact ⟨_, rfl⟩
  refine ⟨p, hinit, fun k => ?_⟩
  obtain ⟨hptr, hsize, -⟩ := pmmInit_keeps hinit
  have hplacedSize : (placed phys hints bi).bitmapSize = bitmapSize bi.memoryMap := PmmRuns.placeBitmap_size _ _ _ _
  obtain ⟨d, hd, hlarge, hstart, hfull⟩ := placed_room phys hints hwf hroom
  rw [← hplacedSize] at hlarge
  have hunlock : (∃ d ∈ bi.memoryMap, ∃ a ∈ unlockPages d, frameIndex a = k) ↔
      256 ≤ k ∧ ∃ d ∈ bi.memoryMap, Usable d ∧ Covers d k := by
    constructor
    · rintro ⟨e, he, ha⟩
      obtain ⟨huse, hk, hin⟩ := (mem_unlockPages (hwf e he).2.le).mp ha
      exact ⟨hk, e, he, huse, (covers_iff (hwf e he).1).mp hin⟩
    · rintro ⟨hk, e, he, huse, hin⟩
      exact ⟨e, he, (mem_unlockPages (hwf e he).2.le).mpr ⟨huse, hk, (covers_iff (hwf e he).1).mpr hin⟩⟩
  have hbits := isSet_pmmInit (k := k) hcalls hinit
  rw [hunlock, mem_lowPages, mem_kernel hbase hfits hmem,
    mem_bitmapPages (by rw [hstart]; exact (hwf d hd).1) hlarge (by rw [hstart]; exact (hwf d hd).2.le)] at hbits
  rw [hptr, hsize, ← hplacedSize, ← Bool.not_eq_true, hbits]
  -- a covered frame ends below the highest address, hence within the bitmap
  have hin : ∀ e ∈ bi.memoryMap, Covers e k → k < bitmapSize bi.memoryMap * 8 := by
    intro e he hcover
    have hle := hcover.2.trans (last_le_highest hwf he)
    rw [bitmapSize]
    rw [pageSize] at hle ⊢
    omega
  have hlow : 0x100000 ≤ k * pageSize ↔ 256 ≤ k := by
    rw [pageSize]
    omega
  rw [hlow]
  constructor
  · rintro ⟨hk, hno⟩
    rw [hplacedSize] at hk
    push Not at hno
    obtain ⟨hfree, hhigh, hker, hmap⟩ := hno
    exact ⟨(hfree (hfull k hk)).2, hhigh, hker, hmap⟩
  · rintro ⟨⟨e, he, huse, hcover⟩, hk, hker, hmap⟩
    refine ⟨hplacedSize ▸ hin e he hcover, ?_⟩
    rintro (⟨-, hno⟩ | hlt | hker' | hmap')
    · exact hno ⟨hk, e, he, huse, hcover⟩
    · omega
    · exact hker hker'
    · exact hmap hmap'

def twoMegabytes : BootInfo := ⟨[⟨7, 0x100000, 256⟩], 0x100000, 0x1000⟩

theorem free_after_init_twoMegabytes :
    ∃ p, pmmInit (fun _ => 0) (fun _ => 0) twoMegabytes = some p ∧ ∀ k, (k < p.bitmapSize * 8 ∧ p.isSet k = false) ↔
      (∃ d ∈ twoMegabytes.memoryMap, Usable d ∧ Covers d k) ∧ 0x100000 ≤ k * pageSize ∧
        ¬ Meets k 0x100000 (0x100000 + 0x1000 + pageSize) ∧
        ¬ Meets k p.bitmapPtr.toNat (p.bitmapPtr.toNat + p.bitmapSize) := by
  refine free_after_init _ _ twoMegabytes ?_ (by decide) ⟨_, mem_cons_self, rfl, by decide⟩ (by decide) (by decide)
  exact forall_mem_singleton.mpr (by decide)

def bitmapLimit (descs : List EfiMemoryDescriptor) : ℕ := bitmapSize descs * 8 * pageSize

lemma bitmapLimit_le (descs : List EfiMemoryDescriptor) : bitmapLimit descs + 0x8000 ≤ 2 ^ 64 := by
  rw [bitmapLimit, bitmapSize, pageSize]
  omega

lemma byte_of_lt (h : a.toNat < bitmapLimit descs) : frameIndex a / 8 < bitmapSize descs := by
  rw [bitmapLimit, pageSize] at h
  rw [frameIndex, pageSize]
  omega

structure InBounds (bi : BootInfo) : Prop where
  low : 0x100000 ≤ bitmapLimit bi.memoryMap
  usable : ∀ d ∈ bi.memoryMap, Usable d → d.numPages = 0 ∨ descEnd d ≤ bitmapLimit bi.memoryMap
  kernel : bi.kernelBase.toNat + (bi.kernelSize.toNat + pageSize - 1) / pageSize * pageSize < bitmapLimit bi.memoryMap

lemma InBounds.unlock (h : InBounds bi) (hd : d ∈ bi.memoryMap) (ha : a ∈ unlockPages d) :
    frameIndex a / 8 < bitmapSize bi.memoryMap := by
  have hlimit := bitmapLimit_le bi.memoryMap
  have hstart := d.physicalStart.isLt
  by_cases huse : Usable d
  · have hfit : descEnd d ≤ 2 ^ 64 := by
      obtain hzero | hlast := h.usable d hd huse
      · rw [descEnd, hzero]
        exact hstart.le
      · omega
    obtain ⟨-, -, hge, hlt⟩ := (mem_unlockPages hfit).mp ⟨a, ha, rfl⟩
    obtain hzero | hlast := h.usable d hd huse
    · rw [hzero] at hlt
      exact absurd hge (Nat.not_le.mpr hlt)
    · rw [descEnd, bitmapLimit, pageSize] at hlast
      rw [pageSize] at hlt
      omega
  · rw [Usable] at huse
    rw [unlockPages, if_neg huse] at ha
    cases ha

lemma InBounds.bitmap (h : InBounds bi) (halign : ∀ d ∈ bi.memoryMap, d.physicalStart.toNat % pageSize = 0)
    (ha : a ∈ bitmapPages (placed phys hints bi)) : frameIndex a / 8 < bitmapSize bi.memoryMap := by
  have hsize : (placed phys hints bi).bitmapSize = bitmapSize bi.memoryMap := PmmRuns.placeBitmap_size _ _ _ _
  have hlimit := bitmapLimit_le bi.memoryMap
  have hlow := h.low
  obtain ⟨d, hd, htype, hlarge, hstart, -⟩ | ⟨-, hnull⟩ := placed_spec phys hints halign
  · have hroom : bitmapSize bi.memoryMap ≤ d.numPages.toNat * pageSize := by
      refine hlarge.trans ?_
      rw [BitVec.toNat_mul]
      exact Nat.mod_le _ _
    obtain hzero | hlast := h.usable d hd (.inl htype)
    · -- without a page the descriptor has no room for the bits of the first megabyte
      rw [hzero] at hroom
      change _ ≤ 0 * _ at hroom
      rw [bitmapLimit, pageSize] at hlow
      omega
    · obtain ⟨-, hlt⟩ := (mem_bitmapPages (by rw [hstart]; exact halign d hd) (by rw [hsize]; exact hroom)
        (by rw [hstart]; exact hlast.trans (by omega))).mp ⟨a, ha, rfl⟩
      rw [hstart, hsize] at hlt
      rw [descEnd, bitmapLimit] at hlast
      rw [pageSize] at hlast hroom hlt
      omega
  · have hroom : bitmapSize bi.memoryMap ≤ bitmapSize bi.memoryMap * pageSize := Nat.le_mul_of_pos_right _ (by decide)
    have hfit : bitmapSize bi.memoryMap * pageSize ≤ bitmapLimit bi.memoryMap :=
      Nat.mul_le_mul_right _ (Nat.le_mul_of_pos_right _ (by decide))
    have hzero : (placed phys hints bi).bitmapPtr.toNat = 0 := by
      rw [hnull]
      rfl
    obtain ⟨-, hlt⟩ := (mem_bitmapPages (by rw [hzero]; rfl) (by rw [hsize]; exact hroom) (by omega)).mp ⟨a, ha, rfl⟩
    rw [hzero, hsize, pageSize] at hlt
    omega

theorem init_in_bounds (phys : Mem) (hints : ℕ → ℕ) (bi : BootInfo)
    (halign : ∀ d ∈ bi.memoryMap, d.physicalStart.toNat % pageSize = 0) (hbounds : InBounds bi) :
    ∃ calls, initCalls phys hints bi = some calls ∧
      pmmInit phys hints bi = some (calls.foldl FrameCall.apply (placed phys hints bi)) ∧
      ∀ c ∈ calls, frameIndex c.addr / 8 < bitmapSize bi.memoryMap := by
  have hlimit := bitmapLimit_le bi.memoryMap
  have hkernel := hbounds.kernel
  have hfits : bi.kernelBase.toNat + bi.kernelSize.toNat + 2 * pageSize ≤ 2 ^ 64 := by
    rw [pageSize] at hkernel ⊢
    omega
  obtain ⟨kernel, hcalls, hmem⟩ := kernelPages_spec hfits
  obtain ⟨calls, hinit⟩ : ∃ calls, initCalls phys hints bi = some calls := by
    rw [initCalls, hcalls]
    exact ⟨_, rfl⟩
  refine ⟨calls, hinit, by rw [pmmInit_eq, hinit]; rfl, ?_⟩
  rw [initCalls, hcalls] at hinit
  cases hinit
  intro c hc
  rcases mem_append.mp hc with hc | hc
  · obtain ⟨a, ha, rfl⟩ := mem_map.mp hc
    obtain ⟨d, hd, ha⟩ := mem_flatMap.mp ha
    exact hbounds.unlock hd ha
  · obtain ⟨a, ha, rfl⟩ := mem_map.mp hc
    simp only [mem_append] at ha
    rcases ha with (ha | ha) | ha
    · have hlow := hbounds.low
      have hlt := mem_lowPages.mp ⟨a, ha, rfl⟩
      rw [bitmapLimit, pageSize] at hlow
      change frameIndex a / 8 < _
      omega
    · obtain ⟨j, hj, hlt⟩ := (hmem a).mp ha
      refine byte_of_lt (a := a) ?_
      rw [pageSize] at hj hlt hkernel
      omega
    · exact hbounds.bitmap halign ha

theorem init_in_bounds_twoMegabytes :
    ∃ calls, initCalls (fun _ => 0) (fun _ => 0) twoMegabytes = some calls ∧
      pmmInit (fun _ => 0) (fun _ => 0) twoMegabytes =
        some (calls.foldl FrameCall.apply (placed (fun _ => 0) (fun _ => 0) twoMegabytes)) ∧
      ∀ c ∈ calls, frameIndex c.addr / 8 < bitmapSize twoMegabytes.memoryMap := by
  refine init_in_bounds _ _ twoMegabytes (forall_mem_singleton.mpr (by decide)) ⟨by decide, ?_, by decide⟩
  exact forall_mem_singleton.mpr fun _ => .inr (by decide)

def oddPage : BootInfo := ⟨[⟨7, 0x100000, 257⟩], 0x100000, 0x1000⟩

theorem init_out_of_bounds :
    (∀ d ∈ oddPage.memoryMap, d.physicalStart.toNat % pageSize = 0) ∧
      ∃ calls, initCalls (fun _ => 0) (fun _ => 0) oddPage = some calls ∧
        ∃ c ∈ calls, bitmapSize oddPage.memoryMap ≤ frameIndex c.addr / 8 := by
  refine ⟨forall_mem_singleton.mpr (by decide), _, rfl, .unset 0x200000, ?_, by decide⟩
  refine mem_append_left _ (mem_map.mpr ⟨0x200000, ?_, rfl⟩)
  exact mem_flatMap.mpr ⟨_, mem_cons_self, by decide +kernel⟩

end KernelSmp.Memory.PmmBoot
