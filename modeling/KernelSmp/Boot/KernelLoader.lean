import KernelSmp.Fs.Elf

/-! The boot loader's `load_kernel_elf`. A file is read at the positions that its headers give, and the segments go to the
pages from 0x2000000 on. -/

namespace KernelSmp.Boot

open Base Memory Fs List Option BitVec

structure File where
  data : Mem
  size : ℕ

def File.Holds (f : File) (position n : ℕ) : Prop := position + n ≤ f.size

instance (f : File) (position n : ℕ) : Decidable (f.Holds position n) := inferInstanceAs (Decidable (_ ≤ _))

structure Elf64Ehdr where
  eIdent : List Byte
  eType : ℕ
  eMachine : ℕ
  eEntry : Word
  ePhoff : Word
  ePhentsize : ℕ
  ePhnum : ℕ

def ehdr (data : Mem) : Elf64Ehdr :=
  ⟨(List.range 4).map data, data.readLE 16 2, data.readLE 18 2, data.load64 24, data.load64 32, data.readLE 54 2,
    data.readLE 56 2⟩

def phdrs (data : Mem) : List Elf64Phdr :=
  (List.range (ehdr data).ePhnum).map fun i =>
    let a := (ehdr data).ePhoff.toNat + 56 * i
    ⟨data.load32 a, data.load32 (a + 4), data.load64 (a + 8), data.load64 (a + 16), data.load64 (a + 32), data.load64 (a + 40)⟩

def Loadable (ph : Elf64Phdr) : Prop := ph.pType = ptLoad ∧ ph.pMemsz ≠ 0

instance (ph : Elf64Phdr) : Decidable (Loadable ph) := inferInstanceAs (Decidable (_ ∧ _))

def widen (range : Word × Word) (ph : Elf64Phdr) : Word × Word :=
  if Loadable ph then
    let lo := if ph.pVaddr < range.1 then ph.pVaddr else range.1
    let segEnd := ph.pVaddr + ph.pMemsz
    (lo, if segEnd > range.2 then segEnd else range.2)
  else range

def imageRange (phs : List Elf64Phdr) : Word × Word := phs.foldl widen (~~~0, 0)

def File.lo (f : File) : Word := (imageRange (phdrs f.data)).1
def File.hi (f : File) : Word := (imageRange (phdrs f.data)).2

def efiSizeToPages (size : Word) : Word := (size >>> 12) + if size &&& 0xFFF ≠ 0 then 1 else 0

def loadSegment (f : File) (dstBase lo : Word) (m : Mem) (ph : Elf64Phdr) : Option Mem :=
  if Loadable ph then
    let segDst := dstBase + (ph.pVaddr - lo)
    if ph.pFilesz > 0 ∧ ¬ f.Holds ph.pOffset.toNat ph.pFilesz.toNat then none
    else
      let m := if ph.pFilesz > 0 then m.copy segDst.toNat f.data ph.pOffset.toNat ph.pFilesz.toNat else m
      some (if ph.pMemsz > ph.pFilesz then m.fill (segDst + ph.pFilesz).toNat (ph.pMemsz - ph.pFilesz).toNat 0 else m)
  else some m

structure BootKernel where
  kernelBase : Word
  kernelSize : Word
  kernelEntry : Word

def kernelAddr : Word := 0x2000000

/-- `allocatePages` says how `AllocatePages` answers for a number of pages at `kernel_addr`. -/
def loadKernelElf (f : File) (allocatePages : Word → Bool) (m : Mem) : Option (BootKernel × Mem) :=
  let eh := ehdr f.data
  if ¬ f.Holds 0 64 ∨ eh.eIdent ≠ elfMagic ∨ eh.eMachine ≠ 62 ∨ eh.ePhentsize ≠ 56 ∨ eh.ePhnum = 0 ∨
      eh.eType ≠ 2 ∧ eh.eType ≠ 3 ∨ ¬ f.Holds eh.ePhoff.toNat (56 * eh.ePhnum) then none
  else
    let (lo, hi) := imageRange (phdrs f.data)
    if lo = ~~~0 ∨ hi ≤ lo then none
    else
      let imageSize := hi - lo
      if allocatePages (efiSizeToPages imageSize) then
        ((phdrs f.data).foldlM (loadSegment f kernelAddr lo) m).map
          (Prod.mk ⟨kernelAddr, imageSize, kernelAddr + (eh.eEntry - lo)⟩)
      else none

variable {f : File} {ph : Elf64Phdr} {phs before after : List Elf64Phdr} {m m' : Mem} {base lo : Word}

lemma widen_bounds (range : Word × Word) (ph : Elf64Phdr) :
    (widen range ph).1.toNat ≤ range.1.toNat ∧ range.2.toNat ≤ (widen range ph).2.toNat ∧ (Loadable ph →
      (widen range ph).1.toNat ≤ ph.pVaddr.toNat ∧ (ph.pVaddr + ph.pMemsz).toNat ≤ (widen range ph).2.toNat) := by
  rw [widen]
  split
  · simp only [lt_def]
    split <;> split <;> omega
  · rename_i hph
    exact ⟨le_rfl, le_rfl, fun h => absurd h hph⟩

lemma foldl_widen (phs : List Elf64Phdr) (range : Word × Word) : (phs.foldl widen range).1.toNat ≤ range.1.toNat ∧
    range.2.toNat ≤ (phs.foldl widen range).2.toNat ∧ ∀ ph ∈ phs, Loadable ph →
    (phs.foldl widen range).1.toNat ≤ ph.pVaddr.toNat ∧ (ph.pVaddr + ph.pMemsz).toNat ≤ (phs.foldl widen range).2.toNat := by
  induction phs generalizing range with
  | nil => exact ⟨le_rfl, le_rfl, fun _ hph => nomatch hph⟩
  | cons q phs ih =>
    obtain ⟨hlo, hhi, hmem⟩ := ih (widen range q)
    obtain ⟨hlo', hhi', hq⟩ := widen_bounds range q
    refine ⟨hlo.trans hlo', hhi'.trans hhi, fun ph hph hload => ?_⟩
    rcases mem_cons.mp hph with rfl | hph
    · exact ⟨hlo.trans (hq hload).1, (hq hload).2.trans hhi⟩
    · exact hmem ph hph hload

lemma le_efiSizeToPages (size : Word) : size.toNat ≤ (efiSizeToPages size).toNat * pageSize := by
  have hshift : (size >>> 12).toNat = size.toNat / 4096 := by
    rw [toNat_ushiftRight, Nat.shiftRight_eq_div_pow]
  have hmask : (size &&& 0xFFF).toNat = size.toNat % 4096 := by
    rw [toNat_and]
    exact Nat.and_two_pow_sub_one_eq_mod size.toNat 12
  rw [efiSizeToPages, BitVec.toNat_add, hshift, pageSize]
  split_ifs with hzero
  · change size.toNat ≤ (size.toNat / 4096 + 1) % 2 ^ 64 * 4096
    omega
  · rw [not_not.mp hzero] at hmask
    change 0 = _ at hmask
    change size.toNat ≤ (size.toNat / 4096 + 0) % 2 ^ 64 * 4096
    omega

structure Fits (base lo : Word) (n : ℕ) (ph : Elf64Phdr) : Prop where
  low : lo.toNat ≤ ph.pVaddr.toNat
  file : ph.pFilesz.toNat ≤ ph.pMemsz.toNat
  high : ph.pVaddr.toNat - lo.toNat + ph.pMemsz.toNat ≤ n

def segStart (base lo : Word) (ph : Elf64Phdr) : ℕ := base.toNat + (ph.pVaddr.toNat - lo.toNat)

def Covers (base lo : Word) (ph : Elf64Phdr) (a : ℕ) : Prop :=
  Loadable ph ∧ segStart base lo ph ≤ a ∧ a < segStart base lo ph + ph.pMemsz.toNat

variable {n : ℕ}

lemma Fits.segDst (h : Fits base lo n ph) (hload : Loadable ph) (hroom : base.toNat + n ≤ 2 ^ 64) :
    (base + (ph.pVaddr - lo)).toNat = segStart base lo ph ∧ segStart base lo ph + ph.pMemsz.toNat ≤ base.toNat + n := by
  obtain ⟨_, -, _⟩ := h
  have hpos : ph.pMemsz.toNat ≠ 0 := fun hzero => hload.2 (eq_of_toNat_eq hzero)
  rw [BitVec.toNat_add, toNat_sub, segStart]
  omega

lemma loadSegment_eq (hload : Loadable ph) (hfits : Fits base lo n ph) (hroom : base.toNat + n ≤ 2 ^ 64)
    (h : loadSegment f base lo m ph = some m') :
    m' = (m.copy (segStart base lo ph) f.data ph.pOffset.toNat ph.pFilesz.toNat).fill
      (segStart base lo ph + ph.pFilesz.toNat) (ph.pMemsz.toNat - ph.pFilesz.toNat) 0 := by
  obtain ⟨hstart, _⟩ := hfits.segDst hload hroom
  rw [loadSegment, if_pos hload] at h
  obtain ⟨-, h⟩ := ite_none_left_eq_some.mp h
  have hcopy : (if ph.pFilesz > 0 then m.copy (segStart base lo ph) f.data ph.pOffset.toNat ph.pFilesz.toNat else m) =
      m.copy (segStart base lo ph) f.data ph.pOffset.toNat ph.pFilesz.toNat := by
    split_ifs with hzero
    · rfl
    · have hzero' := Nat.eq_zero_of_not_pos hzero
      funext a
      rw [hzero', Mem.copy, if_neg (by omega)]
  rw [hstart, hcopy, Option.some.injEq] at h
  rw [← h]
  split_ifs with hlt
  · have hlt' : ph.pFilesz.toNat < ph.pMemsz.toNat := hlt
    rw [toNat_sub_of_le hfits.file, BitVec.toNat_add, hstart, Nat.mod_eq_of_lt (by omega)]
  · have hle' := Nat.le_of_not_lt hlt
    funext a
    rw [Mem.fill, if_neg (by omega)]

lemma loadSegment_apply (hfits : Loadable ph → Fits base lo n ph) (hroom : base.toNat + n ≤ 2 ^ 64)
    (h : loadSegment f base lo m ph = some m') (a : ℕ) :
    (Covers base lo ph a → m' a = if a - segStart base lo ph < ph.pFilesz.toNat then
      f.data (ph.pOffset.toNat + (a - segStart base lo ph)) else 0) ∧ (¬ Covers base lo ph a → m' a = m a) := by
  by_cases hload : Loadable ph
  · have hfile := (hfits hload).file
    rw [loadSegment_eq hload (hfits hload) hroom h, Covers, and_iff_right hload, Mem.fill, Mem.copy]
    constructor
    · intro hin
      by_cases hdata : a - segStart base lo ph < ph.pFilesz.toNat
      · rw [if_neg (by omega), if_pos (by omega), if_pos hdata]
      · rw [if_pos (by omega), if_neg hdata]
    · intro hout
      rw [if_neg (by omega), if_neg (by omega)]
  · rw [loadSegment, if_neg hload] at h
    cases h
    exact ⟨fun hcovers => absurd hcovers.1 hload, fun _ => rfl⟩

lemma loadSegments_kept (hfits : ∀ ph ∈ phs, Loadable ph → Fits base lo n ph) (hroom : base.toNat + n ≤ 2 ^ 64)
    (h : phs.foldlM (loadSegment f base lo) m = some m') {a : ℕ} (ha : ∀ ph ∈ phs, ¬ Covers base lo ph a) : m' a = m a := by
  induction phs generalizing m with
  | nil =>
    cases h
    rfl
  | cons ph phs ih =>
    obtain ⟨_, hfirst, hrest⟩ := bind_eq_some_iff.mp h
    rw [ih (fun q hq => hfits q (mem_cons_of_mem ph hq)) hrest fun q hq => ha q (mem_cons_of_mem ph hq)]
    exact (loadSegment_apply (hfits ph mem_cons_self) hroom hfirst a).2 (ha ph mem_cons_self)

lemma loadSegments_apply (hfits : ∀ q ∈ before ++ ph :: after, Loadable q → Fits base lo n q)
    (hroom : base.toNat + n ≤ 2 ^ 64) (h : (before ++ ph :: after).foldlM (loadSegment f base lo) m = some m') {a : ℕ}
    (hcovers : Covers base lo ph a) (hlater : ∀ q ∈ after, ¬ Covers base lo q a) :
    m' a = if a - segStart base lo ph < ph.pFilesz.toNat then
      f.data (ph.pOffset.toNat + (a - segStart base lo ph)) else 0 := by
  have hmem : ∀ q ∈ ph :: after, q ∈ before ++ ph :: after := fun q hq => mem_append_right before hq
  rw [foldlM_append] at h
  obtain ⟨_, -, h⟩ := bind_eq_some_iff.mp h
  obtain ⟨_, hsegment, hrest⟩ := bind_eq_some_iff.mp h
  rw [loadSegments_kept (fun q hq => hfits q (hmem q (mem_cons_of_mem ph hq))) hroom hrest hlater]
  exact (loadSegment_apply (hfits ph (hmem ph mem_cons_self)) hroom hsegment a).1 hcovers

lemma loadKernelElf_some {allocatePages : Word → Bool} {k : BootKernel}
    (h : loadKernelElf f allocatePages m = some (k, m')) :
    f.lo.toNat < f.hi.toNat ∧
    k = ⟨kernelAddr, f.hi - f.lo,
      kernelAddr + ((ehdr f.data).eEntry - f.lo)⟩ ∧
    allocatePages (efiSizeToPages k.kernelSize) = true ∧
    (phdrs f.data).foldlM (loadSegment f kernelAddr f.lo) m = some m' := by
  obtain ⟨-, h⟩ := ite_none_left_eq_some.mp h
  obtain ⟨hrange, h⟩ := ite_none_left_eq_some.mp h
  obtain ⟨hpages, h⟩ := ite_none_right_eq_some.mp h
  obtain ⟨_, hload, heq⟩ := map_eq_some_iff.mp h
  cases heq
  exact ⟨Nat.lt_of_not_le fun hle => hrange (.inr hle), rfl, hpages, hload⟩

def Proper (ph : Elf64Phdr) : Prop :=
  ph.pFilesz.toNat ≤ ph.pMemsz.toNat ∧ ph.pVaddr.toNat + ph.pMemsz.toNat < 2 ^ 64

lemma Proper.fits (h : Proper ph) (hmem : ph ∈ phdrs f.data) (hload : Loadable ph) : Fits base f.lo (f.hi - f.lo).toNat ph := by
  obtain ⟨hlow, hhigh⟩ := (foldl_widen (phdrs f.data) (~~~0, 0)).2.2 ph hmem hload
  rw [BitVec.toNat_add, Nat.mod_eq_of_lt h.2] at hhigh
  change f.lo.toNat ≤ _ at hlow
  change _ ≤ f.hi.toNat at hhigh
  refine ⟨hlow, h.1, ?_⟩
  rw [toNat_sub_of_le (show f.lo.toNat ≤ f.hi.toNat by omega)]
  omega

def kernelFile (entry vaddr filesz memsz : Word) : File :=
  let m := (Mem.store64 (Mem.store32 (fun _ => 0) 0 0x464C457F) 24 entry).store64 32 64
  let m := (((m.writeLE 16 2 2).writeLE 18 62 2).writeLE 54 56 2).writeLE 56 1 2
  let m := (m.store32 64 ptLoad).store64 80 vaddr
  ⟨(m.store64 96 filesz).store64 104 memsz, 0x4000⟩

end KernelSmp.Boot
