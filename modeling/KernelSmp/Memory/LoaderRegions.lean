import KernelSmp.Memory.PmmBoot

/-! What the boot loader leaves in memory for the kernel, and what `pmm_init` makes of it. -/

namespace KernelSmp.Memory.LoaderRegions

open Base PmmInit PmmBoot List

def efiLoaderCode : BitVec 32 := 1
def efiLoaderData : BitVec 32 := 2
def efiBootServicesData : BitVec 32 := 4

structure Region where
  addr : Word
  size : Word

def Region.Has (r : Region) (k : ℕ) : Prop := Meets k r.addr.toNat (r.addr.toNat + r.size.toNat)

/-- The buffer of `final_memory_map_and_exit`, the pages of `init_ramdisk` and the local variable of `efi_main`. -/
structure LoaderData where
  memoryMap : Region
  ramdisk : Region
  bootInfo : Region

def kernelImage (bi : BootInfo) : Region := ⟨bi.kernelBase, bi.kernelSize⟩

def bitmapRegion (p : Pmm) : Region := ⟨p.bitmapPtr, BitVec.ofNat 64 p.bitmapSize⟩

def LiesIn (descs : List EfiMemoryDescriptor) (type : BitVec 32) (r : Region) : Prop :=
  ∀ k, r.Has k → ∃ d ∈ descs, d.type = type ∧ Covers d k

structure EfiMap (descs : List EfiMemoryDescriptor) : Prop where
  wellFormed : WellFormed descs
  disjoint : ∀ d ∈ descs, ∀ e ∈ descs, ∀ k, Covers d k → Covers e k → d = e

structure Loaded (bi : BootInfo) (l : LoaderData) : Prop where
  kernel : LiesIn bi.memoryMap efiLoaderCode (kernelImage bi)
  kernel_aligned : bi.kernelBase.toNat % pageSize = 0
  kernel_fits : bi.kernelBase.toNat + bi.kernelSize.toNat + 2 * pageSize ≤ 2 ^ 64
  memoryMap : LiesIn bi.memoryMap efiLoaderData l.memoryMap
  ramdisk : LiesIn bi.memoryMap efiLoaderData l.ramdisk
  bootInfo : LiesIn bi.memoryMap efiBootServicesData l.bootInfo

def InUse (bi : BootInfo) (l : LoaderData) (p : Pmm) (k : ℕ) : Prop :=
  ∃ r ∈ [kernelImage bi, bitmapRegion p, l.memoryMap, l.ramdisk, l.bootInfo], r.Has k

variable {phys : Mem} {hints : ℕ → ℕ} {bi : BootInfo} {p : Pmm} {l : LoaderData} {k : ℕ}

variable {r : Region}

lemma not_unlocked {type : BitVec 32} (hmap : EfiMap bi.memoryMap) (hr : LiesIn bi.memoryMap type r)
    (htype : type ≠ efiConventionalMemory ∧ type ≠ 4) (hk : r.Has k) :
    ¬ ∃ d ∈ bi.memoryMap, ∃ a ∈ unlockPages d, frameIndex a = k := by
  rintro ⟨d, hd, ha⟩
  obtain ⟨halign, hend⟩ := hmap.wellFormed d hd
  obtain ⟨huse, -, hin⟩ := (mem_unlockPages hend.le).mp ha
  obtain ⟨e, he, rfl, hcover⟩ := hr k hk
  obtain rfl := hmap.disjoint d hd e he k ((covers_iff halign).mp hin) hcover
  rcases huse with huse | huse
  · exact htype.1 huse
  · exact htype.2 huse

theorem loader_frames_used (phys : Mem) (hints : ℕ → ℕ) (bi : BootInfo) (l : LoaderData)
    (hmap : EfiMap bi.memoryMap) (hloaded : Loaded bi l)
    (hroom : ∃ d ∈ bi.memoryMap, d.type = efiConventionalMemory ∧ bitmapSize bi.memoryMap ≤ d.numPages.toNat * pageSize)
    (hstack : ∀ k, l.bootInfo.Has k → k < 256 ∨ bitmapSize bi.memoryMap * 8 ≤ k ∨
      Meets k bi.kernelBase.toNat (bi.kernelBase.toNat + bi.kernelSize.toNat + pageSize)) :
    ∃ p, pmmInit phys hints bi = some p ∧ ∀ k < p.bitmapSize * 8, InUse bi l p k → p.isSet k = true := by
  obtain ⟨kernel, hkernel, hmem⟩ := kernelPages_spec hloaded.kernel_fits
  obtain ⟨p, hinit⟩ : ∃ p, pmmInit phys hints bi = some p := by
    rw [pmmInit_eq, initCalls, hkernel]
    exact ⟨_, rfl⟩
  refine ⟨p, hinit, fun k hk huse => ?_⟩
  obtain ⟨hptr, hsize, -⟩ := pmmInit_keeps hinit
  have hplacedSize : (placed phys hints bi).bitmapSize = bitmapSize bi.memoryMap := PmmRuns.placeBitmap_size _ _ _ _
  obtain ⟨d, hd, hlarge, hstart, hfull⟩ := placed_room phys hints hmap.wellFormed hroom
  rw [isSet_pmmInit hkernel hinit]
  have hused : ∀ {type : BitVec 32} {r : Region}, LiesIn bi.memoryMap type r →
      type ≠ efiConventionalMemory ∧ type ≠ 4 → r.Has k →
      (placed phys hints bi).isSet k = true ∧ ¬ ∃ d ∈ bi.memoryMap, ∃ a ∈ unlockPages d, frameIndex a = k :=
    fun hr htype hr' => ⟨hfull k (hsize ▸ hk), not_unlocked hmap hr htype hr'⟩
  obtain ⟨r, hr, hhas⟩ := huse
  simp only [mem_cons, not_mem_nil, or_false] at hr
  rcases hr with rfl | rfl | rfl | rfl | rfl
  · exact .inl (hused hloaded.kernel (by decide) hhas)
  · refine .inr (.inr (.inr ((mem_bitmapPages ?_ (by rw [hplacedSize]; exact hlarge) ?_).mpr ?_)))
    · rw [hstart]
      exact (hmap.wellFormed d hd).1
    · rw [hstart]
      exact (hmap.wellFormed d hd).2.le
    · have hfit : (BitVec.ofNat 64 p.bitmapSize).toNat = p.bitmapSize := by
        rw [BitVec.toNat_ofNat]
        refine Nat.mod_eq_of_lt ?_
        have := bitmapLimit_le bi.memoryMap
        rw [bitmapLimit, pageSize, ← hsize] at this
        omega
      rw [Region.Has, bitmapRegion, hfit] at hhas
      rwa [← hptr, hplacedSize, ← hsize]
  · exact .inl (hused hloaded.memoryMap (by decide) hhas)
  · exact .inl (hused hloaded.ramdisk (by decide) hhas)
  · rcases hstack k hhas with hlow | hhigh | hlocked
    · exact .inr (.inl (mem_lowPages.mpr hlow))
    · omega
    · exact .inr (.inr (.inl ((mem_kernel hloaded.kernel_aligned hloaded.kernel_fits hmem).mpr hlocked)))

lemma liesIn_of_mem {descs : List EfiMemoryDescriptor} {d : EfiMemoryDescriptor} (hd : d ∈ descs)
    (halign : d.physicalStart.toNat % pageSize = 0) (hfirst : d.physicalStart ≤ r.addr)
    (hlast : r.addr.toNat + r.size.toNat ≤ descEnd d) : LiesIn descs d.type r := by
  rintro k ⟨hlow, hhigh⟩
  refine ⟨d, hd, rfl, ?_⟩
  rw [BitVec.le_def] at hfirst
  rw [Covers]
  rw [descEnd] at hlast ⊢
  rw [pageSize] at *
  omega

lemma disjoint_of_sorted {descs : List EfiMemoryDescriptor} (h : descs.Pairwise fun d e => descEnd d ≤ e.physicalStart.toNat) :
    ∀ d ∈ descs, ∀ e ∈ descs, ∀ k, Covers d k → Covers e k → d = e := by
  intro d hd e he k hdk hek
  by_contra hne
  have hafter : ∀ {d e : EfiMemoryDescriptor}, descEnd d ≤ e.physicalStart.toNat → Covers d k → ¬ Covers e k := by
    intro d e hle hd he
    have hlast := hd.2
    have hfirst := he.1
    rw [pageSize] at hlast hfirst
    omega
  induction h with
  | nil => cases hd
  | cons hall _ ih =>
    rcases mem_cons.mp hd with rfl | hd' <;> rcases mem_cons.mp he with rfl | he'
    · exact hne rfl
    · exact hafter (hall e he') hdk hek
    · exact hafter (hall d hd') hek hdk
    · exact ih hd' he'

def loaderMap : List EfiMemoryDescriptor :=
  [⟨7, 0x1000, 1⟩, ⟨4, 0x2000, 1⟩, ⟨1, 0x100000, 2⟩, ⟨2, 0x102000, 2⟩, ⟨4, 0x104000, 4⟩, ⟨7, 0x108000, 248⟩]

def loaderBoot : BootInfo := ⟨loaderMap, 0x100000, 0x1800⟩

def loaderData (addr : Word) : LoaderData := ⟨⟨0x102000, 0x300⟩, ⟨0x103000, 0x800⟩, ⟨addr, 0x90⟩⟩

lemma loaderMap_efi : EfiMap loaderMap := by
  refine ⟨?_, disjoint_of_sorted ?_⟩
  · have hall : ∀ d ∈ loaderMap, d.physicalStart.toNat % pageSize = 0 ∧
        d.physicalStart.toNat + d.numPages.toNat * pageSize < 2 ^ 64 := by
      decide
    exact hall
  · have hsorted : loaderMap.Pairwise fun d e =>
        d.physicalStart.toNat + d.numPages.toNat * pageSize ≤ e.physicalStart.toNat := by
      decide
    exact hsorted

lemma loaderMap_lies {d : EfiMemoryDescriptor} (hd : d ∈ loaderMap) (hfirst : d.physicalStart ≤ r.addr)
    (hlast : r.addr.toNat + r.size.toNat ≤ descEnd d) : LiesIn loaderMap d.type r :=
  liesIn_of_mem hd (loaderMap_efi.wellFormed d hd).1 hfirst hlast

lemma loaderBoot_loaded {addr : Word} (hboot : LiesIn loaderMap efiBootServicesData ⟨addr, 0x90⟩) :
    Loaded loaderBoot (loaderData addr) := by
  refine ⟨?_, by decide, by decide, ?_, ?_, hboot⟩
  · exact loaderMap_lies (d := ⟨1, 0x100000, 2⟩) (by simp [loaderMap]) (by decide) (by decide)
  · exact loaderMap_lies (d := ⟨2, 0x102000, 2⟩) (r := ⟨0x102000, 0x300⟩) (by simp [loaderMap]) (by decide) (by decide)
  · exact loaderMap_lies (d := ⟨2, 0x102000, 2⟩) (r := ⟨0x103000, 0x800⟩) (by simp [loaderMap]) (by decide) (by decide)

theorem loader_frames_used_lowStack :
    EfiMap loaderMap ∧ Loaded loaderBoot (loaderData 0x2F00) ∧ ∃ p, pmmInit (fun _ => 0) (fun _ => 0) loaderBoot = some p ∧
      ∀ k < p.bitmapSize * 8, InUse loaderBoot (loaderData 0x2F00) p k → p.isSet k = true := by
  have hloaded : Loaded loaderBoot (loaderData 0x2F00) := by
    apply loaderBoot_loaded
    exact loaderMap_lies (d := ⟨4, 0x2000, 1⟩) (r := ⟨0x2F00, 0x90⟩) (by simp [loaderMap]) (by decide) (by decide)
  refine ⟨loaderMap_efi, hloaded, loader_frames_used _ _ loaderBoot _ loaderMap_efi hloaded ?_ fun k hk => .inl ?_⟩
  · exact ⟨⟨7, 0x1000, 1⟩, by simp [loaderBoot, loaderMap], rfl, by decide⟩
  · have hlast : k * 4096 < 0x2F00 + 0x90 := hk.2
    omega

theorem bootInfo_frame_free :
    EfiMap loaderMap ∧ Loaded loaderBoot (loaderData 0x105F00) ∧ ∃ p, pmmInit (fun _ => 0) (fun _ => 0) loaderBoot = some p ∧
      ∃ k < p.bitmapSize * 8, InUse loaderBoot (loaderData 0x105F00) p k ∧ p.isSet k = false := by
  refine ⟨loaderMap_efi, loaderBoot_loaded ?_, _, rfl, 0x105, by decide +kernel, ?_, by decide +kernel⟩
  · exact loaderMap_lies (d := ⟨4, 0x104000, 4⟩) (r := ⟨0x105F00, 0x90⟩) (by simp [loaderMap]) (by decide) (by decide)
  · exact ⟨⟨0x105F00, 0x90⟩, by simp [loaderData], by decide, by decide⟩

end KernelSmp.Memory.LoaderRegions
