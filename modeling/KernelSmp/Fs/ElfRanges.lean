import KernelSmp.Fs.Elf
import KernelSmp.Memory.KernelHalf

/-! What `elf_load` does to the kernel half. Segments inside the user half only reach tables and pages
of the task; a segment in the kernel half goes through tables that all address spaces share. -/

namespace KernelSmp.Fs

open Base Base.Radix Function Memory Option BitVec

def Elf64Phdr.Mappable (ph : Elf64Phdr) : Prop := ph.pVaddr.toNat % pageSize = 0 ∧ ph.pMemsz ≠ 0

def Elf64Phdr.segEnd (ph : Elf64Phdr) : ℕ := ph.pVaddr.toNat + ph.pMemsz.toNat

def Reaches (image : Mem) (i : ℕ) : Prop :=
  (ehdr image).eIdent = elfMagic ∧ ∀ j < i, (phdr image j).pType = ptLoad → (phdr image j).Mappable

structure InUserHalf (image : Mem) : Prop where
  segments : ∀ i < (ehdr image).ePhnum, Reaches image (i + 1) → (phdr image i).pType = ptLoad →
    (phdr image i).segEnd ≤ 2 ^ 47
  heap : Reaches image (ehdr image).ePhnum → ∀ i < (ehdr image).ePhnum, (phdr image i).pType = ptLoad →
    (phdr image i).segEnd < 2 ^ 47 - 4 * pageSize

structure Guarded (m₀ : Mem) (k : Kernel) : Prop where
  sound : k.Sound
  frozen : Frozen m₀ (kernelTables m₀ (frameIndex k.kernelPml4)) k

structure KernelKept (m₀ : Mem) (K : Set ℕ) (k : Kernel) : Prop where
  sound : k.Sound
  frozen : Frozen m₀ K k
  tables : kernelTables m₀ (frameIndex k.kernelPml4) ⊆ K

section copy

variable {m₀ : Mem} {K : Set ℕ} {k : Kernel} {t : ℕ}

lemma put_vm (k : Kernel) (t : ℕ) (s : Vm) : (k.put t s).vm t = s := by
  simp [Kernel.put, Kernel.vm]

lemma put_task (k : Kernel) (t : ℕ) (s : Vm) : (k.put t s).tasks t = s.task := by
  simp [Kernel.put]

lemma put_put (k : Kernel) (t : ℕ) (s s' : Vm) : (k.put t s).put t s' = k.put t s' := by
  simp [Kernel.put]

lemma put_self (k : Kernel) (t : ℕ) : k.put t (k.vm t) = k := by
  simp [Kernel.put, Kernel.vm]

lemma Guarded.kept (h : Guarded m₀ k) : KernelKept m₀ (kernelTables m₀ (frameIndex k.kernelPml4)) k :=
  ⟨h.sound, h.frozen, subset_rfl⟩

lemma KernelKept.put (h : KernelKept m₀ K k) {s : Vm} (hs : k.Updates t s) : KernelKept m₀ K (k.put t s) :=
  ⟨h.sound.put hs, h.frozen.put h.sound hs, h.tables⟩

lemma writePages_updates (h : k.Sound) {m : Mem} {W : Set ℕ} (hsame : ∀ g, g ∉ W → tables m g = tables k.mem g)
    (hW : ∀ g ∈ W, ∃ p, UserPath p ∧ p.length = 4 ∧ role k.roots (tables k.mem) t p = some g) :
    k.Updates t { k.vm t with mem := m } := by
  have htable : ∀ r p g, UserPath p → p.length < 4 → role k.roots (tables k.mem) r p = some g → g ∉ W := by
    intro r p g hp hlen hr hg
    obtain ⟨q, hq, hqlen, hrq⟩ := hW g hg
    obtain ⟨-, rfl⟩ := h.spaces.wired.separate r p t q g hp hq hr hrq
    omega
  have hrows : ∀ r p g j, UserPath (j :: p) → role k.roots (tables k.mem) r p = some g →
      tables m g j = tables k.mem g j := by
    intro r p g j hjp hr
    have hlen := hjp.length_le
    rw [List.length_cons] at hlen
    rw [hsame g (htable r p g (UserPath.tail j p hjp) (by omega) hr)]
  refine ⟨rfl, ⟨h.spaces.small, h.spaces.wired.congr hrows⟩, fun g hg _ => hg, fun g j _ ho => ?_, fun r p f hp _ hr => ?_⟩
  · have hout : g ∉ W := by
      intro hg
      obtain ⟨q, hq, hqlen, hrq⟩ := hW g hg
      obtain ⟨rfl, -⟩ := ho t q hq hrq
      cases hqlen
    exact congrFun (hsame g hout) j
  · rwa [role_congr UserPath.tail hrows r hp] at hr

lemma tables_copy_other (m image : Mem) {f g b c n : ℕ} (hg : g < f ∨ f + c ≤ g) (hn : n ≤ c * pageSize) :
    tables (m.copy (pageSize * f) image b n) g = tables m g := by
  funext j
  rw [tables, tables, Mem.load64_copy_disjoint]
  rw [pageSize] at *
  omega

lemma chunk_toNat {filesz copied n : Word} (hlt : copied < filesz)
    (hn : (if BitVec.ofNat 64 pageSize > filesz - copied then filesz - copied else BitVec.ofNat 64 pageSize) = n) :
    n.toNat = min pageSize (filesz.toNat - copied.toNat) ∧ (copied + n).toNat = copied.toNat + n.toNat := by
  have hrest := toNat_sub_of_le (le_def.mpr hlt.le)
  have hpage : (BitVec.ofNat 64 pageSize).toNat = pageSize := rfl
  have hvalue : n.toNat = min pageSize (filesz.toNat - copied.toNat) := by
    split_ifs at hn with hlast
    · rw [gt_iff_lt, lt_def, hrest, hpage] at hlast
      rw [← hn, hrest, min_eq_right hlast.le]
    · rw [gt_iff_lt, lt_def, hrest, hpage, not_lt] at hlast
      rw [← hn, hpage, min_eq_left hlast]
  exact ⟨hvalue, toNat_add_of_lt (by omega)⟩

section rule

variable (image : Mem) (src filesz : Word) {vaddr : Word} {s : Vm} {I : Vm → Word → Prop}

lemma elfCopySegment_rule (haligned : vaddr.toNat % pageSize = 0)
    (hstep : ∀ s c n, I s c → c.toNat < filesz.toNat → (vaddr + c).toNat % pageSize = 0 → c.toNat % pageSize = 0 →
      n.toNat = min pageSize (filesz.toNat - c.toNat) → (c + n).toNat = c.toNat + n.toNat →
      vmmVirtualToPhysical s.mem s.task.cr3 (vaddr + c) ≠ 0 →
      I { s with mem := s.mem.copy (vmmVirtualToPhysical s.mem s.task.cr3 (vaddr + c)).toNat image (src + c).toNat n.toNat }
        (c + n))
    (h : I s 0) :
    ∃ s' c, elfCopySegment image vaddr src filesz walkFuel s 0 = some s' ∧ I s' c ∧ c.toNat ≤ filesz.toNat ∧
      (c.toNat < filesz.toNat → (vaddr + c).toNat % pageSize = 0 ∧ vmmVirtualToPhysical s'.mem s'.task.cr3 (vaddr + c) = 0) := by
  have hloop : ∀ fuel s c, I s c → c.toNat ≤ filesz.toNat → (c.toNat < filesz.toNat → c.toNat % pageSize = 0) →
      filesz.toNat < c.toNat + fuel →
      ∃ s' c', elfCopySegment image vaddr src filesz fuel s c = some s' ∧ I s' c' ∧ c'.toNat ≤ filesz.toNat ∧
        (c'.toNat < filesz.toNat →
          (vaddr + c').toNat % pageSize = 0 ∧ vmmVirtualToPhysical s'.mem s'.task.cr3 (vaddr + c') = 0) := by
    intro fuel
    induction fuel with
    | zero =>
      intro s c _ _ _ hfuel
      omega
    | succ fuel ih =>
      intro s c h hle hpage hfuel
      rw [elfCopySegment]
      by_cases hlt : c < filesz
      swap
      · exact ⟨s, c, if_neg hlt, h, hle, fun hlt' => absurd (lt_def.mpr hlt') hlt⟩
      have hlt' := lt_def.mp hlt
      have hc := hpage hlt'
      have hcurr : (vaddr + c).toNat % pageSize = 0 := by
        rw [pageSize] at *
        rw [BitVec.toNat_add]
        omega
      have hoffset : (vaddr + c) % BitVec.ofNat 64 pageSize = 0#64 := by
        apply eq_of_toNat_eq
        rw [toNat_umod]
        exact hcurr
      simp only [if_pos hlt, hoffset, BitVec.sub_zero, BitVec.add_zero]
      by_cases hphys : vmmVirtualToPhysical s.mem s.task.cr3 (vaddr + c) = 0
      · exact ⟨s, c, if_pos hphys, h, hle, fun _ => ⟨hcurr, hphys⟩⟩
      generalize hn : (if BitVec.ofNat 64 pageSize > filesz - c then filesz - c else BitVec.ofNat 64 pageSize) = n
      obtain ⟨hchunk, hnext⟩ := chunk_toNat hlt hn
      rw [if_neg hphys]
      refine ih _ _ (hstep s c n h hlt' hcurr hc hchunk hnext hphys) ?_ (fun hmore => ?_) ?_
      all_goals
        rw [pageSize] at *
        omega
  exact hloop walkFuel s 0 h (Nat.zero_le _) (fun _ => rfl) (filesz.isLt.trans_le (Nat.le_add_left _ _))

end rule

lemma elfCopySegment_kept {image : Mem} {vaddr src filesz : Word} (haligned : vaddr.toNat % pageSize = 0) {s₀ s : Vm}
    (h : KernelKept m₀ K (k.put t s₀)) (ht : s₀.task.cr3 ≠ 0)
    (hdirect : vmmVirtualToPhysical m₀ k.kernelPml4 hhdmOffset = 0) (huser : vaddr.toNat ≤ 2 ^ 47)
    (hcopy : elfCopySegment image vaddr src filesz walkFuel s₀ 0 = some s) :
    KernelKept m₀ K (k.put t s) ∧ s.task = s₀.task := by
  have hrule := elfCopySegment_rule image src filesz haligned
    (I := fun s c => (KernelKept m₀ K (k.put t s) ∧ s.task = s₀.task) ∧ (c.toNat < filesz.toNat → vaddr.toNat + c.toNat ≤ 2 ^ 47))
    ?_ ⟨⟨h, rfl⟩, fun _ => huser⟩
  · obtain ⟨_, c, hs', hkept, -⟩ := hrule
    cases hs'.symm.trans hcopy
    exact hkept.1
  intro s c n hinv hlt hcurr hc hchunk hnext hphys
  obtain ⟨⟨h, htask⟩, hend⟩ := hinv
  have hsum : (vaddr + c).toNat = vaddr.toNat + c.toNat := toNat_add_of_lt (by omega)
  have hroots : ((k.put t s).tasks t).cr3 ≠ 0 := by rwa [put_task, htask]
  obtain ⟨_, _, hcr3, hroot⟩ := h.sound.root hroots
  rw [put_task] at hcr3
  have hhalf : (vaddr + c).toNat < 2 ^ 47 := by
    by_contra hhigh
    have hfirst : vaddr + c = 2 ^ 47 := by
      apply eq_of_toNat_eq
      change _ = 2 ^ 47
      omega
    have hzero := ((h.frozen.taskHalf h.sound h.tables hroots) (2 ^ 47) (by decide)).1
    rw [put_task] at hzero
    rw [hfirst] at hphys
    exact hphys (hzero.trans hdirect)
  have hpath := userPath_of_lt hhalf
  rcases h.sound.spaces.wired.walk_cases hroot (UserPath.tail _ _ hpath) with ⟨-, hnone, -⟩ | ⟨e, hleaf, haddr, -⟩
  · rw [← hcr3] at hnone
    exact absurd hnone hphys
  have hlow : (vaddr + c) &&& 0xFFF = 0#64 := (Word.and_low_eq_zero 12 (by decide)).mpr hcurr
  rw [hlow, BitVec.add_zero, and_addrMask, ← hcr3] at haddr
  have hrole : role (k.put t s).roots (tables (k.put t s).mem) t (leafPath (vaddr + c)) = some (frameOf e) := by
    rw [role_leafPath, hleaf, map_some]
  have hupdate := writePages_updates h.sound (m := s.mem.copy (pageSize * frameOf e) image (src + c).toNat n.toNat)
    (fun g hg => tables_copy_other s.mem image (c := 1) (Nat.lt_or_gt_of_ne hg) (by omega)) (by
      rintro _ rfl
      exact ⟨_, hpath, rfl, hrole⟩)
  have hput := h.put hupdate
  rw [put_put, put_vm] at hput
  refine ⟨⟨?_, htask⟩, fun _ => by rw [pageSize] at *; omega⟩
  rwa [show vmmVirtualToPhysical s.mem s.task.cr3 (vaddr + c) = _ from haddr,
    frameAddr_toNat ((frameOf_lt e).trans (show 2 ^ 28 < 2 ^ 52 by decide))]

end copy

section load

variable {m₀ image : Mem} {K : Set ℕ} {t : ℕ} {cpu : Option ℕ} {kmalloc : ℕ → Option Word}

lemma vmaMap_refuses {s : Vm} {malloc : Option Word} {ph : Elf64Phdr} {flags : BitVec 32} (h : ¬ ph.Mappable) :
    vmaMap s cpu malloc ph.pVaddr ph.pMemsz flags = some (-1, s) := by
  rw [vmaMap]
  split
  · rfl
  rename_i hsize
  have haligned : ph.pVaddr &&& 0xFFF ≠ 0 := fun hz => h ⟨(Word.and_low_eq_zero 12 (by decide)).mp hz, hsize⟩
  exact if_pos haligned

def SegmentEnd (image : Mem) (i : ℕ) (maxVaddr : Word) : Prop :=
  maxVaddr = 0 ∨ ∃ j < i, (phdr image j).pType = ptLoad ∧ maxVaddr = (phdr image j).pVaddr + (phdr image j).pMemsz

lemma SegmentEnd.succ {i : ℕ} {maxVaddr : Word} (h : SegmentEnd image i maxVaddr) : SegmentEnd image (i + 1) maxVaddr := by
  rcases h with h | ⟨j, hj, hend⟩
  · exact .inl h
  · exact .inr ⟨j, by omega, hend⟩

lemma loadSegments_kept (himage : InUserHalf image) (fuel : ℕ) {i : ℕ} (hi : i + fuel = (ehdr image).ePhnum)
    {k : Kernel} {maxVaddr : Word} {res : Option Word × Vm} (h : KernelKept m₀ K k) (ht : (k.tasks t).cr3 ≠ 0)
    (hdirect : vmmVirtualToPhysical m₀ k.kernelPml4 hhdmOffset = 0) (hreach : Reaches image i)
    (hmax : SegmentEnd image i maxVaddr)
    (hload : loadSegments image cpu kmalloc fuel i (k.vm t) maxVaddr = some res) :
    KernelKept m₀ K (k.put t res.2) ∧ res.2.task.cr3 = (k.tasks t).cr3 ∧
    ∀ last, res.1 = some last → Reaches image (ehdr image).ePhnum ∧ SegmentEnd image (ehdr image).ePhnum last := by
  induction fuel generalizing i k maxVaddr with
  | zero =>
    cases hload
    obtain rfl : i = (ehdr image).ePhnum := hi
    rw [put_self]
    refine ⟨h, rfl, ?_⟩
    rintro _ ⟨⟩
    exact ⟨hreach, hmax⟩
  | succ fuel ih =>
    have hnext : ((phdr image i).pType = ptLoad → (phdr image i).Mappable) → Reaches image (i + 1) := by
      intro hok
      refine ⟨hreach.1, fun j hj hj' => ?_⟩
      rcases Nat.lt_succ_iff_lt_or_eq.mp hj with hj | rfl
      · exact hreach.2 j hj hj'
      · exact hok hj'
    rw [loadSegments] at hload
    split at hload
    swap
    · rename_i htype
      exact ih (by omega) h ht hdirect (hnext fun hload => absurd hload htype) hmax.succ hload
    rename_i htype
    simp only [bind_eq_bind, bind_eq_some_iff] at hload
    obtain ⟨⟨_, s₁⟩, hmap, hload⟩ := hload
    by_cases hmappable : (phdr image i).Mappable
    swap
    · rw [vmaMap_refuses hmappable] at hmap
      cases hmap
      cases hload
      rw [put_self]
      refine ⟨h, rfl, ?_⟩
      rintro _ ⟨⟩
    have hreach' := hnext fun _ => hmappable
    have hseg := himage.segments i (by omega) hreach' htype
    rw [Elf64Phdr.segEnd] at hseg
    have hupdate := vmaMap_updates h.sound ht hseg hmap
    have h₁ := h.put hupdate
    split at hload
    · cases hload
      refine ⟨h₁, hupdate.cr3, ?_⟩
      rintro _ ⟨⟩
    obtain ⟨s₂, hcopy, hload⟩ := bind_eq_some_iff.mp hload
    have ht₁ : s₁.task.cr3 ≠ 0 := by
      rwa [hupdate.cr3]
    obtain ⟨h₂, htask₂⟩ := elfCopySegment_kept hmappable.1 h₁ ht₁ hdirect (by omega) hcopy
    have hcr3 : s₂.task.cr3 = (k.tasks t).cr3 := by
      rw [htask₂, hupdate.cr3]
    rw [← put_vm k t s₂] at hload
    have hmax₂ : SegmentEnd image (i + 1) (if (phdr image i).pVaddr + (phdr image i).pMemsz > maxVaddr then
        (phdr image i).pVaddr + (phdr image i).pMemsz else maxVaddr) := by
      split
      · exact .inr ⟨i, by omega, htype, rfl⟩
      · exact hmax.succ
    obtain ⟨h₃, hcr3', hmax'⟩ := ih (by omega) h₂ (by rwa [put_task, hcr3]) hdirect hreach' hmax₂ hload
    rw [put_put] at h₃
    exact ⟨h₃, hcr3'.trans (by rw [put_task, hcr3]), hmax'⟩

lemma InUserHalf.heapStart (himage : InUserHalf image) (hreach : Reaches image (ehdr image).ePhnum) {maxVaddr : Word}
    (hmax : SegmentEnd image (ehdr image).ePhnum maxVaddr) (s : Vm) :
    (initHeap s maxVaddr).task.heapStart.toNat + 4 * pageSize ≤ 2 ^ 47 := by
  have hmask : (initHeap s maxVaddr).task.heapStart =
      (maxVaddr + BitVec.ofNat 64 pageSize) &&& BitVec.ofNat 64 ((2 ^ 52 - 1) * 2 ^ 12) := rfl
  have hbound : maxVaddr.toNat < 2 ^ 47 - 4 * pageSize := by
    rcases hmax with rfl | ⟨j, hj, htype, rfl⟩
    · decide
    · have hend := himage.heap hreach j hj htype
      rw [Elf64Phdr.segEnd] at hend
      rw [BitVec.toNat_add]
      omega
  rw [hmask, Word.toNat_and_field _ 12 52 (by decide), BitVec.toNat_add, toNat_ofNat]
  rw [pageSize] at *
  omega

lemma elfLoad_kept (himage : InUserHalf image) {k : Kernel} {entry : Word} {s : Vm} (h : KernelKept m₀ K k)
    (ht : (k.tasks t).cr3 ≠ 0) (hdirect : vmmVirtualToPhysical m₀ k.kernelPml4 hhdmOffset = 0)
    (hload : elfLoad image cpu kmalloc (k.vm t) = some (entry, s)) :
    KernelKept m₀ K (k.put t s) ∧ s.task.cr3 = (k.tasks t).cr3 := by
  rw [elfLoad] at hload
  split at hload
  · cases hload
    rw [put_self]
    exact ⟨h, rfl⟩
  rename_i hmagic
  simp only [bind_eq_bind, bind_eq_some_iff] at hload
  obtain ⟨⟨maxVaddr, s₁⟩, hsegs, hload⟩ := hload
  obtain ⟨h₁, hcr3, hmax⟩ := loadSegments_kept himage _ (by omega) h ht hdirect
    ⟨not_not.mp hmagic, fun j hj => absurd hj (Nat.not_lt_zero j)⟩ (.inl rfl) hsegs
  cases maxVaddr with
  | none =>
    cases hload
    exact ⟨h₁, hcr3⟩
  | some maxVaddr =>
    obtain ⟨hreach, hend⟩ := hmax maxVaddr rfl
    have hheap := himage.heapStart hreach hend s₁
    have h₂ : KernelKept m₀ K (k.put t (initHeap s₁ maxVaddr)) := by
      have hpages : (k.put t s₁).Updates t (initHeap s₁ maxVaddr) :=
        (h₁.sound.updates_self t).of_pages (by rw [put_vm]; rfl)
      have hput := h₁.put hpages
      rwa [put_put] at hput
    obtain ⟨⟨code, s₃⟩, _, hload⟩ := bind_eq_some_iff.mp hload
    obtain ⟨-, rfl⟩ := Prod.mk.inj (Option.some.inj hload)
    have hcr3₂ : ((k.put t (initHeap s₁ maxVaddr)).tasks t).cr3 = (k.tasks t).cr3 := by
      rwa [put_task]
    have hmap₂ : vmaMap ((k.put t (initHeap s₁ maxVaddr)).vm t) cpu (kmalloc (ehdr image).ePhnum)
        (initHeap s₁ maxVaddr).task.heapStart (4 * BitVec.ofNat 64 pageSize)
        (vmaRead ||| vmaWrite ||| vmaUser ||| vmaHeap) = some (code, s₃) := by
      rwa [put_vm]
    have hupdate := vmaMap_updates h₂.sound (by rwa [hcr3₂]) hheap hmap₂
    have h₃ := h₂.put hupdate
    rw [put_put] at h₃
    exact ⟨h₃, hupdate.cr3.trans hcr3₂⟩

end load


section runs

inductive Action
  | call (c : Isolation.Call)
  | load (t : ℕ) (cpu : Option ℕ) (kmalloc : ℕ → Option Word) (image : Mem)

def step (k : Kernel) : Action → Option Kernel
  | .call c => Isolation.step k c
  | .load t cpu kmalloc image =>
    if (k.tasks t).cr3 = 0 then none else (elfLoad image cpu kmalloc (k.vm t)).map fun res => k.put t res.2

def Action.Allowed : Action → Prop
  | .call c => c.Allowed
  | .load _ _ _ image => InUserHalf image

structure BootedHalf (k : Kernel) : Prop extends Isolation.Booted k where
  tables : ∀ g ∈ kernelTables k.mem (frameIndex k.kernelPml4), k.pmm.isSet g = true ∧ g ∉ k.heap
  direct : vmmVirtualToPhysical k.mem k.kernelPml4 hhdmOffset = 0

variable {k₀ k k' : Kernel}

structure Since (k₀ k : Kernel) : Prop extends Guarded k₀.mem k where
  pml4 : k.kernelPml4 = k₀.kernelPml4

lemma since_boot (h : BootedHalf k₀) (hsmall : k₀.pmm.Small) : Since k₀ k₀ := by
  have hsound := Isolation.booted_sound h.toBooted hsmall
  have hroots : ∀ t, k₀.roots t = none := fun t => if_pos (h.noTask t)
  refine ⟨⟨hsound, fun g hg => ⟨(h.tables g hg).1, fun t p _ hr => ?_⟩, fun g hg => (h.tables g hg).2, fun _ _ => rfl,
    ⟨[], ⟨by decide, fun i hi => by cases hi⟩, role_nil⟩, fun t g hg => ?_⟩, rfl⟩
  · simp [look, hroots] at hr
  · simp [hroots] at hg

lemma step_since (hboot : BootedHalf k₀) (h : Since k₀ k) {a : Action} (ha : a.Allowed) (hstep : step k a = some k') :
    Since k₀ k' := by
  cases a with
  | call =>
    have hpml4 := step_kernelPml4 hstep
    refine ⟨⟨Isolation.step_sound h.sound ha hstep, ?_⟩, hpml4.trans h.pml4⟩
    rw [hpml4]
    exact step_frozen h.frozen h.sound ha hstep
  | load =>
    simp only [step, ite_none_left_eq_some, map_eq_some_iff, Prod.exists] at hstep
    obtain ⟨ht, _, _, hload, rfl⟩ := hstep
    have hdirect := hboot.direct
    rw [← h.pml4] at hdirect
    have hkept := (elfLoad_kept ha h.toGuarded.kept ht hdirect hload).1
    exact ⟨⟨hkept.sound, hkept.frozen⟩, h.pml4⟩

lemma load_cr3 (hboot : BootedHalf k₀) (h : Since k₀ k) {t : ℕ} {cpu : Option ℕ} {kmalloc : ℕ → Option Word} {image : Mem}
    (himage : InUserHalf image) (hload : step k (.load t cpu kmalloc image) = some k') (t' : ℕ) :
    (k'.tasks t').cr3 = (k.tasks t').cr3 := by
  simp only [step, ite_none_left_eq_some, map_eq_some_iff, Prod.exists] at hload
  obtain ⟨ht, _, _, hload, rfl⟩ := hload
  have hdirect := hboot.direct
  rw [← h.pml4] at hdirect
  by_cases htt : t' = t
  · rw [htt, put_task]
    exact (elfLoad_kept himage h.toGuarded.kept ht hdirect hload).2
  · simp only [Kernel.put, update_of_ne htt]

theorem elfLoad_keeps_kernelHalf {acts : List Action} (hboot : BootedHalf k₀) (hsmall : k₀.pmm.bitmapSize * 8 ≤ 2 ^ 28)
    (hacts : ∀ a ∈ acts, a.Allowed) (hrun : Runs.run step k₀ acts = some k) {t : ℕ} {cpu : Option ℕ}
    {kmalloc : ℕ → Option Word} {image : Mem} (himage : InUserHalf image)
    (hload : step k (.load t cpu kmalloc image) = some k') :
    SameKernelHalf k.mem k'.mem k.kernelPml4 k.kernelPml4 ∧
    ∀ t', (k.tasks t').cr3 ≠ 0 → SameKernelHalf k.mem k'.mem (k.tasks t').cr3 (k.tasks t').cr3 := by
  have hruns : Runs.Always step (Since k₀) k₀ acts :=
    Runs.invariant (fun _ _ _ h ha hstep => step_since hboot h ha hstep) (since_boot hboot hsmall)
      (Runs.guarded_of_forall hacts k₀)
  have hbefore := hruns.last hrun
  have hafter := step_since hboot hbefore (a := .load t cpu kmalloc image) himage hload
  have hpml4 : k'.kernelPml4 = k.kernelPml4 := hafter.pml4.trans hbefore.pml4.symm
  refine ⟨?_, fun t' ht' => ?_⟩
  · have hsame := hafter.frozen.kernelHalf hafter.sound subset_rfl
    rw [hpml4] at hsame
    exact (hbefore.frozen.kernelHalf hbefore.sound subset_rfl).symm.trans hsame
  · have hcr3 := load_cr3 hboot hbefore himage hload t'
    have hsame := hafter.frozen.taskHalf hafter.sound subset_rfl (t := t') (by rwa [hcr3])
    rw [hpml4, hcr3] at hsame
    exact (hbefore.frozen.taskHalf hbefore.sound subset_rfl ht').symm.trans hsame

def program (vaddr filesz memsz : Word) : Mem :=
  let m := Mem.store64 (Mem.store32 (fun _ => 0) 0 0x464C457F) 24 vaddr
  let m := (m.store64 32 64).writeLE 56 1 2
  let m := ((m.store32 64 ptLoad).store32 68 7).store64 80 vaddr
  (m.store64 96 filesz).store64 104 memsz

def kernelMem : Mem :=
  let m := setEntry (fun _ => 0) (frameAddr 2) 511 (tableEntry 3)
  let m := setEntry m (frameAddr 3) 510 (tableEntry 4)
  let m := setEntry m (frameAddr 4) 0 (tableEntry 5)
  setEntry m (frameAddr 5) 0 (leafEntry (frameAddr 6) pteWritable)

def smallKernel : Kernel := { Isolation.bootedWith 0xFF 0 64 with mem := kernelMem }

lemma role_mem {m : Mem} {root f : ℕ} {S : Set ℕ} {p : List Index} (hroot : root ∈ S)
    (hclosed : ∀ g j f, target (tables m g j) = some f → f ∈ S)
    (hr : role (fun _ : Unit => some root) (tables m) () p = some f) : f ∈ S := by
  cases p with
  | nil =>
    rw [role_nil, Option.some.injEq] at hr
    rwa [← hr]
  | cons i =>
    rw [role, look_cons, bind_eq_some_iff] at hr
    obtain ⟨g, -, ht⟩ := hr
    exact hclosed g i f ht

lemma targets_setEntry {m : Mem} {S : Set ℕ} (h : ∀ g j f, target (tables m g j) = some f → f ∈ S) {r : ℕ}
    (hr : r < 2 ^ 52) {i : Index} {e : Word} (he : ∀ f, target e = some f → f ∈ S) :
    ∀ g j f, target (tables (setEntry m (frameAddr r) i e) g j) = some f → f ∈ S := by
  intro g j f hf
  rw [tables_setEntry m hr] at hf
  by_cases hat : g = r ∧ j = i
  · obtain ⟨rfl, rfl⟩ := hat
    rw [set_self] at hf
    exact he f hf
  · rw [set_of_ne _ _ hat] at hf
    exact h g j f hf

lemma kernelMem_targets : ∀ g j f, target (tables kernelMem g j) = some f → f ∈ ({2, 3, 4, 5, 6} : Set ℕ) := by
  have hzero : ∀ g j f, target (tables (fun _ => 0) g j) = some f → f ∈ ({2, 3, 4, 5, 6} : Set ℕ) := by
    intro g j f hf
    simp [tables, Mem.load64, Mem.readLE, target, isPresent] at hf
  have hentry : ∀ {f e}, target e = some f → f ∈ ({2, 3, 4, 5, 6} : Set ℕ) →
      ∀ f', target e = some f' → f' ∈ ({2, 3, 4, 5, 6} : Set ℕ) := by
    intro f e he hf f' hf'
    rw [he, Option.some.injEq] at hf'
    rwa [← hf']
  have h₂ := targets_setEntry hzero (by decide : 2 < 2 ^ 52) (i := 511)
      (hentry (tableEntry_target (by decide : 3 < 2 ^ 28)) (by simp))
  have h₃ := targets_setEntry h₂ (by decide : 3 < 2 ^ 52) (i := 510)
      (hentry (tableEntry_target (by decide : 4 < 2 ^ 28)) (by simp))
  have h₄ := targets_setEntry h₃ (by decide : 4 < 2 ^ 52) (i := 0)
      (hentry (tableEntry_target (by decide : 5 < 2 ^ 28)) (by simp))
  exact targets_setEntry h₄ (by decide : 5 < 2 ^ 52)
    (hentry (show target (leafEntry (frameAddr 6) pteWritable) = some 6 by decide +kernel) (by simp))

lemma kernelMem_role {p : List Index} {f : ℕ}
    (hr : role (fun _ : Unit => some (frameIndex smallKernel.kernelPml4)) (tables smallKernel.mem) () p = some f) :
    f ∈ [2, 3, 4, 5, 6] := by
  have hroot : frameIndex smallKernel.kernelPml4 ∈ ({2, 3, 4, 5, 6} : Set ℕ) := .inl rfl
  simpa using role_mem hroot kernelMem_targets hr

lemma kernelMem_booted {p : Pmm} (hused : ∀ g ∈ [2, 3, 4, 5, 6], p.isSet g = true) :
    BootedHalf { smallKernel with pmm := p } where
  noTask _ := rfl
  kernel := ⟨2, by decide, rfl, hused 2 (by decide)⟩
  heap f hf := by cases hf
  tables g hg := by
    obtain ⟨_, -, hr⟩ := hg
    exact ⟨hused g (kernelMem_role hr), List.not_mem_nil⟩
  direct := show vmmVirtualToPhysical kernelMem (frameAddr 2) hhdmOffset = 0 by decide +kernel

lemma smallKernel_booted : BootedHalf smallKernel := kernelMem_booted (by decide +kernel)

lemma program_inUserHalf : InUserHalf (program 0x400000 0x800 0x1000) := by
  have hone : ∀ i < (ehdr (program 0x400000 0x800 0x1000)).ePhnum,
      (phdr (program 0x400000 0x800 0x1000) i).segEnd < 2 ^ 47 - 4 * pageSize := by
    decide +kernel
  exact ⟨fun i hi _ _ => (hone i hi).le.trans (by decide), fun _ i hi _ => hone i hi⟩

theorem elfLoad_keeps_kernelHalf_small :
    ∃ k k', Runs.run step smallKernel [.call (.create 0 none), .call (.create 1 none)] = some k ∧
      step k (.load 0 none (fun _ => some 0x8000) (program 0x400000 0x800 0x1000)) = some k' ∧
      SameKernelHalf k.mem k'.mem k.kernelPml4 k.kernelPml4 := by
  obtain ⟨k, hrun, k', hload, -⟩ : ∃ k ∈ Runs.run step smallKernel [.call (.create 0 none), .call (.create 1 none)],
      ∃ k' ∈ step k (.load 0 none (fun _ => some 0x8000) (program 0x400000 0x800 0x1000)), True := by
    decide +kernel
  have hacts : ∀ a ∈ [Action.call (.create 0 none), .call (.create 1 none)], a.Allowed := by
    simp [Action.Allowed, Isolation.Call.Allowed]
  exact ⟨k, k', hrun, hload,
    (elfLoad_keeps_kernelHalf smallKernel_booted (by decide) hacts hrun program_inUserHalf hload).1⟩

theorem elfLoad_opens_kernel_page :
    BootedHalf smallKernel ∧
    ∃ k k', Runs.run step smallKernel [.call (.create 0 none)] = some k ∧
      step k (.load 0 none (fun i => if i = 0 then some 0x8000 else none) (program 0xFFFFFFFF80000000 0 0x1000)) = some k' ∧
      vmmVirtualToPhysical k.mem k.kernelPml4 0xFFFFFFFF80000000 = 0x6000 ∧
      vmmVirtualToPhysical k'.mem k.kernelPml4 0xFFFFFFFF80000000 = 0x101000 ∧
      effectivePermission k.mem k.kernelPml4 0xFFFFFFFF80000000 = some ⟨true, false, false⟩ ∧
      effectivePermission k'.mem k.kernelPml4 0xFFFFFFFF80000000 = some ⟨true, true, false⟩ := by
  refine ⟨smallKernel_booted, ?_⟩
  simp only [exists_and_left]
  decide +kernel

end runs

end KernelSmp.Fs
