import KernelSmp.Memory.Teardown
import KernelSmp.Memory.VmaPages

/-! The memory of the whole kernel: the tasks' address spaces, the frame allocator, the descriptors
and the frames of the kernel heap. -/

namespace KernelSmp.Memory

open Base Base.Radix Function

structure Kernel where
  mem : Mem
  pmm : Pmm
  areas : Word → VmaArea
  tasks : ℕ → TaskVm
  kernelPml4 : Word
  heap : List ℕ

namespace Kernel

def vm (k : Kernel) (t : ℕ) : Vm := ⟨k.areas, k.tasks t, k.mem, k.pmm⟩

def put (k : Kernel) (t : ℕ) (s : Vm) : Kernel :=
  { k with mem := s.mem, pmm := s.pmm, areas := s.areas, tasks := update k.tasks t s.task }

def rootOf (cr3 : Word) : Option ℕ := if cr3 = 0 then none else some (frameIndex cr3)

def roots (k : Kernel) (t : ℕ) : Option ℕ := rootOf (k.tasks t).cr3

structure Sound (k : Kernel) : Prop where
  spaces : Spaces k.roots k.mem k.pmm
  aligned : ∀ t, ∃ f, f < 2 ^ 52 ∧ (k.tasks t).cr3 = frameAddr f
  kernel : ∃ g, g < 2 ^ 52 ∧ k.kernelPml4 = frameAddr g ∧ g ∈ usedFrames k.pmm ∧ Unlinked k.roots UserPath (tables k.mem) g
  heap : ∀ f ∈ k.heap, f ∈ usedFrames k.pmm ∧ Unlinked k.roots UserPath (tables k.mem) f

variable {k : Kernel} {t : ℕ}

lemma roots_put (s : Vm) : (k.put t s).roots = update k.roots t (rootOf s.task.cr3) := by
  funext t'
  rcases eq_or_ne t' t with rfl | ht
  · simp [roots, put]
  · simp [roots, put, update_of_ne ht]

variable {s : Vm}

lemma roots_put_same (h : s.task.cr3 = (k.tasks t).cr3) : (k.put t s).roots = k.roots := by
  rw [roots_put, h]
  exact update_eq_self t k.roots

lemma Sound.root (h : k.Sound) (ht : (k.tasks t).cr3 ≠ 0) :
    ∃ f, f < 2 ^ 52 ∧ (k.tasks t).cr3 = frameAddr f ∧ k.roots t = some f := by
  obtain ⟨f, hf, hcr3⟩ := h.aligned t
  refine ⟨f, hf, hcr3, ?_⟩
  rw [roots, rootOf, if_neg ht, hcr3, frameIndex_frameAddr' hf]

structure Updates (k : Kernel) (t : ℕ) (s : Vm) : Prop where
  cr3 : s.task.cr3 = (k.tasks t).cr3
  spaces : Spaces k.roots s.mem s.pmm
  used : ∀ g ∈ usedFrames k.pmm, Unlinked k.roots UserPath (tables k.mem) g → g ∈ usedFrames s.pmm
  evolves : Evolves k.roots UserPath (usedFrames k.pmm) (tables k.mem) (tables s.mem)

lemma Updates.of_pages {s' : Vm} (hs : k.Updates t s) (h : s'.pages = s.pages) : k.Updates t s' := by
  obtain ⟨hm, hrest⟩ := Prod.mk.inj h
  obtain ⟨hp, hc⟩ := Prod.mk.inj hrest
  refine ⟨hc.trans hs.cr3, ?_, ?_, ?_⟩
  · rw [hm, hp]
    exact hs.spaces
  · rw [hp]
    exact hs.used
  · rw [hm]
    exact hs.evolves

lemma Sound.updates_self (h : k.Sound) (t : ℕ) : k.Updates t (k.vm t) := ⟨rfl, h.spaces, fun _ hg _ => hg, Evolves.refl⟩

lemma Sound.put (h : k.Sound) (hs : k.Updates t s) : (k.put t s).Sound := by
  have hroots := roots_put_same hs.cr3
  have hkeep : ∀ g ∈ usedFrames k.pmm, Unlinked k.roots UserPath (tables k.mem) g →
      g ∈ usedFrames s.pmm ∧ Unlinked k.roots UserPath (tables s.mem) g :=
    fun g hg hu => ⟨hs.used g hg hu, hs.evolves.unlinked hg hu⟩
  refine ⟨?_, fun t' => ?_, ?_, fun f hf => ?_⟩
  · rw [hroots]
    exact hs.spaces
  · rcases eq_or_ne t' t with rfl | ht
    · simp only [Kernel.put, update_self, hs.cr3]
      exact h.aligned t'
    · simp only [Kernel.put, update_of_ne ht]
      exact h.aligned t'
  · obtain ⟨g, hg, hkernel, hused, hun⟩ := h.kernel
    rw [hroots]
    exact ⟨g, hg, hkernel, hkeep g hused hun⟩
  · rw [hroots]
    exact hkeep f (h.heap f hf).1 (h.heap f hf).2

end Kernel

variable {R : Type} {roots : R → Option ℕ} {m : Mem} {p q : Pmm} {count : ℕ}

section runs

lemma roundUp_toNat {size : Word} (h : size.toNat + 4095 < 2 ^ 64) :
    (roundUp size).toNat = (size.toNat + 4095) / 4096 * 4096 := by
  have hmask : (size + 0xFFF) &&& ~~~0xFFF = (size + 0xFFF) &&& BitVec.ofNat 64 ((2 ^ 52 - 1) * 2 ^ 12) := rfl
  have hadd : (size + 0xFFF).toNat = size.toNat + 4095 := by
    rw [BitVec.toNat_add]
    exact Nat.mod_eq_of_lt h
  rw [roundUp, hmask, Word.toNat_and_field _ 12 52 (by decide), hadd]
  omega

lemma pmmAllocFrames_frames (hsmall : p.Small) {phys : Word} (h : pmmAllocFrames p count = (phys, q)) : q.Small ∧
    (phys = 0 ∧ usedFrames q = usedFrames p ∨ ∃ start, phys = frameAddr start ∧ start + count ≤ 2 ^ 28 ∧ 0 < count ∧
    (∀ j < count, start + j ∉ usedFrames p) ∧ usedFrames q = usedFrames p ∪ {f | start ≤ f ∧ f < start + count}) := by
  obtain he | ⟨start, q', he, hpos, hrun, hsize, -, hbits⟩ := pmmAllocFrames_spec p count
  · rw [he] at h
    obtain ⟨rfl, rfl⟩ := Prod.mk.inj h
    exact ⟨hsmall, .inl ⟨rfl, rfl⟩⟩
  · rw [he] at h
    obtain ⟨rfl, rfl⟩ := Prod.mk.inj h
    refine ⟨by rwa [Pmm.Small, hsize], .inr ⟨start, rfl, ?_, hpos, fun j hj => ?_, ?_⟩⟩
    · have hlast := (hrun (count - 1) (by omega)).1
      rw [Pmm.Small] at hsmall
      omega
    · change ¬ p.isSet (start + j) = true
      rw [(hrun j hj).2]
      decide
    · ext f
      change q'.isSet f = true ↔ p.isSet f = true ∨ (start ≤ f ∧ f < start + count)
      rw [hbits, Bool.or_eq_true, decide_eq_true_eq]

lemma Spaces.more [DecidableEq R] (h : Spaces roots m p) (hsmall : q.Small) (hused : usedFrames p ⊆ usedFrames q) :
    Spaces roots m q :=
  ⟨hsmall, h.wired.mono fun r path f hp hr => hused (h.wired.used r path f hp hr)⟩

lemma allocFrames_data [DecidableEq R] {phys : Word} (h : Spaces roots m p) (halloc : pmmAllocFrames p count = (phys, q))
    (hphys : phys ≠ 0) : Spaces roots m q ∧ usedFrames p ⊆ usedFrames q ∧ ∃ start, 0 < start ∧ phys = frameAddr start ∧
      start + count ≤ 2 ^ 28 ∧ usedFrames q = usedFrames p ∪ {f | start ≤ f ∧ f < start + count} ∧
      ∀ j < count, start + j ∈ usedFrames q ∧ start + j ∉ usedFrames p ∧ Unlinked roots UserPath (tables m) (start + j) := by
  obtain ⟨hsmall, ⟨hzero, -⟩ | ⟨start, rfl, hstart, -, hfree, hq⟩⟩ := pmmAllocFrames_frames h.small halloc
  · exact absurd hzero hphys
  have hmono : usedFrames p ⊆ usedFrames q := by
    rw [hq]
    exact Set.subset_union_left
  refine ⟨h.more hsmall hmono, hmono, start, ?_, rfl, hstart, hq, fun j hj => ⟨?_, hfree j hj, h.wired.unlinked (hfree j hj)⟩⟩
  · apply Nat.pos_of_ne_zero
    rintro rfl
    exact hphys rfl
  · rw [hq]
    exact .inr ⟨by omega, by omega⟩

section back

variable [DecidableEq R] {r : R} {f : ℕ} {cpu : Option ℕ} {addr size : Word} {flags : BitVec 32} {s s' : Vm}

lemma roundUp_range (haligned : addr &&& 0xFFF = 0) (hrange : addr.toNat + size.toNat ≤ 2 ^ 47) :
    (roundUp size).toNat = (roundUp size).toNat / 4096 * pageSize ∧ addr.toNat + (roundUp size).toNat ≤ 2 ^ 47 := by
  have hsize : (roundUp size).toNat = (size.toNat + 4095) / 4096 * 4096 := roundUp_toNat (by omega)
  have haddr := (Word.and_low_eq_zero 12 (by decide)).mp haligned
  rw [pageSize]
  omega

lemma MapsRun.spaces (hrun : MapsRun s cpu addr size flags s') (hrange : addr.toNat + size.toNat ≤ 2 ^ 47)
    (h : Spaces roots s.mem s.pmm) (hroot : roots r = some f) (hcr3 : s.task.cr3 = frameAddr f) :
    Spaces roots s'.mem s'.pmm ∧ usedFrames s.pmm ⊆ usedFrames s'.pmm ∧
    Evolves roots UserPath (usedFrames s.pmm) (tables s.mem) (tables s'.mem) ∧
    (∃ start, 0 < start ∧ start + (roundUp size).toNat / 4096 ≤ 2 ^ 28 ∧
      LeavesChange roots UserPath r (Backing addr start ((roundUp size).toNat / 4096) flags) (tables s.mem) (tables s'.mem)) ∧
    s'.task.cr3 = s.task.cr3 := by
  obtain ⟨haligned, _, pmm, _, halloc, hphys, hback, hpages⟩ := hrun
  obtain ⟨hsize, _⟩ := roundUp_range haligned hrange
  obtain ⟨hmem, hpmm, hcr3'⟩ := Vm.pages_eq.mp hpages
  obtain ⟨hspaces, hmono, start, hpos, rfl, hstart, -, hdata⟩ := allocFrames_data h halloc hphys
  obtain ⟨hspaces', hused, hevolves, hleaves, -, htask⟩ :=
    backRange_spaces (s := { s with pmm }) hspaces hroot hcr3 hsize (by omega) hstart hmono hdata hback
  rw [hmem, hpmm, hcr3', htask]
  exact ⟨hspaces', hused, hevolves, ⟨start, hpos, hstart, hleaves⟩, rfl⟩

lemma MapsRun.owned {V : Set ℕ} (hrun : MapsRun s cpu addr size flags s') (hrange : addr.toNat + size.toNat ≤ 2 ^ 47)
    (h : Spaces roots s.mem s.pmm) (hroot : roots r = some f) (hcr3 : s.task.cr3 = frameAddr f)
    (hsupplied : VmaRanges.Supplied s cpu addr size flags)
    (hnone : ∀ j < (roundUp size).toNat / 4096, leafOf roots (tables s.mem) r (addr + pageOffset j) = none)
    (howned : Owned roots UserPath (tables s.mem) (usedFrames s.pmm) V) :
    Owned roots UserPath (tables s'.mem) (usedFrames s'.pmm) V := by
  obtain ⟨haligned, _, pmm, _, halloc, hphys, hback, hpages⟩ := hrun
  obtain ⟨hsize, _⟩ := roundUp_range haligned hrange
  obtain ⟨hmem, hpmm, -⟩ := Vm.pages_eq.mp hpages
  obtain ⟨hspaces, -, _, hpos, rfl, hstart, hq, hdata⟩ := allocFrames_data h halloc hphys
  rw [VmaRanges.Supplied, halloc] at hsupplied
  rw [hmem, hpmm]
  refine backRange_owned (s := { s with pmm }) hspaces hroot hcr3 hsize (by omega) hpos hstart
    (fun j hj => ⟨(hdata j hj).1, (hdata j hj).2.2⟩) hnone hsupplied.2 ?_ hback
  rw [hq]
  exact howned.more _

end back

end runs

variable {k : Kernel} {t : ℕ} {cpu : Option ℕ} {addr size : Word}

variable {s : Vm}

lemma vmaMap_updates {kmalloc : Option Word} {flags : BitVec 32} {code : Int} (h : k.Sound)
    (ht : (k.tasks t).cr3 ≠ 0) (hrange : addr.toNat + size.toNat ≤ 2 ^ 47)
    (hmap : vmaMap (k.vm t) cpu kmalloc addr size flags = some (code, s)) : k.Updates t s := by
  obtain ⟨_, -, hcr3, hroot⟩ := h.root ht
  obtain ⟨-, hsame | ⟨q, halloc, hsame⟩⟩ | ⟨-, hrun⟩ := vmaMap_pages hmap
  · exact (h.updates_self t).of_pages hsame
  · obtain ⟨hsmall, hq⟩ := pmmAllocFrames_frames h.spaces.small halloc
    have hmono : usedFrames k.pmm ⊆ usedFrames q := by
      rcases hq with ⟨-, hsame⟩ | ⟨start, -, -, -, -, hrun⟩
      · exact hsame.ge
      · rw [hrun]
        exact Set.subset_union_left
    have hmore : k.Updates t { k.vm t with pmm := q } :=
      ⟨rfl, h.spaces.more hsmall hmono, fun _ hg _ => hmono hg, Evolves.refl⟩
    exact hmore.of_pages hsame
  · obtain ⟨hspaces, hused, hevolves, -, hcr3'⟩ := hrun.spaces hrange h.spaces hroot hcr3
    exact ⟨hcr3', hspaces, fun g hg _ => hused hg, hevolves⟩

lemma vmaUnmap_updates {code : Int} (h : k.Sound) (ht : (k.tasks t).cr3 ≠ 0) (hrange : addr.toNat + size.toNat ≤ 2 ^ 47)
    (hunmap : vmaUnmap (k.vm t) cpu addr size = some (code, s)) : k.Updates t s := by
  obtain ⟨_, -, hcr3, hroot⟩ := h.root ht
  have hstop : (addr + size).toNat ≤ 2 ^ 47 := by
    rw [BitVec.toNat_add]
    omega
  rcases vmaUnmap_pages hunmap with ⟨-, rfl⟩ | ⟨s₁, hpages, hsame⟩
  · exact h.updates_self t
  · refine Kernel.Updates.of_pages ?_ hsame
    refine Word.forBelow_invariant (Q := fun _ => True) (fun _ _ _ => trivial) ?_ trivial
      (h.updates_self t) hpages
    intro u a hlt _ hu
    have huser := lt_of_lt_of_le (BitVec.lt_def.mp hlt) hstop
    obtain ⟨hspaces, hevolves, hfreed, -, -, htask⟩ := unmapPage_spaces hu.spaces hroot (hu.cr3.trans hcr3) huser
    refine ⟨by rw [htask, hu.cr3], hspaces, fun g hg hun => ?_, hu.evolves.trans (hevolves.mono (Set.subset_univ _))⟩
    by_contra hn
    exact hu.evolves.unlinked hg hun t _ (userPath_of_lt huser) (hfreed g (hu.used g hg hun) hn)

def freshTask : TaskVm := vmaInitTask ⟨none, none, 0, 0, 0, 0, 0⟩

def Kernel.create (k : Kernel) (t : ℕ) (cpu : Option ℕ) : Kernel :=
  let (cr3, mem, pmm) := vmmCreateUserPml4 k.mem k.pmm cpu k.kernelPml4
  { k with mem, pmm, tasks := update k.tasks t { freshTask with cr3 } }

lemma rootOf_frameAddr {g : ℕ} (hpos : 0 < g) (hg : g < 2 ^ 52) : Kernel.rootOf (frameAddr g) = some g := by
  rw [Kernel.rootOf, if_neg (frameAddr_ne_zero (by rw [pageSize]; omega) (by omega)), frameIndex_frameAddr' hg]

lemma Kernel.Sound.kernelFrame (h : k.Sound) : k.kernelPml4 = frameAddr (frameIndex k.kernelPml4) ∧
    frameIndex k.kernelPml4 ∈ usedFrames k.pmm ∧ Unlinked k.roots UserPath (tables k.mem) (frameIndex k.kernelPml4) := by
  obtain ⟨_, hc, hkernel, hrest⟩ := h.kernel
  rw [hkernel, frameIndex_frameAddr' hc]
  exact ⟨rfl, hrest⟩

inductive CreateOutcome (k : Kernel) (t : ℕ) (k' : Kernel) : Prop
  | failed (hmem : k'.mem = k.mem) (hroots : k'.roots = k.roots) (hused : usedFrames k'.pmm = usedFrames k.pmm)
  | created (g : ℕ) (hg : g < 2 ^ 28) (hfresh : g ∉ usedFrames k.pmm)
      (hroots : k'.roots = update k.roots t (some g)) (hused : usedFrames k'.pmm = insert g (usedFrames k.pmm))
      (hsame : ∀ f, f ≠ g → tables k'.mem f = tables k.mem f)
      (hrow : ∀ j : Index, tables k'.mem g j = if 256 ≤ (j : ℕ) then tables k.mem (frameIndex k.kernelPml4) j else 0)

lemma create_cases (h : k.Sound) (ht : (k.tasks t).cr3 = 0) (cpu : Option ℕ) :
    CreateOutcome k t (k.create t cpu) ∧ (k.create t cpu).pmm.Small ∧ (k.create t cpu).heap = k.heap ∧
    (k.create t cpu).kernelPml4 = k.kernelPml4 ∧ ∀ t', ∃ f, f < 2 ^ 52 ∧ ((k.create t cpu).tasks t').cr3 = frameAddr f := by
  obtain ⟨hkernel, hcused, -⟩ := h.kernelFrame
  obtain ⟨_, hc, hkc, -⟩ := h.kernel
  have hspec := vmmCreateUserPml4_spec k.mem cpu h.spaces.small
    (by rw [hkc, frameIndex_frameAddr' hc]; exact hc) hcused
  rw [← hkernel] at hspec
  rcases hres : vmmCreateUserPml4 k.mem k.pmm cpu k.kernelPml4 with ⟨cr3, m, p⟩
  rw [hres] at hspec
  have hk : k.create t cpu = { k with mem := m, pmm := p, tasks := update k.tasks t { freshTask with cr3 } } := by
    rw [Kernel.create, hres]
  rw [hk]
  have hroots : ({ k with mem := m, pmm := p, tasks := update k.tasks t { freshTask with cr3 } } : Kernel).roots =
      update k.roots t (Kernel.rootOf cr3) := by
    funext t'
    rcases eq_or_ne t' t with rfl | htt
    · simp [Kernel.roots]
    · simp [Kernel.roots, update_of_ne htt]
  have haligned : (∃ f, f < 2 ^ 52 ∧ cr3 = frameAddr f) →
      ∀ t', ∃ f, f < 2 ^ 52 ∧ (update k.tasks t { freshTask with cr3 } t').cr3 = frameAddr f := by
    intro hcr3 t'
    rcases eq_or_ne t' t with rfl | htt
    · simpa only [update_self] using hcr3
    · simpa only [update_of_ne htt] using h.aligned t'
  obtain ⟨hsmall, ⟨hzero, hmem, hused⟩ | ⟨g, hpos, hg, hcr3, hfresh, hused, hsame, hrow⟩⟩ := hspec
  · obtain rfl : cr3 = 0 := hzero
    refine ⟨.failed hmem ?_ hused, hsmall, rfl, rfl, haligned ⟨0, by decide, rfl⟩⟩
    rw [hroots, show Kernel.rootOf 0 = k.roots t by rw [Kernel.roots, ht]]
    exact update_eq_self t k.roots
  · obtain rfl : cr3 = frameAddr g := hcr3
    refine ⟨.created g hg hfresh ?_ hused hsame hrow, hsmall, rfl, rfl, haligned ⟨g, by omega, rfl⟩⟩
    rw [hroots, rootOf_frameAddr hpos (by omega)]

lemma create_sound (h : k.Sound) (ht : (k.tasks t).cr3 = 0) (cpu : Option ℕ) : (k.create t cpu).Sound := by
  obtain ⟨hcases, hsmall, hheap, hkernel, haligned⟩ := create_cases h ht cpu
  obtain ⟨c, hc, hkc, hcused, hcun⟩ := h.kernel
  have hsound : ∀ {roots : ℕ → Option ℕ}, (k.create t cpu).roots = roots →
      Wired roots UserPath (tables (k.create t cpu).mem) (usedFrames (k.create t cpu).pmm) →
      (∀ f ∈ usedFrames k.pmm, Unlinked k.roots UserPath (tables k.mem) f →
        f ∈ usedFrames (k.create t cpu).pmm ∧ Unlinked roots UserPath (tables (k.create t cpu).mem) f) →
      (k.create t cpu).Sound := by
    rintro _ rfl hwired hkeep
    refine ⟨⟨hsmall, hwired⟩, haligned, ⟨c, hc, hkernel.trans hkc, hkeep c hcused hcun⟩, fun f hf => ?_⟩
    exact hkeep f (h.heap f hf).1 (h.heap f hf).2
  rcases hcases with ⟨hmem, hroots, hused⟩ | ⟨g, hg, hfresh, hroots, hused, hsame, hrow⟩
  · apply hsound hroots
    · rw [hmem, hused]
      exact h.spaces.wired
    · rw [hmem, hused]
      exact fun f hf hu => ⟨hf, hu⟩
  · have hzero : ∀ i, UserPath [i] → tables (k.create t cpu).mem g i = 0 := by
      intro i hi
      rw [hrow i, if_neg (by rw [userPath_singleton] at hi; omega)]
    apply hsound hroots
    · rw [hused]
      exact h.spaces.wired.addRoot (by omega) hfresh hsame hzero t
    · intro f hf hu
      refine ⟨hused.ge (Set.mem_insert_of_mem g hf), fun r q hq hr => ?_⟩
      rcases h.spaces.wired.addRoot_cases hfresh hsame hzero hq hr with ⟨-, -, rfl⟩ | ⟨-, -, hr'⟩
      · exact hfresh hf
      · exact hu r q hq hr'

lemma vmaDestroyAll_frames (h : k.Sound) (ht : (k.tasks t).cr3 ≠ 0)
    (hdestroy : vmaDestroyAll (k.vm t) cpu = some s) :
    s.mem = k.mem ∧ (k.put t s).roots = update k.roots t none ∧ s.task.cr3 = 0 ∧ s.pmm.Small ∧
    usedFrames s.pmm = usedFrames k.pmm \ {f | f ≠ 0 ∧ ∃ q, UserPath q ∧ role k.roots (tables k.mem) t q = some f} := by
  obtain ⟨_, _, hcr3, hroot⟩ := h.root ht
  obtain ⟨hmem, -, htask, hpmm⟩ := vmaDestroyAll_cases hdestroy
  change s.pmm = if (k.tasks t).cr3 ≠ 0 then vmmDestroyUserPml4 k.mem cpu true (k.tasks t).cr3 k.pmm else k.pmm at hpmm
  rw [if_pos ht] at hpmm
  refine ⟨hmem, ?_, by rw [htask], ?_, ?_⟩
  · rw [Kernel.roots_put, htask]
    rfl
  · rw [Pmm.Small, hpmm, vmmDestroyUserPml4_size]
    exact h.spaces.small
  · rw [hpmm, hcr3]
    exact usedFrames_vmmDestroyUserPml4 h.spaces.wired hroot cpu k.pmm

lemma vmaDestroyAll_unlinked (h : k.Sound) (ht : (k.tasks t).cr3 ≠ 0) (hdestroy : vmaDestroyAll (k.vm t) cpu = some s) {g : ℕ}
    (hg : g ∈ usedFrames k.pmm) (hu : Unlinked k.roots UserPath (tables k.mem) g) : g ∈ usedFrames s.pmm ∧
    Unlinked (k.put t s).roots UserPath (tables s.mem) g := by
  obtain ⟨hmem, hroots, -, -, hused⟩ := vmaDestroyAll_frames h ht hdestroy
  rw [hroots, hused, hmem]
  refine ⟨⟨hg, fun ⟨_, q, hq, hr⟩ => hu t q hq hr⟩, fun r q hq hr => ?_⟩
  by_cases hrt : r = t
  · simp [hrt, role_update_none] at hr
  · rw [role_update_of_ne hrt] at hr
    exact hu r q hq hr

lemma vmaDestroyAll_sound (h : k.Sound) (ht : (k.tasks t).cr3 ≠ 0)
    (hdestroy : vmaDestroyAll (k.vm t) cpu = some s) : (k.put t s).Sound := by
  obtain ⟨hmem, hroots, hcr3, hsmall, hused⟩ := vmaDestroyAll_frames h ht hdestroy
  have hkeep := fun g hg hu => vmaDestroyAll_unlinked h ht hdestroy (g := g) hg hu
  refine ⟨⟨hsmall, ?_⟩, fun t' => ?_, ?_, ?_⟩
  · change Wired _ _ (tables s.mem) (usedFrames s.pmm)
    rw [hroots, hmem]
    apply h.spaces.wired.removeRoot t
    intro g hg hn
    rw [hused] at hn
    by_contra hno
    exact hn ⟨hg, fun ⟨_, hq⟩ => hno hq⟩
  · rcases eq_or_ne t' t with rfl | htt
    · simp only [Kernel.put, update_self, hcr3]
      exact ⟨0, by decide, rfl⟩
    · simp only [Kernel.put, update_of_ne htt]
      exact h.aligned t'
  · obtain ⟨g, hg, hkernel, hgused, hun⟩ := h.kernel
    exact ⟨g, hg, hkernel, hkeep g hgused hun⟩
  · exact fun g hg => hkeep g (h.heap g hg).1 (h.heap g hg).2

end KernelSmp.Memory
