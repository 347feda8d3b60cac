import KernelSmp.Memory.Isolation

/-! The kernel half, which all address spaces share through the upper entries of their PML4s: its
tables are frames in use that no user half reaches, so the calls on user memory leave them alone. -/

namespace KernelSmp.Memory

open Base Base.Radix Function Isolation List Option

structure Frozen (m₀ : Mem) (K : Set ℕ) (k : Kernel) : Prop where
  used : ∀ g ∈ K, g ∈ usedFrames k.pmm ∧ Unlinked k.roots UserPath (tables k.mem) g
  heap : ∀ g ∈ K, g ∉ k.heap
  rows : ∀ g ∈ K, tables k.mem g = tables m₀ g
  root : frameIndex k.kernelPml4 ∈ K
  half : ∀ t g, k.roots t = some g → ∀ j : Index, 256 ≤ (j : ℕ) →
    tables k.mem g j = tables m₀ (frameIndex k.kernelPml4) j

variable {m₀ : Mem} {K : Set ℕ} {k k' : Kernel} {t : ℕ}

variable {g : ℕ}

lemma Unlinked.outside {R : Type} {roots : R → Option ℕ} {valid : List Index → Prop} {T : ℕ → Index → Word}
    (h : Unlinked roots valid T g) (j : Index) : Outside roots valid T g j :=
  fun r p hp hr => absurd hr (h r p hp)

lemma root_outside (h : k.Sound) (hg : k.roots t = some g) {j : Index} (hj : 256 ≤ (j : ℕ)) :
    Outside k.roots UserPath (tables k.mem) g j := by
  intro r p hp hr
  refine ⟨(h.spaces.wired.separate r p t [] g hp userPath_nil hr ((role_nil ..).trans hg)).2, fun hvalid => ?_⟩
  rw [userPath_singleton] at hvalid
  omega

lemma root_used (h : k.Sound) (hg : k.roots t = some g) : g ∈ usedFrames k.pmm :=
  h.spaces.wired.used t [] g userPath_nil ((role_nil ..).trans hg)

lemma Frozen.put (h : Frozen m₀ K k) (hk : k.Sound) {s : Vm} (hs : k.Updates t s) : Frozen m₀ K (k.put t s) := by
  have hroots := Kernel.roots_put_same hs.cr3
  refine ⟨fun g hg => ?_, h.heap, fun g hg => ?_, h.root, fun t' g hg j hj => ?_⟩
  · obtain ⟨hused, hun⟩ := h.used g hg
    rw [hroots]
    exact ⟨hs.used g hused hun, hs.evolves.unlinked hused hun⟩
  · rw [← h.rows g hg]
    funext j
    exact hs.evolves.kept g j (h.used g hg).1 ((h.used g hg).2.outside j)
  · rw [hroots] at hg
    exact (hs.evolves.kept g j (root_used hk hg) (root_outside hk hg hj)).trans (h.half t' g hg j hj)

lemma Frozen.create (h : Frozen m₀ K k) (hk : k.Sound) (ht : (k.tasks t).cr3 = 0) (cpu : Option ℕ) :
    Frozen m₀ K (k.create t cpu) := by
  obtain ⟨hcases, -, hheap, hkernel, -⟩ := create_cases hk ht cpu
  rcases hcases with ⟨hmem, hroots, hused⟩ | ⟨g, hg, hfresh, hroots, hused, hsame, hrow⟩
  · refine ⟨?_, ?_, ?_, ?_, ?_⟩
    · rw [hroots, hmem, hused]
      exact h.used
    · rw [hheap]
      exact h.heap
    · rw [hmem]
      exact h.rows
    · rw [hkernel]
      exact h.root
    · rw [hroots, hmem, hkernel]
      exact h.half
  · have hne : ∀ f ∈ usedFrames k.pmm, f ≠ g := by
      rintro f hf rfl
      exact hfresh hf
    have hzero : ∀ i, UserPath [i] → tables (k.create t cpu).mem g i = 0 := by
      intro i hi
      rw [hrow i, if_neg (by rw [userPath_singleton] at hi; omega)]
    refine ⟨fun f hf => ?_, ?_, fun f hf => ?_, ?_, fun t' f hf j hj => ?_⟩
    · obtain ⟨hfused, hun⟩ := h.used f hf
      refine ⟨hused.ge (Set.mem_insert_of_mem g hfused), fun r q hq hr => ?_⟩
      rw [hroots] at hr
      rcases hk.spaces.wired.addRoot_cases hfresh hsame hzero hq hr with ⟨-, -, rfl⟩ | ⟨-, -, hr'⟩
      · exact hfresh hfused
      · exact hun r q hq hr'
    · rw [hheap]
      exact h.heap
    · rw [hsame f (hne f (h.used f hf).1), h.rows f hf]
    · rw [hkernel]
      exact h.root
    · rw [hroots] at hf
      rw [hkernel]
      by_cases htt : t' = t
      · rw [htt, update_self, Option.some.injEq] at hf
        rw [← hf, hrow, if_pos hj, h.rows _ h.root]
      · rw [update_of_ne htt] at hf
        rw [hsame f (hne f (root_used hk hf)), h.half t' f hf j hj]

lemma Frozen.destroyAll (h : Frozen m₀ K k) (hk : k.Sound) (ht : (k.tasks t).cr3 ≠ 0) {cpu : Option ℕ} {s : Vm}
    (hdestroy : vmaDestroyAll (k.vm t) cpu = some s) : Frozen m₀ K (k.put t s) := by
  obtain ⟨hmem, hroots, -⟩ := vmaDestroyAll_frames hk ht hdestroy
  refine ⟨fun g hg => ?_, h.heap, fun g hg => ?_, h.root, fun t' g hg j hj => ?_⟩
  · exact vmaDestroyAll_unlinked hk ht hdestroy (h.used g hg).1 (h.used g hg).2
  · exact (congrArg (tables · g) hmem).trans (h.rows g hg)
  · rw [hroots] at hg
    by_cases htt : t' = t
    · simp [htt] at hg
    · rw [update_of_ne htt] at hg
      exact (congrArg (tables · g j) hmem).trans (h.half t' g hg j hj)

lemma Frozen.heapGrows (h : Frozen m₀ K k) {q : Pmm} {new : List ℕ} (hgrows : HeapGrows k k' q new) : Frozen m₀ K k' := by
  obtain ⟨rfl, -, hmono, hnew⟩ := hgrows
  refine ⟨fun g hg => ⟨hmono (h.used g hg).1, (h.used g hg).2⟩, fun g hg hmem => ?_, h.rows, h.root, h.half⟩
  rcases mem_append.mp hmem with hmem | hmem
  · exact (hnew g hmem).1 (h.used g hg).1
  · exact h.heap g hg hmem

variable {m : Mem}

lemma Frozen.write (h : Frozen m₀ K k) (hk : k.Sound) {W : Set ℕ}
    (hsame : ∀ g, g ∉ W → tables m g = tables k.mem g) (hW : ∀ g ∈ W, g ∉ K ∧ Unlinked k.roots UserPath (tables k.mem) g) :
    ({ k with mem := m } : Kernel).Sound ∧ Frozen m₀ K { k with mem := m } := by
  have hrows : ∀ r p g j, UserPath (j :: p) → role k.roots (tables k.mem) r p = some g →
      tables m g j = tables k.mem g j := by
    intro r p g j hjp hr
    rw [hsame g fun hg => (hW g hg).2 r p (UserPath.tail j p hjp) hr]
  have hunlinked : ∀ g, Unlinked k.roots UserPath (tables k.mem) g → Unlinked k.roots UserPath (tables m) g := by
    intro g hg r p hp hr
    rw [role_congr UserPath.tail hrows r hp] at hr
    exact hg r p hp hr
  constructor
  · refine ⟨⟨hk.spaces.small, hk.spaces.wired.congr hrows⟩, hk.aligned, ?_, fun g hg => ?_⟩
    · obtain ⟨g, hg, hkernel, hgused, hgun⟩ := hk.kernel
      exact ⟨g, hg, hkernel, hgused, hunlinked g hgun⟩
    · exact ⟨(hk.heap g hg).1, hunlinked g (hk.heap g hg).2⟩
  · refine ⟨fun g hg => ⟨(h.used g hg).1, hunlinked g (h.used g hg).2⟩, h.heap, fun g hg => ?_, h.root,
      fun t g hg j hj => ?_⟩
    · exact (hsame g fun hw => (hW g hw).1 hg).trans (h.rows g hg)
    · have hout : g ∉ W := fun hw => (hW g hw).2 t [] userPath_nil ((role_nil ..).trans hg)
      exact (congrFun (hsame g hout) j).trans (h.half t g hg j hj)

lemma step_frozen (h : Frozen m₀ K k) (hk : k.Sound) {c : Call} (hc : c.Allowed) (hstep : step k c = some k') :
    Frozen m₀ K k' := by
  cases c with
  | create t cpu =>
    simp only [step, ite_none_right_eq_some, Option.some.injEq] at hstep
    obtain ⟨ht, rfl⟩ := hstep
    exact h.create hk ht cpu
  | map =>
    simp only [step, ite_none_left_eq_some, map_eq_some_iff, Prod.exists] at hstep
    obtain ⟨ht, code, s, hmap, rfl⟩ := hstep
    exact h.put hk (vmaMap_updates hk ht hc hmap)
  | unmap =>
    simp only [step, ite_none_left_eq_some, map_eq_some_iff, Prod.exists] at hstep
    obtain ⟨ht, _, s, hunmap, rfl⟩ := hstep
    exact h.put hk (vmaUnmap_updates hk ht hc.2 hunmap)
  | destroyAll =>
    simp only [step, ite_none_left_eq_some, map_eq_some_iff] at hstep
    obtain ⟨ht, _, hdestroy, rfl⟩ := hstep
    exact h.destroyAll hk ht hdestroy
  | heapFrame =>
    obtain ⟨q, new, hgrows⟩ := heapFrame_cases hk hstep
    exact h.heapGrows hgrows
  | heapFrames =>
    obtain ⟨_, _, hgrows⟩ := heapFrames_cases hk hstep
    exact h.heapGrows hgrows
  | heapWrite f offset v =>
    simp only [step, ite_none_right_eq_some, Option.some.injEq] at hstep
    obtain ⟨hf, rfl⟩ := hstep
    refine (h.write hk (W := {f}) (fun g hg => ?_) fun g hg => ?_).2
    · funext j
      exact tables_update_other k.mem hg offset v j
    · obtain rfl : g = f := hg
      exact ⟨fun hK => h.heap g hK hf, (hk.heap g hf).2⟩

lemma step_kernelPml4 {c : Call} (hstep : step k c = some k') : k'.kernelPml4 = k.kernelPml4 := by
  cases c <;> simp only [step, ite_none_right_eq_some, ite_none_left_eq_some, map_eq_some_iff,
    Option.some.injEq] at hstep
  case create => rw [← hstep.2, Kernel.create]
  case map | unmap | destroyAll =>
    obtain ⟨-, _, -, rfl⟩ := hstep
    rfl
  case heapFrame | heapFrames =>
    rw [← hstep]
    split <;> rfl
  case heapWrite =>
    rw [← hstep.2]

variable {m : Mem} {g g₀ : ℕ}

def KernelPath (p : List Index) : Prop := p.length ≤ 3 ∧ ∀ i ∈ p.getLast?, 256 ≤ (i : ℕ)

def kernelTables (m : Mem) (root : ℕ) : Set ℕ :=
  {f | ∃ p, KernelPath p ∧ role (fun _ : Unit => some root) (tables m) () p = some f}

def SameKernelHalf (m m' : Mem) (pml4 pml4' : Word) : Prop :=
  ∀ virt, 256 ≤ (pml4Idx virt : ℕ) →
    vmmVirtualToPhysical m' pml4' virt = vmmVirtualToPhysical m pml4 virt ∧
    walkEntries m' pml4' virt = walkEntries m pml4 virt

lemma entry_of_present (m : Mem) (e : Word) (i : Index) : entry m (e &&& vmmAddrMask) i = tables m (frameOf e) i := by
  rw [and_addrMask, entry_frameAddr _ ((frameOf_lt e).trans (by decide))]

lemma sameKernelHalf_of_tables (hg : g < 2 ^ 52) (hg₀ : g₀ < 2 ^ 52)
    (hhalf : ∀ j : Index, 256 ≤ (j : ℕ) → tables m g j = tables m₀ g₀ j)
    (hrows : ∀ f ∈ kernelTables m₀ g₀, tables m f = tables m₀ f) :
    SameKernelHalf m₀ m (frameAddr g₀) (frameAddr g) := by
  intro virt hvirt
  -- below a present entry of the path `p` both memories have the same table
  have hbelow : ∀ {e : Word} {p : List Index}, KernelPath p → role (fun _ : Unit => some g₀) (tables m₀) () p = target e →
      isPresent e = true → (∀ i, entry m (e &&& vmmAddrMask) i = entry m₀ (e &&& vmmAddrMask) i) ∧
        ∀ i, role (fun _ : Unit => some g₀) (tables m₀) () (i :: p) = target (entry m₀ (e &&& vmmAddrMask) i) := by
    intro e p hp hr he
    rw [target, if_pos he] at hr
    refine ⟨fun i => ?_, fun i => ?_⟩
    · rw [entry_of_present, entry_of_present, hrows _ ⟨p, hp, hr⟩]
    · rw [entry_of_present, role_cons hr]
  have hpath : ∀ q : List Index, q.length ≤ 2 → KernelPath (q ++ [pml4Idx virt]) := by
    intro q hq
    refine ⟨by rw [length_append, length_singleton]; omega, fun i hi => ?_⟩
    rw [List.getLast?_append_of_ne_nil _ (by simp), List.getLast?_singleton, mem_some_iff] at hi
    rwa [← hi]
  have h₁ : entry m (frameAddr g) (pml4Idx virt) = entry m₀ (frameAddr g₀) (pml4Idx virt) := by
    rw [entry_frameAddr _ hg, entry_frameAddr _ hg₀, hhalf _ hvirt]
  have hr₁ : role (fun _ : Unit => some g₀) (tables m₀) () [pml4Idx virt] =
      target (entry m₀ (frameAddr g₀) (pml4Idx virt)) := by
    rw [entry_frameAddr _ hg₀]
    exact role_cons role_nil
  rw [vmmVirtualToPhysical, vmmVirtualToPhysical, walkEntries, walkEntries, h₁]
  by_cases hp₁ : isPresent (entry m₀ (frameAddr g₀) (pml4Idx virt)) = true
  swap
  · simp [hp₁]
  obtain ⟨h₂, hr₂⟩ := hbelow (hpath [] (by simp)) hr₁ hp₁
  simp only [h₂]
  by_cases hp₂ : isPresent (entry m₀ (entry m₀ (frameAddr g₀) (pml4Idx virt) &&& vmmAddrMask) (pdptIdx virt)) = true
  swap
  · simp [hp₂]
  obtain ⟨h₃, hr₃⟩ := hbelow (hpath [pdptIdx virt] (by simp)) (hr₂ _) hp₂
  simp only [h₃]
  by_cases hp₃ : isPresent (entry m₀ (entry m₀ (entry m₀ (frameAddr g₀) (pml4Idx virt) &&& vmmAddrMask)
      (pdptIdx virt) &&& vmmAddrMask) (pdIdx virt)) = true
  swap
  · simp [hp₃]
  obtain ⟨h₄, -⟩ := hbelow (hpath [pdIdx virt, pdptIdx virt] (by simp)) (hr₃ _) hp₃
  simp only [h₄, and_self]

lemma SameKernelHalf.trans {m' m'' : Mem} {a b c : Word} (h : SameKernelHalf m m' a b) (h' : SameKernelHalf m' m'' b c) :
    SameKernelHalf m m'' a c :=
  fun virt hvirt => ⟨(h' virt hvirt).1.trans (h virt hvirt).1, (h' virt hvirt).2.trans (h virt hvirt).2⟩

lemma SameKernelHalf.symm {m' : Mem} {a b : Word} (h : SameKernelHalf m m' a b) : SameKernelHalf m' m b a :=
  fun virt hvirt => ⟨(h virt hvirt).1.symm, (h virt hvirt).2.symm⟩

lemma Frozen.kernelHalf (h : Frozen m₀ K k) (hk : k.Sound) (hK : kernelTables m₀ (frameIndex k.kernelPml4) ⊆ K) :
    SameKernelHalf m₀ k.mem k.kernelPml4 k.kernelPml4 := by
  obtain ⟨_, hc, hkernel, -⟩ := hk.kernel
  rw [hkernel, frameIndex_frameAddr' hc] at hK
  have hroot := h.root
  rw [hkernel, frameIndex_frameAddr' hc] at hroot
  rw [hkernel]
  exact sameKernelHalf_of_tables hc hc (fun j _ => by rw [h.rows _ hroot]) fun f hf => h.rows f (hK hf)

lemma Frozen.taskHalf (h : Frozen m₀ K k) (hk : k.Sound) (hK : kernelTables m₀ (frameIndex k.kernelPml4) ⊆ K)
    (ht : (k.tasks t).cr3 ≠ 0) : SameKernelHalf m₀ k.mem k.kernelPml4 (k.tasks t).cr3 := by
  obtain ⟨_, hc, hkernel, -⟩ := hk.kernel
  obtain ⟨f, hf, hcr3, hroot⟩ := hk.root ht
  have hhalf := h.half t f hroot
  rw [hkernel, frameIndex_frameAddr' hc] at hK hhalf
  rw [hkernel, hcr3]
  exact sameKernelHalf_of_tables hf hc hhalf fun f hf => h.rows f (hK hf)

end KernelSmp.Memory
