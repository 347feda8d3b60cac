import KernelSmp.Memory.VmaAccess

/-! The frames of a task from `vmm_create_user_pml4` to `vma_destroy_all`: every frame that is handed out for
the task is freed once. -/

namespace KernelSmp.Memory.VmaRanges

open Base Base.Radix Base.LinkedList Function List Option

section frees

def freedPage (s : Vm) (vaddr : Word) : List Word :=
  if vmmVirtualToPhysical s.mem s.task.cr3 vaddr ≠ 0 then [vmmVirtualToPhysical s.mem s.task.cr3 vaddr] else []

def unmapFrees (cpu : Option ℕ) (stop : Word) : ℕ → Word → Vm → List Word
  | 0, _, _ => []
  | fuel + 1, a, s =>
    if a < stop then freedPage s a ++ unmapFrees cpu stop fuel (a + BitVec.ofNat 64 pageSize) (unmapPage s cpu a) else []

def vmaUnmapFrees (s : Vm) (cpu : Option ℕ) (addr size : Word) : List Word :=
  if size = 0 then []
  else
    match vmaFind s addr with
    | some (some _) => unmapFrees cpu (addr + size) walkFuel addr s
    | _ => []

variable {s s' : Vm} {cpu : Option ℕ} {addr size stop : Word} {fuel : ℕ} {code : Int}

lemma unmapPage_pmm : (unmapPage s cpu addr).pmm = freeAll cpu s.pmm (freedPage s addr) := by
  rw [unmapPage, freedPage]
  split
  · rfl
  · rfl

lemma unmapFrees_pmm (h : Word.forBelow (BitVec.ofNat 64 pageSize) stop (fun s vaddr => unmapPage s cpu vaddr) fuel addr s =
    some s') : s'.pmm = freeAll cpu s.pmm (unmapFrees cpu stop fuel addr s) := by
  induction fuel generalizing addr s with
  | zero => cases h
  | succ fuel ih =>
    rw [Word.forBelow] at h
    rw [unmapFrees]
    split_ifs at h with hlt
    · rw [if_pos hlt, freeAll_append, ← unmapPage_pmm]
      exact ih h
    · cases h
      rw [if_neg hlt]
      rfl

lemma vmaUnmap_frees (h : vmaUnmap s cpu addr size = some (code, s')) :
    s' = s ∧ vmaUnmapFrees s cpu addr size = [] ∨
    ∃ s₁, Word.forBelow (BitVec.ofNat 64 pageSize) (addr + size) (fun s vaddr => unmapPage s cpu vaddr) walkFuel addr s =
      some s₁ ∧ s'.pages = s₁.pages ∧ vmaUnmapFrees s cpu addr size = unmapFrees cpu (addr + size) walkFuel addr s := by
  rw [vmaUnmap] at h
  rw [vmaUnmapFrees]
  split at h
  · rename_i hsize
    cases h
    exact .inl ⟨rfl, if_pos hsize⟩
  rename_i hsize
  obtain ⟨found, hfind, h⟩ := bind_eq_some_iff.mp h
  rw [if_neg hsize, hfind]
  cases found with
  | none =>
    cases h
    exact .inl ⟨rfl, rfl⟩
  | some vma =>
    obtain ⟨s₁, hpages, h⟩ := bind_eq_some_iff.mp h
    refine .inr ⟨s₁, hpages, ?_, rfl⟩
    split at h
    · cases h
      rfl
    split at h
    · obtain ⟨_, hremove, h⟩ := bind_eq_some_iff.mp h
      cases h
      exact (treeFree_pages.treeRemove hremove).trans (listRemove_pages s₁ vma)
    · cases h
      rfl

lemma vmaUnmap_pmm (h : vmaUnmap s cpu addr size = some (code, s')) :
    s'.pmm = freeAll cpu s.pmm (vmaUnmapFrees s cpu addr size) := by
  rcases vmaUnmap_frees h with ⟨rfl, hnone⟩ | ⟨s₁, hloop, hpages, hfrees⟩
  · rw [hnone]
    rfl
  · rw [hfrees, ← unmapFrees_pmm hloop]
    exact congrArg (·.2.1) hpages

end frees

section account

structure Account where
  vm : Vm
  handed : List ℕ
  freed : List ℕ

def taken (p q : Pmm) : List ℕ := (List.range (q.bitmapSize * 8)).filter fun f => !p.isSet f && q.isSet f

def freedBy (s : Vm) : Call → List ℕ
  | .map _ _ _ _ _ => []
  | .unmap cpu addr size => (vmaUnmapFrees s cpu addr size).map frameIndex

def accountStep (a : Account) (c : Call) : Option Account :=
  (step a.vm c).map fun s => ⟨s, a.handed ++ taken a.vm.pmm s.pmm, a.freed ++ freedBy a.vm c⟩

def Account.start (areas : Word → VmaArea) (t : TaskVm) (m : Mem) (p : Pmm) (cpu : Option ℕ) (kernelPml4 : Word) : Account :=
  let (cr3, mem, pmm) := vmmCreateUserPml4 m p cpu kernelPml4
  ⟨⟨areas, { vmaInitTask t with cr3 }, mem, pmm⟩, taken p pmm, []⟩

def Settles (a : Account) : Prop :=
  ∀ cpu, ∃ s, vmaDestroyAll a.vm cpu = some s ∧
    s.pmm = freeAll cpu a.vm.pmm (destroyFrees a.vm.mem a.vm.task.cr3) ∧
    a.handed.Perm (a.freed ++ (destroyFrees a.vm.mem a.vm.task.cr3).map frameIndex)

/-- A range that `vma_map` backs with frames is mapped completely, over pages that were not mapped. -/
def Call.Backs (s : Vm) : Call → Prop
  | .map cpu kmalloc addr size flags => Grows s kmalloc addr size flags →
      (∀ j < (roundUp size).toNat / 4096, leafEntryOf s (addr + pageOffset j) = none) ∧
      let (phys, pmm) := pmmAllocFrames s.pmm ((roundUp size).toNat / 4096)
      (vmmMapRangeUnlocked (fun p => pmmAllocFrame p cpu) ⟨s.mem, pmm⟩ s.task.cr3 addr phys (roundUp size)
        ((vmmOpts flags).setWidth 64)).1 = true
  | .unmap _ _ _ => True

instance (s : Vm) : (c : Call) → Decidable (c.Backs s)
  | .map cpu kmalloc addr size flags =>
    inferInstanceAs (Decidable (Grows s kmalloc addr size flags →
      (∀ j < (roundUp size).toNat / 4096, leafEntryOf s (addr + pageOffset j) = none) ∧
      (vmmMapRangeUnlocked (fun p => pmmAllocFrame p cpu) ⟨s.mem, (pmmAllocFrames s.pmm ((roundUp size).toNat / 4096)).2⟩
        s.task.cr3 addr (pmmAllocFrames s.pmm ((roundUp size).toNat / 4096)).1 (roundUp size)
        ((vmmOpts flags).setWidth 64)).1 = true))
  | .unmap _ _ _ => .isTrue trivial

variable {p q q' : Pmm}

lemma mem_taken {f : ℕ} : f ∈ taken p q ↔ f < q.bitmapSize * 8 ∧ p.isSet f = false ∧ q.isSet f = true := by
  simp [taken]

lemma nodup_taken : (taken p q).Nodup := nodup_range.filter _

lemma taken_split (hpq : ∀ f, p.isSet f = true → q.isSet f = true) (hqq : ∀ f, q.isSet f = true → q'.isSet f = true)
    (hsize : q'.bitmapSize = q.bitmapSize) : (taken p q').Perm (taken p q ++ taken q q') := by
  have hnodup : (taken p q ++ taken q q').Nodup := by
    rw [nodup_append]
    refine ⟨nodup_taken, nodup_taken, ?_⟩
    rintro f hf f' hf' rfl
    have hset := (mem_taken.mp hf).2.2
    have hclear := (mem_taken.mp hf').2.1
    simp [hset] at hclear
  apply (perm_ext_iff_of_nodup nodup_taken hnodup).mpr
  intro f
  have hp := hpq f
  have hq := hqq f
  rw [mem_append, mem_taken, mem_taken, mem_taken, hsize]
  revert hp hq
  cases p.isSet f <;> cases q.isSet f <;> cases q'.isSet f <;> simp

end account

section allocations

variable {σ : Type} {alloc : σ → Word × σ} {P : σ → Prop}

variable {s : Paging σ}

lemma mapTables_keeps (hP : ∀ s, P s → P (alloc s).2) (flags table : Word) (is : List (Fin 512))
    (h : P s.frames) : P (mapTables alloc flags s table is).2.frames := by
  induction is generalizing s table with
  | nil => exact h
  | cons i is ih =>
    rw [mapTables]
    dsimp only
    split
    · split
      · exact hP _ h
      · exact ih _ (hP _ h)
    · exact ih _ h

lemma vmmMapUnlocked_keeps (hP : ∀ s, P s → P (alloc s).2) (pml4 virt phys flags : Word) (h : P s.frames) :
    P (vmmMapUnlocked alloc s pml4 virt phys flags).2.frames := by
  have htables := mapTables_keeps hP flags pml4 [pml4Idx virt, pdptIdx virt, pdIdx virt] h
  rw [vmmMapUnlocked]
  split
  · rename_i heq
    rwa [heq] at htables
  · rename_i heq
    rwa [heq] at htables

lemma mapPages_keeps (hP : ∀ s, P s → P (alloc s).2) (pml4 virt phys flags : Word) (n : ℕ) {i : ℕ}
    (h : P s.frames) : P (mapPages alloc pml4 virt phys flags s n i).2.frames := by
  induction n generalizing s i with
  | zero => exact h
  | succ n ih =>
    have hone := vmmMapUnlocked_keeps hP pml4 (virt + pageOffset i) (phys + pageOffset i) flags h
    rw [mapPages]
    split
    · rename_i heq
      rw [heq] at hone
      exact ih hone
    · rename_i heq
      rw [heq] at hone
      split
      · exact hone
      · exact hone

end allocations

section kept

variable {p q : Pmm} {f : ℕ} {s s' s₁ s₂ : Vm} {cpu : Option ℕ} {addr size phys stop : Word} {flags : BitVec 32}

structure Managed (p q : Pmm) : Prop where
  size : q.bitmapSize = p.bitmapSize
  high : ∀ g, p.bitmapSize * 8 ≤ g → q.isSet g = p.isSet g

lemma Managed.alloc (h : Managed p q) (cpu : Option ℕ) : Managed p (pmmAllocFrame q cpu).2 := by
  rcases pmmAllocFrame_spec q cpu with hnone | ⟨k, q', hsome, -, hk, -, hsize, -, hbits⟩
  · rwa [hnone]
  · rw [hsome]
    refine ⟨hsize.trans h.size, fun g hg => ?_⟩
    rw [hbits, h.high g hg, decide_eq_false (by rw [h.size] at hk; omega), Bool.or_false]

lemma Managed.allocFrames (h : Managed p q) (count : ℕ) : Managed p (pmmAllocFrames q count).2 := by
  rcases pmmAllocFrames_spec q count with hnone | ⟨start, q', hsome, hpos, hrun, hsize, -, hbits⟩
  · rwa [hnone]
  · rw [hsome]
    refine ⟨hsize.trans h.size, fun g hg => ?_⟩
    have hlast := (hrun (count - 1) (by omega)).1
    rw [h.size] at hlast
    rw [hbits, h.high g hg, decide_eq_false (by omega), Bool.or_false]

lemma Managed.backRange (h : Managed p s₁.pmm) (hback : backRange s₁ cpu addr phys size flags = some s₂) :
    Managed p s₂.pmm := by
  obtain ⟨_, ht, hs₂⟩ := bind_eq_some_iff.mp hback
  cases hs₂
  rw [← checkMapped_eq ht]
  exact mapPages_keeps (fun q hq => hq.alloc cpu) _ _ _ _ _ h

structure Kept (p : Pmm) (f : ℕ) (s : Vm) : Prop where
  paged : Paged f s
  owned : Owned (oneRoot f) UserPath (tables s.mem) (usedFrames s.pmm) (usedFrames p)
  apart : ∀ g ∈ usedFrames p, g ∈ usedFrames s.pmm ∧ Unlinked (oneRoot f) UserPath (tables s.mem) g
  managed : Managed p s.pmm

lemma Kept.of_pages (h : Kept p f s) (hpages : s'.pages = s.pages) : Kept p f s' := by
  obtain ⟨hmem, hpmm, -⟩ := Vm.pages_eq.mp hpages
  refine ⟨h.paged.of_pages hpages, ?_, ?_, ?_⟩
  · rw [hmem, hpmm]
    exact h.owned
  · rw [hmem, hpmm]
    exact h.apart
  · rw [hpmm]
    exact h.managed

lemma Kept.mem_taken (h : Kept p f s) {g : ℕ} : g ∈ taken p s.pmm ↔
    ∃ q, UserPath q ∧ role (oneRoot f) (tables s.mem) () q = some g := by
  rw [VmaRanges.mem_taken]
  constructor
  · rintro ⟨-, hclear, hset⟩
    rcases h.owned.covered g hset with hold | ⟨_, q, hq, hr⟩
    · cases hclear.symm.trans hold
    · exact ⟨q, hq, hr⟩
  · rintro ⟨q, hq, hr⟩
    have hset : s.pmm.isSet g = true := h.paged.spaces.wired.used () q g hq hr
    have hclear : p.isSet g = false := by
      rw [Bool.eq_false_iff]
      exact fun hold => (h.apart g hold).2 () q hq hr
    refine ⟨?_, hclear, hset⟩
    by_contra hge
    rw [h.managed.size, not_lt] at hge
    simp [h.managed.high g hge, hclear] at hset

lemma Kept.unmapPage (h : Kept p f s) (cpu : Option ℕ) (huser : addr.toNat < 2 ^ 47) : Kept p f (unmapPage s cpu addr) ∧
    (taken p s.pmm).Perm ((freedPage s addr).map frameIndex ++ taken p (Memory.unmapPage s cpu addr).pmm) := by
  rcases unmapPage_cases cpu h.paged.spaces rfl h.paged.cr3 huser with
    ⟨hzero, hsame⟩ | ⟨e, hleaf, hnull, hindex, -, -, hused⟩
  · rw [hsame, freedPage, if_neg (not_not.mpr hzero)]
    exact ⟨h, List.Perm.refl _⟩
  obtain ⟨hspaces, hevolves, hfreed, -, -, htask⟩ :=
    unmapPage_spaces h.paged.spaces rfl h.paged.cr3 huser
  have hbits : ∀ g, (Memory.unmapPage s cpu addr).pmm.isSet g = true ↔ s.pmm.isSet g = true ∧ g ≠ frameOf e :=
    fun g => Set.ext_iff.mp hused g
  have hmem : frameOf e ∈ taken p s.pmm := by
    rw [h.mem_taken]
    refine ⟨leafPath addr, userPath_of_lt huser, ?_⟩
    rw [role_leafPath, hleaf, map_some]
  have hsize : (Memory.unmapPage s cpu addr).pmm.bitmapSize = s.pmm.bitmapSize := by
    rw [unmapPage_pmm, freeAll_size]
  constructor
  · refine ⟨⟨by rw [htask, h.paged.cr3], hspaces⟩, ?_, ?_, ?_, ?_⟩
    · exact unmapPage_owned (r := ()) h.paged.spaces rfl h.paged.cr3 huser h.owned
    · intro g hg
      obtain ⟨hset, hunlinked⟩ := h.apart g hg
      refine ⟨?_, fun r q hq hr => hunlinked r q hq (hevolves.roles r q g hq trivial hr)⟩
      by_contra hgone
      exact hunlinked () _ (userPath_of_lt huser) (hfreed g hset hgone)
    · exact hsize.trans h.managed.size
    · intro g hg
      rw [← h.managed.high g hg, Bool.eq_iff_iff, hbits, and_iff_left]
      rintro rfl
      have hlt := (VmaRanges.mem_taken.mp hmem).1
      rw [h.managed.size] at hlt
      omega
  · rw [freedPage, if_pos hnull, map_singleton, hindex, singleton_append]
    have hnodup : (frameOf e :: taken p (Memory.unmapPage s cpu addr).pmm).Nodup := by
      refine nodup_cons.mpr ⟨fun hin => ?_, nodup_taken⟩
      exact ((hbits _).mp (VmaRanges.mem_taken.mp hin).2.2).2 rfl
    apply (perm_ext_iff_of_nodup nodup_taken hnodup).mpr
    intro g
    rw [mem_cons, VmaRanges.mem_taken, VmaRanges.mem_taken, hbits, hsize]
    by_cases hg : g = frameOf e
    · rw [hg, eq_self, true_or, iff_true]
      exact VmaRanges.mem_taken.mp hmem
    · simp [hg]

lemma Kept.unmapPages {fuel : ℕ} (h : Kept p f s) (hstop : stop.toNat ≤ 2 ^ 47)
    (hpages : Word.forBelow (BitVec.ofNat 64 pageSize) stop (fun s vaddr => Memory.unmapPage s cpu vaddr) fuel addr s =
    some s₁) :
    Kept p f s₁ ∧ (taken p s.pmm).Perm ((unmapFrees cpu stop fuel addr s).map frameIndex ++ taken p s₁.pmm) := by
  induction fuel generalizing addr s with
  | zero => cases hpages
  | succ fuel ih =>
    rw [Word.forBelow] at hpages
    rw [unmapFrees]
    split_ifs at hpages with hlt
    · obtain ⟨hkept, hperm⟩ := h.unmapPage cpu (lt_of_lt_of_le (BitVec.lt_def.mp hlt) hstop)
      obtain ⟨hkept', hperm'⟩ := ih hkept hpages
      refine ⟨hkept', hperm.trans ?_⟩
      rw [if_pos hlt, map_append, append_assoc]
      exact hperm'.append_left _
    · cases hpages
      rw [if_neg hlt]
      exact ⟨h, List.Perm.refl _⟩

lemma Paged.leafEntryOf_eq (h : Paged f s) {v : Word} (hv : v.toNat < 2 ^ 47) : leafEntryOf s v = leaf f s.mem v := by
  rw [leafEntryOf, h.cr3]
  rcases h.spaces.wired.walk_cases rfl (UserPath.tail _ _ (userPath_of_lt hv)) with
    ⟨hleaf, -, hwalk⟩ | ⟨e, hleaf, -, g₁, g₂, g₃, hwalk⟩
  · rw [hwalk, leaf, hleaf]
    rfl
  · rw [hwalk, leaf, hleaf]
    rfl

lemma Kept.allocFailed {count : ℕ} (h : Kept p f s) (hreserved : p.isSet 0 = true)
    (halloc : pmmAllocFrames s.pmm count = (0, q)) : q = s.pmm := by
  rcases pmmAllocFrames_spec s.pmm count with hnone | ⟨start, q', hsome, hpos, hrun, -⟩
  · exact (Prod.mk.inj (halloc.symm.trans hnone)).2
  · -- the run would start at frame 0, which has been in use all along
    have hfree := (hrun 0 hpos).2
    have hstart : start = 0 := by
      by_contra hne
      have hlt := (hrun 0 hpos).1
      have hsmall : s.pmm.bitmapSize * 8 ≤ 2 ^ 28 := h.paged.spaces.small
      exact frameAddr_ne_zero (by rw [pageSize]; omega) (by omega) (Prod.mk.inj (halloc.symm.trans hsome)).1.symm
    rw [hstart] at hfree
    cases hfree.symm.trans (h.apart 0 hreserved).1

lemma Kept.run (h : Kept p f s) (hrange : addr.toNat + size.toNat ≤ 2 ^ 47) (hsupplied : Supplied s cpu addr size flags)
    (hnone : ∀ j < (roundUp size).toNat / 4096, leafEntryOf s (addr + pageOffset j) = none)
    (hrun : MapsRun s cpu addr size flags s') :
    Kept p f s' ∧ (taken p s'.pmm).Perm (taken p s.pmm ++ taken s.pmm s'.pmm) := by
  obtain ⟨-, hmono, hevolves, -⟩ := hrun.spaces (r := ()) hrange h.paged.spaces rfl h.paged.cr3
  obtain ⟨hsize, _⟩ := roundUp_range hrun.aligned hrange
  have hleaves : ∀ j < (roundUp size).toNat / 4096, leafOf (oneRoot f) (tables s.mem) () (addr + pageOffset j) = none := by
    intro j hj
    refine (h.paged.leafEntryOf_eq ?_).symm.trans (hnone j hj)
    rw [pageOffset_toNat (by rw [pageSize]; omega), pageSize]
    omega
  have hmanaged : Managed p s'.pmm := by
    obtain ⟨_, pmm, s₁, halloc, -, hback, hpages⟩ := hrun.run
    have hgranted := h.managed.allocFrames ((roundUp size).toNat / 4096)
    rw [halloc] at hgranted
    rw [(Vm.pages_eq.mp hpages).2.1]
    exact Managed.backRange hgranted hback
  refine ⟨⟨(h.paged.run hrange hrun).1, ?_, fun g hg => ?_, hmanaged⟩, ?_⟩
  · exact hrun.owned hrange h.paged.spaces rfl h.paged.cr3 hsupplied hleaves h.owned
  · obtain ⟨hset, hunlinked⟩ := h.apart g hg
    exact ⟨hmono hset, fun r q hq hr => hunlinked r q hq (hevolves.roles r q g hq hset hr)⟩
  · exact taken_split (fun g hg => (h.apart g hg).1) (fun g hg => hmono hg) (hmanaged.size.trans h.managed.size.symm)

end kept

section calls

variable {p : Pmm} {f : ℕ} {s s' : Vm} {l : List Word} {cpu : Option ℕ} {kmalloc : Option Word} {addr size : Word}
  {flags : BitVec 32} {code : Int}

lemma taken_self (p : Pmm) : taken p p = [] := by
  rw [eq_nil_iff_forall_not_mem]
  intro g hg
  obtain ⟨-, hclear, hset⟩ := mem_taken.mp hg
  cases hclear.symm.trans hset

lemma Kept.map (h : Kept p f s) (hreserved : p.isSet 0 = true) (hl : Linked s l) (hfresh : ∀ new ∈ kmalloc, new ∉ l)
    (huser : (Call.map cpu kmalloc addr size flags).InUserHalf) (hbacks : (Call.map cpu kmalloc addr size flags).Backs s)
    (hmap : vmaMap s cpu kmalloc addr size flags = some (code, s')) :
    Kept p f s' ∧ (taken p s'.pmm).Perm (taken p s.pmm ++ taken s.pmm s'.pmm) := by
  have hnothing : s'.pages = s.pages → Kept p f s' ∧ (taken p s'.pmm).Perm (taken p s.pmm ++ taken s.pmm s'.pmm) := by
    intro hpages
    rw [(Vm.pages_eq.mp hpages).2.1, taken_self, append_nil]
    exact ⟨h.of_pages hpages, List.Perm.refl _⟩
  obtain ⟨-, hsame | ⟨pmm, halloc, hpages⟩⟩ | ⟨rfl, hrun⟩ := vmaMap_pages hmap
  · exact hnothing hsame
  · rw [h.allocFailed hreserved halloc] at hpages
    exact hnothing hpages
  · obtain ⟨hnone, hres⟩ := hbacks (hl.grows hfresh hmap)
    exact h.run huser ⟨hrun.granted, hres⟩ hnone hrun

lemma Kept.unmap (h : Kept p f s) (huser : (Call.unmap cpu addr size).InUserHalf)
    (hunmap : vmaUnmap s cpu addr size = some (code, s')) :
    Kept p f s' ∧ (taken p s.pmm).Perm ((vmaUnmapFrees s cpu addr size).map frameIndex ++ taken p s'.pmm) := by
  rcases vmaUnmap_frees hunmap with ⟨rfl, hnone⟩ | ⟨s₁, hloop, hpages, hfrees⟩
  · rw [hnone]
    exact ⟨h, List.Perm.refl _⟩
  · have hstop : (addr + size).toNat ≤ 2 ^ 47 := by
      rw [BitVec.toNat_add]
      exact (Nat.mod_le _ _).trans huser
    obtain ⟨hkept, hperm⟩ := h.unmapPages hstop hloop
    rw [hfrees, show s'.pmm = s₁.pmm from congrArg (·.2.1) hpages]
    exact ⟨hkept.of_pages hpages, hperm⟩

end calls

section lifetimes

def Call.NonNull : Call → Prop
  | .map _ kmalloc _ _ _ => kmalloc ≠ some 0
  | .unmap _ _ _ => True

instance : (c : Call) → Decidable c.NonNull
  | .map _ kmalloc _ _ _ => inferInstanceAs (Decidable (kmalloc ≠ some 0))
  | .unmap _ _ _ => .isTrue trivial

structure Held (p : Pmm) (f : ℕ) (a : Account) : Prop where
  kept : Kept p f a.vm
  linked : ∃ l, Linked a.vm l ∧ 0 ∉ l
  balance : a.handed.Perm (a.freed ++ taken p a.vm.pmm)

variable {p : Pmm} {f : ℕ} {a a' : Account} {c : Call}

lemma Held.step (h : Held p f a) (hreserved : p.isSet 0 = true) (hfresh : c.Fresh a.vm) (hnull : c.NonNull)
    (huser : c.InUserHalf) (hbacks : c.Backs a.vm) (hstep : accountStep a c = some a') : Held p f a' := by
  obtain ⟨s, hs, rfl⟩ := map_eq_some_iff.mp hstep
  obtain ⟨l, hl, hzero⟩ := h.linked
  cases c with
  | map =>
    obtain ⟨⟨code, s⟩, hmap, rfl⟩ := map_eq_some_iff.mp hs
    simp only [Call.Fresh, hl.vmas_eq] at hfresh
    obtain ⟨hkept, hperm⟩ := h.kept.map hreserved hl hfresh huser hbacks hmap
    refine ⟨hkept, ?_, ?_⟩
    · cases hl.map hfresh hmap with
      | failed _ hlinked => exact ⟨l, hlinked, hzero⟩
      | grown _ _ _ _ hlinked => exact ⟨l, hlinked, hzero⟩
      | added _ new hnew _ hlinked =>
        refine ⟨new :: l, hlinked, not_mem_cons_of_ne_of_not_mem ?_ hzero⟩
        rintro rfl
        exact hnull hnew
    · rw [freedBy, append_nil]
      refine (h.balance.append_right _).trans ?_
      rw [append_assoc]
      exact hperm.symm.append_left _
  | unmap =>
    obtain ⟨⟨_, s⟩, hunmap, rfl⟩ := map_eq_some_iff.mp hs
    obtain ⟨hkept, hperm⟩ := h.kept.unmap huser hunmap
    have hlinked : ∃ l', Linked s l' ∧ 0 ∉ l' := by
      cases hl.unmap hunmap with
      | refused _ hsame => exact ⟨l, hsame ▸ hl, hzero⟩
      | kept _ _ _ _ _ hlinked => exact ⟨l, hlinked, hzero⟩
      | trimmed _ _ _ _ _ hlinked => exact ⟨l, hlinked, hzero⟩
      | removed vma l' _ _ _ _ hlinked hperm =>
        exact ⟨l', hlinked, fun hin => hzero (hperm.subset (mem_cons_of_mem vma hin))⟩
    have hnone : taken a.vm.pmm s.pmm = [] := by
      rw [eq_nil_iff_forall_not_mem]
      intro g hg
      obtain ⟨-, hclear, hset⟩ := mem_taken.mp hg
      have hused : g ∈ usedFrames s.pmm := hset
      rw [vmaUnmap_pmm hunmap, usedFrames_freeAll] at hused
      cases hclear.symm.trans hused.1
    refine ⟨hkept, hlinked, ?_⟩
    rw [hnone, append_nil, freedBy, append_assoc]
    exact h.balance.trans (hperm.append_left _)

lemma findArea_ends {s : Vm} {l : List Word} {fuel : ℕ} {before link : Option Word}
    (h : Seg (nextOf s) (prevOf s) before link l none) (hfuel : l.length < fuel) :
    findArea s.areas (fun _ => false) fuel link = some none := by
  induction l generalizing fuel before link with
  | nil =>
    obtain rfl : link = none := h
    cases fuel with
    | zero => cases hfuel
    | succ => rfl
  | cons a l ih =>
    obtain ⟨rfl, -, hrest⟩ := h
    cases fuel with
    | zero => cases hfuel
    | succ =>
      rw [findArea, if_neg Bool.false_ne_true]
      exact ih hrest (Nat.lt_of_succ_lt_succ hfuel)

lemma Kept.destroyFrees_perm {s : Vm} (h : Kept p f s) :
    (taken p s.pmm).Perm ((destroyFrees s.mem s.task.cr3).map frameIndex) := by
  have hwired := h.paged.spaces.wired
  have hmem : ∀ {w : Word}, w ∈ destroyFrees s.mem s.task.cr3 ↔ ∃ q, UserPath q ∧ EndsAt (oneRoot f) s.mem () q w := by
    rw [h.paged.cr3]
    exact mem_destroyFrees hwired rfl
  have hindex : ∀ {q : List Index} {k : ℕ}, role (oneRoot f) (tables s.mem) () q = some k → frameIndex (frameAddr k) = k :=
    fun hr => frameIndex_frameAddr' (role_small hwired.small hr)
  have hnodup : ((destroyFrees s.mem s.task.cr3).map frameIndex).Nodup := by
    refine List.Nodup.map_on ?_ (h.paged.cr3 ▸ nodup_destroyFrees (r := ()) hwired rfl)
    intro w hw w' hw' heq
    obtain ⟨q, -, k, hr, rfl⟩ := hmem.mp hw
    obtain ⟨_, -, _, hr', rfl⟩ := hmem.mp hw'
    rw [hindex hr, hindex hr'] at heq
    rw [heq]
  apply (perm_ext_iff_of_nodup nodup_taken hnodup).mpr
  intro g
  rw [h.mem_taken, List.mem_map]
  constructor
  · rintro ⟨q, hq, hr⟩
    exact ⟨frameAddr g, hmem.mpr ⟨q, hq, g, hr, rfl⟩, hindex hr⟩
  · rintro ⟨_, hw, rfl⟩
    obtain ⟨q, hq, _, hr, rfl⟩ := hmem.mp hw
    rw [hindex hr]
    exact ⟨q, hq, hr⟩

lemma Held.settles (h : Held p f a) : Settles a := by
  intro cpu
  obtain ⟨l, hl, hzero⟩ := h.linked
  have hlength : l.length < walkFuel := Word.length_le_of_nodup (nodup_cons.mpr ⟨hzero, hl.nodup⟩)
  have hcr3 : a.vm.task.cr3 ≠ 0 := by
    rw [h.kept.paged.cr3]
    have hroot : role (oneRoot f) (tables a.vm.mem) () [] = some f := role_nil
    have hpos := h.kept.owned.positive () [] f userPath_nil hroot
    have hsmall := role_small h.kept.paged.spaces.wired.small hroot
    exact frameAddr_ne_zero (by rw [pageSize]; omega) (by omega)
  have hend : vmaDestroyAll a.vm cpu = some { a.vm with
      task := { a.vm.task with vmaListHead := none, vmaTreeRoot := none, vmaCount := 0, cr3 := 0 }
      pmm := vmmDestroyUserPml4 a.vm.mem cpu true a.vm.task.cr3 a.vm.pmm } := by
    rw [vmaDestroyAll, findArea_ends hl.listed hlength]
    exact if_pos hcr3
  exact ⟨_, hend, vmmDestroyUserPml4_eq _ _ _ _, h.balance.trans (h.kept.destroyFrees_perm.append_left _)⟩

structure Prepared (p : Pmm) (kernelPml4 : Word) : Prop where
  small : p.bitmapSize * 8 ≤ 2 ^ 28
  reserved : p.isSet 0 = true
  kernel : ∃ k, k < 2 ^ 52 ∧ kernelPml4 = frameAddr k ∧ p.isSet k = true

variable {cpu : Option ℕ}

lemma held_start {areas : Word → VmaArea} {t : TaskVm} {m : Mem} {kernelPml4 : Word}
    (h : Prepared p kernelPml4) (hcr3 : (Account.start areas t m p cpu kernelPml4).vm.task.cr3 ≠ 0) :
    ∃ f, Held p f (Account.start areas t m p cpu kernelPml4) := by
  obtain ⟨k, hk, rfl, hkernel⟩ := h.kernel
  have hmanaged : Managed p (vmmCreateUserPml4 m p cpu (frameAddr k)).2.2 := by
    have halloc := Managed.alloc (p := p) ⟨rfl, fun _ _ => rfl⟩ cpu
    rw [vmmCreateUserPml4]
    dsimp only
    split
    · exact halloc
    · exact halloc
  obtain ⟨hsmall, ⟨hzero, -⟩ | ⟨g, hpos, hg, hroot, hfree, hused, -, hrow⟩⟩ := vmmCreateUserPml4_spec m cpu h.small hk hkernel
  · exact absurd hzero hcr3
  have hempty : ∀ i, UserPath [i] → tables (vmmCreateUserPml4 m p cpu (frameAddr k)).2.1 g i = 0 := by
    intro i hi
    rw [hrow, if_neg (not_le.mpr (userPath_singleton.mp hi))]
  have hin : g ∈ usedFrames (vmmCreateUserPml4 m p cpu (frameAddr k)).2.2 := by
    rw [hused]
    exact Set.mem_insert _ _
  obtain ⟨hpaged, honly⟩ := paged_of_emptyRow (s := (Account.start areas t m p cpu (frameAddr k)).vm) hsmall (by omega)
    hroot hin
    hempty
  refine ⟨g, ⟨hpaged, ⟨fun g' hg' => ?_, fun r q g' hq hr => ?_⟩, fun g' hg' => ⟨?_, fun r q hq hr => ?_⟩, hmanaged⟩,
    ⟨[], linked_init (t := { t with cr3 := _ }) rfl, not_mem_nil⟩, List.Perm.refl _⟩
  · change g' ∈ usedFrames (vmmCreateUserPml4 m p cpu (frameAddr k)).2.2 at hg'
    rw [hused] at hg'
    rcases hg' with rfl | hold
    · exact .inr ⟨(), [], userPath_nil, role_nil⟩
    · exact .inl hold
  · rwa [(honly q g' hq hr).2]
  · change g' ∈ usedFrames (vmmCreateUserPml4 m p cpu (frameAddr k)).2.2
    rw [hused]
    exact .inr hg'
  · rw [(honly q g' hq hr).2] at hg'
    exact hfree hg'

lemma held_run {areas : Word → VmaArea} {t : TaskVm} {m : Mem} {kernelPml4 : Word}
    {calls : List Call} (h : Prepared p kernelPml4)
    (hcr3 : (Account.start areas t m p cpu kernelPml4).vm.task.cr3 ≠ 0)
    (hfresh : Runs.Guarded accountStep (fun a c => c.Fresh a.vm) (Account.start areas t m p cpu kernelPml4) calls)
    (hcalls : ∀ c ∈ calls, c.NonNull ∧ c.InUserHalf)
    (hbacks : Runs.Guarded accountStep (fun a c => c.Backs a.vm) (Account.start areas t m p cpu kernelPml4) calls) :
    ∃ f, Runs.Always accountStep (Held p f) (Account.start areas t m p cpu kernelPml4) calls := by
  obtain ⟨f, hheld⟩ := held_start h hcr3
  refine ⟨f, Runs.invariant ?_ hheld ((hfresh.and hbacks).and (Runs.guarded_of_forall hcalls _))⟩
  rintro a c a' ha ⟨⟨hc, hc'⟩, hnull, huser⟩ hstep
  exact ha.step h.reserved hc hnull huser hc' hstep

theorem frames_freed_once {areas : Word → VmaArea} {t : TaskVm} {m : Mem} {p : Pmm} {cpu : Option ℕ} {kernelPml4 : Word}
    {calls : List Call} (h : Prepared p kernelPml4)
    (hcr3 : (Account.start areas t m p cpu kernelPml4).vm.task.cr3 ≠ 0)
    (hfresh : Runs.Guarded accountStep (fun a c => c.Fresh a.vm) (Account.start areas t m p cpu kernelPml4) calls)
    (hcalls : ∀ c ∈ calls, c.NonNull ∧ c.InUserHalf)
    (hbacks : Runs.Guarded accountStep (fun a c => c.Backs a.vm) (Account.start areas t m p cpu kernelPml4) calls) :
    Runs.Always accountStep Settles (Account.start areas t m p cpu kernelPml4) calls := by
  obtain ⟨f, hrun⟩ := held_run h hcr3 hfresh hcalls hbacks
  exact hrun.mono fun a ha => ha.settles

lemma Held.lost {kmalloc : Option Word} {addr size v e e' : Word} {flags : BitVec 32} (h : Held p f a)
    (huser : (Call.map cpu kmalloc addr size flags).InUserHalf)
    (hstep : accountStep a (.map cpu kmalloc addr size flags) = some a') (hv : v.toNat < 2 ^ 47)
    (hleaf : leafEntryOf a.vm v = some e) (hleaf' : leafEntryOf a'.vm v = some e') (hne : frameOf e ≠ frameOf e') :
    ¬ Settles a' := by
  obtain ⟨s, hs, rfl⟩ := map_eq_some_iff.mp hstep
  obtain ⟨⟨code, s⟩, hmap, rfl⟩ := map_eq_some_iff.mp hs
  have hpath := userPath_of_lt hv
  have hrole : ∀ {s : Vm} {e : Word}, Paged f s → leafEntryOf s v = some e →
      role (oneRoot f) (tables s.mem) () (leafPath v) = some (frameOf e) := by
    intro s e hpaged he
    rw [hpaged.leafEntryOf_eq hv, leaf] at he
    rw [role_leafPath, he, map_some]
  have hold := hrole h.kept.paged hleaf
  obtain ⟨hpaged, hroles⟩ : Paged f s ∧ ∀ q, UserPath q → role (oneRoot f) (tables s.mem) () q = some (frameOf e) →
      role (oneRoot f) (tables a.vm.mem) () q = some (frameOf e) := by
    rcases eq_or_ne code 0 with rfl | hcode
    · have hrun := vmaMap_run hmap
      obtain ⟨-, -, hevolves, -⟩ := hrun.spaces (r := ()) huser h.kept.paged.spaces rfl h.kept.paged.cr3
      refine ⟨(h.kept.paged.run huser hrun).1, fun q hq hr => ?_⟩
      exact hevolves.roles () q _ hq (h.kept.paged.spaces.wired.used () _ _ hpath hold) hr
    · obtain ⟨hpaged, hmem⟩ := h.kept.paged.mapFailed hmap hcode
      exact ⟨hpaged, fun q _ hq => by rwa [hmem] at hq⟩
  -- the only place of the frame was this page
  have hgone : frameOf e ∉ (destroyFrees s.mem s.task.cr3).map frameIndex := by
    intro hin
    obtain ⟨_, hw, hindex⟩ := List.mem_map.mp hin
    rw [hpaged.cr3] at hw
    obtain ⟨q, hq, _, hr, rfl⟩ := (mem_destroyFrees (r := ()) hpaged.spaces.wired rfl).mp hw
    rw [frameIndex_frameAddr' (role_small hpaged.spaces.wired.small hr)] at hindex
    rw [hindex] at hr
    have hsame := (h.kept.paged.spaces.wired.separate () q () (leafPath v) _ hq hpath (hroles q hq hr) hold).2
    rw [hsame, hrole hpaged hleaf'] at hr
    exact hne (Option.some.inj hr).symm
  intro hsettles
  obtain ⟨-, -, -, hperm⟩ := hsettles none
  have hcount := hperm.count_eq (frameOf e)
  have hbalance := h.balance.count_eq (frameOf e)
  have htaken := count_pos_iff.mpr (h.kept.mem_taken.mpr ⟨leafPath v, hpath, hold⟩)
  dsimp only at hcount
  rw [freedBy, append_nil, count_append, count_append, count_eq_zero_of_not_mem hgone] at hcount
  rw [count_append] at hbalance
  omega

end lifetimes

section blank

lemma zeroPage_zero (a : Word) : zeroPage (fun _ => 0) a = fun _ => 0 := by
  funext x
  simp [zeroPage, Mem.fill]

lemma copyKernelHalf_zero (a b : Word) : copyKernelHalf (fun _ => 0) a b = fun _ => 0 := by
  have hstep : ∀ i : Fin 256, setEntry (fun _ => 0) a (kernelIndex i) (entry (fun _ => 0) b (kernelIndex i)) = fun _ => 0 := by
    intro i
    funext x
    simp [setEntry, entry, Mem.store64, Mem.writeLE, Mem.load64, Mem.readLE]
  rw [copyKernelHalf]
  induction List.finRange 256 with
  | nil => rfl
  | cons =>
    rwa [foldl_cons, hstep]

def eightFrames (free : Byte) : Pmm := ⟨0x1000, fun i => if i = 32 then free else 0xFF, 40, fun _ => 0⟩

def newTask (free : Byte) : Account :=
  Account.start (fun _ => newArea 0 0 0) ⟨none, none, 0, 0, 0, 0, 0⟩ (fun _ => 0) (eightFrames free) none (frameAddr 1)

def plainTask (free : Byte) : Account :=
  let (cr3, pmm) := pmmAllocFrame (eightFrames free) none
  ⟨⟨fun _ => newArea 0 0 0, vmaInitTask ⟨none, none, 0, cr3, 0, 0, 0⟩, fun _ => 0, pmm⟩, taken (eightFrames free) pmm, []⟩

lemma newTask_eq (free : Byte) : newTask free = plainTask free := by
  have hmem : ∀ a : Word, copyKernelHalf (zeroPage (fun _ => 0) a) a (frameAddr 1) = fun _ => 0 := by
    intro a
    rw [zeroPage_zero, copyKernelHalf_zero]
  rw [newTask, Account.start, vmmCreateUserPml4, plainTask]
  cases pmmAllocFrame (eightFrames free) none with
  | mk =>
    simp only [hmem]
    split_ifs with hnull
    · subst hnull
      rfl
    · rfl

lemma prepared_eightFrames : Prepared (eightFrames 0) (frameAddr 1) where
  small := by decide
  reserved := by decide
  kernel := ⟨1, by decide, rfl, by decide⟩

def grownAndCut : List Call :=
  [.map none (some 0x8000) 0x1000 0x2000 5, .map none none 0x3000 0x1000 5, .unmap none 0x2000 0x2000]

theorem frames_freed_once_grownAndCut : ∃ a, Runs.run accountStep (newTask 0) grownAndCut = some a ∧
    a.handed = [256, 257, 258, 259, 260, 261, 262] ∧ a.freed = [258, 262] ∧ Settles a := by
  obtain ⟨a, hrun, hhanded, hfreed⟩ : ∃ a ∈ Runs.run accountStep (newTask 0) grownAndCut,
      a.handed = [256, 257, 258, 259, 260, 261, 262] ∧ a.freed = [258, 262] := by
    rw [newTask_eq]
    decide +kernel
  obtain ⟨hcr3, hfresh, hbacks⟩ : (newTask 0).vm.task.cr3 ≠ 0 ∧
      Runs.Guarded accountStep (fun a c => c.Fresh a.vm) (newTask 0) grownAndCut ∧
      Runs.Guarded accountStep (fun a c => c.Backs a.vm) (newTask 0) grownAndCut := by
    rw [newTask_eq]
    exact ⟨by decide +kernel, by decide +kernel, by decide +kernel⟩
  exact ⟨a, hrun, hhanded, hfreed, (frames_freed_once prepared_eightFrames hcr3 hfresh (by decide) hbacks).last hrun⟩

lemma not_settles {a : Account} (h : a.handed.length ≠ a.freed.length + (destroyFrees a.vm.mem a.vm.task.cr3).length) :
    ¬ Settles a := by
  intro hsettles
  obtain ⟨-, -, -, hperm⟩ := hsettles none
  rw [hperm.length_eq, length_append, length_map] at h
  exact h rfl

def twoAreas : List Call := [.map none (some 0x8000) 0x1000 0x1000 2, .map none (some 0x9000) 0x2000 0x1000 1]

theorem frames_lost :
    (∃ a, Runs.run accountStep (newTask 0) (twoAreas ++ [.map none none 0x2000 0x1000 2]) = some a ∧ ¬ Settles a) ∧
    ∃ a, Runs.run accountStep (newTask 0xFC) [.map none (some 0x8000) 0x1000 0x1000 2] = some a ∧ ¬ Settles a := by
  constructor
  · obtain ⟨a, hrun, a', hstep, hleaf, hleaf'⟩ : ∃ a ∈ Runs.run accountStep (newTask 0) twoAreas,
        ∃ a' ∈ accountStep a (.map none none 0x2000 0x1000 2),
          leafEntryOf a.vm 0x2000 = some 0x105005 ∧ leafEntryOf a'.vm 0x2000 = some 0x106007 := by
      rw [newTask_eq]
      decide +kernel
    obtain ⟨hcr3, hfresh, hbacks⟩ : (newTask 0).vm.task.cr3 ≠ 0 ∧
        Runs.Guarded accountStep (fun a c => c.Fresh a.vm) (newTask 0) twoAreas ∧
        Runs.Guarded accountStep (fun a c => c.Backs a.vm) (newTask 0) twoAreas := by
      rw [newTask_eq]
      exact ⟨by decide +kernel, by decide +kernel, by decide +kernel⟩
    obtain ⟨f, hheld⟩ := held_run prepared_eightFrames hcr3 hfresh (by decide) hbacks
    refine ⟨a', ?_, (hheld.last hrun).lost (by decide) hstep (by decide) hleaf hleaf' (by decide)⟩
    rw [Runs.run_append, hrun]
    simp only [bind_some, Runs.run, show accountStep a _ = some a' from hstep]
  · rw [newTask_eq]
    refine Runs.exists_of_check (fun a => a.handed.length = 2 ∧ a.freed.length = 0 ∧
      (destroyFrees a.vm.mem a.vm.task.cr3).length = 1) (by decide +kernel) fun a hrun ha => not_settles ?_
    omega

end blank

end KernelSmp.Memory.VmaRanges
