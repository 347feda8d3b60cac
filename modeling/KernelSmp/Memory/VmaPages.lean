import KernelSmp.Memory.Vma

/-! What the calls of `vma.c` do to the page tables and the frames, apart from the descriptors. -/

namespace KernelSmp.Memory

open Base Option

def Vm.pages (s : Vm) : Mem × Pmm × Word := (s.mem, s.pmm, s.task.cr3)

variable {s s' : Vm}

section descriptors

structure LinkFree {β : Type*} (view : Vm → β) : Prop where
  setChild : ∀ s a d c, view (Vm.setChild s a d c) = view s
  setParent : ∀ s a p, view (Vm.setParent s a p) = view s
  setRoot : ∀ s r, view (Vm.setRoot s r) = view s

structure TreeFree {β : Type*} (view : Vm → β) : Prop where
  setChild : ∀ s a d c, view (Vm.setChild s a d c) = view s
  setParent : ∀ s a p, view (Vm.setParent s a p) = view s
  setColor : ∀ s a c, view (Vm.setColor s a c) = view s
  setRoot : ∀ s r, view (Vm.setRoot s r) = view s

lemma TreeFree.onLink {β : Type*} (view : Vm → β) {f : Vm → Word → Vm} (hf : ∀ s a, view (f s a) = view s)
    (l : Option Word) : view (s.onLink l f) = view s := by
  cases l with
  | none => rfl
  | some a => exact hf s a

namespace LinkFree

variable {β : Type*} {view : Vm → β}

lemma replaceAt (hv : LinkFree view) (d : Side) (s : Vm) (x : Word) (y : Option Word) :
    view (Memory.replaceAt d s x y) = view s := by
  rw [Memory.replaceAt]
  split
  · exact hv.setRoot s y
  · split
    · exact hv.setChild ..
    · exact hv.setChild ..

variable {d : Side}

lemma rotate (hv : LinkFree view) {x : Word} (h : Memory.rotate d s x = some s') : view s' = view s := by
  simp only [Memory.rotate, bind_eq_bind, bind_eq_some_iff, pure_def, Option.some.injEq] at h
  obtain ⟨_, -, rfl⟩ := h
  rw [hv.setParent, hv.setChild, hv.replaceAt, hv.setParent, TreeFree.onLink view, hv.setChild]
  exact fun _ _ => hv.setParent ..

lemma rotateSide (hv : LinkFree view) {x : Word} (h : Memory.rotateSide d s x = some s') : view s' = view s := by
  cases d <;> exact hv.rotate h

lemma straighten (hv : LinkFree view) {z p z' : Word} (h : Memory.straighten d s z p = some (z', s')) : view s' = view s := by
  rw [Memory.straighten] at h
  split at h
  · obtain ⟨_, h₁, heq⟩ := map_eq_some_iff.mp h
    obtain ⟨-, rfl⟩ := Prod.mk.inj heq
    exact hv.rotateSide h₁
  · cases h
    rfl

lemma insertFrom (hv : LinkFree view) {new node : Word} {fuel : ℕ} (h : Memory.insertFrom new fuel s node = some s') :
    view s' = view s := by
  induction fuel generalizing node with
  | zero => cases h
  | succ fuel ih =>
    rw [Memory.insertFrom] at h
    split at h
    · cases h
      rw [hv.setParent, hv.setChild]
    · exact ih h

lemma treeInsert (hv : LinkFree view) {new : Word} (h : Memory.treeInsert s new = some s') : view s' = view s := by
  rw [Memory.treeInsert] at h
  split at h
  · cases h
    exact hv.setRoot ..
  · exact hv.insertFrom h

lemma hangRight (hv : LinkFree view) {vma : Word} (h : Memory.hangRight s vma = some s') : view s' = view s := by
  rw [Memory.hangRight] at h
  split at h
  · obtain ⟨_, -, rfl⟩ := map_eq_some_iff.mp h
    rw [hv.setParent, hv.setChild]
  · cases h
    rfl

lemma treeRemove (hv : LinkFree view) {vma : Word} (h : Memory.treeRemove s vma = some s') : view s' = view s := by
  simp only [Memory.treeRemove, bind_eq_bind, bind_eq_some_iff, pure_def, Option.some.injEq] at h
  obtain ⟨_, h₁, rfl⟩ := h
  rw [TreeFree.onLink view, hv.replaceAt, hv.hangRight h₁]
  exact fun _ _ => hv.setParent ..

end LinkFree

namespace TreeFree

variable {β : Type*} {view : Vm → β}

lemma links (hv : TreeFree view) : LinkFree view := ⟨hv.setChild, hv.setParent, hv.setRoot⟩

lemma treeInsert (hv : TreeFree view) {new : Word} (h : Memory.treeInsert s new = some s') : view s' = view s :=
  hv.links.treeInsert h

lemma treeRemove (hv : TreeFree view) {vma : Word} (h : Memory.treeRemove s vma = some s') : view s' = view s :=
  hv.links.treeRemove h

variable {z : Word}

lemma fixupSide (hv : TreeFree view) {d : Side} {p g z' : Word} (h : Memory.fixupSide d s z p g = some (z', s')) :
    view s' = view s := by
  simp only [Memory.fixupSide] at h
  split at h
  · cases h
    rw [hv.setColor, onLink view, hv.setColor]
    exact fun _ _ => hv.setColor ..
  · simp only [bind_eq_bind, bind_eq_some_iff, pure_def, Option.some.injEq, Prod.exists] at h
    obtain ⟨_, _, h₁, _, -, _, -, _, h₂, heq⟩ := h
    obtain ⟨-, rfl⟩ := Prod.mk.inj heq
    rw [hv.links.rotateSide h₂, hv.setColor, hv.setColor, hv.links.straighten h₁]

lemma fixupLoop (hv : TreeFree view) {fuel : ℕ} (h : Memory.fixupLoop fuel s z = some s') : view s' = view s := by
  induction fuel generalizing s z with
  | zero => cases h
  | succ fuel ih =>
    rw [Memory.fixupLoop] at h
    split at h
    · cases h
      rfl
    · split at h
      · simp only [bind_eq_bind, bind_eq_some_iff, Prod.exists] at h
        obtain ⟨_, -, _, _, h₁, h₂⟩ := h
        rw [ih h₂, hv.fixupSide h₁]
      · cases h
        rfl

lemma vmaInsertFixup (hv : TreeFree view) (h : Memory.vmaInsertFixup s z = some s') : view s' = view s := by
  simp only [Memory.vmaInsertFixup, bind_eq_bind, bind_eq_some_iff, pure_def, Option.some.injEq] at h
  obtain ⟨_, h₁, _, -, rfl⟩ := h
  rw [hv.setColor, hv.fixupLoop h₁]

end TreeFree

lemma treeFree_pages : TreeFree Vm.pages :=
  ⟨fun _ _ d _ => by cases d <;> rfl, fun _ _ _ => rfl, fun _ _ _ => rfl, fun _ _ => rfl⟩

lemma listInsert_pages (s : Vm) (new : Word) : (listInsert s new).pages = s.pages := by
  have hlink : ∀ (u : Vm) (l : Option Word), (u.onLink l fun u h => u.setPrev h (some new)).pages = u.pages := by
    intro u l
    apply TreeFree.onLink Vm.pages
    exact fun _ _ => rfl
  exact hlink (s.setNext new s.task.vmaListHead) s.task.vmaListHead

lemma listRemove_pages (s : Vm) (vma : Word) : (listRemove s vma).pages = s.pages := by
  have hlinks : (((s.onLink (s.areas vma).prev fun s p => s.setNext p (s.areas vma).next).onLink
      ((s.onLink (s.areas vma).prev fun s p => s.setNext p (s.areas vma).next).areas vma).next
        fun s n => s.setPrev n (s.areas vma).prev)).pages = s.pages := by
    rw [TreeFree.onLink Vm.pages, TreeFree.onLink Vm.pages]
    · exact fun _ _ => rfl
    · exact fun _ _ => rfl
  rw [listRemove]
  split
  · exact hlinks
  · exact hlinks

end descriptors

variable {cpu : Option ℕ} {kmalloc : Option Word} {addr size : Word} {flags : BitVec 32} {code : Int}

inductive VmaMapOutcome (s : Vm) (cpu : Option ℕ) (kmalloc : Option Word) (addr size : Word) (flags : BitVec 32) :
    Int → Vm → Prop
  | refused {code : Int} (hcode : code ≠ 0) : VmaMapOutcome s cpu kmalloc addr size flags code s
  | expandFailed {curr : Word} {pmm : Pmm}
      (hfind : findArea s.areas (canExpand addr flags) walkFuel s.task.vmaListHead = some (some curr))
      (halloc : pmmAllocFrames s.pmm ((roundUp size).toNat / 4096) = (0, pmm)) :
      VmaMapOutcome s cpu kmalloc addr size flags (-1) { s with pmm }
  | expanded {curr phys : Word} {pmm : Pmm} {s₁ : Vm} (haligned : addr &&& 0xFFF = 0)
      (hfind : findArea s.areas (canExpand addr flags) walkFuel s.task.vmaListHead = some (some curr))
      (halloc : pmmAllocFrames s.pmm ((roundUp size).toNat / 4096) = (phys, pmm)) (hphys : phys ≠ 0)
      (hback : backRange { s with pmm } cpu addr phys (roundUp size) flags = some s₁) :
      VmaMapOutcome s cpu kmalloc addr size flags 0 (s₁.setEnd curr ((s₁.areas curr).vmEnd + roundUp size))
  | insertFailed {new : Word} {pmm : Pmm} (hnew : kmalloc = some new)
      (halloc : pmmAllocFrames s.pmm ((roundUp size).toNat / 4096) = (0, pmm)) :
      VmaMapOutcome s cpu kmalloc addr size flags (-4)
        { s.setArea new (newArea addr (addr + roundUp size) flags) with pmm }
  | inserted {new phys : Word} {pmm : Pmm} {s₁ s₂ s₃ : Vm} (haligned : addr &&& 0xFFF = 0) (hnew : kmalloc = some new)
      (hfree : findArea s.areas (overlaps addr (roundUp size)) walkFuel s.task.vmaListHead = some none)
      (halloc : pmmAllocFrames s.pmm ((roundUp size).toNat / 4096) = (phys, pmm)) (hphys : phys ≠ 0)
      (hback : backRange { s.setArea new (newArea addr (addr + roundUp size) flags) with pmm } cpu addr phys
        (roundUp size) flags = some s₁)
      (hinsert : treeInsert (listInsert s₁ new) new = some s₂) (hfixup : vmaInsertFixup s₂ new = some s₃) :
      VmaMapOutcome s cpu kmalloc addr size flags 0 { s₃ with task := { s₃.task with vmaCount := s₃.task.vmaCount + 1 } }

theorem vmaMap_cases (h : vmaMap s cpu kmalloc addr size flags = some (code, s')) :
    VmaMapOutcome s cpu kmalloc addr size flags code s' := by
  rw [vmaMap] at h
  split at h
  · cases h
    exact .refused (by decide)
  split at h
  · cases h
    exact .refused (by decide)
  rename_i haligned
  rw [not_not] at haligned
  obtain ⟨expand, hexpand, h⟩ := bind_eq_some_iff.mp h
  cases expand with
  | some =>
    rcases halloc : pmmAllocFrames s.pmm ((roundUp size).toNat / 4096) with ⟨phys, pmm⟩
    simp only [halloc] at h
    split_ifs at h with hzero
    · rw [hzero] at halloc
      cases h
      exact .expandFailed hexpand halloc
    · obtain ⟨s₁, hback, h⟩ := bind_eq_some_iff.mp h
      cases h
      exact .expanded haligned hexpand halloc hzero hback
  | none =>
    obtain ⟨_, hoverlap, h⟩ := bind_eq_some_iff.mp h
    split at h
    · cases h
      exact .refused (by decide)
    rename_i hnone
    rw [isSome_iff_ne_none, not_not] at hnone
    rw [hnone] at hoverlap
    split at h
    · cases h
      exact .refused (by decide)
    · rename_i new
      rcases halloc : pmmAllocFrames s.pmm ((roundUp size).toNat / 4096) with ⟨_, _⟩
      simp only [Vm.setArea, halloc] at h
      split_ifs at h with hzero
      · rw [hzero] at halloc
        cases h
        exact .insertFailed rfl halloc
      · obtain ⟨_, hback, h⟩ := bind_eq_some_iff.mp h
        obtain ⟨_, hinsert, h⟩ := bind_eq_some_iff.mp h
        obtain ⟨_, hfixup, h⟩ := bind_eq_some_iff.mp h
        cases h
        exact .inserted haligned rfl hoverlap halloc hzero hback hinsert hfixup

lemma Vm.pages_eq {u : Vm} : u.pages = s.pages ↔ u.mem = s.mem ∧ u.pmm = s.pmm ∧ u.task.cr3 = s.task.cr3 := by
  rw [Vm.pages, Vm.pages, Prod.mk.injEq, Prod.mk.injEq]

lemma backRange_pages {u : Vm} {phys : Word} (h : backRange s cpu addr phys size flags = some s') (hu : u.pages = s.pages) :
    ∃ u', backRange u cpu addr phys size flags = some u' ∧ s'.pages = u'.pages := by
  obtain ⟨hmem, hpmm, hcr3⟩ := Vm.pages_eq.mp hu
  obtain ⟨t, ht, h⟩ := bind_eq_some_iff.mp h
  cases h
  rw [← hmem, ← hpmm, ← hcr3] at ht
  exact ⟨_, bind_eq_some_iff.mpr ⟨t, ht, rfl⟩, Vm.pages_eq.mpr ⟨rfl, rfl, hcr3.symm⟩⟩

structure MapsRun (s : Vm) (cpu : Option ℕ) (addr size : Word) (flags : BitVec 32) (s' : Vm) : Prop where
  aligned : addr &&& 0xFFF = 0
  run : ∃ phys pmm s₁, pmmAllocFrames s.pmm ((roundUp size).toNat / 4096) = (phys, pmm) ∧ phys ≠ 0 ∧
    backRange { s with pmm } cpu addr phys (roundUp size) flags = some s₁ ∧ s'.pages = s₁.pages

lemma MapsRun.granted (h : MapsRun s cpu addr size flags s') : (pmmAllocFrames s.pmm ((roundUp size).toNat / 4096)).1 ≠ 0 := by
  obtain ⟨_, _, _, halloc, _, -⟩ := h.run
  rwa [halloc]

lemma vmaMap_pages (h : vmaMap s cpu kmalloc addr size flags = some (code, s')) : code ≠ 0 ∧
    (s'.pages = s.pages ∨ ∃ pmm, pmmAllocFrames s.pmm ((roundUp size).toNat / 4096) = (0, pmm) ∧
    s'.pages = (s.mem, pmm, s.task.cr3)) ∨ code = 0 ∧ MapsRun s cpu addr size flags s' := by
  cases vmaMap_cases h with
  | refused hcode => exact .inl ⟨hcode, .inl rfl⟩
  | expandFailed _ halloc => exact .inl ⟨by decide, .inr ⟨_, halloc, rfl⟩⟩
  | expanded haligned _ halloc hphys hback => exact .inr ⟨rfl, haligned, _, _, _, halloc, hphys, hback, rfl⟩
  | insertFailed _ halloc => exact .inl ⟨by decide, .inr ⟨_, halloc, rfl⟩⟩
  | @inserted new phys pmm s₁ s₂ s₃ haligned _ _ halloc hphys hback hinsert hfixup =>
    obtain ⟨u, hu, hpages⟩ := backRange_pages (u := { s with pmm }) hback rfl
    refine .inr ⟨rfl, haligned, _, _, u, halloc, hphys, hu, Eq.trans ?_ hpages⟩
    exact (treeFree_pages.vmaInsertFixup hfixup).trans ((treeFree_pages.treeInsert hinsert).trans (listInsert_pages _ _))

lemma vmaMap_run (h : vmaMap s cpu kmalloc addr size flags = some (0, s')) : MapsRun s cpu addr size flags s' := by
  obtain ⟨hcode, -⟩ | ⟨-, hrun⟩ := vmaMap_pages h
  · exact absurd rfl hcode
  · exact hrun

inductive VmaUnmapOutcome (s : Vm) (cpu : Option ℕ) (addr size : Word) : Int → Vm → Prop
  | refused {code : Int} (hcode : size = 0 ∨ code ≠ 0) : VmaUnmapOutcome s cpu addr size code s
  | kept {vma : Word} {s₁ : Vm} (hfind : vmaFind s addr = some (some vma))
      (hpages : Word.forBelow (BitVec.ofNat 64 pageSize) (addr + size) (fun s vaddr => unmapPage s cpu vaddr) walkFuel
        addr s = some s₁) (hshort : ¬ addr + size ≥ (s₁.areas vma).vmEnd) : VmaUnmapOutcome s cpu addr size 0 s₁
  | trimmed {vma : Word} {s₁ : Vm} (hfind : vmaFind s addr = some (some vma))
      (hpages : Word.forBelow (BitVec.ofNat 64 pageSize) (addr + size) (fun s vaddr => unmapPage s cpu vaddr) walkFuel
        addr s = some s₁) (hstart : addr > (s₁.areas vma).vmStart) (hend : addr + size ≥ (s₁.areas vma).vmEnd) :
      VmaUnmapOutcome s cpu addr size 0 (s₁.setEnd vma addr)
  | removed {vma : Word} {s₁ s₂ : Vm} (hfind : vmaFind s addr = some (some vma))
      (hpages : Word.forBelow (BitVec.ofNat 64 pageSize) (addr + size) (fun s vaddr => unmapPage s cpu vaddr) walkFuel
        addr s = some s₁) (hremove : treeRemove (listRemove s₁ vma) vma = some s₂)
      (hwhole : addr ≤ (s₁.areas vma).vmStart ∧ addr + size ≥ (s₁.areas vma).vmEnd) :
      VmaUnmapOutcome s cpu addr size 0 { s₂ with task := { s₂.task with vmaCount := s₂.task.vmaCount - 1 } }

theorem vmaUnmap_cases (h : vmaUnmap s cpu addr size = some (code, s')) : VmaUnmapOutcome s cpu addr size code s' := by
  rw [vmaUnmap] at h
  split at h
  · rename_i hsize
    cases h
    exact .refused (.inl hsize)
  obtain ⟨found, hfind, h⟩ := bind_eq_some_iff.mp h
  cases found with
  | none =>
    cases h
    exact .refused (.inr (by decide))
  | some vma =>
    obtain ⟨_, hpages, h⟩ := bind_eq_some_iff.mp h
    split at h
    · rename_i htail
      cases h
      exact .trimmed hfind hpages htail.1 htail.2
    split at h
    · rename_i hwhole
      obtain ⟨_, hremove, h⟩ := bind_eq_some_iff.mp h
      cases h
      exact .removed hfind hpages hremove hwhole
    · rename_i htail hwhole
      cases h
      refine .kept hfind hpages fun hend => ?_
      exact hwhole ⟨BitVec.not_lt.mp fun hstart => htail ⟨hstart, hend⟩, hend⟩

lemma vmaUnmap_pages (h : vmaUnmap s cpu addr size = some (code, s')) :
    (size = 0 ∨ code ≠ 0) ∧ s' = s ∨ ∃ s₁, Word.forBelow (BitVec.ofNat 64 pageSize) (addr + size)
      (fun s vaddr => unmapPage s cpu vaddr) walkFuel addr s = some s₁ ∧ s'.pages = s₁.pages := by
  cases vmaUnmap_cases h with
  | refused hcode => exact .inl ⟨hcode, rfl⟩
  | kept _ hpages => exact .inr ⟨_, hpages, rfl⟩
  | trimmed _ hpages => exact .inr ⟨_, hpages, rfl⟩
  | removed _ hpages hremove =>
    exact .inr ⟨_, hpages, (treeFree_pages.treeRemove hremove).trans (listRemove_pages _ _)⟩

lemma vmaDestroyAll_cases (h : vmaDestroyAll s cpu = some s') :
    s'.mem = s.mem ∧ s'.areas = s.areas ∧
    s'.task = { s.task with vmaListHead := none, vmaTreeRoot := none, vmaCount := 0, cr3 := 0 } ∧
    s'.pmm = if s.task.cr3 ≠ 0 then vmmDestroyUserPml4 s.mem cpu true s.task.cr3 s.pmm else s.pmm := by
  obtain ⟨-, -, h⟩ := bind_eq_some_iff.mp h
  dsimp only at h
  split at h
  · rename_i hcr3
    obtain rfl := Option.some.inj h
    exact ⟨rfl, rfl, rfl, (if_pos hcr3).symm⟩
  · rename_i hcr3
    obtain rfl := Option.some.inj h
    rw [not_not] at hcr3
    refine ⟨rfl, rfl, ?_, (if_neg (not_not.mpr hcr3)).symm⟩
    rw [hcr3]

namespace VmaRanges

def Supplied (s : Vm) (cpu : Option ℕ) (addr size : Word) (flags : BitVec 32) : Prop :=
  (pmmAllocFrames s.pmm ((roundUp size).toNat / 4096)).1 ≠ 0 ∧
  (vmmMapRangeUnlocked (fun p => pmmAllocFrame p cpu) ⟨s.mem, (pmmAllocFrames s.pmm ((roundUp size).toNat / 4096)).2⟩
    s.task.cr3 addr
    (pmmAllocFrames s.pmm ((roundUp size).toNat / 4096)).1 (roundUp size) ((vmmOpts flags).setWidth 64)).1 = true

instance (s : Vm) (cpu : Option ℕ) (addr size : Word) (flags : BitVec 32) : Decidable (Supplied s cpu addr size flags) :=
  inferInstanceAs (Decidable (_ ∧ _))

end VmaRanges

end KernelSmp.Memory
