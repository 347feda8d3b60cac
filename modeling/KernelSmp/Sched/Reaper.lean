import KernelSmp.Sched.TaskCreation

/-! The life of an address space, from the creators of `context.c` over `task_exit` to `sched_reap`. A pass of the reaper takes
the list of the dead and then cleans up one task after the other, while the other processors go on. -/

namespace KernelSmp.Sched.Reaper

open Base Base.Radix Function Memory Memory.VmaRanges Fs TaskCreation List Option

structure State where
  memory : Kernel
  nextTid : Word
  count : ℕ
  tid : ℕ → Word
  isUser : ℕ → Bool
  live : ℕ → Bool
  deadTaskList : List ℕ
  toClean : List ℕ

namespace State

def system (s : State) : System := ⟨s.memory.areas, s.memory.mem, s.memory.pmm, [], s.nextTid⟩

def resume (s : State) (t : System) : State :=
  { s with memory := { s.memory with areas := t.areas, mem := t.mem, pmm := t.pmm }, nextTid := t.nextTid }

def taskRegister (s : State) (base : TaskBase) (vm : TaskVm) (user : Bool) : State :=
  { s with memory := { s.memory with tasks := update s.memory.tasks s.count vm }, count := s.count + 1,
           tid := update s.tid s.count base.tid, isUser := update s.isUser s.count user, live := update s.live s.count true }

def readCr3 (s : State) : Option ℕ → Word
  | none => s.memory.kernelPml4
  | some t => (s.memory.tasks t).cr3

end State

def archTaskCreate (running : Option ℕ) (k : Answers) (s : State) : State :=
  match taskAllocBase k s.system with
  | (none, t) => s.resume t
  | (some base, t) => (s.resume t).taskRegister base { freshTask with cr3 := s.readCr3 running } false

def create (c : Creator) (cpu : Option ℕ) (k : Answers) (s : State) : Option State :=
  (c.create cpu s.memory.kernelPml4 k s.system).map fun
    | (none, t) => s.resume t
    | (some task, t) => (s.resume t).taskRegister task.base task.vm true

inductive Action
  | archTaskCreate (running : Option ℕ) (k : Answers)
  | create (c : Creator) (cpu : Option ℕ) (k : Answers)
  | taskExit (t : ℕ)
  | schedReap
  | cleanUp (cpu : Option ℕ)
  | heap (c : Isolation.Call)

def ofHeap : Isolation.Call → Bool
  | .heapFrame _ | .heapFrames _ | .heapWrite .. => true
  | _ => false

def step (s : State) : Action → Option State
  | .archTaskCreate running k => if ∀ t ∈ running, s.live t then some (archTaskCreate running k s) else none
  | .create c cpu k => create c cpu k s
  | .taskExit t =>
    if s.live t then some { s with live := update s.live t false, deadTaskList := t :: s.deadTaskList } else none
  | .schedReap => if s.toClean = [] then some { s with toClean := s.deadTaskList, deadTaskList := [] } else none
  | .cleanUp cpu =>
    match s.toClean with
    | [] => none
    | t :: rest =>
      if s.tid t ≥ 10 then
        (vmaDestroyAll (s.memory.vm t) cpu).map fun vm => { s with memory := s.memory.put t vm, toClean := rest }
      else some { s with toClean := rest }
  | .heap c => if ofHeap c then (Isolation.step s.memory c).map fun k => { s with memory := k } else none

def pageNumber : List Index → ℕ
  | [] => 0
  | i :: p => pageNumber p * 512 + i

/-- The direct map shows frame `f` as page `f` of the upper half, and the identity map of the bootstrap does in the lower. -/
def Window (p : List Index) (f : ℕ) : Prop := p.length = 4 ∧ pageNumber p % 2 ^ 35 = f

/-- `f` is a table or a page behind the PML4. The windows through which the kernel sees all of memory do not count, but every
page in the user half of a task does. -/
def Reachable (k : Kernel) (cr3 : Word) (f : ℕ) : Prop :=
  ∃ p, p.length ≤ 4 ∧ role (oneRoot (frameIndex cr3)) (tables k.mem) () p = some f ∧
    (Window p f → UserPath p ∧ cr3 ≠ k.kernelPml4)

structure Exclusive (s : State) (t : ℕ) (s' : State) : Prop where
  pml4 : s.tid t ≥ 10 → (s.memory.tasks t).cr3 ≠ 0 → (s.memory.tasks t).cr3 ≠ s.memory.kernelPml4 ∧
    ∀ t', s.live t' = true → (s.memory.tasks t').cr3 ≠ (s.memory.tasks t).cr3
  frames : ∀ f, s.memory.pmm.isSet f = true → s'.memory.pmm.isSet f = false →
    (∃ p, UserPath p ∧ role (oneRoot (frameIndex (s.memory.tasks t).cr3)) (tables s.memory.mem) () p = some f) ∧
    ¬ Reachable s.memory s.memory.kernelPml4 f ∧ ∀ t', s.live t' = true → ¬ Reachable s.memory (s.memory.tasks t').cr3 f

def StaysInside (cpu : Option ℕ) (kmalloc : ℕ → Option Word) (s : Vm) : Creator → Prop
  | .user _ => ∀ r ∈ vmaMap s cpu (kmalloc 0) codeVirt fourPages codeFlags, r.1 = 0 →
      Supplied s cpu codeVirt fourPages codeFlags
  | .elf image => InUserHalf image

/-- A task exits that has an address space of its own, in which no task of `arch_task_create` lives on. -/
def Action.Allowed (s : State) : Action → Prop
  | .create c cpu k => (taskAllocBase k s.system).1.isSome → (newSpace cpu s.memory.kernelPml4 s.system).task.cr3 ≠ 0 →
      StaysInside cpu k.descriptors (newSpace cpu s.memory.kernelPml4 s.system) c
  | .taskExit t => s.isUser t = true ∧
      ∀ t' < s.count, s.live t' = true → s.isUser t' = false → (s.memory.tasks t').cr3 ≠ (s.memory.tasks t).cr3
  | _ => True

instance (s : State) (t : ℕ) : Decidable ((Action.taskExit t).Allowed s) :=
  inferInstanceAs (Decidable (_ ∧ ∀ t' < s.count, _ → _ → _))

structure Booted (s : State) : Prop where
  half : BootedHalf s.memory
  frames : ∀ f, Reachable s.memory s.memory.kernelPml4 f → s.memory.pmm.isSet f = true ∧ f ∉ s.memory.heap
  noLive : ∀ t, s.live t = false
  noDead : s.deadTaskList = [] ∧ s.toClean = []

variable {m₀ : Mem} {K : Set ℕ} {t : ℕ} {cpu : Option ℕ}

section spaces

variable {k : Kernel} {s s' : Vm}

lemma role_oneRoot {R : Type} {roots : R → Option ℕ} {T : ℕ → Index → Word} {r : R} {f : ℕ} (h : roots r = some f)
    (p : List Index) : role (oneRoot f) T () p = role roots T r p := by
  rw [role, role, look, look, h]

lemma paged_of_sound (h : k.Sound) (ht : (k.tasks t).cr3 ≠ 0) : ∃ f, k.roots t = some f ∧ Paged f (k.vm t) := by
  obtain ⟨f, _, hcr3, hroot⟩ := h.root ht
  have hrole : ∀ {u : Unit} {p g}, role (oneRoot f) (tables k.mem) u p = some g → role k.roots (tables k.mem) t p = some g :=
    fun hr => (role_oneRoot hroot _).symm.trans hr
  have hwired := h.spaces.wired
  refine ⟨f, hroot, hcr3, h.spaces.small, hwired.closed, fun _ g hg => hwired.small t g (hroot.trans hg), ?_, ?_, ?_⟩
  · intro _ p _ q g hp hq hr hr'
    exact ⟨rfl, (hwired.separate t p t q g hp hq (hrole hr) (hrole hr')).2⟩
  · exact fun _ p g hp hr => hwired.used t p g hp (hrole hr)
  · exact fun _ p g i hip hlen hr => hwired.upper t p g i hip hlen (hrole hr)

structure Placed (m₀ : Mem) (K : Set ℕ) (k : Kernel) (t : ℕ) (s : Vm) : Prop where
  kept : KernelKept m₀ K (k.put t s)
  cr3 : s.task.cr3 = (k.tasks t).cr3

lemma placed_self (h : KernelKept m₀ K k) (t : ℕ) : Placed m₀ K k t (k.vm t) := ⟨by rwa [put_self], rfl⟩

lemma Placed.updates (h : Placed m₀ K k t s) (hs : (k.put t s).Updates t s') : Placed m₀ K k t s' := by
  have hput := h.kept.put hs
  rw [put_put] at hput
  have hcr3 := hs.cr3
  rw [put_task] at hcr3
  exact ⟨hput, hcr3.trans h.cr3⟩

lemma Placed.of_pages (h : Placed m₀ K k t s) (hpages : s'.pages = s.pages) : Placed m₀ K k t s' :=
  h.updates ((h.kept.sound.updates_self t).of_pages (by rw [put_vm, hpages]))

lemma Placed.ne_zero (h : Placed m₀ K k t s) (ht : (k.tasks t).cr3 ≠ 0) : ((k.put t s).tasks t).cr3 ≠ 0 := by
  rwa [put_task, h.cr3]

variable {malloc : Option Word}

lemma Placed.map {addr size : Word} {flags : BitVec 32} {code : Int} (h : Placed m₀ K k t s)
    (ht : (k.tasks t).cr3 ≠ 0) (hrange : addr.toNat + size.toNat ≤ 2 ^ 47)
    (hmap : vmaMap s cpu malloc addr size flags = some (code, s')) : Placed m₀ K k t s' := by
  rw [← put_vm k t s] at hmap
  exact h.updates (vmaMap_updates h.kept.sound (h.ne_zero ht) hrange hmap)

variable {entry : Option Word}

lemma Placed.mapOrNull {addr size : Word} {flags : BitVec 32}
    {rest : Vm → Option (Option Word × Vm)} (h : Placed m₀ K k t s) (ht : (k.tasks t).cr3 ≠ 0)
    (hrange : addr.toNat + size.toNat ≤ 2 ^ 47)
    (hrun : TaskCreation.mapOrNull s cpu malloc addr size flags rest = some (entry, s'))
    (hrest : ∀ s₁, vmaMap s cpu malloc addr size flags = some (0, s₁) → Placed m₀ K k t s₁ → rest s₁ = some (entry, s') →
      Placed m₀ K k t s') : Placed m₀ K k t s' := by
  simp only [TaskCreation.mapOrNull, bind_eq_bind, bind_eq_some_iff] at hrun
  obtain ⟨⟨code, s₁⟩, hmap, hrun⟩ := hrun
  have h₁ := h.map ht hrange hmap
  split_ifs at hrun with hcode
  · cases hrun
    exact h₁
  · obtain rfl : code = 0 := not_not.mp hcode
    exact hrest s₁ hmap h₁ hrun

lemma Placed.copyCode {s₁ : Vm} (code : Mem) (h : Placed m₀ K k t s) (ht : (k.tasks t).cr3 ≠ 0)
    (hsupplied : Supplied s cpu codeVirt fourPages codeFlags)
    (hmap : vmaMap s cpu malloc codeVirt fourPages codeFlags = some (0, s₁)) :
    Placed m₀ K k t (TaskCreation.copyCode code s₁) := by
  have h₁ := h.map ht (by decide) hmap
  obtain ⟨f, _, hpaged⟩ := paged_of_sound h.kept.sound (h.ne_zero ht)
  rw [put_vm] at hpaged
  obtain ⟨hpaged₁, -, start, _, hstart, hleaves⟩ := hpaged.map (by decide) hsupplied hmap
  have hround : (roundUp fourPages).toNat = 4 * 4096 := by decide
  have hcode : codeVirt.toNat = 0x400000 := rfl
  have hroot₁ : (k.put t s₁).roots t = some f := by
    rwa [Kernel.roots, put_task, h₁.cr3, ← h.cr3, ← put_task k t s]
  have hphys : vmmVirtualToPhysical s₁.mem s₁.task.cr3 codeVirt = frameAddr start := by
    obtain ⟨e, hleaf, hframe⟩ := hleaves codeVirt (by omega) (by omega)
    rw [hpaged₁.virtualToPhysical (by rw [hcode]; decide) (by rw [hcode]) hleaf, hframe, hcode, Nat.sub_self,
      Nat.zero_div, Nat.add_zero]
  have hupdate : (k.put t s₁).Updates t
      { (k.put t s₁).vm t with mem := s₁.mem.copy (pageSize * start) code 0 fourPages.toNat } := by
    refine writePages_updates h₁.kept.sound (W := {g | start ≤ g ∧ g < start + 4}) (fun g hg => ?_) fun g hg => ?_
    · exact tables_copy_other s₁.mem code (c := 4) (by rw [Set.mem_ofPred_eq] at hg; omega) (by decide)
    · obtain ⟨_, _⟩ := hg
      obtain ⟨v, hv⟩ : ∃ v : Word, v.toNat = 0x400000 + (g - start) * 4096 :=
        ⟨BitVec.ofNat 64 (0x400000 + (g - start) * 4096), by rw [BitVec.toNat_ofNat, Nat.mod_eq_of_lt (by omega)]⟩
      obtain ⟨e, hleaf, _⟩ := hleaves v (by omega) (by omega)
      have hg : frameOf e = g := by omega
      refine ⟨leafPath v, userPath_of_lt (by omega), rfl, ?_⟩
      rw [← hg, ← role_oneRoot hroot₁]
      exact role_of_leaf hleaf
  rw [put_vm] at hupdate
  rw [TaskCreation.copyCode, hphys, frameAddr_toNat (by omega)]
  exact h₁.updates hupdate

lemma Placed.loadCode {kmalloc : ℕ → Option Word} {code : Mem} (h : Placed m₀ K k t s)
    (ht : (k.tasks t).cr3 ≠ 0) (hinside : StaysInside cpu kmalloc s (.user code))
    (hload : TaskCreation.loadCode cpu kmalloc code s = some (entry, s')) : Placed m₀ K k t s' := by
  refine h.mapOrNull ht (by decide) hload fun s₁ hmap _ hload => ?_
  have h₁ := h.copyCode code ht (hinside _ hmap rfl) hmap
  refine h₁.mapOrNull ht (by decide) hload fun s₂ _ h₂ hload => ?_
  have hheap : Placed m₀ K k t (setHeap s₂) := h₂.of_pages rfl
  refine hheap.mapOrNull ht (show (0x406000 : Word).toNat + fourPages.toNat ≤ 2 ^ 47 by decide) hload fun s₃ _ h₃ hload => ?_
  cases hload
  exact h₃

lemma load_placed {kmalloc : ℕ → Option Word} {c : Creator} (h : KernelKept m₀ K k) (ht : (k.tasks t).cr3 ≠ 0)
    (hdirect : vmmVirtualToPhysical m₀ k.kernelPml4 hhdmOffset = 0) (hinside : StaysInside cpu kmalloc (k.vm t) c)
    (hload : c.load cpu kmalloc (k.vm t) = some (entry, s)) : Placed m₀ K k t s := by
  cases c with
  | user => exact (placed_self h t).loadCode ht hinside hload
  | elf =>
    simp only [Creator.load, loadElf, bind_eq_bind, bind_eq_some_iff] at hload
    obtain ⟨⟨_, s₁⟩, helf, hload⟩ := hload
    obtain ⟨hkept, hcr3⟩ := elfLoad_kept hinside h ht hdirect helf
    have h₁ : Placed m₀ K k t s₁ := ⟨hkept, hcr3⟩
    split at hload
    · cases hload
      exact h₁
    · refine h₁.mapOrNull ht (by decide) hload fun s₂ _ h₂ hload => ?_
      cases hload
      exact h₂

lemma create_kept (h : KernelKept m₀ K k) (ht : (k.tasks t).cr3 = 0) (cpu : Option ℕ) : KernelKept m₀ K (k.create t cpu) :=
  ⟨create_sound h.sound ht cpu, h.frozen.create h.sound ht cpu, h.tables⟩

lemma destroyAll_kept (h : KernelKept m₀ K k) (hdestroy : vmaDestroyAll (k.vm t) cpu = some s) :
    KernelKept m₀ K (k.put t s) := by
  by_cases ht : (k.tasks t).cr3 = 0
  · obtain ⟨hmem, -, htask, hpmm⟩ := vmaDestroyAll_cases hdestroy
    change s.pmm = if (k.tasks t).cr3 ≠ 0 then _ else k.pmm at hpmm
    rw [if_neg (not_not.mpr ht)] at hpmm
    refine ((placed_self h t).of_pages ?_).kept
    rw [Vm.pages, Vm.pages, hmem, hpmm, htask]
    exact congrArg (fun w => (k.mem, k.pmm, w)) ht.symm
  · exact ⟨vmaDestroyAll_sound h.sound ht hdestroy, h.frozen.destroyAll h.sound ht hdestroy, h.tables⟩

lemma unlinked_update_none {roots : ℕ → Option ℕ} {T : ℕ → Index → Word} {g : ℕ} (h : Unlinked roots UserPath T g) (t : ℕ) :
    Unlinked (update roots t none) UserPath T g := by
  intro r p hp hr
  by_cases hrt : r = t
  · simp [hrt, role_update_none] at hr
  · rw [role_update_of_ne hrt] at hr
    exact h r p hp hr

lemma kept_forget {k' : Kernel} (h : KernelKept m₀ K k) (t : ℕ) (hmem : k'.mem = k.mem) (hpmm : k'.pmm = k.pmm)
    (hpml4 : k'.kernelPml4 = k.kernelPml4) (hheap : k'.heap = k.heap) (ht : (k'.tasks t).cr3 = 0)
    (hother : ∀ t', t' ≠ t → (k'.tasks t').cr3 = (k.tasks t').cr3) : KernelKept m₀ K k' := by
  have hroots : k'.roots = update k.roots t none := by
    funext t'
    by_cases htt : t' = t
    · rw [htt, update_self, Kernel.roots, ht]
      rfl
    · rw [update_of_ne htt, Kernel.roots, hother t' htt, Kernel.roots]
  obtain ⟨⟨hspaces, haligned, ⟨c, hc, hkernel, hused, hun⟩, hheld⟩, hfrozen, _⟩ := h
  refine ⟨⟨⟨?_, ?_⟩, fun t' => ?_, ⟨c, hc, hpml4.trans hkernel, ?_⟩, fun f hf => ?_⟩,
    ⟨fun g hg => ?_, fun g hg => ?_, fun g hg => ?_, ?_,
    fun t' g hg j hj => ?_⟩, ?_⟩
  · rw [hpmm]
    exact hspaces.small
  · rw [hroots, hmem, hpmm]
    exact hspaces.wired.removeRoot t fun f hf hn => absurd hf hn
  · by_cases htt : t' = t
    · rw [htt, ht]
      exact ⟨0, by decide, rfl⟩
    · rw [hother t' htt]
      exact haligned t'
  · rw [hroots, hmem, hpmm]
    exact ⟨hused, unlinked_update_none hun t⟩
  · rw [hheap] at hf
    rw [hroots, hmem, hpmm]
    exact ⟨(hheld f hf).1, unlinked_update_none (hheld f hf).2 t⟩
  · rw [hroots, hmem, hpmm]
    exact ⟨(hfrozen.used g hg).1, unlinked_update_none (hfrozen.used g hg).2 t⟩
  · rw [hheap]
    exact hfrozen.heap g hg
  · rw [hmem]
    exact hfrozen.rows g hg
  · rw [hpml4]
    exact hfrozen.root
  · rw [hroots] at hg
    have htt : t' ≠ t := by
      rintro rfl
      simp at hg
    rw [update_of_ne htt] at hg
    rw [hmem, hpml4]
    exact hfrozen.half t' g hg j hj
  · rwa [hpml4]

end spaces

variable {c : Creator} {pml4 : Word} {r : Option UserTask}

section creation

variable {k : Answers} {s s' : System}

lemma taskAllocBase_memory (k : Answers) (s : System) :
    (taskAllocBase k s).2.areas = s.areas ∧ (taskAllocBase k s).2.mem = s.mem ∧ (taskAllocBase k s).2.pmm = s.pmm := by
  rw [taskAllocBase]
  split
  · exact ⟨rfl, rfl, rfl⟩
  · split <;> exact ⟨rfl, rfl, rfl⟩

inductive Outcome (c : Creator) (cpu : Option ℕ) (pml4 : Word) (k : Answers) (s : System) (r : Option UserTask)
    (s' : System) : Prop
  | noBase (hr : r = none) (hareas : s'.areas = s.areas) (hmem : s'.mem = s.mem) (hpmm : s'.pmm = s.pmm)
  | noSpace (hr : r = none) (hcr3 : (newSpace cpu pml4 s).task.cr3 = 0) (hareas : s'.areas = s.areas)
      (hmem : s'.mem = (newSpace cpu pml4 s).mem) (hpmm : s'.pmm = (newSpace cpu pml4 s).pmm)
  | filled (entry : Option Word) (vm : Vm) (hbase : (taskAllocBase k s).1.isSome) (hcr3 : (newSpace cpu pml4 s).task.cr3 ≠ 0)
      (hload : c.load cpu k.descriptors (newSpace cpu pml4 s) = some (entry, vm)) (hvm : ∀ t ∈ r, t.vm = vm.task)
      (hareas : s'.areas = vm.areas) (hmem : s'.mem = vm.mem) (hpmm : s'.pmm = vm.pmm)

lemma create_outcome (h : c.create cpu pml4 k s = some (r, s')) : Outcome c cpu pml4 k s r s' := by
  rw [c.create_eq, createTask] at h
  obtain ⟨hareas, hmem, hpmm⟩ := taskAllocBase_memory k s
  rcases hbase : taskAllocBase k s with ⟨base, s₁⟩
  rw [hbase] at hareas hmem hpmm
  have hspace : newSpace cpu pml4 s₁ = newSpace cpu pml4 s := by
    rw [newSpace, newSpace, hareas, hmem, hpmm]
  rw [hbase] at h
  cases base with
  | none =>
    cases h
    exact .noBase rfl hareas hmem hpmm
  | some =>
    dsimp only at h
    rw [hspace] at h
    split_ifs at h with hcr3
    · obtain ⟨rfl, rfl⟩ := Prod.mk.inj (Option.some.inj h)
      exact .noSpace rfl hcr3 hareas rfl rfl
    · simp only [bind_eq_bind, bind_eq_some_iff] at h
      obtain ⟨⟨entry, vm⟩, hload, h⟩ := h
      cases h
      refine .filled entry vm (by rw [hbase]; rfl) hcr3 hload (fun t ht => ?_) rfl rfl rfl
      obtain ⟨_, -, rfl⟩ := map_eq_some_iff.mp ht
      rfl

end creation

variable {k₀ : Kernel}

section runs

variable {s s' : State}

def State.users (s : State) : Kernel :=
  { s.memory with tasks := fun t => if s.isUser t then s.memory.tasks t else freshTask }

lemma users_tasks (ht : s.isUser t = true) : s.users.tasks t = s.memory.tasks t := if_pos ht

lemma users_vm (ht : s.isUser t = true) : s.users.vm t = s.memory.vm t := by
  rw [Kernel.vm, users_tasks ht]
  rfl

structure Inv (k₀ : Kernel) (K : Set ℕ) (s : State) : Prop where
  kept : KernelKept k₀.mem K s.users
  pml4 : s.memory.kernelPml4 = k₀.kernelPml4
  fresh : ∀ t, s.count ≤ t → (s.memory.tasks t).cr3 = 0 ∧ s.live t = false
  user : ∀ t, s.live t = true → s.isUser t = true → (s.memory.tasks t).cr3 ≠ 0
  dead : ∀ t ∈ s.deadTaskList ++ s.toClean, t < s.count ∧ s.isUser t = true ∧ s.live t = false
  borrowed : ∀ t, s.live t = true → s.isUser t = false → (s.memory.tasks t).cr3 = s.memory.kernelPml4 ∨
    ∃ u, s.live u = true ∧ s.isUser u = true ∧ (s.memory.tasks t).cr3 = (s.memory.tasks u).cr3

lemma Inv.lt_count (h : Inv k₀ K s) (ht : s.live t = true) : t < s.count := by
  by_contra hle
  simp [(h.fresh t (Nat.le_of_not_lt hle)).2] at ht

lemma Inv.users_count (h : Inv k₀ K s) : (s.users.tasks s.count).cr3 = 0 := by
  rw [State.users]
  dsimp only
  split
  · exact (h.fresh s.count le_rfl).1
  · rfl

lemma Inv.register (h : Inv k₀ K s) {base : TaskBase} {vm : TaskVm} {user : Bool}
    (hkept : KernelKept k₀.mem K (s.taskRegister base vm user).users) (huser : user = true → vm.cr3 ≠ 0)
    (hborrowed : user = false → vm.cr3 = s.memory.kernelPml4 ∨
      ∃ u, s.live u = true ∧ s.isUser u = true ∧ vm.cr3 = (s.memory.tasks u).cr3) :
    Inv k₀ K (s.taskRegister base vm user) := by
  have hother : ∀ {t}, t ≠ s.count → ((s.taskRegister base vm user).memory.tasks t).cr3 = (s.memory.tasks t).cr3 ∧
      (s.taskRegister base vm user).isUser t = s.isUser t ∧ (s.taskRegister base vm user).live t = s.live t := by
    intro t ht
    simp only [State.taskRegister, update_of_ne ht, and_self]
  have hnew : ((s.taskRegister base vm user).memory.tasks s.count).cr3 = vm.cr3 ∧
      (s.taskRegister base vm user).isUser s.count = user := by
    simp only [State.taskRegister, update_self, and_self]
  have hlive : ∀ {u}, s.live u = true → (s.taskRegister base vm user).live u = true ∧
      (s.taskRegister base vm user).isUser u = s.isUser u ∧
      ((s.taskRegister base vm user).memory.tasks u).cr3 = (s.memory.tasks u).cr3 := by
    intro u hu
    obtain ⟨hcr3, hkind, hstill⟩ := hother (h.lt_count hu).ne
    exact ⟨hstill.trans hu, hkind, hcr3⟩
  have hlend : ∀ {w}, (w = s.memory.kernelPml4 ∨ ∃ u, s.live u = true ∧ s.isUser u = true ∧ w = (s.memory.tasks u).cr3) →
      w = (s.taskRegister base vm user).memory.kernelPml4 ∨ ∃ u, (s.taskRegister base vm user).live u = true ∧
        (s.taskRegister base vm user).isUser u = true ∧ w = ((s.taskRegister base vm user).memory.tasks u).cr3 := by
    rintro w (hw | ⟨u, hu, hkind, hw⟩)
    · exact .inl hw
    · obtain ⟨hu', hkind', hcr3⟩ := hlive hu
      exact .inr ⟨u, hu', hkind'.trans hkind, hw.trans hcr3.symm⟩
  refine ⟨hkept, h.pml4, fun t ht => ?_, fun t hl hu => ?_, fun t ht => ?_, fun t hl hu => ?_⟩
  · have hcount : s.count + 1 ≤ t := ht
    obtain ⟨hcr3, -, hstill⟩ := hother (t := t) (by omega)
    rw [hcr3, hstill]
    exact h.fresh t (by omega)
  · by_cases htc : t = s.count
    · rw [htc] at hu ⊢
      rw [hnew.2] at hu
      rw [hnew.1]
      exact huser hu
    · obtain ⟨hcr3, hkind, hstill⟩ := hother htc
      rw [hcr3]
      exact h.user t (hstill ▸ hl) (hkind ▸ hu)
  · obtain ⟨hlt, hkind, hstill⟩ := h.dead t ht
    obtain ⟨-, hkind', hstill'⟩ := hother hlt.ne
    exact ⟨Nat.lt_succ_of_lt hlt, hkind'.trans hkind, hstill'.trans hstill⟩
  · by_cases htc : t = s.count
    · rw [htc] at hu ⊢
      rw [hnew.2] at hu
      rw [hnew.1]
      exact hlend (hborrowed hu)
    · obtain ⟨hcr3, hkind, hstill⟩ := hother htc
      rw [hcr3]
      exact hlend (h.borrowed t (hstill ▸ hl) (hkind ▸ hu))

variable {k : Kernel}

lemma Inv.resume (h : Inv k₀ K s) {t : System} (hkept : KernelKept k₀.mem K k) (hmem : t.mem = k.mem)
    (hpmm : t.pmm = k.pmm) (hpml4 : s.memory.kernelPml4 = k.kernelPml4) (hheap : s.memory.heap = k.heap)
    (hother : ∀ t', t' ≠ s.count → (s.users.tasks t').cr3 = (k.tasks t').cr3) : Inv k₀ K (s.resume t) :=
  ⟨kept_forget hkept s.count hmem hpmm hpml4 hheap h.users_count hother, h.pml4, h.fresh, h.user, h.dead, h.borrowed⟩

lemma archTaskCreate_inv (h : Inv k₀ K s) {running : Option ℕ} (hrunning : ∀ t ∈ running, s.live t = true) (k : Answers) :
    Inv k₀ K (archTaskCreate running k s) := by
  obtain ⟨-, hmem, hpmm⟩ := taskAllocBase_memory k s.system
  rw [archTaskCreate]
  rcases hbase : taskAllocBase k s.system with ⟨base, t⟩
  rw [hbase] at hmem hpmm
  have h₁ := h.resume h.kept hmem hpmm rfl rfl fun _ _ => rfl
  cases base with
  | none => exact h₁
  | some =>
    refine h₁.register ?_ nofun fun _ => ?_
    · refine kept_forget h₁.kept s.count rfl rfl rfl rfl ?_ fun t' ht' => ?_
      · simp only [State.users, State.taskRegister, State.resume, update_self]
        rfl
      · simp only [State.users, State.taskRegister, State.resume, update_of_ne ht']
        rfl
    · cases running with
      | none => exact .inl rfl
      | some r =>
        have hr := hrunning r rfl
        cases hkind : s.isUser r with
        | true => exact .inr ⟨r, hr, hkind, rfl⟩
        | false => exact h.borrowed r hr hkind

lemma newSpace_eq (s : State) (cpu : Option ℕ) :
    newSpace cpu s.memory.kernelPml4 s.system = (s.users.create s.count cpu).vm s.count := by
  simp only [Kernel.create, Kernel.vm, update_self]
  rfl

lemma create_inv (h : Inv k₀ K s) (hdirect : vmmVirtualToPhysical k₀.mem k₀.kernelPml4 hhdmOffset = 0)
    {k : Answers} (hallowed : (Action.create c cpu k).Allowed s) (hstep : create c cpu k s = some s') : Inv k₀ K s' := by
  obtain ⟨⟨r, t⟩, hcreate, rfl⟩ := map_eq_some_iff.mp hstep
  have hmade := create_kept h.kept h.users_count cpu
  have hothers : ∀ t', t' ≠ s.count → (s.users.tasks t').cr3 = ((s.users.create s.count cpu).tasks t').cr3 := by
    intro t' ht'
    simp only [Kernel.create, update_of_ne ht']
  cases create_outcome hcreate with
  | noBase hr hareas hmem hpmm =>
    rw [hr]
    exact h.resume h.kept hmem hpmm rfl rfl fun _ _ => rfl
  | noSpace hr hcr3 hareas hmem hpmm =>
    rw [hr]
    exact h.resume hmade hmem hpmm rfl rfl hothers
  | filled entry vm hbase hcr3 hload hvm hareas hmem hpmm =>
    have hinside := hallowed hbase hcr3
    rw [newSpace_eq] at hinside hload hcr3
    have hplaced := load_placed hmade hcr3 (by rw [← h.pml4] at hdirect; exact hdirect) hinside hload
    have h₁ : Inv k₀ K (s.resume t) := by
      refine h.resume hplaced.kept hmem hpmm rfl rfl fun t' ht' => ?_
      rw [hothers t' ht']
      simp only [Kernel.put, update_of_ne ht']
    cases r with
    | none => exact h₁
    | some task =>
      have htask := hvm task rfl
      refine h₁.register ?_ (fun _ => ?_) (by simp)
      · have husers : ((s.resume t).taskRegister task.base task.vm true).users =
            (s.users.create s.count cpu).put s.count vm := by
          simp only [State.users, State.taskRegister, State.resume, htask]
          congr 1
          funext t'
          by_cases htt : t' = s.count
          · simp [htt]
          · simp [htt, Kernel.create]
        rw [husers]
        exact hplaced.kept
      · rwa [htask, hplaced.cr3]

lemma heap_users {c : Isolation.Call} (hc : ofHeap c = true) (hstep : Isolation.step s.memory c = some k) :
    k.tasks = s.memory.tasks ∧ Isolation.step s.users c = some { k with tasks := s.users.tasks } := by
  cases c with
  | create | map | unmap | destroyAll => cases hc
  | heapFrame cpu | heapFrames count =>
    simp only [Isolation.step, Option.some.injEq] at hstep
    subst hstep
    simp only [State.users]
    split_ifs with hnull
    · exact ⟨rfl, congrArg some (if_pos hnull)⟩
    · exact ⟨rfl, congrArg some (if_neg hnull)⟩
  | heapWrite =>
    simp only [Isolation.step, ite_none_right_eq_some, Option.some.injEq] at hstep
    obtain ⟨hframe, rfl⟩ := hstep
    exact ⟨rfl, if_pos hframe⟩

lemma heap_inv (h : Inv k₀ K s) {c : Isolation.Call} (hc : ofHeap c = true) (hstep : Isolation.step s.memory c = some k) :
    Inv k₀ K { s with memory := k } := by
  obtain ⟨htasks, husers⟩ := heap_users hc hstep
  have hallowed : c.Allowed := by
    cases c with
    | create | map | unmap | destroyAll => cases hc
    | heapFrame | heapFrames | heapWrite => trivial
  have hpml4 := step_kernelPml4 hstep
  have heq : ({ s with memory := k } : State).users = { k with tasks := s.users.tasks } := by
    rw [State.users, State.users, htasks]
  refine ⟨?_, hpml4.trans h.pml4, ?_, ?_, h.dead, ?_⟩
  · rw [heq]
    refine ⟨Isolation.step_sound h.kept.sound hallowed husers, step_frozen h.kept.frozen h.kept.sound hallowed husers, ?_⟩
    have htables := h.kept.tables
    rwa [← step_kernelPml4 husers] at htables
  · rw [htasks]
    exact h.fresh
  · rw [htasks]
    exact h.user
  · rw [htasks, hpml4]
    exact h.borrowed

lemma taskExit_inv (h : Inv k₀ K s) (hlive : s.live t = true) (hallowed : (Action.taskExit t).Allowed s) :
    Inv k₀ K { s with live := update s.live t false, deadTaskList := t :: s.deadTaskList } := by
  obtain ⟨huser, hborrowers⟩ := hallowed
  have hstill : ∀ {t'}, update s.live t false t' = true → t' ≠ t ∧ s.live t' = true := by
    intro t' ht'
    by_cases htt : t' = t
    · rw [htt, update_self] at ht'
      cases ht'
    · rw [update_of_ne htt] at ht'
      exact ⟨htt, ht'⟩
  refine ⟨h.kept, h.pml4, fun t' ht' => ⟨(h.fresh t' ht').1, ?_⟩, fun t' hl hu => h.user t' (hstill hl).2 hu, fun t' ht' => ?_,
    fun t' hl hu => ?_⟩
  · rw [Bool.eq_false_iff]
    intro hl
    have hlt := h.lt_count (hstill hl).2
    exact absurd ht' (Nat.not_le_of_lt hlt)
  · rcases mem_cons.mp ht' with rfl | ht'
    · exact ⟨h.lt_count hlive, huser, update_self ..⟩
    · obtain ⟨hlt, hkind, hl⟩ := h.dead t' ht'
      refine ⟨hlt, hkind, ?_⟩
      rw [Bool.eq_false_iff]
      intro hl'
      simp [(hstill hl').2] at hl
  · refine (h.borrowed t' (hstill hl).2 hu).imp id ?_
    rintro ⟨u, hul, hkind, hcr3⟩
    have hut : u ≠ t := by
      rintro rfl
      exact hborrowers t' (h.lt_count (hstill hl).2) (hstill hl).2 hu hcr3
    exact ⟨u, (update_of_ne hut ..).trans hul, hkind, hcr3⟩

lemma cleanUp_cases {rest : List ℕ} (hclean : s.toClean = t :: rest)
    (hstep : step s (.cleanUp cpu) = some s') :
    (s.tid t ≥ 10 ∧ ∃ vm, vmaDestroyAll (s.memory.vm t) cpu = some vm ∧
      s' = { s with memory := s.memory.put t vm, toClean := rest }) ∨
    s' = { s with toClean := rest } := by
  simp only [step, hclean] at hstep
  split at hstep
  · rename_i htid
    obtain ⟨vm, hdestroy, rfl⟩ := map_eq_some_iff.mp hstep
    exact Or.inl ⟨htid, vm, hdestroy, rfl⟩
  · exact Or.inr (Option.some.inj hstep).symm

lemma cleanUp_inv (h : Inv k₀ K s) (hstep : step s (.cleanUp cpu) = some s') : Inv k₀ K s' := by
  cases hclean : s.toClean with
  | nil =>
    simp [step, hclean] at hstep
  | cons t rest =>
    have hsub : ∀ t' ∈ s.deadTaskList ++ rest, t' ∈ s.deadTaskList ++ s.toClean := by
      rw [hclean]
      intro t' ht'
      exact (mem_append.mp ht').elim (mem_append_left _) fun ht' =>
        mem_append_right _ (mem_cons_of_mem t ht')
    obtain ⟨hlt, hkind, hl⟩ := h.dead t (by simp [hclean])
    rcases cleanUp_cases hclean hstep with ⟨-, vm, hdestroy, rfl⟩ | rfl
    · have hother : ∀ {t'}, s.live t' = true → (s.memory.put t vm).tasks t' = s.memory.tasks t' := by
        intro t' ht'
        refine update_of_ne ?_ ..
        rintro rfl
        rw [hl] at ht'
        cases ht'
      have husers : ({ s with memory := s.memory.put t vm, toClean := rest } : State).users = s.users.put t vm := by
        simp only [State.users, Kernel.put]
        congr 1
        funext t'
        by_cases htt : t' = t
        · simp [htt, hkind]
        · simp [htt]
      rw [← users_vm hkind] at hdestroy
      refine ⟨?_, h.pml4, fun t' ht' => ?_, fun t' hl' hu => ?_, fun t' ht' => h.dead t' (hsub t' ht'), fun t' hl' hu => ?_⟩
      · rw [husers]
        exact destroyAll_kept h.kept hdestroy
      · have hne := (Nat.lt_of_lt_of_le hlt ht').ne'
        obtain ⟨hcr3, hl'⟩ := h.fresh t' ht'
        exact ⟨(congrArg TaskVm.cr3 (update_of_ne hne ..)).trans hcr3, hl'⟩
      · rw [hother hl']
        exact h.user t' hl' hu
      · rw [hother hl']
        refine (h.borrowed t' hl' hu).imp id ?_
        rintro ⟨u, hul, hkind', hcr3⟩
        exact ⟨u, hul, hkind', by rw [hother hul, hcr3]⟩
    · exact ⟨h.kept, h.pml4, h.fresh, h.user, fun t' ht' => h.dead t' (hsub t' ht'), h.borrowed⟩

lemma step_inv (hdirect : vmmVirtualToPhysical k₀.mem k₀.kernelPml4 hhdmOffset = 0) (h : Inv k₀ K s) {a : Action}
    (ha : a.Allowed s) (hstep : step s a = some s') : Inv k₀ K s' := by
  cases a with
  | archTaskCreate running k =>
    simp only [step, ite_none_right_eq_some, Option.some.injEq] at hstep
    obtain ⟨hrunning, rfl⟩ := hstep
    exact archTaskCreate_inv h hrunning k
  | create => exact create_inv h hdirect ha hstep
  | taskExit =>
    simp only [step, ite_none_right_eq_some, Option.some.injEq] at hstep
    obtain ⟨hlive, rfl⟩ := hstep
    exact taskExit_inv h hlive ha
  | schedReap =>
    simp only [step, ite_none_right_eq_some, Option.some.injEq] at hstep
    obtain ⟨_, rfl⟩ := hstep
    refine ⟨h.kept, h.pml4, h.fresh, h.user, fun t ht => h.dead t ?_, h.borrowed⟩
    exact mem_append_left _ ht
  | cleanUp => exact cleanUp_inv h hstep
  | heap =>
    simp only [step, ite_none_right_eq_some, map_eq_some_iff] at hstep
    obtain ⟨hc, _, hheap, rfl⟩ := hstep
    exact heap_inv h hc hheap

end runs

variable {f : ℕ} {p : List Index}

section frames

variable {s s' : State}

def kernelFrames (k : Kernel) : Set ℕ := {f | Reachable k k.kernelPml4 f}

lemma reachable_root (k : Kernel) (cr3 : Word) : Reachable k cr3 (frameIndex cr3) :=
  ⟨[], Nat.zero_le 4, role_nil, fun hw => absurd hw.1 (by decide)⟩

lemma booted_inv (h : Booted s) (hsmall : s.memory.pmm.Small) : Inv s.memory (kernelFrames s.memory) s := by
  have hnone : ∀ t, (s.users.tasks t).cr3 = 0 := by
    intro t
    rw [State.users]
    dsimp only
    split
    · exact h.half.noTask t
    · rfl
  have hroots : ∀ t, s.users.roots t = none := fun t => if_pos (hnone t)
  refine ⟨⟨Isolation.booted_sound ⟨hnone, h.half.kernel, h.half.heap⟩ hsmall,
    ⟨fun g hg => ⟨(h.frames g hg).1, fun t p _ hr => ?_⟩, fun g hg => (h.frames g hg).2, fun _ _ => rfl,
      reachable_root _ _, fun t g hg => ?_⟩, ?_⟩, rfl, fun t _ => ⟨h.half.noTask t, h.noLive t⟩, fun t ht =>
        ?_, fun t ht => ?_, fun t ht => ?_⟩
  · simp [role_of_noRoot (hroots t)] at hr
  · simp [hroots] at hg
  · rintro f ⟨p, hp, hr⟩
    have hlen := hp.1
    exact ⟨p, by omega, hr, fun hw => absurd hw.1 (by omega)⟩
  · simp [h.noLive] at ht
  · simp [h.noDead.1, h.noDead.2] at ht
  · simp [h.noLive] at ht

lemma Inv.walk_kernel (h : Inv k₀ (kernelFrames k₀) s) (hlen : p.length ≤ 4)
    (hr : role (oneRoot (frameIndex s.memory.kernelPml4)) (tables s.memory.mem) () p = some f) :
    role (oneRoot (frameIndex k₀.kernelPml4)) (tables k₀.mem) () p = some f := by
  induction p generalizing f with
  | nil =>
    rw [role_nil] at hr ⊢
    rwa [← h.pml4]
  | cons i p ih =>
    rw [length_cons] at hlen
    rw [role, look_cons, bind_eq_some_iff] at hr
    obtain ⟨g, hg, _⟩ := hr
    have hg₀ := ih (by omega) hg
    have hmem : g ∈ kernelFrames k₀ := ⟨p, by omega, hg₀, fun hw => absurd hw.1 (by omega)⟩
    rwa [role_cons hg₀, ← h.kept.frozen.rows g hmem]

lemma Inv.walk_task (h : Inv k₀ (kernelFrames k₀) s) (ht : s.isUser t = true) (hcr3 : (s.memory.tasks t).cr3 ≠ 0)
    (hlen : p.length ≤ 4) (hp : ¬ UserPath p)
    (hr : role (oneRoot (frameIndex (s.memory.tasks t).cr3)) (tables s.memory.mem) () p = some f) :
    role (oneRoot (frameIndex k₀.kernelPml4)) (tables k₀.mem) () p = some f := by
  induction p generalizing f with
  | nil => exact absurd userPath_nil hp
  | cons i p ih =>
    rw [length_cons] at hlen
    rw [role, look_cons, bind_eq_some_iff] at hr
    obtain ⟨g, hg, _⟩ := hr
    cases p with
    | nil =>
      have hi : 256 ≤ (i : ℕ) := by
        rw [userPath_singleton] at hp
        omega
      obtain rfl : frameIndex (s.memory.tasks t).cr3 = g := by
        exact Option.some.inj hg
      have hroot : s.users.roots t = some (frameIndex (s.memory.tasks t).cr3) := by
        rw [Kernel.roots, users_tasks ht, Kernel.rootOf, if_neg hcr3]
      have hrow := h.kept.frozen.half t _ hroot i hi
      change tables s.memory.mem _ i = tables k₀.mem (frameIndex s.memory.kernelPml4) i at hrow
      rw [h.pml4] at hrow
      have hnil : role (oneRoot (frameIndex k₀.kernelPml4)) (tables k₀.mem) () [] = some (frameIndex k₀.kernelPml4) := role_nil
      rwa [role_cons hnil, ← hrow]
    | cons j p =>
      have hp' : ¬ UserPath (j :: p) := fun huser =>
        hp (userPath_append (q := [i]) huser (cons_ne_nil j p) (by simpa using hlen))
      have hg₀ := ih (by omega) hp' hg
      have hmem : g ∈ kernelFrames k₀ := ⟨j :: p, by omega, hg₀, fun hw => absurd hw.1 (by omega)⟩
      rwa [role_cons hg₀, ← h.kept.frozen.rows g hmem]

lemma Inv.owned (h : Inv k₀ (kernelFrames k₀) s) (hl : s.live t = false) (hp : UserPath p)
    (hr : role s.users.roots (tables s.memory.mem) t p = some f) :
    ¬ Reachable s.memory s.memory.kernelPml4 f ∧ ∀ t', s.live t' = true → ¬ Reachable s.memory (s.memory.tasks t').cr3 f := by
  have hout : f ∉ kernelFrames k₀ := fun hmem => (h.kept.frozen.used f hmem).2 t p hp hr
  have hkernel : ¬ Reachable s.memory s.memory.kernelPml4 f := by
    rintro ⟨q, hlen, hq, hwindow⟩
    exact hout ⟨q, hlen, h.walk_kernel hlen hq, fun hw => absurd rfl (hwindow hw).2⟩
  have htask : ∀ u, s.live u = true → s.isUser u = true → ¬ Reachable s.memory (s.memory.tasks u).cr3 f := by
    rintro u hu hkind ⟨q, hlen, hq, hwindow⟩
    have hcr3 := h.user u hu hkind
    by_cases huser : UserPath q
    · have hroot : s.users.roots u = some (frameIndex (s.memory.tasks u).cr3) := by
        rw [Kernel.roots, users_tasks hkind, Kernel.rootOf, if_neg hcr3]
      rw [role_oneRoot hroot] at hq
      obtain ⟨rfl, -⟩ := h.kept.sound.spaces.wired.separate u q t p f huser hp hq hr
      simp [hl] at hu
    · exact hout ⟨q, hlen, h.walk_task hkind hcr3 hlen huser hq, fun hw => absurd (hwindow hw).1 huser⟩
  refine ⟨hkernel, fun t' ht' => ?_⟩
  cases hkind : s.isUser t' with
  | true => exact htask t' ht' hkind
  | false =>
    rcases h.borrowed t' ht' hkind with hcr3 | ⟨u, hu, hkind', hcr3⟩
    · rwa [hcr3]
    · rw [hcr3]
      exact htask u hu hkind'

lemma Inv.exclusive (h : Inv k₀ (kernelFrames k₀) s) {rest : List ℕ} (hclean : s.toClean = t :: rest)
    (hstep : step s (.cleanUp cpu) = some s') : Exclusive s t s' := by
  obtain ⟨-, hkind, hl⟩ := h.dead t (by simp [hclean])
  have hroot : (s.memory.tasks t).cr3 ≠ 0 → s.users.roots t = some (frameIndex (s.memory.tasks t).cr3) := by
    intro hcr3
    rw [Kernel.roots, users_tasks hkind, Kernel.rootOf, if_neg hcr3]
  constructor
  · intro _ hcr3
    obtain ⟨hkernel, hothers⟩ := h.owned hl userPath_nil (role_nil.trans (hroot hcr3))
    refine ⟨fun heq => hkernel ?_, fun t' ht' heq => hothers t' ht' ?_⟩
    · rw [heq]
      exact reachable_root _ _
    · rw [heq]
      exact reachable_root _ _
  · intro f hset hclear
    rcases cleanUp_cases hclean hstep with ⟨-, vm, hdestroy, rfl⟩ | rfl
    · have hcr3 : (s.memory.tasks t).cr3 ≠ 0 := by
        intro hzero
        obtain ⟨-, -, -, hpmm⟩ := vmaDestroyAll_cases hdestroy
        change vm.pmm = if (s.memory.tasks t).cr3 ≠ 0 then _ else s.memory.pmm at hpmm
        rw [if_neg (not_not.mpr hzero)] at hpmm
        change vm.pmm.isSet f = false at hclear
        simp [hpmm, hset] at hclear
      rw [← users_vm hkind] at hdestroy
      obtain ⟨-, -, -, -, hused⟩ := vmaDestroyAll_frames h.kept.sound (by rwa [users_tasks hkind]) hdestroy
      have hgone : f ∉ usedFrames vm.pmm := by
        change ¬ vm.pmm.isSet f = true
        change vm.pmm.isSet f = false at hclear
        rw [hclear]
        decide
      obtain ⟨q, hq, hr⟩ : ∃ q, UserPath q ∧ role s.users.roots (tables s.memory.mem) t q = some f := by
        by_contra hnone
        apply hgone
        rw [hused]
        exact ⟨hset, fun hin => hnone hin.2⟩
      exact ⟨⟨q, hq, (role_oneRoot (hroot hcr3) q).trans hr⟩, h.owned hl hq hr⟩
    · simp [hset] at hclear

theorem reaper_frees_own {s₀ : State} {acts : List Action} (hboot : Booted s₀) (hsmall : s₀.memory.pmm.bitmapSize * 8 ≤ 2 ^ 28)
    (hallowed : Runs.Guarded step (fun s a => a.Allowed s) s₀ acts) :
    Runs.Always step (fun s => ∀ t rest cpu s', s.toClean = t :: rest → step s (.cleanUp cpu) = some s' →
      Exclusive s t s') s₀ acts := by
  have hruns : Runs.Always step (Inv s₀.memory (kernelFrames s₀.memory)) s₀ acts :=
    Runs.invariant (fun _ _ _ h ha hstep => step_inv hboot.half.direct h ha hstep) (booted_inv hboot hsmall) hallowed
  refine hruns.mono ?_
  intro s h t rest cpu s' hclean hstep
  exact h.exclusive hclean hstep

def bootState : State where
  memory := { smallKernel with pmm := blankVm.pmm }
  nextTid := 10
  count := 0
  tid _ := 0
  isUser _ := false
  live _ := false
  deadTaskList := []
  toClean := []

lemma bootState_booted : Booted bootState := by
  have hused : ∀ g ∈ [2, 3, 4, 5, 6], blankVm.pmm.isSet g = true := by decide +kernel
  refine ⟨kernelMem_booted hused, ?_, fun _ => rfl, rfl, rfl⟩
  rintro f ⟨p, -, hr, -⟩
  exact ⟨hused f (kernelMem_role hr), not_mem_nil⟩

def programDies : List Action :=
  [.create (.elf (program 0x400000 0x800 0x1000)) none answers, .archTaskCreate none answers, .taskExit 0, .schedReap]

theorem reaper_frees_own_program : ∃ s s', Runs.run step bootState programDies = some s ∧ s.toClean = [0] ∧
    (s.memory.tasks 0).cr3 = frameAddr 256 ∧ step s (.cleanUp none) = some s' ∧ Exclusive s 0 s' := by
  obtain ⟨s, hrun, hdead, hcr3, s', hstep, -⟩ : ∃ s ∈ Runs.run step bootState programDies, s.toClean = [0] ∧
      (s.memory.tasks 0).cr3 = frameAddr 256 ∧ ∃ s' ∈ step s (.cleanUp none), True := by
    decide +kernel
  have hallowed : Runs.Guarded step (fun s a => a.Allowed s) bootState programDies := by
    refine ⟨fun _ _ => program_inUserHalf, fun s₁ h₁ => ⟨trivial, fun s₂ h₂ => ⟨?_, fun _ _ => ⟨trivial, fun _ _ => trivial⟩⟩⟩⟩
    obtain ⟨s, hs, hexit⟩ : ∃ s ∈ Runs.run step bootState (programDies.take 2), (Action.taskExit 0).Allowed s := by
      decide +kernel
    have hboth : Runs.run step bootState (programDies.take 2) = some s₂ := by
      simp only [programDies, take_succ_cons, take_zero, Runs.run, h₁, h₂, bind_some]
    cases hboth.symm.trans hs
    exact hexit
  exact ⟨s, s', hrun, hdead, hcr3, hstep,
    (reaper_frees_own bootState_booted (by decide) hallowed).last hrun 0 [] none s' hdead hstep⟩

theorem reaper_frees_kernel_pml4 : Booted bootState ∧
    ∃ s s', Runs.run step bootState [.archTaskCreate none answers, .taskExit 0, .schedReap] = some s ∧ s.toClean = [0] ∧
      step s (.cleanUp none) = some s' ∧ s.memory.kernelPml4 = frameAddr 2 ∧ s.memory.pmm.isSet 2 = true ∧
      s'.memory.pmm.isSet 2 = false ∧ ¬ Exclusive s 0 s' := by
  obtain ⟨s, hrun, hdead, hpml4, hset, s', hstep, hclear⟩ :
      ∃ s ∈ Runs.run step bootState [.archTaskCreate none answers, .taskExit 0, .schedReap], s.toClean = [0] ∧
        s.memory.kernelPml4 = frameAddr 2 ∧ s.memory.pmm.isSet 2 = true ∧ ∃ s' ∈ step s (.cleanUp none),
          s'.memory.pmm.isSet 2 = false := by
    decide +kernel
  refine ⟨bootState_booted, s, s', hrun, hdead, hstep, hpml4, hset, hclear, fun hexclusive => ?_⟩
  have hroot := reachable_root s.memory s.memory.kernelPml4
  rw [hpml4, frameIndex_frameAddr' (by decide), ← hpml4] at hroot
  exact (hexclusive.frames 2 hset hclear).2.1 hroot

end frames

end KernelSmp.Sched.Reaper
