import KernelSmp.Fs.ElfImage
import KernelSmp.Syscall.Handler

/-! The creators of user tasks in `context.c`. `blocks` lists what the kernel heap has handed out for tasks, their kernel
stacks and their area descriptors; the answers of `kmalloc` are parameters. -/

namespace KernelSmp.Sched.TaskCreation

open Base Base.Radix Memory Memory.VmaRanges Fs Syscall List Option BitVec

structure System where
  areas : Word → VmaArea
  mem : Mem
  pmm : Pmm
  blocks : List Word
  nextTid : Word

namespace System

def kmalloc (s : System) (p : Word) : System := { s with blocks := p :: s.blocks }
def kfree (s : System) (p : Word) : System := { s with blocks := s.blocks.erase p }

def vm (s : System) (t : TaskVm) : Vm := ⟨s.areas, t, s.mem, s.pmm⟩

def put (s : System) (vm : Vm) : System := { s with areas := vm.areas, mem := vm.mem, pmm := vm.pmm, blocks := vmas vm ++ s.blocks }

end System

/-- What `kmalloc` returns for the task, for its kernel stack and for each descriptor. -/
structure Answers where
  task : Option Word
  stack : Option Word
  descriptors : ℕ → Option Word

structure TaskBase where
  addr : Word
  stackSize : Word
  stackBase : Word
  tid : Word
deriving DecidableEq

structure UserTask where
  base : TaskBase
  vm : TaskVm
  frame : InterruptFrame
  rsp : Word
deriving DecidableEq

def fourPages : Word := 4 * BitVec.ofNat 64 pageSize

def taskAllocBase (k : Answers) (s : System) : Option TaskBase × System :=
  match k.task with
  | none => (none, s)
  | some t =>
    let s := s.kmalloc t
    match k.stack with
    | none => (none, s.kfree t)
    | some stackBase => (some ⟨t, fourPages, stackBase, s.nextTid⟩, { s.kmalloc stackBase with nextTid := s.nextTid + 1 })

def newSpace (cpu : Option ℕ) (kernelPml4 : Word) (s : System) : Vm :=
  let (cr3, mem, pmm) := vmmCreateUserPml4 s.mem s.pmm cpu kernelPml4
  ⟨s.areas, vmaInitTask ⟨none, none, 0, cr3, 0, 0, 0⟩, mem, pmm⟩

def userStackVirt : Word := 0x00007FFFFFFFF000 - fourPages

def interruptFrameSize : Word := 22 * 8

def enterRing3 (t : TaskBase) (vm : TaskVm) (entry : Word) : UserTask :=
  let kstackTop := (t.stackBase + t.stackSize) &&& ~~~0x0F
  let rsp := userStackVirt + fourPages - 8
  { base := t, vm := vm, rsp := kstackTop - interruptFrameSize,
    frame := { r15 := 0, r14 := 0, r13 := 0, r12 := 0, r11 := 0, r10 := 0, r9 := 0, r8 := 0, rdi := 0, rsi := 0, rbp := rsp, rbx := 0,
               rdx := 0, rcx := 0, rax := 0, vectorNumber := 0, errorCode := 0, rip := entry, cs := 0x1B, rflags :=
                 0x202, rsp := rsp,
               ss := 0x23 } }

def createTask (load : Vm → Option (Option Word × Vm)) (cpu : Option ℕ) (kernelPml4 : Word) (k : Answers) (s : System) :
    Option (Option UserTask × System) :=
  match taskAllocBase k s with
  | (none, s) => some (none, s)
  | (some t, s) =>
    let vm := newSpace cpu kernelPml4 s
    if vm.task.cr3 = 0 then some (none, (({ s with mem := vm.mem, pmm := vm.pmm }).kfree t.stackBase).kfree t.addr)
    else do
      let (entry, vm) ← load vm
      return (entry.map (enterRing3 t vm.task), s.put vm)

def mapOrNull (s : Vm) (cpu : Option ℕ) (kmalloc : Option Word) (addr size : Word) (flags : BitVec 32)
    (rest : Vm → Option (Option Word × Vm)) : Option (Option Word × Vm) := do
  let (res, s) ← vmaMap s cpu kmalloc addr size flags
  if res ≠ 0 then return (none, s) else rest s

def codeVirt : Word := 0x400000
def codeFlags : BitVec 32 := vmaRead ||| vmaExec ||| vmaUser
def stackFlags : BitVec 32 := vmaRead ||| vmaWrite ||| vmaUser ||| vmaStack
def heapFlags : BitVec 32 := vmaRead ||| vmaWrite ||| vmaUser ||| vmaHeap

def copyCode (code : Mem) (s : Vm) : Vm :=
  let codePhys := vmmVirtualToPhysical s.mem s.task.cr3 codeVirt
  { s with mem := s.mem.copy codePhys.toNat code 0 fourPages.toNat }

def setHeap (s : Vm) : Vm :=
  { s with task := { s.task with heapStart := 0x406000, heapCurr := 0x406000, heapEnd := 0x406000 + fourPages } }

section creators

variable (cpu : Option ℕ) (kmalloc : ℕ → Option Word)

def loadCode (code : Mem) (s : Vm) : Option (Option Word × Vm) :=
  mapOrNull s cpu (kmalloc 0) codeVirt fourPages codeFlags fun s =>
  mapOrNull (copyCode code s) cpu (kmalloc 1) userStackVirt fourPages stackFlags fun s =>
  mapOrNull (setHeap s) cpu (kmalloc 2) (setHeap s).task.heapStart fourPages heapFlags fun s => some (some codeVirt, s)

def loadElf (image : Mem) (s : Vm) : Option (Option Word × Vm) := do
  let (entry, s) ← elfLoad image cpu kmalloc s
  if entry = 0 then return (none, s)
  else mapOrNull s cpu (kmalloc ((ehdr image).ePhnum + 1)) userStackVirt fourPages stackFlags fun s => some (some entry, s)

end creators

def archTaskCreateUser (code : Mem) (cpu : Option ℕ) (kernelPml4 : Word) (k : Answers) (s : System) :
    Option (Option UserTask × System) :=
  createTask (loadCode cpu k.descriptors code) cpu kernelPml4 k s

def archTaskSpawnElf (image : Mem) (cpu : Option ℕ) (kernelPml4 : Word) (k : Answers) (s : System) :
    Option (Option UserTask × System) :=
  createTask (loadElf cpu k.descriptors image) cpu kernelPml4 k s

section conditions

variable (cpu : Option ℕ) (kmalloc : ℕ → Option Word)

def Serves (s : Vm) (i : ℕ) (addr size : Word) (flags : BitVec 32) (rest : Vm → Prop) : Prop :=
  addr.toNat + size.toNat ≤ 2 ^ 47 ∧ Supplied s cpu addr size flags ∧ ∀ r ∈ vmaMap s cpu (kmalloc i) addr size flags,
    r.1 = 0 ∧ rest r.2

def CopyInside (ph : Elf64Phdr) (s : Vm) : Prop :=
  ph.pVaddr.toNat + ph.pFilesz.toNat ≤ 2 ^ 47 ∨ ∃ v : Word, ph.pVaddr.toNat ≤ v.toNat ∧ v.toNat < 2 ^ 47 ∧ userByte s v = none

instance (s : Vm) (i : ℕ) (addr size : Word) (flags : BitVec 32) (rest : Vm → Prop) [∀ s, Decidable (rest s)] :
    Decidable (Serves cpu kmalloc s i addr size flags rest) :=
  have : Decidable (∀ r ∈ vmaMap s cpu (kmalloc i) addr size flags, r.1 = 0 ∧ rest r.2) := Option.decidableForallMem _
  inferInstanceAs (Decidable (_ ∧ _ ∧ _))

instance (ph : Elf64Phdr) (s : Vm) : Decidable (CopyInside ph s) := inferInstanceAs (Decidable (_ ∨ _))

def ServesSegment (image : Mem) (ph : Elf64Phdr) (i : ℕ) (s : Vm) (next : Vm → Prop) : Prop :=
  Serves cpu kmalloc s i ph.pVaddr ph.pMemsz (segmentFlags ph.pFlags) fun s =>
    CopyInside ph s ∧ ∀ u ∈ elfCopySegment image ph.pVaddr ph.pOffset ph.pFilesz Memory.walkFuel s 0, next u

instance (image : Mem) (ph : Elf64Phdr) (i : ℕ) (s : Vm) (next : Vm → Prop) [∀ s, Decidable (next s)] :
    Decidable (ServesSegment cpu kmalloc image ph i s next) :=
  have : ∀ t : Option Vm, Decidable (∀ u ∈ t, next u) := fun t => Option.decidableForallMem t
  inferInstanceAs (Decidable (Serves cpu kmalloc s i ph.pVaddr ph.pMemsz (segmentFlags ph.pFlags) fun s =>
    CopyInside ph s ∧ ∀ u ∈ elfCopySegment image ph.pVaddr ph.pOffset ph.pFilesz Memory.walkFuel s 0, next u))

def ServesSegments (image : Mem) (rest : Vm → Word → Prop) : (fuel i : ℕ) → Vm → Word → Prop
  | 0, _, s, maxVaddr => rest s maxVaddr
  | fuel + 1, i, s, maxVaddr =>
    let ph := phdr image i
    let segEnd := ph.pVaddr + ph.pMemsz
    if ph.pType = ptLoad then
      ServesSegment cpu kmalloc image ph i s fun u =>
        ServesSegments image rest fuel (i + 1) u (if segEnd > maxVaddr then segEnd else maxVaddr)
    else ServesSegments image rest fuel (i + 1) s maxVaddr

instance decidableServesSegments (image : Mem) (rest : Vm → Word → Prop) [∀ s w, Decidable (rest s w)] :
    (fuel i : ℕ) → (s : Vm) → (maxVaddr : Word) → Decidable (ServesSegments cpu kmalloc image rest fuel i s maxVaddr)
  | 0, _, s, maxVaddr => inferInstanceAs (Decidable (rest s maxVaddr))
  | fuel + 1, i, _, _ =>
    have (u : Vm) (w : Word) : Decidable (ServesSegments cpu kmalloc image rest fuel (i + 1) u w) :=
      decidableServesSegments image rest fuel (i + 1) u w
    inferInstanceAs (Decidable (if (phdr image i).pType = ptLoad then
      ServesSegment cpu kmalloc image (phdr image i) i _ fun u => ServesSegments cpu kmalloc image rest fuel (i + 1) u _
      else ServesSegments ..))

def ServesCode (code : Mem) (s : Vm) : Prop :=
  Serves cpu kmalloc s 0 codeVirt fourPages codeFlags fun s =>
  Serves cpu kmalloc (copyCode code s) 1 userStackVirt fourPages stackFlags fun s =>
  Serves cpu kmalloc (setHeap s) 2 (setHeap s).task.heapStart fourPages heapFlags fun _ => True

def ServesElf (image : Mem) (s : Vm) : Prop :=
  (ehdr image).eIdent = elfMagic ∧ (ehdr image).eEntry ≠ 0 ∧
  ServesSegments cpu kmalloc image (fun s maxVaddr =>
    Serves cpu kmalloc (initHeap s maxVaddr) (ehdr image).ePhnum (initHeap s maxVaddr).task.heapStart fourPages
      heapFlags fun s =>
    Serves cpu kmalloc s ((ehdr image).ePhnum + 1) userStackVirt fourPages stackFlags fun _ => True) (ehdr image).ePhnum 0 s 0

instance (code : Mem) (s : Vm) : Decidable (ServesCode cpu kmalloc code s) :=
    inferInstanceAs (Decidable (Serves _ _ _ _ _ _ _ _))
instance (image : Mem) (s : Vm) : Decidable (ServesElf cpu kmalloc image s) := inferInstanceAs (Decidable (_ ∧ _ ∧ _))

end conditions

def Mapped (s : Vm) (a b : ℕ) : Prop := ∀ v : Word, a ≤ v.toNat → v.toNat < b → (userByte s v).isSome

inductive Creator
  | user (code : Mem)
  | elf (image : Mem)

namespace Creator

def create : Creator → Option ℕ → Word → Answers → System → Option (Option UserTask × System)
  | user code => archTaskCreateUser code
  | elf image => archTaskSpawnElf image

def load (cpu : Option ℕ) (kmalloc : ℕ → Option Word) : Creator → Vm → Option (Option Word × Vm)
  | user code => loadCode cpu kmalloc code
  | elf image => loadElf cpu kmalloc image

def Served (cpu : Option ℕ) (kmalloc : ℕ → Option Word) : Creator → Vm → Prop
  | user code => ServesCode cpu kmalloc code
  | elf image => ServesElf cpu kmalloc image

def CodeMapped (s : Vm) : Creator → Prop
  | user _ => Mapped s codeVirt.toNat (codeVirt.toNat + fourPages.toNat)
  | elf image => ∀ i < (ehdr image).ePhnum, (phdr image i).pType = ptLoad →
      Mapped s (phdr image i).pVaddr.toNat ((phdr image i).pVaddr.toNat + (phdr image i).pMemsz.toNat)

structure Ready (c : Creator) (s : Vm) : Prop where
  code : c.CodeMapped s
  stack : Mapped s userStackVirt.toNat (userStackVirt.toNat + fourPages.toNat)
  heap : Mapped s s.task.heapStart.toNat s.task.heapEnd.toNat

end Creator

structure Released (s s' : System) : Prop where
  blocks : s'.blocks = s.blocks
  frames : usedFrames s'.pmm = usedFrames s.pmm

structure Distinct (kmalloc : ℕ → Option Word) : Prop where
  nonnull : ∀ i, kmalloc i ≠ some 0
  injective : ∀ i j a, kmalloc i = some a → kmalloc j = some a → i = j

section standing

variable {f i j : ℕ} {s s' : Vm} {cpu : Option ℕ} {kmalloc : ℕ → Option Word} {addr size : Word} {flags : BitVec 32}
  {rest : Vm → Prop}

structure Standing (kmalloc : ℕ → Option Word) (f i : ℕ) (s : Vm) : Prop where
  paged : Paged f s
  inStep : Matches s (vmas s)
  black : BlackRoot s
  earlier : ∀ a ∈ vmas s, ∃ j < i, kmalloc j = some a

lemma Standing.mono (h : Standing kmalloc f i s) (hij : i ≤ j) : Standing kmalloc f j s := by
  refine ⟨h.paged, h.inStep, h.black, fun a ha => ?_⟩
  obtain ⟨n, _, hans⟩ := h.earlier a ha
  exact ⟨n, by omega, hans⟩

lemma Standing.congr (h : Standing kmalloc f i s) (hpaged : Paged f s') (hareas : s'.areas = s.areas)
    (hroot : s'.task.vmaTreeRoot = s.task.vmaTreeRoot) (hhead : s'.task.vmaListHead = s.task.vmaListHead)
    (hcount : s'.task.vmaCount = s.task.vmaCount) : Standing kmalloc f i s' := by
  have hvmas : vmas s' = vmas s := by rw [vmas, vmas, hareas, hhead]
  have htree : treeOf s' = treeOf s := by rw [treeOf, treeOf, hareas, hroot]
  have hstarts : ∀ a, (s'.areas a).vmStart = (s.areas a).vmStart := fun a => by rw [hareas]
  obtain ⟨hlinked, hsorted, hlength⟩ := h.inStep
  refine ⟨hpaged, ⟨⟨?_, hvmas ▸ hlinked.nodup, ?_⟩, hsorted.congr htree hstarts, ?_⟩, ?_, ?_⟩
  · rw [hvmas]
    refine hlinked.listed.congr ?_
    unfold listOf rangeOf Memory.nextOf prevOf
    rw [hareas, hhead]
  · rw [htree, hvmas]
    exact hlinked.tree
  · rw [hvmas, hcount, hlength]
  · intro r hr
    rw [colorOf, hareas]
    exact h.black r (hroot ▸ hr)
  · rw [hvmas]
    exact h.earlier

structure Extended (f : ℕ) (addr size : Word) (s s' : Vm) : Prop where
  heap : heapOf s' = heapOf s
  bytes : ∀ v : Word, v.toNat < 2 ^ 47 → ((userByte s' v).isSome ↔
    (addr.toNat ≤ v.toNat ∧ v.toNat < addr.toNat + (roundUp size).toNat) ∨ (userByte s v).isSome)
  frames : ∃ start, 0 < start ∧ start + (roundUp size).toNat / 4096 ≤ 2 ^ 28 ∧ ∀ v : Word, addr.toNat ≤ v.toNat →
    v.toNat < addr.toNat + (roundUp size).toNat → ∃ e, leaf f s'.mem v = some e ∧
      frameOf e = start + (v.toNat - addr.toNat) / 4096

lemma Standing.serve (h : Standing kmalloc f i s) (hk : Distinct kmalloc)
    (hserved : Serves cpu kmalloc s i addr size flags rest) : ∃ s', vmaMap s cpu (kmalloc i) addr size flags = some (0, s') ∧
    rest s' ∧ Standing kmalloc f (i + 1) s' ∧ Aligned addr ∧ Extended f addr size s s' := by
  obtain ⟨hrange, hsupplied, hcode⟩ := hserved
  have hlinked := h.inStep.linked
  have hfresh : ∀ new ∈ kmalloc i, new ∉ vmas s := by
    intro new hnew hmem
    obtain ⟨j, _, hans⟩ := h.earlier new hmem
    have heq := hk.injective i j new hnew hans
    omega
  have hnull : 0 ∉ vmas s := by
    intro hmem
    obtain ⟨j, -, hans⟩ := h.earlier 0 hmem
    exact hk.nonnull j hans
  obtain ⟨⟨code, s'⟩, hmap⟩ := vmaMap_returns hlinked h.black (length_lt_of_notMem hlinked.nodup hnull) hfresh hsupplied
  obtain ⟨rfl, hrest⟩ : code = 0 ∧ rest s' := hcode _ (mem_def.mpr hmap)
  obtain ⟨_, hmatches⟩ := map_matches h.inStep hfresh hmap
  obtain rfl := hmatches.linked.vmas_eq
  have hblack := step_blackRoot hlinked h.black (c := .map cpu (kmalloc i) addr size flags) hfresh trivial
    (map_eq_some_iff.mpr ⟨_, hmap, rfl⟩)
  obtain ⟨hpaged, hbytes, hframes⟩ := h.paged.map hrange hsupplied hmap
  refine ⟨s', hmap, hrest, ⟨hpaged, hmatches, hblack, ?_⟩, (vmaMap_run hmap).aligned, vmaMap_heapOf hmap,
    fun v hv => ?_, hframes⟩
  · intro a ha
    rcases (hlinked.map hfresh hmap).mem ha with ⟨hold, -⟩ | ⟨hold | hnew, -⟩
    · exact h.mono (Nat.le_succ i) |>.earlier a hold
    · exact h.mono (Nat.le_succ i) |>.earlier a hold
    · exact ⟨i, by omega, hnew⟩
  · rw [hbytes v hv]
    split_ifs with hin
    · exact iff_of_true rfl (.inl hin)
    · exact (or_iff_right hin).symm

def Keeps (s s' : Vm) : Prop := ∀ v : Word, v.toNat < 2 ^ 47 → (userByte s v).isSome → (userByte s' v).isSome

lemma Keeps.trans {s₁ s₂ s₃ : Vm} (h : Keeps s₁ s₂) (h' : Keeps s₂ s₃) : Keeps s₁ s₃ := fun v hv hsome => h' v hv (h v hv hsome)

lemma Mapped.keep {a b : ℕ} (h : Mapped s a b) (hb : b ≤ 2 ^ 47) (hkeep : Keeps s s') : Mapped s' a b :=
  fun v hlow hhigh => hkeep v (by omega) (h v hlow hhigh)

lemma userByte_isSome (h : Paged f s) {v : Word} (hv : v.toNat < 2 ^ 47) : (userByte s v).isSome = (leaf f s.mem v).isSome := by
  rw [h.userByte_eq hv, isSome_map]

lemma keeps_of_leaves (h : Paged f s) (h' : Paged f s') (hleaves : ∀ v : Word, v.toNat < 2 ^ 47 → leaf f s'.mem v =
    leaf f s.mem v) :
    Keeps s s' := by
  intro v hv hsome
  rw [userByte_isSome h hv] at hsome
  rwa [userByte_isSome h' hv, hleaves v hv]

lemma Extended.keeps (h : Extended f addr size s s') : Keeps s s' := fun v hv hsome => (h.bytes v hv).mpr (Or.inr hsome)

lemma Extended.mapped (h : Extended f addr size s s') (hrange : addr.toNat + size.toNat ≤ 2 ^ 47) :
    Mapped s' addr.toNat (addr.toNat + size.toNat) := by
  intro v hlow hhigh
  have hround : (roundUp size).toNat = (size.toNat + 4095) / 4096 * 4096 := roundUp_toNat (by omega)
  exact (h.bytes v (by omega)).mpr (.inl ⟨hlow, by omega⟩)

lemma mapOrNull_eq {kmalloc : Option Word} (load : Vm → Option (Option Word × Vm))
    (hmap : vmaMap s cpu kmalloc addr size flags = some (0, s')) : mapOrNull s cpu kmalloc addr size flags load = load s' := by
  simp only [mapOrNull, hmap]
  rfl

lemma Standing.copyCode (code : Mem) (h : Standing kmalloc f i s') (hext : Extended f codeVirt fourPages s s') :
    Standing kmalloc f i (copyCode code s') ∧ Keeps s' (copyCode code s') := by
  obtain ⟨start, _, hstart, hleaves⟩ := hext.frames
  have hround : (roundUp fourPages).toNat = 4 * 4096 := by decide
  have hcode : codeVirt.toNat = 0x400000 := rfl
  obtain ⟨_, hleaf, hframe⟩ := hleaves codeVirt (by omega) (by omega)
  have hphys := h.paged.virtualToPhysical (by rw [hcode]; decide) (by rw [hcode]) hleaf
  rw [hframe] at hphys
  obtain ⟨hpaged, hsame⟩ := h.paged.copyFrames code (a := (frameAddr start).toNat) (n := fourPages.toNat) fun g
    x hx hlow hhigh => by
    rw [frameAddr_toNat (by omega)] at hlow hhigh
    have hfour : fourPages.toNat = 4 * 4096 := rfl
    rw [pageSize] at *
    have hpage : (BitVec.ofNat 64 (0x400000 + (g - start) * 4096)).toNat = 0x400000 + (g - start) * 4096 := by
      rw [toNat_ofNat, Nat.mod_eq_of_lt (by omega)]
    obtain ⟨e', hleaf', _⟩ := hleaves (BitVec.ofNat 64 (0x400000 + (g - start) * 4096)) (by omega) (by omega)
    exact ⟨_, e', by omega, hleaf', by omega⟩
  rw [TaskCreation.copyCode, hphys]
  exact ⟨h.congr hpaged rfl rfl rfl rfl, keeps_of_leaves h.paged hpaged hsame⟩

lemma Standing.setHeap (h : Standing kmalloc f i s) : Standing kmalloc f i (setHeap s) :=
  h.congr (h.paged.of_pages rfl) rfl rfl rfl rfl

lemma Mapped.heap {a : Word} (h : Mapped s a.toNat (a.toNat + fourPages.toNat)) (hrange : a.toNat + fourPages.toNat ≤ 2 ^ 47)
    (hstart : s.task.heapStart = a) (hend : s.task.heapEnd = a + fourPages) :
    Mapped s s.task.heapStart.toNat s.task.heapEnd.toNat := by
  have hsum : (a + fourPages).toNat = a.toNat + fourPages.toNat := toNat_add_of_lt (by omega)
  rwa [hstart, hend, hsum]

lemma loadCode_ready (code : Mem) (h : Standing kmalloc f 0 s) (hk : Distinct kmalloc)
    (hserved : ServesCode cpu kmalloc code s) :
    ∃ s', loadCode cpu kmalloc code s = some (some codeVirt, s') ∧ (Creator.user code).Ready s' := by
  obtain ⟨_, hmap₁, hserved₁, h₁, -, hext₁⟩ := h.serve hk hserved
  obtain ⟨h₁', hkeep₁⟩ := h₁.copyCode code hext₁
  obtain ⟨s₂, hmap₂, hserved₂, h₂, -, hext₂⟩ := h₁'.serve hk hserved₁
  obtain ⟨s₃, hmap₃, -, _, -, hext₃⟩ := h₂.setHeap.serve hk hserved₂
  have hkeep₂ := hext₃.keeps
  refine ⟨s₃, ?_, ?_, ?_, ?_⟩
  · rw [loadCode, mapOrNull_eq _ hmap₁, mapOrNull_eq _ hmap₂, mapOrNull_eq _ hmap₃]
  · exact (hext₁.mapped hserved.1).keep hserved.1 (hkeep₁.trans (hext₂.keeps.trans hkeep₂))
  · exact (hext₂.mapped hserved₁.1).keep hserved₁.1 hkeep₂
  · exact (hext₃.mapped hserved₂.1).heap hserved₂.1 (congrArg Prod.fst hext₃.heap) (congrArg (·.2.2) hext₃.heap)

lemma Standing.segment {image : Mem} {ph : Elf64Phdr} {next : Vm → Prop} (hk : Distinct kmalloc) (h : Standing kmalloc f i s)
    (hserved : ServesSegment cpu kmalloc image ph i s next) :
    ∃ s₁ s₂, vmaMap s cpu (kmalloc i) ph.pVaddr ph.pMemsz (segmentFlags ph.pFlags) = some (0, s₁) ∧
      elfCopySegment image ph.pVaddr ph.pOffset ph.pFilesz Memory.walkFuel s₁ 0 = some s₂ ∧ next s₂ ∧
      Standing kmalloc f (i + 1) s₂ ∧ Keeps s s₂ ∧ Mapped s₂ ph.pVaddr.toNat (ph.pVaddr.toNat + ph.pMemsz.toNat) := by
  obtain ⟨s₁, hmap, ⟨hinside, hnext⟩, h₁, haligned, hext⟩ := h.serve hk hserved
  have hcopyInside : ph.pVaddr.toNat + ph.pFilesz.toNat ≤ 2 ^ 47 ∨
      ∃ v : Word, ph.pVaddr.toNat ≤ v.toNat ∧ v.toNat < 2 ^ 47 ∧ leaf f s₁.mem v = none := by
    refine hinside.imp id ?_
    rintro ⟨v, hlow, hhigh, hnone⟩
    refine ⟨v, hlow, hhigh, ?_⟩
    rwa [h₁.paged.userByte_eq hhigh, map_eq_none_iff] at hnone
  obtain ⟨s₂, -, hcopy, hpaged, hareas, htask, hleaves, -⟩ := elfCopySegment_pages image ph.pOffset (aligned_iff.mp haligned)
    h₁.paged hcopyInside
  have hkeep := keeps_of_leaves h₁.paged hpaged hleaves
  exact ⟨s₁, s₂, hmap, hcopy, hnext s₂ (mem_def.mpr hcopy), h₁.congr hpaged hareas (by rw [htask])
    (by rw [htask]) (by rw [htask]),
    hext.keeps.trans hkeep, (hext.mapped hserved.1).keep hserved.1 hkeep⟩

lemma loadSegments_served {image : Mem} {rest : Vm → Word → Prop} (hk : Distinct kmalloc) (fuel : ℕ) {i : ℕ} {s : Vm}
    {maxVaddr : Word}
    (h : Standing kmalloc f i s) (hserved : ServesSegments cpu kmalloc image rest fuel i s maxVaddr) :
    ∃ last s', loadSegments image cpu kmalloc fuel i s maxVaddr = some (some last, s') ∧ rest s' last ∧
      Standing kmalloc f (i + fuel) s' ∧
      Keeps s s' ∧ ∀ j, i ≤ j → j < i + fuel → (phdr image j).pType = ptLoad →
        (phdr image j).pVaddr.toNat + (phdr image j).pMemsz.toNat ≤ 2 ^ 47 ∧
        Mapped s' (phdr image j).pVaddr.toNat ((phdr image j).pVaddr.toNat + (phdr image j).pMemsz.toNat) := by
  induction fuel generalizing i s maxVaddr with
  | zero => exact ⟨maxVaddr, s, rfl, hserved, h, fun _ _ hsome => hsome, fun j hlow hhigh => by omega⟩
  | succ fuel ih =>
    rw [ServesSegments] at hserved
    rw [loadSegments]
    have hnext : i + 1 + fuel = i + (fuel + 1) := by omega
    by_cases hload : (phdr image i).pType = ptLoad
    · simp only [if_pos hload] at hserved ⊢
      obtain ⟨_, _, hmap, hcopy, hrest₂, h₂, hkeep, hmapped⟩ := h.segment hk hserved
      obtain ⟨last, s', hrun, hrest, h', hkeep', hsegments⟩ := ih h₂ hrest₂
      refine ⟨last, s', ?_, hrest, hnext ▸ h', hkeep.trans hkeep', fun j hlow hhigh hloadj => ?_⟩
      · simp only [hmap, bind_eq_bind, bind_some, hcopy]
        exact hrun
      · rcases Nat.eq_or_lt_of_le hlow with rfl | hlater
        · exact ⟨hserved.1, hmapped.keep hserved.1 hkeep'⟩
        · exact hsegments j hlater (by omega) hloadj
    · simp only [if_neg hload] at hserved ⊢
      obtain ⟨last, s', hrun, hrest, h', hkeep', hsegments⟩ := ih (h.mono (Nat.le_succ i)) hserved
      refine ⟨last, s', hrun, hrest, hnext ▸ h', hkeep', fun j hlow hhigh hloadj => ?_⟩
      rcases Nat.eq_or_lt_of_le hlow with rfl | hlater
      · exact absurd hloadj hload
      · exact hsegments j hlater (by omega) hloadj

lemma loadElf_ready (image : Mem) (h : Standing kmalloc f 0 s) (hk : Distinct kmalloc)
    (hserved : ServesElf cpu kmalloc image s) :
    ∃ s', loadElf cpu kmalloc image s = some (some (ehdr image).eEntry, s') ∧ (Creator.elf image).Ready s' := by
  obtain ⟨hmagic, hentry, hsegments⟩ := hserved
  obtain ⟨last, s₁, hload, hserved₁, h₁, -, hcode⟩ := loadSegments_served hk _ h hsegments
  rw [Nat.zero_add] at h₁ hcode
  have hheap : Standing kmalloc f (ehdr image).ePhnum (initHeap s₁ last) := h₁.congr (h₁.paged.of_pages rfl) rfl rfl rfl rfl
  obtain ⟨s₂, hmap₂, hserved₂, h₂, -, hext₂⟩ := hheap.serve hk hserved₁
  obtain ⟨s₃, hmap₃, -, _, -, hext₃⟩ := h₂.serve hk hserved₂
  have hkeep := hext₂.keeps
  refine ⟨s₃, ?_, fun i hi hload => ?_, ?_, ?_⟩
  · have hmap : vmaMap (initHeap s₁ last) cpu (kmalloc (ehdr image).ePhnum) (initHeap s₁ last).task.heapStart
        (4 * BitVec.ofNat 64 pageSize)
        (vmaRead ||| vmaWrite ||| vmaUser ||| vmaHeap) = some (0, s₂) := hmap₂
    simp only [loadElf, elfLoad, if_neg (not_not.mpr hmagic), hload, hmap, bind_eq_bind, bind_some, if_neg hentry,
      Option.pure_def]
    exact mapOrNull_eq _ hmap₃
  · obtain ⟨hrange, hmapped⟩ := hcode i (Nat.zero_le i) hi hload
    exact hmapped.keep hrange (hkeep.trans hext₃.keeps)
  · exact hext₃.mapped hserved₂.1
  · have hheap₃ := hext₃.heap.trans hext₂.heap
    exact ((hext₂.mapped hserved₁.1).keep hserved₁.1 hext₃.keeps).heap hserved₁.1 (congrArg Prod.fst hheap₃)
      (congrArg (·.2.2) hheap₃)

end standing

section creation

variable {k : Answers} {s : System} {cpu : Option ℕ}

lemma newSpace_standing {g : ℕ} (kmalloc : ℕ → Option Word) (hsmall : s.pmm.Small) (hg : g < 2 ^ 52)
    (hkernel : g ∈ usedFrames s.pmm)
    (hspace : (newSpace cpu (frameAddr g) s).task.cr3 ≠ 0) : ∃ f, Standing kmalloc f 0 (newSpace cpu (frameAddr g) s) := by
  obtain ⟨hsmall', hspec⟩ := vmmCreateUserPml4_spec s.mem cpu hsmall hg hkernel
  rcases hspec with ⟨hnull, -⟩ | ⟨f, -, hf, hroot, -, hused, -, hrow⟩
  · exact absurd hnull hspace
  have hfresh : FreshSpace (newSpace cpu (frameAddr g) s) := by
    refine ⟨hsmall', ⟨f, by omega, hroot, ?_⟩, fun i => ?_⟩
    · have hmem := hused ▸ Set.mem_insert f _
      exact hmem
    · have hi := not_le.mpr i.isLt
      rw [show (newSpace cpu (frameAddr g) s).task.cr3 = frameAddr f from hroot, entry_frameAddr _ (by omega)]
      exact (hrow (userIndex i)).trans (if_neg hi)
  obtain ⟨f, hbacked⟩ := hfresh.backed rfl
  have hmatches : Matches (newSpace cpu (frameAddr g) s) [] := matches_init rfl
  have hnone := hmatches.linked.vmas_eq
  refine ⟨f, hbacked.paged, hnone.symm ▸ hmatches, fun r hr => ?_, ?_⟩
  · cases hr
  · rw [hnone]
    exact forall_mem_nil _

lemma Creator.load_ready {c : Creator} {f : ℕ} {s : Vm} {kmalloc : ℕ → Option Word} (h : Standing kmalloc f 0 s)
    (hk : Distinct kmalloc)
    (hserved : c.Served cpu kmalloc s) : ∃ entry s', c.load cpu kmalloc s = some (some entry, s') ∧ c.Ready s' := by
  cases c with
  | user code => exact ⟨codeVirt, loadCode_ready code h hk hserved⟩
  | elf image => exact ⟨_, loadElf_ready image h hk hserved⟩

lemma Creator.create_eq (c : Creator) (cpu : Option ℕ) (kernelPml4 : Word) (k : Answers) (s : System) :
    c.create cpu kernelPml4 k s = createTask (c.load cpu k.descriptors) cpu kernelPml4 k s := by
  cases c <;> rfl

/-- Once the task has its address space, every `vma_map` of the creation is assumed to succeed in full, and an ELF image to
have its magic and an entry point: what fails after that point is left behind, or goes unnoticed. -/
theorem creation_all_or_nothing (c : Creator) (cpu : Option ℕ) (g : ℕ) (k : Answers) (s : System) (hsmall : s.pmm.Small)
    (hg : g < 2 ^ 52) (hkernel : g ∈ usedFrames s.pmm) (hk : Distinct k.descriptors)
    (hserved : k.task ≠ none → k.stack ≠ none → (newSpace cpu (frameAddr g) s).task.cr3 ≠ 0 →
      c.Served cpu k.descriptors (newSpace cpu (frameAddr g) s)) :
    ∃ r s', c.create cpu (frameAddr g) k s = some (r, s') ∧ (r = none → Released s s') ∧ ∀ t ∈ r, c.Ready (s'.vm t.vm) := by
  rw [c.create_eq, createTask, taskAllocBase]
  cases htask : k.task with
  | none => exact ⟨none, s, rfl, fun _ => ⟨rfl, rfl⟩, fun _ ht => by cases ht⟩
  | some t =>
    cases hstack : k.stack with
    | none =>
      refine ⟨none, (s.kmalloc t).kfree t, rfl, fun _ => ⟨?_, rfl⟩, fun _ ht => by cases ht⟩
      exact erase_cons_head t s.blocks
    | some stack =>
      dsimp only
      change ∃ r s', (if (newSpace cpu (frameAddr g) s).task.cr3 = 0 then _ else _) = some (r, s') ∧ _
      by_cases hspace : (newSpace cpu (frameAddr g) s).task.cr3 = 0
      · -- no address space: the stack and the task go back
        rw [if_pos hspace]
        refine ⟨none, _, rfl, fun _ => ⟨?_, ?_⟩, fun _ ht => by cases ht⟩
        · change ((stack :: t :: s.blocks).erase stack).erase t = s.blocks
          rw [erase_cons_head, erase_cons_head]
        · obtain ⟨-, ⟨-, -, hused⟩ | ⟨f, hpos, hf, hroot, -⟩⟩ := vmmCreateUserPml4_spec s.mem cpu hsmall hg hkernel
          · exact hused
          · exact absurd (hroot.symm.trans hspace) (frameAddr_ne_zero (by rw [pageSize]; omega) (by omega))
      · rw [if_neg hspace]
        obtain ⟨f, hstanding⟩ := newSpace_standing k.descriptors hsmall hg hkernel hspace
        obtain ⟨entry, vm, hload, hready⟩ := Creator.load_ready hstanding hk
          (hserved (by rw [htask]; exact some_ne_none t) (by rw [hstack]; exact some_ne_none stack) hspace)
        refine ⟨some (enterRing3 ⟨t, fourPages, stack, s.nextTid⟩ vm.task entry),
          ({ (s.kmalloc t).kmalloc stack with nextTid := s.nextTid + 1 }).put vm, ?_, ?_, ?_⟩
        · exact bind_eq_some_iff.mpr ⟨_, hload, rfl⟩
        · intro hnull
          cases hnull
        · rintro _ ⟨⟩
          exact hready

def freshSystem : System := ⟨blankVm.areas, blankVm.mem, blankVm.pmm, [], 10⟩

def answers : Answers := ⟨some 0x100000, some 0x200000, fun i => if i < 3 then descriptorAt i else none⟩

lemma distinct_answers : Distinct answers.descriptors := by
  constructor
  · intro i
    simp only [answers]
    split_ifs with hi
    · interval_cases i <;> decide
    · exact nofun
  · intro i j a hi hj
    simp only [answers, descriptorAt, ite_none_right_eq_some, Option.some.injEq] at hi hj
    obtain ⟨hi, rfl⟩ := hi
    obtain ⟨hj, heq⟩ := hj
    have hnat := congrArg BitVec.toNat heq
    rw [toNat_ofNat, toNat_ofNat, Nat.mod_eq_of_lt (by omega), Nat.mod_eq_of_lt (by omega)] at hnat
    omega

theorem creation_all_or_nothing_program : ∃ t s',
    (Creator.elf (program 0x400000 0x800 0x1000)).create none (frameAddr 2) answers freshSystem = some (some t, s') ∧
    (Creator.elf (program 0x400000 0x800 0x1000)).Ready (s'.vm t.vm) := by
  obtain ⟨r, s', hcreate, -, hready⟩ := creation_all_or_nothing (.elf (program 0x400000 0x800 0x1000)) none 2 answers
    freshSystem
    (show 64 * 8 ≤ 2 ^ 28 by decide) (by decide) (show freshSystem.pmm.isSet 2 = true by decide) distinct_answers
    (fun _ _ _ => show ServesElf _ _ _ _ by decide +kernel)
  have hsome : ((Creator.elf (program 0x400000 0x800 0x1000)).create none (frameAddr 2) answers freshSystem).map (·.1.isSome) =
      some true := by decide +kernel
  rw [hcreate] at hsome
  cases r with
  | none => cases hsome
  | some t => exact ⟨t, s', hcreate, hready t rfl⟩

def lastFrame : System := { freshSystem with pmm := { blankVm.pmm with bitmap := fun i => if i = 40 then 0xFE else 0xFF } }

def emptyProgram : Mem := Mem.store64 (Mem.store32 (fun _ => 0) 0 0x464C457F) 24 0x400000

def noHeapDescriptor : Answers := { answers with descriptors := fun i => if i = 1 then some 0x8000 else none }

theorem creation_leaks :
    (∃ s', (Creator.user fun _ => 0x90).create none (frameAddr 2) answers lastFrame = some (none, s') ∧
      ¬ Released lastFrame s') ∧
    ∃ t s', (Creator.elf emptyProgram).create none (frameAddr 2) noHeapDescriptor freshSystem = some (some t, s') ∧
      ¬ (Creator.elf emptyProgram).Ready (s'.vm t.vm) := by
  constructor
  · obtain ⟨⟨_, s'⟩, hcreate, rfl, hblocks⟩ : ∃ r ∈ (Creator.user fun _ => 0x90).create none (frameAddr 2) answers lastFrame,
        r.1 = none ∧ r.2.blocks = [0x200000, 0x100000] := by
      decide +kernel
    refine ⟨s', hcreate, fun hreleased => ?_⟩
    cases hblocks.symm.trans hreleased.blocks
  · obtain ⟨⟨_, s'⟩, hcreate, t, ht, hstart, hend, hbyte⟩ :
        ∃ r ∈ (Creator.elf emptyProgram).create none (frameAddr 2) noHeapDescriptor freshSystem, ∃ t ∈ r.1,
          t.vm.heapStart = 0x1000 ∧ t.vm.heapEnd = 0x5000 ∧ userByte (r.2.vm t.vm) 0x1000 = none := by
      decide +kernel
    obtain rfl : _ = some t := ht
    refine ⟨t, s', hcreate, fun hready => ?_⟩
    have hmapped := hready.heap 0x1000 (by change t.vm.heapStart.toNat ≤ _; rw [hstart])
      (by change _ < t.vm.heapEnd.toNat; rw [hend]; decide)
    rw [hbyte] at hmapped
    cases hmapped

end creation

end KernelSmp.Sched.TaskCreation
