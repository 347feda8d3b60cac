import KernelSmp.Memory.Vma

/-! The loader of `elf.c`. An image is the memory from `elf_data` on; every `vma_map` gets the answer
of its own `kmalloc` call. -/

namespace KernelSmp.Fs

open Base Memory

structure Elf64Ehdr where
  eIdent : List Byte
  eEntry : Word
  ePhoff : Word
  ePhnum : ℕ

structure Elf64Phdr where
  pType : BitVec 32
  pFlags : BitVec 32
  pOffset : Word
  pVaddr : Word
  pFilesz : Word
  pMemsz : Word

def ehdr (image : Mem) : Elf64Ehdr :=
  ⟨(List.range 4).map image, image.load64 24, image.load64 32, image.readLE 56 2⟩

def phdr (image : Mem) (i : ℕ) : Elf64Phdr :=
  let a := ((ehdr image).ePhoff + BitVec.ofNat 64 (56 * i)).toNat
  ⟨image.load32 a, image.load32 (a + 4), image.load64 (a + 8), image.load64 (a + 16), image.load64 (a + 32),
    image.load64 (a + 40)⟩

def elfMagic : List Byte := [0x7F, 0x45, 0x4C, 0x46]

def ptLoad : BitVec 32 := 1
def pfX : BitVec 32 := 1
def pfW : BitVec 32 := 2
def pfR : BitVec 32 := 4

def vmaRead : BitVec 32 := 1#32 <<< 0
def vmaUser : BitVec 32 := 1#32 <<< 3
def vmaStack : BitVec 32 := 1#32 <<< 4
def vmaHeap : BitVec 32 := 1#32 <<< 5

def segmentFlags (pFlags : BitVec 32) : BitVec 32 :=
  let flags := vmaUser
  let flags := if pFlags &&& pfR ≠ 0 then flags ||| vmaRead else flags
  let flags := if pFlags &&& pfW ≠ 0 then flags ||| vmaWrite else flags
  if pFlags &&& pfX ≠ 0 then flags ||| vmaExec else flags

/-- The page offset is added to an address that already has it; `vma_map` lets only offset 0 get here. -/
def elfCopySegment (image : Mem) (vaddr src filesz : Word) : ℕ → Vm → Word → Option Vm
  | 0, _, _ => none
  | fuel + 1, s, copied =>
    if copied < filesz then
      let currVaddr := vaddr + copied
      let offset := currVaddr % BitVec.ofNat 64 pageSize
      let toCopy := BitVec.ofNat 64 pageSize - offset
      let toCopy := if toCopy > filesz - copied then filesz - copied else toCopy
      let destPhys := vmmVirtualToPhysical s.mem s.task.cr3 currVaddr
      if destPhys = 0 then some s
      else
        elfCopySegment image vaddr src filesz fuel
          { s with mem := s.mem.copy (destPhys + offset).toNat image (src + copied).toNat toCopy.toNat } (copied + toCopy)
    else some s

section load

variable (image : Mem) (cpu : Option ℕ) (kmalloc : ℕ → Option Word)

def loadSegments : (fuel i : ℕ) → Vm → Word → Option (Option Word × Vm)
  | 0, _, s, maxVaddr => some (some maxVaddr, s)
  | fuel + 1, i, s, maxVaddr =>
    let ph := phdr image i
    if ph.pType = ptLoad then do
      let (res, s) ← vmaMap s cpu (kmalloc i) ph.pVaddr ph.pMemsz (segmentFlags ph.pFlags)
      if res ≠ 0 then return (none, s)
      else do
        let s ← elfCopySegment image ph.pVaddr ph.pOffset ph.pFilesz walkFuel s 0
        let segEnd := ph.pVaddr + ph.pMemsz
        loadSegments fuel (i + 1) s (if segEnd > maxVaddr then segEnd else maxVaddr)
    else loadSegments fuel (i + 1) s maxVaddr

def initHeap (s : Vm) (maxVaddr : Word) : Vm :=
  let heapStart := (maxVaddr + BitVec.ofNat 64 pageSize) &&& ~~~(BitVec.ofNat 64 pageSize - 1)
  { s with task := { s.task with heapStart := heapStart, heapCurr := heapStart,
                                 heapEnd := heapStart + 4 * BitVec.ofNat 64 pageSize } }

def elfLoad (s : Vm) : Option (Word × Vm) :=
  if (ehdr image).eIdent ≠ elfMagic then some (0, s)
  else do
    let (maxVaddr, s) ← loadSegments image cpu kmalloc (ehdr image).ePhnum 0 s 0
    match maxVaddr with
    | none => return (0, s)
    | some maxVaddr =>
      let s := initHeap s maxVaddr
      let (_, s) ← vmaMap s cpu (kmalloc (ehdr image).ePhnum) s.task.heapStart (4 * BitVec.ofNat 64 pageSize)
        (vmaRead ||| vmaWrite ||| vmaUser ||| vmaHeap)
      return ((ehdr image).eEntry, s)

end load

end KernelSmp.Fs
