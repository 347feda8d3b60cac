import KernelSmp.Memory.Pmm

/-! The page table operations of `vmm.c`. A table is named by its physical address: `vmm_get_table`
turns that into a pointer through the identity map or the direct map, and both windows show the same
memory. `alloc` stands for `pmm_alloc_frame` on an allocator state. -/

namespace KernelSmp.Memory

open Base

def vmmAddrMask : Word := 0x000000FFFFFFF000
def hhdmOffset : Word := 0xFFFF800000000000

def ptePresent : Word := 1#64 <<< 0
def pteWritable : Word := 1#64 <<< 1
def pteUser : Word := 1#64 <<< 2
def pteHuge : Word := 1#64 <<< 7
def pteNx : Word := 1#64 <<< 63

def indexAt (shift : ℕ) (addr : Word) : Fin 512 :=
  ⟨((addr >>> shift) &&& 0x1FF).toNat, by
    rw [BitVec.toNat_and]
    exact lt_of_le_of_lt Nat.and_le_right (by decide)⟩

def pml4Idx (addr : Word) : Fin 512 := indexAt 39 addr
def pdptIdx (addr : Word) : Fin 512 := indexAt 30 addr
def pdIdx (addr : Word) : Fin 512 := indexAt 21 addr
def ptIdx (addr : Word) : Fin 512 := indexAt 12 addr

def physToVirt (phys : Word) : Word := phys + hhdmOffset

def entry (m : Mem) (table : Word) (i : Fin 512) : Word := m.load64 (table.toNat + 8 * i)
def setEntry (m : Mem) (table : Word) (i : Fin 512) (e : Word) : Mem := m.store64 (table.toNat + 8 * i) e
def zeroPage (m : Mem) (table : Word) : Mem := m.fill table.toNat pageSize 0

def isPresent (e : Word) : Bool := (e &&& ptePresent) != 0
def hasFlag (e flag : Word) : Bool := (e &&& flag) != 0

def vmmUnmapUnlocked (m : Mem) (pml4 virt : Word) : Mem :=
  if !isPresent (entry m pml4 (pml4Idx virt)) then m
  else
    let pdpt := entry m pml4 (pml4Idx virt) &&& vmmAddrMask
    if !isPresent (entry m pdpt (pdptIdx virt)) then m
    else
      let pd := entry m pdpt (pdptIdx virt) &&& vmmAddrMask
      if !isPresent (entry m pd (pdIdx virt)) then m
      else
        let pt := entry m pd (pdIdx virt) &&& vmmAddrMask
        setEntry m pt (ptIdx virt) 0

def vmmUnmap (m : Mem) (pml4 virt : Word) : Mem := vmmUnmapUnlocked m pml4 virt

def pageOffset (i : ℕ) : Word := BitVec.ofNat 64 (i * pageSize)

def unmapPages (m : Mem) (pml4 virt : Word) : ℕ → Mem
  | 0 => m
  | n + 1 => vmmUnmapUnlocked (unmapPages m pml4 virt n) pml4 (virt + pageOffset n)

def numPages (size : Word) : ℕ := (size + BitVec.ofNat 64 pageSize - 1).toNat / pageSize

def vmmUnmapRangeUnlocked (m : Mem) (pml4 virt size : Word) : Mem := unmapPages m pml4 virt (numPages size)

def vmmUnmapRange (m : Mem) (pml4 virt size : Word) : Mem := vmmUnmapRangeUnlocked m pml4 virt size

section map

variable {σ : Type} (alloc : σ → Word × σ)

structure Paging (σ : Type) where
  mem : Mem
  frames : σ

/-- The loop of `_vmm_map_unlocked` over the three upper levels: the table reached at the end,
or `none` when a table could not be allocated. -/
def mapTables (flags : Word) : Paging σ → Word → List (Fin 512) → Option Word × Paging σ
  | s, table, [] => (some table, s)
  | s, table, i :: rest =>
    let e := entry s.mem table i
    if !isPresent e then
      let (newTable, frames) := alloc s.frames
      if newTable = 0 then (none, ⟨s.mem, frames⟩)
      else
        let m := setEntry (zeroPage s.mem newTable) table i
          ((newTable &&& vmmAddrMask) ||| ptePresent ||| pteWritable ||| pteUser)
        mapTables flags ⟨m, frames⟩ (entry m table i &&& vmmAddrMask) rest
    else
      let m := if hasFlag flags pteUser then setEntry s.mem table i (e ||| pteUser) else s.mem
      let m := if hasFlag flags pteWritable then setEntry m table i (entry m table i ||| pteWritable) else m
      mapTables flags ⟨m, s.frames⟩ (entry m table i &&& vmmAddrMask) rest

def vmmMapUnlocked (s : Paging σ) (pml4 virt phys flags : Word) : Bool × Paging σ :=
  match mapTables alloc flags s pml4 [pml4Idx virt, pdptIdx virt, pdIdx virt] with
  | (none, t) => (false, t)
  | (some table, t) =>
    (true, ⟨setEntry t.mem table (ptIdx virt) ((phys &&& vmmAddrMask) ||| flags ||| ptePresent), t.frames⟩)

def mapPages (pml4 virt phys flags : Word) : Paging σ → (fuel i : ℕ) → Bool × Paging σ
  | s, 0, _ => (true, s)
  | s, fuel + 1, i =>
    match vmmMapUnlocked alloc s pml4 (virt + pageOffset i) (phys + pageOffset i) flags with
    | (true, t) => mapPages pml4 virt phys flags t fuel (i + 1)
    | (false, t) =>
      (false, if i > 0 then ⟨vmmUnmapRangeUnlocked t.mem pml4 virt (pageOffset i), t.frames⟩ else t)

def vmmMapRangeUnlocked (s : Paging σ) (pml4 virt phys size flags : Word) : Bool × Paging σ :=
  mapPages alloc pml4 virt phys flags s (numPages size) 0

/-- A failed mapping at or above the direct map panics, which is `none`; below it goes unnoticed. -/
def checkMapped (virt : Word) (r : Bool × Paging σ) : Option (Paging σ) :=
  if !r.1 ∧ virt ≥ hhdmOffset then none else some r.2

def vmmMap (s : Paging σ) (pml4 virt phys flags : Word) : Option (Paging σ) :=
  checkMapped virt (vmmMapUnlocked alloc s pml4 virt phys flags)

def vmmMapRange (s : Paging σ) (pml4 virt phys size flags : Word) : Option (Paging σ) :=
  checkMapped virt (vmmMapRangeUnlocked alloc s pml4 virt phys size flags)

def vmmMapDevice (s : Paging σ) (pml4 virt phys size : Word) : Option (Word × Paging σ) :=
  let physAligned := pageAlignDown phys
  let offset := phys - physAligned
  let fullSize := pageAlignUp (size + offset)
  let flags := ptePresent ||| pteWritable ||| pteNx ||| (1#64 <<< 7)
  (vmmMapRange alloc s pml4 virt physAligned fullSize flags).map fun t => (virt + offset, t)

end map

def vmmVirtualToPhysical (m : Mem) (pml4 virt : Word) : Word :=
  if !isPresent (entry m pml4 (pml4Idx virt)) then 0
  else
    let pdpt := entry m pml4 (pml4Idx virt) &&& vmmAddrMask
    if !isPresent (entry m pdpt (pdptIdx virt)) then 0
    else
      let pd := entry m pdpt (pdptIdx virt) &&& vmmAddrMask
      if hasFlag (entry m pd (pdIdx virt)) pteHuge then
        (entry m pd (pdIdx virt) &&& 0xFFFFFFFFFE000000) + (virt &&& 0x1FFFFF)
      else if !isPresent (entry m pd (pdIdx virt)) then 0
      else
        let pt := entry m pd (pdIdx virt) &&& vmmAddrMask
        if !isPresent (entry m pt (ptIdx virt)) then 0
        else (entry m pt (ptIdx virt) &&& vmmAddrMask) + (virt &&& 0xFFF)

end KernelSmp.Memory
