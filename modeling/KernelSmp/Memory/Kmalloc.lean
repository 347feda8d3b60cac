import KernelSmp.Base.Layout
import KernelSmp.Memory.Vmm

/-! The large-block heap of `kmalloc.c`. Memory is seen through the direct map, at its virtual
addresses; a header is a `struct m_header` of 40 bytes in front of its block. -/

namespace KernelSmp.Memory

open Base

inductive HeaderField
  | magic
  | size
  | isFree
  | next
  | prev
deriving DecidableEq, Repr

def mHeader : Layout HeaderField where
  offset
    | .magic => 0
    | .size => 8
    | .isFree => 16
    | .next => 24
    | .prev => 32
  width
    | .magic => 4
    | .size => 8
    | .isFree => 4
    | .next => 8
    | .prev => 8
  bytes := 40
  inside f := by cases f <;> decide
  apart f g h := by cases f <;> cases g <;> first | exact absurd rfl h | decide

def headerSize : Word := 40
def kmallocMagic : Word := 0xCAFEBABE
def slabMagic : BitVec 32 := 0x51AB51AB
def heapMinBlockSize : Word := 16

structure KHeap where
  mem : Mem
  heapStart : Word

def kmallocInit (mem : Mem) (firstFrame : Word) : Option KHeap :=
  if firstFrame = 0 then none
  else
    let heapStart := physToVirt firstFrame
    let m := mem.fill heapStart.toNat 4096 0
    let m := mHeader.set m heapStart .magic kmallocMagic
    let m := mHeader.set m heapStart .size (4096 - headerSize)
    let m := mHeader.set m heapStart .isFree 1
    let m := mHeader.set m heapStart .next 0
    let m := mHeader.set m heapStart .prev 0
    some ⟨m, heapStart⟩

def backLink (m : Mem) (next block : Word) : Mem := if next ≠ 0 then mHeader.set m next .prev block else m

def hasRest (m : Mem) (block size : Word) : Bool := mHeader.get m block .size ≥ size + headerSize + heapMinBlockSize

def splitBlock (m : Mem) (current size : Word) : Mem :=
  let nextBlock := current + headerSize + size
  let m := mHeader.set m nextBlock .magic kmallocMagic
  let m := mHeader.set m nextBlock .size (mHeader.get m current .size - size - headerSize)
  let m := mHeader.set m nextBlock .isFree 1
  let m := mHeader.set m nextBlock .next (mHeader.get m current .next)
  let m := mHeader.set m nextBlock .prev current
  let m := backLink m (mHeader.get m nextBlock .next) nextBlock
  let m := mHeader.set m current .size size
  mHeader.set m current .next nextBlock

def takeBlock (m : Mem) (current size : Word) : Mem :=
  mHeader.set (if hasRest m current size then splitBlock m current size else m) current .isFree 0

def findFit (m : Mem) (size : Word) : ℕ → Word → Word → Option (Option Word × Word)
  | 0, _, _ => none
  | fuel + 1, current, last =>
    if current = 0 then some (none, last)
    else if mHeader.get m current .isFree ≠ 0 ∧ mHeader.get m current .size ≥ size then some (some current, last)
    else findFit m size fuel (mHeader.get m current .next) current

inductive Search
  | found (current : Word) (heap : KHeap)
  | missing (last : Word)

def kmallocSearch (h : KHeap) (size : Word) : Option Search := do
  match ← findFit h.mem size (2 ^ 64) h.heapStart 0 with
  | (some current, _) => return .found current { h with mem := takeBlock h.mem current size }
  | (none, last) => return .missing last

def kmallocClear (h : KHeap) (current : Word) : KHeap :=
  { h with mem := h.mem.fill (current + headerSize).toNat (mHeader.get h.mem current .size).toNat 0 }

def numFrames (size : Word) : Word := (size + headerSize + 4095) / 4096

def newBlock (m : Mem) (block size last : Word) : Mem :=
  let m := mHeader.set m block .magic kmallocMagic
  let m := mHeader.set m block .size (numFrames size * 4096 - headerSize)
  let m := mHeader.set m block .isFree 0
  let m := mHeader.set m block .next 0
  mHeader.set m block .prev last

def splitNew (m : Mem) (block size : Word) : Mem :=
  let splitBlock := block + headerSize + size
  let m := mHeader.set m splitBlock .magic kmallocMagic
  let m := mHeader.set m splitBlock .size (mHeader.get m block .size - size - headerSize)
  let m := mHeader.set m splitBlock .isFree 1
  let m := mHeader.set m splitBlock .next 0
  let m := mHeader.set m block .size size
  let m := mHeader.set m block .next splitBlock
  mHeader.set m splitBlock .prev block

def newRun (m : Mem) (block size last : Word) : Mem :=
  let m := m.fill block.toNat (numFrames size * 4096).toNat 0
  let m := newBlock m block size last
  if hasRest m block size then splitNew m block size else m

def kmallocAppend (h : KHeap) (last size newFrames : Word) : KHeap :=
  let block := physToVirt newFrames
  let m := newRun h.mem block size last
  if last ≠ 0 then ⟨mHeader.set m last .next block, h.heapStart⟩ else ⟨mHeader.set m block .prev 0, block⟩

def align16 (size : Word) : Word := (size + 15) &&& ~~~15

/-- `slab_alloc` and `pmm_alloc_frames` are parameters; `P` is the state of the latter. -/
def kmalloc {P : Type} (slabAlloc : Mem → Word → Word × Mem) (pmmAllocFrames : P → Word → Word × P) (h : KHeap) (p : P)
    (size : Word) : Option (Word × KHeap × P) :=
  if size = 0 then some (0, h, p)
  else
    let (ptr, m) := if size ≤ 2048 then slabAlloc h.mem size else (0, h.mem)
    if ptr ≠ 0 then some (ptr, { h with mem := m.fill ptr.toNat size.toNat 0 }, p)
    else do
      let h := { h with mem := m }
      let size := align16 size
      match ← kmallocSearch h size with
      | .found current h => return (current + headerSize, kmallocClear h current, p)
      | .missing last =>
        let (newFrames, p) := pmmAllocFrames p (numFrames size)
        if newFrames = 0 then return (0, h, p)
        else return (physToVirt newFrames + headerSize, kmallocAppend h last size newFrames, p)

def absorb (m : Mem) (block behind : Word) : Mem :=
  let m := mHeader.set m block .size (mHeader.get m block .size + (mHeader.get m behind .size + headerSize))
  let m := mHeader.set m block .next (mHeader.get m behind .next)
  backLink m (mHeader.get m behind .next) block

def touches (m : Mem) (block behind other : Word) : Bool :=
  other ≠ 0 ∧ mHeader.get m other .isFree ≠ 0 ∧ block + headerSize + mHeader.get m block .size = behind

def mergeNext (m : Mem) (header : Word) : Mem :=
  let next := mHeader.get m header .next
  if touches m header next next then absorb m header next else m

def mergePrev (m : Mem) (header : Word) : Mem :=
  let prev := mHeader.get m header .prev
  if touches m prev header prev then absorb m prev header else m

def kfreeSection (m : Mem) (header : Word) : Mem := mergePrev (mergeNext (mHeader.set m header .isFree 1) header) header

/-- A panic is an error with its message. -/
def kfree (slabFree : Mem → Word → Mem) (h : KHeap) (ptr : Word) : Except String KHeap :=
  if ptr = 0 then .ok h
  else if h.mem.load32 (ptr &&& ~~~0xFFF).toNat = slabMagic then .ok { h with mem := slabFree h.mem ptr }
  else
    let header := ptr - headerSize
    if mHeader.get h.mem header .magic ≠ kmallocMagic then
      .error "KMALLOC: Heap corruption detected (Invalid Magic Number)!"
    else if mHeader.get h.mem header .isFree ≠ 0 then .error "KMALLOC: Double free detected!"
    else .ok { h with mem := kfreeSection h.mem header }

end KernelSmp.Memory
