import KernelSmp.Base.ByteMemory

/-! The physical frame allocator of `pmm.c`. `bitmap` holds the bytes from the `bitmap` pointer on,
so an access past `bitmap_size` reads or writes what follows in memory. -/

namespace KernelSmp.Memory

open Base Function

def pageSize : ℕ := 4096

structure Pmm where
  bitmapPtr : Word
  bitmap : Mem
  bitmapSize : ℕ
  pmmLastIndex : ℕ → ℕ

def pageAlignDown (addr : Word) : Word := addr &&& ~~~0xFFF
def pageAlignUp (addr : Word) : Word := (addr + 0xFFF) &&& ~~~0xFFF

def frameIndex (addr : Word) : ℕ := addr.toNat / pageSize
def frameAddr (index : ℕ) : Word := BitVec.ofNat 64 (index * pageSize)

def Pmm.setBit (p : Pmm) (k : ℕ) : Pmm :=
  { p with bitmap := update p.bitmap (k / 8) (p.bitmap (k / 8) ||| (1#8 <<< (k % 8))) }

def Pmm.clearBit (p : Pmm) (k : ℕ) : Pmm :=
  { p with bitmap := update p.bitmap (k / 8) (p.bitmap (k / 8) &&& ~~~(1#8 <<< (k % 8))) }

def Pmm.isSet (p : Pmm) (k : ℕ) : Bool := (p.bitmap (k / 8) &&& (1#8 <<< (k % 8))) != 0

def pmmSetFrame (p : Pmm) (addr : Word) : Pmm := p.setBit (frameIndex addr)
def pmmUnsetFrame (p : Pmm) (addr : Word) : Pmm := p.clearBit (frameIndex addr)
def pmmIsFrameSet (p : Pmm) (addr : Word) : Bool := p.isSet (frameIndex addr)

structure EfiMemoryDescriptor where
  type : BitVec 32
  physicalStart : Word
  numPages : Word

def efiConventionalMemory : BitVec 32 := 7

structure BootInfo where
  memoryMap : List EfiMemoryDescriptor
  kernelBase : Word
  kernelSize : Word

namespace PmmInit

def highestAddr (descs : List EfiMemoryDescriptor) : Word :=
  descs.foldl (fun highest d =>
    let endAddr := d.physicalStart + d.numPages * BitVec.ofNat 64 pageSize
    if endAddr > highest then endAddr else highest) 0

def bitmapSize (descs : List EfiMemoryDescriptor) : ℕ := (highestAddr descs).toNat / pageSize / 8

/-- The second pass; without a fitting descriptor `bitmap` stays `NULL` and nothing is filled. -/
def placeBitmap (phys : Mem) (size : ℕ) (hints : ℕ → ℕ) (descs : List EfiMemoryDescriptor) : Pmm :=
  match descs.find? fun d => d.type = efiConventionalMemory ∧
      size ≤ (d.numPages * BitVec.ofNat 64 pageSize).toNat with
  | some d =>
    let ptr := pageAlignUp d.physicalStart
    ⟨ptr, Mem.fill (fun j => phys (ptr.toNat + j)) 0 size 0xFF, size, hints⟩
  | none => ⟨0, phys, size, hints⟩

def unlockDescriptor (p : Pmm) (d : EfiMemoryDescriptor) : Pmm :=
  if d.type = efiConventionalMemory ∨ d.type = 4 then
    (List.range d.numPages.toNat).foldl (fun p j =>
      let addr := d.physicalStart + BitVec.ofNat 64 (j * pageSize)
      if addr ≥ 0x100000 then pmmUnsetFrame p addr else p) p
  else p

def lockLow (p : Pmm) : Pmm :=
  (List.range (0x100000 / pageSize)).foldl (fun p i => pmmSetFrame p (BitVec.ofNat 64 (i * pageSize))) p

def lockKernel (bi : BootInfo) (p : Pmm) : Option Pmm :=
  Word.forBelow (BitVec.ofNat 64 pageSize) (bi.kernelBase + bi.kernelSize + BitVec.ofNat 64 pageSize)
    pmmSetFrame (2 ^ 64) bi.kernelBase p

def lockBitmap (p : Pmm) : Pmm :=
  (List.range ((p.bitmapSize + pageSize - 1) / pageSize)).foldl (fun p i =>
    pmmSetFrame p (p.bitmapPtr + BitVec.ofNat 64 (i * pageSize))) p

end PmmInit

open PmmInit in
/-- `pmm_init` on physical memory `phys`; `none` when the loop that locks the kernel does not end. -/
def pmmInit (phys : Mem) (hints : ℕ → ℕ) (bi : BootInfo) : Option Pmm :=
  let p := placeBitmap phys (bitmapSize bi.memoryMap) hints bi.memoryMap
  let p := lockLow (bi.memoryMap.foldl unlockDescriptor p)
  (lockKernel bi p).map lockBitmap

def ctz (x : Byte) : ℕ := ((List.range 8).find? fun b => x.getLsbD b).getD 8

def searchByte (bitmap : Mem) : (fuel i : ℕ) → Option (ℕ × ℕ)
  | 0, _ => none
  | fuel + 1, i =>
    if bitmap i = 0xFF then searchByte bitmap fuel (i + 1)
    else
      let freeBits := ~~~(bitmap i)
      let b := ctz freeBits
      if freeBits ≠ 0 ∧ b < 8 ∧ frameAddr (i * 8 + b) ≠ 0 then some (i, b)
      else searchByte bitmap fuel (i + 1)

/-- `pmm_alloc_frame` on the CPU `cpu` (`none` before a context is installed); `NULL` is 0. -/
def pmmAllocFrame (p : Pmm) (cpu : Option ℕ) : Word × Pmm :=
  if p.bitmapPtr = 0 then (0, p)
  else
    let startIndex := cpu.elim 0 p.pmmLastIndex
    match searchByte p.bitmap (p.bitmapSize - startIndex) startIndex with
    | none => (0, p)
    | some (i, b) =>
      let q := p.setBit (i * 8 + b)
      (frameAddr (i * 8 + b),
        { q with pmmLastIndex := cpu.elim q.pmmLastIndex fun c => update q.pmmLastIndex c i })

def freeFound (p : Pmm) : (count cur : ℕ) → ℕ
  | 0, _ => 0
  | count + 1, cur =>
    if cur ≥ p.bitmapSize * 8 then 0
    else if p.isSet cur then 0 else freeFound p count (cur + 1) + 1

def searchQword (p : Pmm) (count i : ℕ) : (fuel b : ℕ) → Option ℕ
  | 0, _ => none
  | fuel + 1, b =>
    if freeFound p count (i * 64 + b) = count then some (i * 64 + b) else searchQword p count i fuel (b + 1)

def searchRun (p : Pmm) (count : ℕ) : (fuel i : ℕ) → Option ℕ
  | 0, _ => none
  | fuel + 1, i =>
    if p.bitmap.load64 (8 * i) = 0xFFFFFFFFFFFFFFFF then searchRun p count fuel (i + 1)
    else
      match searchQword p count i 64 0 with
      | some start => some start
      | none => searchRun p count fuel (i + 1)

def markRun (p : Pmm) (start : ℕ) : ℕ → Pmm
  | 0 => p
  | n + 1 => (markRun p start n).setBit (start + n)

def pmmAllocFrames (p : Pmm) (count : ℕ) : Word × Pmm :=
  if p.bitmapPtr = 0 ∨ count = 0 then (0, p)
  else
    match searchRun p count (p.bitmapSize / 8) 0 with
    | none => (0, p)
    | some start => (frameAddr start, markRun p start count)

def pmmFreeFrame (p : Pmm) (cpu : Option ℕ) (frame : Word) : Pmm :=
  if frame = 0 then p
  else
    let q := pmmUnsetFrame p frame
    let index := frameIndex frame / 8
    { q with pmmLastIndex := cpu.elim q.pmmLastIndex fun c =>
        if index < q.pmmLastIndex c then update q.pmmLastIndex c index else q.pmmLastIndex }

end KernelSmp.Memory
