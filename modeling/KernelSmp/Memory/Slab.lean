import KernelSmp.Memory.Kmalloc

/-! The slab caches of `slab.c`. Memory is seen through the direct map, at its virtual addresses; a slab is a
page that begins with a `slab_t`, and the first word of a free object is its `slab_obj_t`. -/

namespace KernelSmp.Memory

open Base Function

inductive SlabField
  | magic
  | parentCache
  | freeList
  | freeCount
  | next
  | prev
  | data
deriving DecidableEq, Repr

def slabT : Layout SlabField where
  offset
    | .magic => 0
    | .parentCache => 8
    | .freeList => 16
    | .freeCount => 24
    | .next => 32
    | .prev => 40
    | .data => 48
  width
    | .magic => 4
    | _ => 8
  bytes := 56
  inside f := by cases f <;> decide
  apart f g h := by cases f <;> cases g <;> first | exact absurd rfl h | decide

def slabSize : Word := 56

def cacheSizes : Fin 8 → Word := ![16, 32, 64, 128, 256, 512, 1024, 2048]

inductive SlabList
  | partialSlabs
  | fullSlabs
  | emptySlabs
deriving DecidableEq, Repr

structure Slabs where
  mem : Mem
  kmallocCaches : Word
  lists : Fin 8 × SlabList → Word

/-- The address of a cache; a `slab_cache_t` has 128 bytes, as its lock is aligned to 64. -/
def Slabs.cacheAddr (s : Slabs) (i : Fin 8) : Word := s.kmallocCaches + 128 * BitVec.ofNat 64 i

def Slabs.set (s : Slabs) (slab : Word) (f : SlabField) (v : Word) : Slabs := { s with mem := slabT.set s.mem slab f v }
def Slabs.get (s : Slabs) (slab : Word) (f : SlabField) : Word := slabT.get s.mem slab f
def Slabs.setObj (s : Slabs) (obj next : Word) : Slabs := { s with mem := s.mem.store64 obj.toNat next }
def Slabs.getObj (s : Slabs) (obj : Word) : Word := s.mem.load64 obj.toNat
def Slabs.setList (s : Slabs) (k : Fin 8 × SlabList) (v : Word) : Slabs := { s with lists := update s.lists k v }

def Slabs.linkNext (s : Slabs) (p v : Word) : Slabs := if p ≠ 0 then s.set p .next v else s

def Slabs.linkPrev (s : Slabs) (p v : Word) : Slabs := if p ≠ 0 then s.set p .prev v else s

def slabListRemove (s : Slabs) (k : Fin 8 × SlabList) (slab : Word) : Slabs :=
  let s := s.linkNext (s.get slab .prev) (s.get slab .next)
  let s := s.linkPrev (s.get slab .next) (s.get slab .prev)
  let s := if s.lists k = slab then s.setList k (s.get slab .next) else s
  (s.set slab .prev 0).set slab .next 0

def slabListPush (s : Slabs) (k : Fin 8 × SlabList) (slab : Word) : Slabs :=
  let s := (s.set slab .next (s.lists k)).set slab .prev 0
  let s := s.linkPrev (s.lists k) slab
  s.setList k slab

def linkObjects (objSize : Word) : ℕ → Slabs → Word → Slabs × Word
  | 0, s, curr => (s, curr)
  | n + 1, s, curr =>
    let s := s.setObj curr (curr + objSize)
    linkObjects objSize n s (s.getObj curr)

def carve (s : Slabs) (i : Fin 8) (virt : Word) : Slabs :=
  let s := (s.set virt .magic (slabMagic.setWidth 64)).set virt .parentCache (s.cacheAddr i)
  let start := (virt + slabSize + 15) &&& ~~~15
  let s := s.set virt .freeList start
  let maxObjs := (virt + 4096 - start) / cacheSizes i
  let s := s.set virt .freeCount maxObjs
  let (s, curr) := linkObjects (cacheSizes i) (maxObjs - 1).toNat s (s.get virt .freeList)
  s.setObj curr 0

/-- `frame` is what `pmm_alloc_frame` returns. -/
def slabGrow (s : Slabs) (i : Fin 8) (frame : Word) : Slabs :=
  slabListPush (carve s i (physToVirt frame)) (i, .emptySlabs) (physToVirt frame)

def slabForAlloc (s : Slabs) (i : Fin 8) (frame : Word) : Word × Slabs :=
  if s.lists (i, .partialSlabs) ≠ 0 then (s.lists (i, .partialSlabs), s)
  else
    let s := if s.lists (i, .emptySlabs) = 0 then slabGrow s i frame else s
    let slab := s.lists (i, .emptySlabs)
    (slab, slabListPush (slabListRemove s (i, .emptySlabs) slab) (i, .partialSlabs) slab)

def takeObject (s : Slabs) (i : Fin 8) (slab : Word) : Word × Slabs :=
  let obj := s.get slab .freeList
  let s := s.set slab .freeList (s.getObj obj)
  let s := s.set slab .freeCount (s.get slab .freeCount - 1)
  (obj, if s.get slab .freeCount = 0 then slabListPush (slabListRemove s (i, .partialSlabs) slab) (i, .fullSlabs) slab else s)

def slabCacheAlloc (s : Slabs) (i : Fin 8) (frame : Word) : Word × Slabs :=
  let (slab, s) := slabForAlloc s i frame
  takeObject s i slab

def slabCacheFor (size : Word) : Option (Fin 8) := (List.finRange 8).find? fun i => size ≤ cacheSizes i

def slabAlloc (s : Slabs) (size frame : Word) : Word × Slabs :=
  match slabCacheFor size with
  | some i => slabCacheAlloc s i frame
  | none => (0, s)

def slabOf (ptr : Word) : Word := ptr &&& ~~~0xFFF

def slabCacheFree (s : Slabs) (i : Fin 8) (ptr : Word) : Slabs :=
  let slab := slabOf ptr
  let s := s.setObj ptr (s.get slab .freeList)
  let s := s.set slab .freeList ptr
  let s := s.set slab .freeCount (s.get slab .freeCount + 1)
  let maxObjs := (4096 - slabSize) / cacheSizes i
  if s.get slab .freeCount = 1 then
    slabListPush (slabListRemove s (i, .fullSlabs) slab) (i, .partialSlabs) slab
  else if s.get slab .freeCount = maxObjs then
    slabListPush (slabListRemove s (i, .partialSlabs) slab) (i, .emptySlabs) slab
  else s

/-- It panics, or follows a wild pointer, if the page of `ptr` is not a slab of the caches. -/
def slabFree (s : Slabs) (ptr : Word) : Option Slabs :=
  if ptr = 0 then some s
  else if s.get (slabOf ptr) .magic ≠ slabMagic.setWidth 64 then none
  else ((List.finRange 8).find? fun i => s.cacheAddr i = s.get (slabOf ptr) .parentCache).map fun i => slabCacheFree s i ptr

end KernelSmp.Memory
