import KernelSmp.Base.LinkedTree
import KernelSmp.Memory.AddressSpace

/-! The virtual memory areas of `vma.c`. Descriptors live in a store indexed by their address, with
`none` for a `NULL` link, and a call that follows a `NULL` link or never ends has no result. Each
call runs under the task's `vma_mutex`. -/

namespace KernelSmp.Memory

open Base Function

inductive Color
  | red
  | black
deriving DecidableEq, Repr

structure VmaArea where
  vmStart : Word
  vmEnd : Word
  vmFlags : BitVec 32
  left : Option Word
  right : Option Word
  parent : Option Word
  color : Color
  next : Option Word
  prev : Option Word
deriving DecidableEq, Repr

def VmaArea.child (a : VmaArea) : Side → Option Word
  | .left => a.left
  | .right => a.right

structure TaskVm where
  vmaTreeRoot : Option Word
  vmaListHead : Option Word
  vmaCount : ℕ
  cr3 : Word
  heapStart : Word
  heapCurr : Word
  heapEnd : Word
deriving DecidableEq, Repr

structure Vm where
  areas : Word → VmaArea
  task : TaskVm
  mem : Mem
  pmm : Pmm

namespace Vm

def setArea (s : Vm) (a : Word) (area : VmaArea) : Vm := { s with areas := update s.areas a area }

def setChild (s : Vm) (a : Word) (d : Side) (c : Option Word) : Vm :=
  match d with
  | .left => s.setArea a { s.areas a with left := c }
  | .right => s.setArea a { s.areas a with right := c }

def setParent (s : Vm) (a : Word) (p : Option Word) : Vm := s.setArea a { s.areas a with parent := p }
def setColor (s : Vm) (a : Word) (c : Color) : Vm := s.setArea a { s.areas a with color := c }
def setNext (s : Vm) (a : Word) (n : Option Word) : Vm := s.setArea a { s.areas a with next := n }
def setPrev (s : Vm) (a : Word) (p : Option Word) : Vm := s.setArea a { s.areas a with prev := p }
def setEnd (s : Vm) (a : Word) (e : Word) : Vm := s.setArea a { s.areas a with vmEnd := e }
def setRoot (s : Vm) (r : Option Word) : Vm := { s with task := { s.task with vmaTreeRoot := r } }
def setHead (s : Vm) (h : Option Word) : Vm := { s with task := { s.task with vmaListHead := h } }

def onLink (s : Vm) (a : Option Word) (f : Vm → Word → Vm) : Vm :=
  match a with
  | none => s
  | some a => f s a

end Vm

def replaceAt (d : Side) (s : Vm) (x : Word) (y : Option Word) : Vm :=
  match (s.areas x).parent with
  | none => s.setRoot y
  | some p => if (s.areas p).child d = some x then s.setChild p d y else s.setChild p d.other y

def rotate (d : Side) (s : Vm) (x : Word) : Option Vm := do
  let y ← (s.areas x).child d.other
  let s := s.setChild x d.other ((s.areas y).child d)
  let s := s.onLink ((s.areas y).child d) fun s c => s.setParent c (some x)
  let s := s.setParent y (s.areas x).parent
  let s := replaceAt d s x (some y)
  let s := s.setChild y d (some x)
  return s.setParent x (some y)

def vmaRotateLeft (s : Vm) (x : Word) : Option Vm := rotate .left s x
def vmaRotateRight (s : Vm) (y : Word) : Option Vm := rotate .right s y

def rotateSide : Side → Vm → Word → Option Vm
  | .left => vmaRotateLeft
  | .right => vmaRotateRight

def isRed (s : Vm) : Option Word → Bool
  | none => false
  | some a => (s.areas a).color = .red

def straighten (d : Side) (s : Vm) (z p : Word) : Option (Word × Vm) :=
  if (s.areas p).child d.other = some z then (rotateSide d s p).map fun s => (p, s) else some (z, s)

/-- The body of the loop of `vma_insert_fixup` when `z`'s parent `p` is the `d` child of `g`: the
next `z` and state. -/
def fixupSide (d : Side) (s : Vm) (z p g : Word) : Option (Word × Vm) :=
  let y := (s.areas g).child d.other
  if isRed s y then
    let s := s.setColor p .black
    let s := s.onLink y fun s y => s.setColor y .black
    some (g, s.setColor g .red)
  else do
    let (z, s) ← straighten d s z p
    let p ← (s.areas z).parent
    let s := s.setColor p .black
    let g ← (s.areas p).parent
    let s := s.setColor g .red
    let s ← rotateSide d.other s g
    return (z, s)

def fixupLoop : ℕ → Vm → Word → Option Vm
  | 0, _, _ => none
  | fuel + 1, s, z =>
    match (s.areas z).parent with
    | none => some s
    | some p =>
      if (s.areas p).color = .red then do
        let g ← (s.areas p).parent
        let (z, s) ← fixupSide (if (s.areas g).left = some p then .left else .right) s z p g
        fixupLoop fuel s z
      else some s

/-- Following links through `2 ^ 64` addresses meets one of them twice, so that this much fuel is
enough for every walk that ends. -/
def walkFuel : ℕ := 2 ^ 64

def vmaInsertFixup (s : Vm) (z : Word) : Option Vm := do
  let s ← fixupLoop walkFuel s z
  let r ← s.task.vmaTreeRoot
  return s.setColor r .black

def findFrom (areas : Word → VmaArea) (addr : Word) : ℕ → Option Word → Option (Option Word)
  | 0, _ => none
  | _ + 1, none => some none
  | fuel + 1, some c =>
    if addr ≥ (areas c).vmStart ∧ addr < (areas c).vmEnd then some (some c)
    else if addr < (areas c).vmStart then findFrom areas addr fuel (areas c).left
    else findFrom areas addr fuel (areas c).right

def vmaFind (s : Vm) (addr : Word) : Option (Option Word) := findFrom s.areas addr walkFuel s.task.vmaTreeRoot

def insertFrom (new : Word) : ℕ → Vm → Word → Option Vm
  | 0, _, _ => none
  | fuel + 1, s, node =>
    let d := if (s.areas new).vmStart < (s.areas node).vmStart then Side.left else .right
    match (s.areas node).child d with
    | none => some ((s.setChild node d (some new)).setParent new (some node))
    | some c => insertFrom new fuel s c

def treeInsert (s : Vm) (new : Word) : Option Vm :=
  match s.task.vmaTreeRoot with
  | none => some (s.setRoot (some new))
  | some r => insertFrom new walkFuel s r

def rightmost (areas : Word → VmaArea) : ℕ → Word → Option Word
  | 0, _ => none
  | fuel + 1, a =>
    match (areas a).right with
    | none => some a
    | some r => rightmost areas fuel r

def hangRight (s : Vm) (vma : Word) : Option Vm :=
  match (s.areas vma).left, (s.areas vma).right with
  | some l, some r => (rightmost s.areas walkFuel l).map fun m => (s.setChild m .right (some r)).setParent r (some m)
  | _, _ => some s

def treeRemove (s : Vm) (vma : Word) : Option Vm := do
  let replacement := if (s.areas vma).left.isSome then (s.areas vma).left else (s.areas vma).right
  let s ← hangRight s vma
  let s := replaceAt .left s vma replacement
  return s.onLink replacement fun s r => s.setParent r (s.areas vma).parent

def findArea (areas : Word → VmaArea) (test : VmaArea → Bool) : ℕ → Option Word → Option (Option Word)
  | 0, _ => none
  | _ + 1, none => some none
  | fuel + 1, some c => if test (areas c) then some (some c) else findArea areas test fuel (areas c).next

def listInsert (s : Vm) (new : Word) : Vm :=
  let s := s.setNext new s.task.vmaListHead
  let s := s.onLink s.task.vmaListHead fun s h => s.setPrev h (some new)
  s.setHead (some new)

def listRemove (s : Vm) (vma : Word) : Vm :=
  let s := s.onLink (s.areas vma).prev fun s p => s.setNext p (s.areas vma).next
  let s := s.onLink (s.areas vma).next fun s n => s.setPrev n (s.areas vma).prev
  if s.task.vmaListHead = some vma then s.setHead (s.areas vma).next else s

def vmaWrite : BitVec 32 := 1#32 <<< 1
def vmaExec : BitVec 32 := 1#32 <<< 2

def vmmOpts (flags : BitVec 32) : BitVec 32 :=
  let opts := (ptePresent ||| pteUser).setWidth 32
  let opts := if flags &&& vmaWrite ≠ 0 then (opts.setWidth 64 ||| pteWritable).setWidth 32 else opts
  if flags &&& vmaExec = 0 then (opts.setWidth 64 ||| pteNx).setWidth 32 else opts

def backRange (s : Vm) (cpu : Option ℕ) (addr phys size : Word) (flags : BitVec 32) : Option Vm := do
  let t ← vmmMapRange (pmmAllocFrame · cpu) ⟨s.mem, s.pmm⟩ s.task.cr3 addr phys size ((vmmOpts flags).setWidth 64)
  return { s with mem := t.mem.fill phys.toNat size.toNat 0, pmm := t.frames }

def vmaInitTask (t : TaskVm) : TaskVm := { t with vmaTreeRoot := none, vmaListHead := none, vmaCount := 0 }

def newArea (start stop : Word) (flags : BitVec 32) : VmaArea := ⟨start, stop, flags, none, none, none, .red, none, none⟩

def canExpand (addr : Word) (flags : BitVec 32) (a : VmaArea) : Bool := a.vmEnd = addr ∧ a.vmFlags = flags
def overlaps (addr size : Word) (a : VmaArea) : Bool := addr < a.vmEnd ∧ addr + size > a.vmStart

def roundUp (size : Word) : Word := (size + 0xFFF) &&& ~~~0xFFF

/-- `kmalloc` is what the call of `kmalloc` for the new descriptor returns. -/
def vmaMap (s : Vm) (cpu : Option ℕ) (kmalloc : Option Word) (addr size : Word) (flags : BitVec 32) : Option (Int × Vm) :=
  if size = 0 then some (-1, s)
  else
    let size := roundUp size
    if addr &&& 0xFFF ≠ 0 then some (-1, s)
    else do
      let expand ← findArea s.areas (canExpand addr flags) walkFuel s.task.vmaListHead
      match expand with
      | some curr =>
        let (phys, pmm) := pmmAllocFrames s.pmm (size.toNat / 4096)
        let s := { s with pmm }
        if phys = 0 then return (-1, s)
        else do
          let s ← backRange s cpu addr phys size flags
          return (0, s.setEnd curr ((s.areas curr).vmEnd + size))
      | none => do
        let overlap ← findArea s.areas (overlaps addr size) walkFuel s.task.vmaListHead
        if overlap.isSome then return (-2, s)
        else
          match kmalloc with
          | none => return (-3, s)
          | some new =>
            let s := s.setArea new (newArea addr (addr + size) flags)
            let (phys, pmm) := pmmAllocFrames s.pmm (size.toNat / 4096)
            let s := { s with pmm }
            if phys = 0 then return (-4, s)
            else do
              let s ← backRange s cpu addr phys size flags
              let s ← treeInsert (listInsert s new) new
              let s ← vmaInsertFixup s new
              return (0, { s with task := { s.task with vmaCount := s.task.vmaCount + 1 } })

def unmapPage (s : Vm) (cpu : Option ℕ) (vaddr : Word) : Vm :=
  let phys := vmmVirtualToPhysical s.mem s.task.cr3 vaddr
  if phys ≠ 0 then
    { s with mem := vmmUnmap s.mem s.task.cr3 vaddr, pmm := pmmFreeFrame s.pmm cpu phys }
  else s

def vmaUnmap (s : Vm) (cpu : Option ℕ) (addr size : Word) : Option (Int × Vm) :=
  if size = 0 then some (0, s)
  else do
    match ← vmaFind s addr with
    | none => return (-1, s)
    | some vma =>
      let unmapEnd := addr + size
      let s ← Word.forBelow (BitVec.ofNat 64 pageSize) unmapEnd (fun s vaddr => unmapPage s cpu vaddr) walkFuel addr s
      if addr > (s.areas vma).vmStart ∧ unmapEnd ≥ (s.areas vma).vmEnd then return (0, s.setEnd vma addr)
      else if addr ≤ (s.areas vma).vmStart ∧ unmapEnd ≥ (s.areas vma).vmEnd then do
        let s ← treeRemove (listRemove s vma) vma
        return (0, { s with task := { s.task with vmaCount := s.task.vmaCount - 1 } })
      else return (0, s)

/-- The descriptors are freed along the list, so the call ends only if the list does. -/
def vmaDestroyAll (s : Vm) (cpu : Option ℕ) : Option Vm := do
  let _ ← findArea s.areas (fun _ => false) walkFuel s.task.vmaListHead
  let task := { s.task with vmaListHead := none, vmaTreeRoot := none, vmaCount := 0 }
  if task.cr3 ≠ 0 then
    return { s with task := { task with cr3 := 0 }, pmm := vmmDestroyUserPml4 s.mem cpu true task.cr3 s.pmm }
  else return { s with task := task }

end KernelSmp.Memory
