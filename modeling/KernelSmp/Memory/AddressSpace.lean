import KernelSmp.Memory.Vmm

/-! Creation and destruction of user address spaces in `vmm.c`. -/

namespace KernelSmp.Memory

open Base

def kernelIndex (i : Fin 256) : Fin 512 := ⟨256 + i, by omega⟩
def userIndex (i : Fin 256) : Fin 512 := ⟨i, by omega⟩

def copyKernelHalf (m : Mem) (newPml4 kernelPml4 : Word) : Mem :=
  (List.finRange 256).foldl (fun m i => setEntry m newPml4 (kernelIndex i) (entry m kernelPml4 (kernelIndex i))) m

def vmmCreateUserPml4 (m : Mem) (p : Pmm) (cpu : Option ℕ) (kernelPml4 : Word) : Word × Mem × Pmm :=
  let (pml4, p) := pmmAllocFrame p cpu
  if pml4 = 0 then (0, m, p) else (pml4, copyKernelHalf (zeroPage m pml4) pml4 kernelPml4, p)

section destroy

variable (m : Mem) (cpu : Option ℕ) (freeFrames : Bool)

def destroyPt (pt : Word) (p : Pmm) : Pmm :=
  if freeFrames then
    (List.finRange 512).foldl (fun p l =>
      if isPresent (entry m pt l) then pmmFreeFrame p cpu (entry m pt l &&& vmmAddrMask) else p) p
  else p

def destroyPd (pd : Word) (p : Pmm) : Pmm :=
  (List.finRange 512).foldl (fun p k =>
    let e := entry m pd k
    if !isPresent e then p
    else if hasFlag e pteHuge then if freeFrames then pmmFreeFrame p cpu (e &&& vmmAddrMask) else p
    else pmmFreeFrame (destroyPt m cpu freeFrames (e &&& vmmAddrMask) p) cpu (e &&& vmmAddrMask)) p

def destroyPdpt (pdpt : Word) (p : Pmm) : Pmm :=
  (List.finRange 512).foldl (fun p j =>
    let e := entry m pdpt j
    if !isPresent e then p
    else if hasFlag e pteHuge then if freeFrames then pmmFreeFrame p cpu (e &&& vmmAddrMask) else p
    else pmmFreeFrame (destroyPd m cpu freeFrames (e &&& vmmAddrMask) p) cpu (e &&& vmmAddrMask)) p

def vmmDestroyUserPml4 (cr3 : Word) (p : Pmm) : Pmm :=
  let p := (List.finRange 256).foldl (fun p i =>
    let e := entry m cr3 (userIndex i)
    if !isPresent e then p
    else pmmFreeFrame (destroyPdpt m cpu freeFrames (e &&& vmmAddrMask) p) cpu (e &&& vmmAddrMask)) p
  pmmFreeFrame p cpu cr3

end destroy

end KernelSmp.Memory
