import KernelSmp.Memory.Vmm

/-! The walk of the processor through the page tables, and the access it grants. -/

namespace KernelSmp.Memory

open Base

structure Permission where
  writable : Bool
  user : Bool
  noExec : Bool
deriving DecidableEq, Repr

def permissionAlong (es : List Word) : Permission :=
  ⟨es.all (hasFlag · pteWritable), es.all (hasFlag · pteUser), es.any (hasFlag · pteNx)⟩

def walkEntries (m : Mem) (root virt : Word) : Option (List Word) :=
  let e₁ := entry m root (pml4Idx virt)
  if !isPresent e₁ then none
  else
    let e₂ := entry m (e₁ &&& vmmAddrMask) (pdptIdx virt)
    if !isPresent e₂ then none
    else if hasFlag e₂ pteHuge then some [e₁, e₂]
    else
      let e₃ := entry m (e₂ &&& vmmAddrMask) (pdIdx virt)
      if !isPresent e₃ then none
      else if hasFlag e₃ pteHuge then some [e₁, e₂, e₃]
      else
        let e₄ := entry m (e₃ &&& vmmAddrMask) (ptIdx virt)
        if !isPresent e₄ then none else some [e₁, e₂, e₃, e₄]

def effectivePermission (m : Mem) (root virt : Word) : Option Permission :=
  (walkEntries m root virt).map permissionAlong

end KernelSmp.Memory
