import KernelSmp.Base.Runs
import KernelSmp.Memory.Teardown

/-! The shootdown of translations. Removing a mapping, sending the flush to the other CPUs, handling it there and giving the
frame back are steps of their own, and nothing waits until the flush has been handled: `lapic_wait_for_delivery` ends when
the messages are sent. -/

namespace KernelSmp.Smp.Shootdown

open Base Memory Function List Option

def walkPage (m : Mem) (root page : Word) : Option Word :=
  (walkEntries m root page).bind fun
    | [_, e₂] => some ((e₂ &&& vmmAddrMask &&& ~~~0x3FFFFFFF) + (page &&& 0x3FFFF000))
    | [_, _, e₃] => some ((e₃ &&& vmmAddrMask &&& ~~~0x1FFFFF) + (page &&& 0x1FF000))
    | [_, _, _, e₄] => some (e₄ &&& vmmAddrMask)
    | _ => none

structure Translation where
  page : Word
  frame : Word
deriving DecidableEq, Repr

inductive Job
  | idle
  -- the head of the loop of `vma_unmap`
  | pages (root vaddr unmapEnd : Word)
  -- in its body, `vmm_unmap` has cleared the entry of `vaddr`, and has sent the flush
  | cleared (root vaddr unmapEnd phys : Word)
  | flushed (root vaddr unmapEnd phys : Word)
  -- the frames that `vmm_destroy_user_pml4` still has to free
  | frames (rest : List Word)

/-- `inFlight` counts the flushes sent to a CPU that it has not handled, and `destroyed` lists the address spaces that
`vmm_destroy_user_pml4` has been called for. `removed` is kept for the record: the translations that the tables of a CPU have
lost since it last threw them out of its TLB. -/
structure State (Cpu : Type) where
  mem : Mem
  pmm : Pmm
  cr3 : Cpu → Word
  tlb : Cpu → List Translation
  inFlight : Cpu → ℕ
  job : Cpu → Job
  destroyed : List Word
  removed : Cpu → Set Translation

inductive Action (Cpu : Type)
  | access (c : Cpu) (virt : Word)
  | handle (c : Cpu)
  | loadCr3 (c : Cpu) (root : Word)
  | vmaUnmap (c : Cpu) (root addr size : Word)
  | destroyUserPml4 (c : Cpu) (root : Word)
  | advance (c : Cpu)
  | allocFrame (c : Cpu)
  | allocFrames (c : Cpu) (count : ℕ)

variable {Cpu : Type} [DecidableEq Cpu]

namespace State

def start (mem : Mem) (pmm : Pmm) (cr3 : Cpu → Word) : State Cpu :=
  ⟨mem, pmm, cr3, fun _ => [], fun _ => 0, fun _ => .idle, [], fun _ => ∅⟩

def goto (s : State Cpu) (c : Cpu) (job : Job) : State Cpu := { s with job := update s.job c job }

def syncTlb (s : State Cpu) (c : Cpu) : State Cpu :=
  { s with inFlight := fun d => if d = c then s.inFlight d else s.inFlight d + 1 }

def flush (s : State Cpu) (c : Cpu) : State Cpu :=
  { s with tlb := update s.tlb c [], removed := update s.removed c ∅ }

def invlpg (s : State Cpu) (c : Cpu) (virt : Word) : State Cpu :=
  { s with
    tlb := update s.tlb c ((s.tlb c).filter (pageAlignDown ·.page ≠ pageAlignDown virt))
    removed := update s.removed c { x ∈ s.removed c | pageAlignDown x.page ≠ pageAlignDown virt } }

def Mapped (s : State Cpu) (c : Cpu) (x : Translation) : Prop := walkPage s.mem (s.cr3 c) x.page = some x.frame

def setMem (s : State Cpu) (mem : Mem) : State Cpu :=
  { s with
    mem := mem
    removed := fun d => s.removed d ∪ { x | s.Mapped d x ∧ walkPage mem (s.cr3 d) x.page ≠ some x.frame } }

end State

open State

def clearEntry (s : State Cpu) (c : Cpu) (root virt : Word) : State Cpu :=
  let e₁ := entry s.mem root (pml4Idx virt)
  let e₂ := entry s.mem (e₁ &&& vmmAddrMask) (pdptIdx virt)
  let e₃ := entry s.mem (e₂ &&& vmmAddrMask) (pdIdx virt)
  if isPresent e₁ ∧ isPresent e₂ ∧ isPresent e₃ then (s.setMem (vmmUnmap s.mem root virt)).invlpg c virt else s

variable (cpuId : Cpu → Option ℕ)

def advance (s : State Cpu) (c : Cpu) : Option (State Cpu) :=
  match s.job c with
  | .idle => none
  | .pages root vaddr unmapEnd =>
    if vaddr < unmapEnd then
      let phys := vmmVirtualToPhysical s.mem root vaddr
      if phys = 0 then some (s.goto c (.pages root (vaddr + BitVec.ofNat 64 pageSize) unmapEnd))
      else some ((clearEntry s c root vaddr).goto c (.cleared root vaddr unmapEnd phys))
    else some ((s.syncTlb c).goto c .idle)
  | .cleared root vaddr unmapEnd phys => some ((s.syncTlb c).goto c (.flushed root vaddr unmapEnd phys))
  | .flushed root vaddr unmapEnd phys =>
    some ({ s with pmm := pmmFreeFrame s.pmm (cpuId c) phys }.goto c (.pages root (vaddr + BitVec.ofNat 64 pageSize) unmapEnd))
  | .frames (frame :: rest) => some ({ s with pmm := pmmFreeFrame s.pmm (cpuId c) frame }.goto c (.frames rest))
  | .frames [] => some ((s.syncTlb c).goto c .idle)

def step (s : State Cpu) : Action Cpu → Option (State Cpu)
  | .access c virt =>
    match walkPage s.mem (s.cr3 c) (pageAlignDown virt) with
    | some frame => some { s with tlb := update s.tlb c (⟨pageAlignDown virt, frame⟩ :: s.tlb c) }
    | none => none
  | .handle c =>
    if s.inFlight c = 0 then none else some ({ s with inFlight := update s.inFlight c (s.inFlight c - 1) }.flush c)
  | .loadCr3 c root => some ({ s with cr3 := update s.cr3 c root }.flush c)
  | .vmaUnmap c root addr size =>
    match s.job c with
    -- the descriptors of areas that `vma_unmap` changes at its end are no page tables
    | .idle => if size = 0 then some s else some (s.goto c (.pages root addr (addr + size)))
    | _ => none
  | .destroyUserPml4 c root =>
    match s.job c with
    | .idle => some ({ s with destroyed := root :: s.destroyed }.goto c (.frames (destroyFrees s.mem root)))
    | _ => none
  | .advance c => advance cpuId s c
  | .allocFrame c => some { s with pmm := (pmmAllocFrame s.pmm (cpuId c)).2 }
  | .allocFrames _ count => some { s with pmm := (pmmAllocFrames s.pmm count).2 }

def handedOut (s : State Cpu) : Action Cpu → List Word
  | .allocFrame c =>
    let frame := (pmmAllocFrame s.pmm (cpuId c)).1
    if frame = 0 then [] else [frame]
  | .allocFrames _ count =>
    let frame := (pmmAllocFrames s.pmm count).1
    if frame = 0 then [] else (List.range count).map fun i => frame + BitVec.ofNat 64 (i * pageSize)
  | _ => []

def Safe (s : State Cpu) (a : Action Cpu) : Prop :=
  ∀ frame ∈ handedOut cpuId s a, ∀ c, ∀ x ∈ s.tlb c, x.frame = frame → s.Mapped c x ∧ s.cr3 c ∉ s.destroyed

/-- Every CPU whose tables have lost a mapping of the frame has flushed since, and none runs in a destroyed address space
that maps it. -/
def Acknowledged (s : State Cpu) (a : Action Cpu) : Prop :=
  ∀ frame ∈ handedOut cpuId s a, ∀ c, (∀ x ∈ s.removed c, x.frame ≠ frame) ∧
    (s.cr3 c ∈ s.destroyed → ∀ page, walkPage s.mem (s.cr3 c) page ≠ some frame)

variable {s t : State Cpu} {c : Cpu} {a : Action Cpu}

def Covered (s : State Cpu) : Prop := ∀ c, ∀ x ∈ s.tlb c, s.Mapped c x ∨ x ∈ s.removed c

lemma Covered.flush (h : Covered s) (c : Cpu) : Covered (s.flush c) := by
  intro d x hx
  rcases eq_or_ne d c with rfl | hd
  · simp [State.flush] at hx
  · simp only [State.flush, update_of_ne hd] at hx ⊢
    exact h d x hx

lemma Covered.invlpg (h : Covered s) (c : Cpu) (virt : Word) : Covered (s.invlpg c virt) := by
  intro d x hx
  rcases eq_or_ne d c with rfl | hd
  · simp only [State.invlpg, update_self, mem_filter, decide_eq_true_eq] at hx ⊢
    exact (h d x hx.1).imp_right fun hremoved => ⟨hremoved, hx.2⟩
  · simp only [State.invlpg, update_of_ne hd] at hx ⊢
    exact h d x hx

omit [DecidableEq Cpu] in
lemma Covered.setMem (h : Covered s) (mem : Mem) : Covered (s.setMem mem) := by
  intro d x hx
  by_cases hkept : walkPage mem (s.cr3 d) x.page = some x.frame
  · exact .inl hkept
  · right
    rcases h d x hx with hmapped | hremoved
    · exact .inr ⟨hmapped, hkept⟩
    · exact .inl hremoved

lemma Covered.clearEntry (h : Covered s) (c : Cpu) (root virt : Word) : Covered (clearEntry s c root virt) := by
  rw [Shootdown.clearEntry]
  split
  · exact (h.setMem _).invlpg c virt
  · exact h

lemma Covered.advance (h : Covered s) (hstep : advance cpuId s c = some t) : Covered t := by
  rw [Shootdown.advance] at hstep
  split at hstep
  · cases hstep
  · split at hstep
    · dsimp only at hstep
      split at hstep
      · exact Option.some.inj hstep ▸ h
      · exact Option.some.inj hstep ▸ h.clearEntry c _ _
    · exact Option.some.inj hstep ▸ h
  all_goals exact Option.some.inj hstep ▸ h

lemma Covered.step (h : Covered s) (hstep : step cpuId s a = some t) : Covered t := by
  cases a with
  | access c =>
    simp only [Shootdown.step] at hstep
    split at hstep
    next frame hwalk =>
      cases hstep
      intro d x hx
      rcases eq_or_ne d c with rfl | hd
      · simp only [update_self, mem_cons] at hx
        rcases hx with rfl | hx
        · exact .inl hwalk
        · exact h d x hx
      · simp only [update_of_ne hd] at hx
        exact h d x hx
    next => cases hstep
  | handle c =>
    simp only [Shootdown.step] at hstep
    split at hstep
    · cases hstep
    · cases hstep
      exact Covered.flush h c
  | loadCr3 c =>
    cases hstep
    intro d x hx
    rcases eq_or_ne d c with rfl | hd
    · simp [State.flush] at hx
    · simp only [State.flush, State.Mapped, update_of_ne hd] at hx ⊢
      exact h d x hx
  | vmaUnmap =>
    simp only [Shootdown.step] at hstep
    split at hstep
    · split at hstep
      · exact Option.some.inj hstep ▸ h
      · exact Option.some.inj hstep ▸ h
    · cases hstep
  | destroyUserPml4 =>
    simp only [Shootdown.step] at hstep
    split at hstep
    · exact Option.some.inj hstep ▸ h
    · cases hstep
  | advance => exact h.advance cpuId hstep
  | allocFrame => exact Option.some.inj hstep ▸ h
  | allocFrames => exact Option.some.inj hstep ▸ h

omit [DecidableEq Cpu] in
lemma Covered.safe (h : Covered s) (hack : Acknowledged cpuId s a) : Safe cpuId s a := by
  intro frame hframe c x hx hxf
  obtain ⟨hremoved, hdestroyed⟩ := hack frame hframe c
  have hmapped := (h c x hx).resolve_right fun hx => hremoved x hx hxf
  refine ⟨hmapped, fun hdead => hdestroyed hdead x.page ?_⟩
  rwa [← hxf]

section entries

local instance neZeroEntries : NeZero 512 := ⟨by decide⟩

def onePage : Mem :=
  let m := setEntry (fun _ => 0) 0x101000 0 (0x102000 ||| 7)
  let m := setEntry m 0x102000 0 (0x103000 ||| 7)
  let m := setEntry m 0x103000 2 (0x104000 ||| 7)
  setEntry m 0x104000 0 (0x105000 ||| 7)

end entries

def noFrames : Pmm := ⟨0x100000, fun _ => 0xFF, 64, fun _ => 0⟩

def twoCpus : State Bool := start onePage noFrames fun c => if c then 0x101000 else 0x200000

def idOf (c : Bool) : Option ℕ := some c.toNat

def unmapPage : List (Action Bool) :=
  [.access true 0x400000, .vmaUnmap false 0x101000 0x400000 0x1000, .advance false, .advance false, .advance false]

def destroySpace : List (Action Bool) := [.access true 0x400000, .destroyUserPml4 false 0x101000, .advance false]

end KernelSmp.Smp.Shootdown
