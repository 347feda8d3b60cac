import KernelSmp.Atomic.Mutex
import KernelSmp.Base.Words

/-! The tasks, the CPUs and the run queues of `sched.c`. Each function below runs under the `rq_lock` of the CPU
whose queues it edits, or with that CPU to itself. -/

namespace KernelSmp.Sched

open Base Function Atomic

structure Task where
  tid : Word
  rsp : Word
  stackBase : Word
  stackSize : Word
  state : TaskState
  waitReason : TaskReason
  cr3 : Word
  schedNext : Option Word
  priority : ℕ
  basePriority : ℕ
  cpuId : Word
  sleepUntil : Word

abbrev Level := Fin 4

def priorityQuanta : Level → BitVec 32
  | 0 => 10
  | 1 => 5
  | 2 => 2
  | 3 => 1

structure CpuContext where
  cpuId : Word
  currentTask : Option Word
  idleTask : Word
  rqHead : Level → Option Word
  rqTail : Level → Option Word
  rqCount : Level → BitVec 32
  currentQuanta : Level → BitVec 32
  nextPriorityBoost : Word
  sleepingList : Option Word

structure Cpus (K : Type) where
  tasks : Word → Task
  cpus : K → CpuContext

variable {K : Type} [DecidableEq K]

section setters

variable (s : Cpus K) (c : K) (p : Level) (t : Word)

def Cpus.onTask (f : Task → Task) : Cpus K := { s with tasks := update s.tasks t (f (s.tasks t)) }
def Cpus.onCpu (f : CpuContext → CpuContext) : Cpus K := { s with cpus := update s.cpus c (f (s.cpus c)) }

def Cpus.setNext (v : Option Word) : Cpus K := s.onTask t fun x => { x with schedNext := v }
def Cpus.setPriority (n : ℕ) : Cpus K := s.onTask t fun x => { x with priority := n }
def Cpus.setCpuId (n : Word) : Cpus K := s.onTask t fun x => { x with cpuId := n }
def Cpus.setHead (v : Option Word) : Cpus K := s.onCpu c fun x => { x with rqHead := update x.rqHead p v }
def Cpus.setTail (v : Option Word) : Cpus K := s.onCpu c fun x => { x with rqTail := update x.rqTail p v }
def Cpus.onCount (f : BitVec 32 → BitVec 32) : Cpus K :=
  s.onCpu c fun x => { x with rqCount := update x.rqCount p (f (x.rqCount p)) }
def Cpus.onQuanta (f : BitVec 32 → BitVec 32) : Cpus K :=
  s.onCpu c fun x => { x with currentQuanta := update x.currentQuanta p (f (x.currentQuanta p)) }

end setters

def levelOf (priority : ℕ) : Level := if h : priority < 4 then ⟨priority, h⟩ else 1

def Cpus.linkFrom (s : Cpus K) (c : K) (p : Level) (prev v : Option Word) : Cpus K :=
  match prev with
  | some b => s.setNext b v
  | none => s.setHead c p v

def enqueueTask (s : Cpus K) (c : K) (t : Word) : Cpus K :=
  let s := s.setPriority t (s.tasks t).basePriority
  let p := levelOf (s.tasks t).priority
  let s := (s.onQuanta c p fun _ => 0).setNext t none
  let s := s.linkFrom c p ((s.cpus c).rqTail p) (some t)
  let s := (s.setTail c p (some t)).onCount c p (· + 1)
  if (s.tasks t).cpuId = -1 then s.setCpuId t (s.cpus c).cpuId else s

def levels : List Level := [0, 1, 2]

def workBelow (cpu : CpuContext) (p : Level) : Bool := levels.any fun low => decide (p < low) && (cpu.rqHead low).isSome

def takeFirst (s : Cpus K) (c : K) (p : Level) (t : Word) : Cpus K :=
  let s := s.setHead c p (s.tasks t).schedNext
  let s := if (s.cpus c).rqHead p = none then s.setTail c p none else s
  (s.onCount c p (· - 1)).onQuanta c p (· + 1)

def dequeueLoop (c : K) : List Level → Cpus K → Option Word × Cpus K
  | [], s => (none, s)
  | p :: ps, s =>
    match (s.cpus c).rqHead p with
    | none => dequeueLoop c ps (s.onQuanta c p fun _ => 0)
    | some t =>
      if (s.cpus c).currentQuanta p ≥ priorityQuanta p then
        if workBelow (s.cpus c) p then dequeueLoop c ps (s.onQuanta c p fun _ => 0)
        else (some t, takeFirst (s.onQuanta c p fun _ => 0) c p t)
      else (some t, takeFirst s c p t)

def dequeueTask (s : Cpus K) (c : K) : Option Word × Cpus K := dequeueLoop c levels s

def walkFuel : ℕ := 2 ^ 64 + 1

/-- The walk along one level to a task with `tid >= 10`, with the task before it. It is `none` if it does not end. -/
def findMigratable (tasks : Word → Task) : ℕ → Option Word → Option Word → Option (Option (Option Word × Word))
  | 0, _, _ => none
  | _ + 1, _, none => some none
  | fuel + 1, prev, some curr =>
    if (tasks curr).tid ≥ 10 then some (some (prev, curr))
    else findMigratable tasks fuel (some curr) (tasks curr).schedNext

def takeOut (s : Cpus K) (c : K) (p : Level) (prev : Option Word) (curr : Word) : Cpus K :=
  let s := s.linkFrom c p prev (s.tasks curr).schedNext
  let s := if (s.cpus c).rqTail p = some curr then s.setTail c p prev else s
  (s.onCount c p (· - 1)).setNext curr none

def stealLoop (s : Cpus K) (c : K) : List Level → Option (Option Word × Cpus K)
  | [] => some (none, s)
  | p :: ps => do
    match ← findMigratable s.tasks walkFuel none ((s.cpus c).rqHead p) with
    | some (prev, curr) => return (some curr, takeOut s c p prev curr)
    | none => stealLoop s c ps

def stealTaskFromCpu (s : Cpus K) (other : K) (locked : Bool) : Option (Option Word × Cpus K) :=
  if locked then stealLoop s other levels else some (none, s)

def boostLevel (s : Cpus K) (c : K) (p below : Level) : Cpus K :=
  if (s.cpus c).rqHead below = none then s
  else
    let s := s.linkFrom c p ((s.cpus c).rqTail p) ((s.cpus c).rqHead below)
    let s := (s.setTail c p ((s.cpus c).rqTail below)).onCount c p (· + (s.cpus c).rqCount below)
    ((s.setHead c below none).setTail c below none).onCount c below fun _ => 0

def prioBoost (s : Cpus K) (c : K) : Cpus K := boostLevel (boostLevel s c 0 1) c 1 2

def CpuContext.init (cpu : CpuContext) : CpuContext :=
  { cpu with rqHead := fun _ => none, rqTail := fun _ => none, rqCount := fun _ => 0, currentQuanta := fun _ => 0 }

end KernelSmp.Sched
