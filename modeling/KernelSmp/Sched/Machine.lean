import KernelSmp.Drivers.Ps2Kbd
import KernelSmp.Sched.RunQueue

/-! The scheduler of `sched.c` with the mutexes of `atomic.c`, the sleepers, the readers of the keyboard and the reaper,
on any number of CPUs. A section under a spinlock is one step, and so is what a CPU does from one such section to the
next. `g_lock_enabled` is set. -/

namespace KernelSmp.Sched

open Base Function Atomic Drivers

structure MutexT where
  count : Int
  waitList : Option Word
  owner : Option Word

/-- Who puts a list of tasks back on run queues: `sched_update_sleepers` or, in the keyboard handler, `sched_wakeup`. -/
inductive Waker
  | sleepers
  | keyboard
  deriving DecidableEq, Repr

inductive Stage
  | begin
  | enqueue (current : Word)
  | affinity (current : Word)
  | dequeue
  | steal (i : ℕ)
  | fallback
  | switch (next : Word)
  deriving DecidableEq, Repr

/-- What a CPU is doing: it runs its current task, or it is in an interrupt handler. At `sleepers` interrupt 32 has begun,
at `keyboard` a character has been pushed and `sched_wakeup` is about to look for readers. -/
inductive CpuPc (K : Type)
  | task
  | sleepers
  | keyboard
  | wake (w : Waker) (list : Option Word)
  | wakeOn (w : Waker) (target : K) (t : Word) (rest : Option Word)
  | schedule (stage : Stage)
  deriving DecidableEq, Repr

inductive Resume (M : Type)
  | outside
  | mutexLoop (m : M)
  | kbdLoop
  | exited
  deriving DecidableEq, Repr

/-- Where a task is in the kernel. `sleepCall` and `sleepMarked` are the places in `sched_make_task_sleep` before and
after `state = TASK_SLEEPING`; `direct` tells `sys_sleep_handler`, which calls `schedule` itself, from `msleep`. At `waking`
`mutex_unlock` has left its section with `task_to_wake`, and `enqueue` is the call of `enqueue_task` from there or from
`task_register`. -/
inductive TaskPc (K M : Type)
  | outside
  | sleepCall (cpu : K) (ms : Word) (direct : Bool)
  | sleepMarked (cpu : K) (direct : Bool)
  | yield (next : Resume M)
  | reschedule
  | mutexLoop (m : M)
  | waking (t : Word)
  | enqueue (target : K) (t : Word)
  | kbdLoop
  | kbdEmpty
  | exited
  | reaping (toClean : Option Word)
  deriving DecidableEq, Repr

def Resume.pc {K M : Type} : Resume M → TaskPc K M
  | .outside => .outside
  | .mutexLoop m => .mutexLoop m
  | .kbdLoop => .kbdLoop
  | .exited => .exited

/-- Beside the variables of the kernel: `holds` for the tasks between `mutex_lock` and `mutex_unlock`, `waitsFor` for
those that have blocked on a mutex and have not been taken from its list, and `used` for the task structures that are
allocated. -/
structure Machine (K M : Type) where
  sys : Cpus K
  cpuTable : Fin 32 → Option K
  blockedTaskList : Option Word
  deadTaskList : Option Word
  mutexes : M → MutexT
  kbd : Kbd
  kbdLocked : Bool
  nextTid : Word
  isUser : Word → Bool
  cpuPc : K → CpuPc K
  taskPc : Word → TaskPc K M
  holds : Word → M → Bool
  waitsFor : Word → Option M
  used : Word → Bool

section setters

variable {K : Type} [DecidableEq K]

def Cpus.setState (s : Cpus K) (t : Word) (x : TaskState) : Cpus K := s.onTask t fun y => { y with state := x }
def Cpus.setReason (s : Cpus K) (t : Word) (x : TaskReason) : Cpus K := s.onTask t fun y => { y with waitReason := x }
def Cpus.setSleepUntil (s : Cpus K) (t x : Word) : Cpus K := s.onTask t fun y => { y with sleepUntil := x }
def Cpus.setRsp (s : Cpus K) (t x : Word) : Cpus K := s.onTask t fun y => { y with rsp := x }
def Cpus.setCurrent (s : Cpus K) (c : K) (t : Word) : Cpus K := s.onCpu c fun y => { y with currentTask := some t }
def Cpus.setSleeping (s : Cpus K) (c : K) (v : Option Word) : Cpus K := s.onCpu c fun y => { y with sleepingList := v }
def Cpus.setNextBoost (s : Cpus K) (c : K) (x : Word) : Cpus K := s.onCpu c fun y => { y with nextPriorityBoost := x }

end setters

section loops

variable {K : Type} [DecidableEq K]

def findSlot (tasks : Word → Task) («until» : Word) : ℕ → Option Word → Option Word → Option (Option Word × Option Word)
  | 0, _, _ => none
  | _ + 1, prev, none => some (prev, none)
  | fuel + 1, prev, some t =>
    if (tasks t).sleepUntil < «until» then findSlot tasks «until» fuel (some t) (tasks t).schedNext else some (prev, some t)

def Cpus.linkSleeper (s : Cpus K) (c : K) (prev v : Option Word) : Cpus K :=
  match prev with
  | some b => s.setNext b v
  | none => s.setSleeping c v

def takeExpired (now : Word) (c : K) : ℕ → Cpus K → Option Word → Option (Cpus K × Option Word)
  | 0, _, _ => none
  | fuel + 1, s, ready =>
    match (s.cpus c).sleepingList with
    | none => some (s, ready)
    | some t =>
      if now ≥ (s.tasks t).sleepUntil then
        takeExpired now c fuel ((s.setSleeping c (s.tasks t).schedNext).setNext t ready) (some t)
      else some (s, ready)

def wakeLoop (reason : TaskReason) : ℕ → Cpus K → Option Word → Option Word → Option Word → Option Word →
    Option (Cpus K × Option Word × Option Word)
  | 0, _, _, _, _, _ => none
  | _ + 1, s, blocked, _, none, toWake => some (s, blocked, toWake)
  | fuel + 1, s, blocked, prev, some t, toWake =>
    let next := (s.tasks t).schedNext
    if (s.tasks t).waitReason = reason then
      match prev with
      | some b => wakeLoop reason fuel (((s.setNext b next).setNext t toWake).setState t .ready) blocked prev next (some t)
      | none => wakeLoop reason fuel ((s.setNext t toWake).setState t .ready) next prev next (some t)
    else wakeLoop reason fuel s blocked (some t) next toWake

end loops

namespace Machine

variable {K M : Type} [DecidableEq K] [DecidableEq M]

def goto (s : Machine K M) (c : K) (p : CpuPc K) : Machine K M := { s with cpuPc := update s.cpuPc c p }
def taskGoto (s : Machine K M) (t : Word) (p : TaskPc K M) : Machine K M := { s with taskPc := update s.taskPc t p }
def onSys (s : Machine K M) (f : Cpus K → Cpus K) : Machine K M := { s with sys := f s.sys }

def getCpuById (s : Machine K M) (id : Word) : Option K :=
  if h : id.toNat < 32 then s.cpuTable ⟨id.toNat, h⟩ else none

section schedule

/-- The first part of `schedule`: the boost, which takes no lock, and the decision about the current task. -/
def schedBegin (s : Machine K M) (c : K) (now frame : Word) : Machine K M :=
  let cpu := s.sys.cpus c
  let sys := if now ≥ cpu.nextPriorityBoost then (prioBoost s.sys c).setNextBoost c (now + 100) else s.sys
  match cpu.currentTask with
  | none => { s with sys := sys }.goto c (.schedule .dequeue)
  | some t =>
    let sys := sys.setRsp t frame
    if (sys.tasks t).state = .running ∧ (sys.tasks t).priority ≠ 3 then
      { s with sys := sys.setState t .ready }.goto c (.schedule (.enqueue t))
    else { s with sys := sys }.goto c (.schedule (.affinity t))

def switchTo (s : Machine K M) (c : K) (next : Word) : Machine K M :=
  let sys := (s.sys.setState next .running).setCpuId next (s.sys.cpus c).cpuId
  { s with sys := sys.setCurrent c next }.goto c .task

def stealFrom (s : Machine K M) (c : K) (i : ℕ) (locked : Bool) : Option (Machine K M) :=
  match s.getCpuById (BitVec.ofNat 64 i) with
  | none => some (s.goto c (.schedule (.steal (i + 1))))
  | some other =>
    if other = c then some (s.goto c (.schedule (.steal (i + 1))))
    else (stealTaskFromCpu s.sys other locked).map fun r =>
      { s with sys := r.2 }.goto c (.schedule (r.1.elim (.steal (i + 1)) .switch))

def schedule (s : Machine K M) (c : K) (now frame : Word) (locked : Bool) : Stage → Option (Machine K M)
  | .begin => some (schedBegin s c now frame)
  | .enqueue t => some ((s.onSys fun x => enqueueTask x c t).goto c (.schedule (.affinity t)))
  | .affinity t =>
    some ((if (s.sys.tasks t).tid ≥ 10 then s.onSys fun x => x.setCpuId t (-1) else s).goto c (.schedule .dequeue))
  | .dequeue =>
    let r := dequeueTask s.sys c
    some ({ s with sys := r.2 }.goto c (.schedule (r.1.elim (.steal 0) .switch)))
  | .steal i => if i < 32 then stealFrom s c i locked else some (s.goto c (.schedule .fallback))
  | .fallback => some (switchTo s c (s.sys.cpus c).idleTask)
  | .switch next => some (switchTo s c next)

end schedule

section interrupts

def wakeNext (s : Machine K M) (c : K) : Waker → Option Word → Machine K M
  | .sleepers, none => s.goto c (.schedule .begin)
  | .keyboard, none => { s with kbdLocked := false }.goto c .task
  | .sleepers, some t =>
    let rest := (s.sys.tasks t).schedNext
    (s.onSys fun x => (x.setState t .ready).setNext t none).goto c (.wakeOn .sleepers c t rest)
  | .keyboard, some t =>
    let rest := (s.sys.tasks t).schedNext
    s.goto c (.wakeOn .keyboard ((s.getCpuById (s.sys.tasks t).cpuId).getD c) t rest)

def updateSleepers (s : Machine K M) (c : K) (now : Word) : Option (Machine K M) :=
  (takeExpired now c walkFuel s.sys none).map fun r => { s with sys := r.1 }.goto c (.wake .sleepers r.2)

def schedWakeup (s : Machine K M) (c : K) (reason : TaskReason) : Option (Machine K M) :=
  (wakeLoop reason walkFuel s.sys s.blockedTaskList none s.blockedTaskList none).map fun r =>
    { s with sys := r.1, blockedTaskList := r.2.1 }.goto c (.wake .keyboard r.2.2)

def keyboardInterrupt (s : Machine K M) (c : K) (scancode : Byte) : Machine K M :=
  let r := decode s.kbd scancode
  if r.2 ≠ 0 then { s with kbd := kbdPushChar r.1 r.2, kbdLocked := true }.goto c .keyboard else { s with kbd := r.1 }

end interrupts

section tasks

def mutexLockSection (s : Machine K M) (t : Word) (m : M) : Machine K M :=
  if 0 < (s.mutexes m).count then
    { s with mutexes := update s.mutexes m { s.mutexes m with count := 0, owner := some t }
             holds := update s.holds t (update (s.holds t) m true) }.taskGoto t .outside
  else
    let sys := ((s.sys.setState t .blocked).setReason t .mutex).setNext t (s.mutexes m).waitList
    { s with sys := sys, mutexes := update s.mutexes m { s.mutexes m with waitList := some t }
             waitsFor := update s.waitsFor t (some m) }.taskGoto t (.yield (.mutexLoop m))

def mutexUnlockSection (s : Machine K M) (t : Word) (m : M) : Machine K M :=
  let s := { s with holds := update s.holds t (update (s.holds t) m false) }
  match (s.mutexes m).waitList with
  | some u =>
    let mutex := { s.mutexes m with owner := none, waitList := (s.sys.tasks u).schedNext }
    { s with sys := s.sys.setNext u none, mutexes := update s.mutexes m mutex
             waitsFor := update s.waitsFor u none }.taskGoto t (.waking u)
  | none => { s with mutexes := update s.mutexes m { s.mutexes m with owner := none, count := 1 } }.taskGoto t .outside

/-- The end of `mutex_unlock` up to the call of `enqueue_task`, which faults on a CPU that is not registered. -/
def mutexUnlockWake (s : Machine K M) (t u : Word) : Option (Machine K M) :=
  (s.getCpuById (s.sys.tasks u).cpuId).map fun k => (s.onSys fun x => x.setState u .ready).taskGoto t (.enqueue k u)

def makeTaskSleep (s : Machine K M) (t : Word) (cpu : K) (direct : Bool) : Option (Machine K M) :=
  (findSlot s.sys.tasks (s.sys.tasks t).sleepUntil walkFuel none (s.sys.cpus cpu).sleepingList).map fun r =>
    (s.onSys fun x => (x.setNext t r.2).linkSleeper cpu r.1 (some t)).taskGoto t
    (if direct then .reschedule else .yield .outside)

def blockCurrent (s : Machine K M) (t : Word) (reason : TaskReason) (next : Resume M) : Machine K M :=
  let sys := ((s.sys.setState t .blocked).setReason t reason).setNext t s.blockedTaskList
  { s with sys := sys, blockedTaskList := some t }.taskGoto t (.yield next)

def taskExit (s : Machine K M) (t : Word) : Machine K M :=
  let sys := ((s.sys.setState t .zombie).setCpuId t (-1)).setNext t s.deadTaskList
  { s with sys := sys, deadTaskList := some t }.taskGoto t (.yield .exited)

def schedReap (s : Machine K M) (t : Word) : Machine K M :=
  if s.deadTaskList = none then s else { s with deadTaskList := none }.taskGoto t (.reaping s.deadTaskList)

def reapNext (s : Machine K M) (t u : Word) : Machine K M :=
  { s with used := update s.used u false }.taskGoto t (.reaping (s.sys.tasks u).schedNext)

def newTask (tid : Word) (user : Bool) (stackBase cr3 rsp : Word) : Task where
  tid := tid
  rsp := rsp
  stackBase := stackBase
  stackSize := 0x4000
  state := .ready
  waitReason := .keyboard
  cr3 := cr3
  schedNext := none
  priority := if user then 1 else 0
  basePriority := if user then 1 else 0
  cpuId := -1
  sleepUntil := 0

/-- A new task in the structure at `u`, up to the call of `enqueue_task` in `task_register`. -/
def taskCreate (s : Machine K M) (c : K) (t u : Word) (user : Bool) (stackBase cr3 rsp : Word) : Machine K M :=
  let sys := { s.sys with tasks := update s.sys.tasks u (newTask s.nextTid user stackBase cr3 rsp) }
  { s with sys := sys, nextTid := s.nextTid + 1, isUser := update s.isUser u user, taskPc := update s.taskPc u .outside
           holds := update s.holds u fun _ => false, used := update s.used u true }.taskGoto t (.enqueue c u)

def taskStep (s : Machine K M) (c : K) (now : Word) (t : Word) : Option (Machine K M) :=
  match s.taskPc t with
  | .outside => none
  | .sleepCall cpu ms direct =>
    some ((s.onSys fun x => (x.setState t .sleeping).setSleepUntil t (now + ms)).taskGoto t (.sleepMarked cpu direct))
  | .sleepMarked cpu direct => makeTaskSleep s t cpu direct
  | .yield next => some ((s.taskGoto t next.pc).goto c .sleepers)
  | .reschedule => some ((s.taskGoto t .outside).goto c (.schedule .begin))
  | .mutexLoop m => some (mutexLockSection s t m)
  | .waking u => mutexUnlockWake s t u
  | .enqueue target u => some ((s.onSys fun x => enqueueTask x target u).taskGoto t .outside)
  | .kbdLoop =>
    if s.kbdLocked then none
    else some (match kbdPopChar s.kbd with
      | none => s.taskGoto t .kbdEmpty
      | some r => { s with kbd := r.2 }.taskGoto t .outside)
  | .kbdEmpty => some (blockCurrent s t .keyboard .kbdLoop)
  | .exited => some (s.taskGoto t (.yield .exited))
  | .reaping none => some (s.taskGoto t .outside)
  | .reaping (some u) => some (reapNext s t u)

end tasks

inductive Call (M : Type)
  | mutexLock (m : M)
  | mutexUnlock (m : M)
  | sleep (ms : Word) (direct : Bool)
  | yield
  | readKbd
  | exit
  | create (u : Word) (user : Bool) (stackBase cr3 rsp : Word)
  | reap

/-- The call of a task that is not in the kernel. The idle tasks create tasks while a CPU starts, and the one of CPU 0
is the reaper; the other calls are for the other tasks. -/
def call (s : Machine K M) (c : K) (t : Word) : Call M → Option (Machine K M)
  | .create u user stackBase cr3 rsp => some (taskCreate s c t u user stackBase cr3 rsp)
  | .reap => if (s.sys.cpus c).idleTask = t ∧ (s.sys.cpus c).cpuId = 0 then some (schedReap s t) else none
  | .mutexLock m => if (s.sys.cpus c).idleTask = t then none else some (s.taskGoto t (.mutexLoop m))
  | .mutexUnlock m =>
    if (s.sys.cpus c).idleTask = t ∨ s.holds t m = false then none else some (mutexUnlockSection s t m)
  | .sleep ms direct =>
    if (s.sys.cpus c).idleTask = t then none
    else some (s.taskGoto t (if direct ∧ ms = 0 then .reschedule else .sleepCall c ms direct))
  | .yield => if (s.sys.cpus c).idleTask = t then none else some (s.taskGoto t (.yield .outside))
  | .readKbd => if (s.sys.cpus c).idleTask = t then none else some (s.taskGoto t .kbdLoop)
  | .exit => if (s.sys.cpus c).idleTask = t then none else some (taskExit s t)

/-- Interrupts are enabled in user mode and in the tasks of the kernel; a system call runs with them masked. -/
def interruptible (s : Machine K M) (c : K) : Bool :=
  s.cpuPc c = .task && (s.sys.cpus c).currentTask.any fun t => s.taskPc t = .outside || !s.isUser t

/-- What happens next on a CPU. An `advance` brings the time, the frame of the interrupt and the answer of `spin_trylock`
with it. -/
inductive Action (K M : Type)
  | timer (c : K)
  | keyboard (c : K) (scancode : Byte)
  | call (c : K) (what : Call M)
  | advance (c : K) (now frame : Word) (locked : Bool)

def step (s : Machine K M) : Action K M → Option (Machine K M)
  | .timer c => if interruptible s c then some (s.goto c .sleepers) else none
  | .keyboard c scancode => if interruptible s c ∧ s.kbdLocked = false then some (keyboardInterrupt s c scancode) else none
  | .call c what =>
    match (s.sys.cpus c).currentTask with
    | some t => if s.cpuPc c = .task ∧ s.taskPc t = .outside then call s c t what else none
    | none => none
  | .advance c now frame locked =>
    match s.cpuPc c with
    | .task => (s.sys.cpus c).currentTask.bind fun t => taskStep s c now t
    | .sleepers => updateSleepers s c now
    | .keyboard => schedWakeup s c .keyboard
    | .wake w list => some (wakeNext s c w list)
    | .wakeOn w target t rest => some ((s.onSys fun x => enqueueTask x target t).goto c (.wake w rest))
    | .schedule stage => schedule s c now frame locked stage

end Machine

end KernelSmp.Sched
