import KernelSmp.Base.Dispatch
import KernelSmp.Sched.PlaceMoves

/-! What a step of the machine can do. -/

namespace KernelSmp.Sched

open Base Base.LinkedQueue Base.Dispatch Function Atomic Drivers

variable {K M : Type} [DecidableEq K] [DecidableEq M]

namespace Machine

def Placed (s : Machine K M) (place : Word → Place K M) : Prop := ∃ ls, Rep s.others s.hands s.sys ls place

def current (s : Machine K M) (c : K) : Option Word := (s.sys.cpus c).currentTask
def idle (s : Machine K M) (c : K) : Word := (s.sys.cpus c).idleTask
def stateOf (s : Machine K M) (t : Word) : TaskState := (s.sys.tasks t).state

def picks (s : Machine K M) (c : K) (locked : Bool) : Option Word :=
  match s.cpuPc c with
  | .schedule .dequeue => (dequeueTask s.sys c).1
  | .schedule (.steal i) =>
    if i < 32 then (s.getCpuById (BitVec.ofNat 64 i)).bind fun other =>
      if other = c then none else (stealTaskFromCpu s.sys other locked).bind Prod.fst
    else none
  | _ => none

def enqueues (s : Machine K M) : Action K M → Option (K × Word)
  | .advance c _ _ _ =>
    match s.cpuPc c with
    | .task => (s.current c).bind fun t =>
      match s.taskPc t with
      | .enqueue target u => some (target, u)
      | _ => none
    | .wakeOn _ target t _ => some (target, t)
    | .schedule (.enqueue t) => some (c, t)
    | _ => none
  | _ => none

def Apart (s : Machine K M) : Action K M → Prop
  | .advance c _ _ _ => ∀ t, s.cpuPc c = .schedule (.switch t) → ∀ c', s.current c' = some t → c' = c
  | _ => True

def Left (s : Machine K M) : Action K M → Prop
  | .call _ .reap => ∀ c t, s.current c = some t → s.stateOf t ≠ .zombie
  | _ => True

def Fresh (s : Machine K M) : Action K M → Prop
  | .call _ (.create u _ _ _ _) => s.used u = false
  | _ => True

structure At (s : Machine K M) (c : K) (t : Word) (p : TaskPc K M) : Prop where
  cpu : s.cpuPc c = .task
  current : s.current c = some t
  pc : s.taskPc t = p

end Machine

def TaskPc.mode : TaskPc K M → Mode
  | .sleepMarked _ _ => .marked
  | .yield _ => .parked
  | .reschedule => .parked
  | .exited => .parked
  | _ => .busy

def TaskPc.ofIdle : TaskPc K M → Bool
  | .outside => true
  | .enqueue _ _ => true
  | .reaping _ => true
  | _ => false

def CpuPc.back : CpuPc K → Bool
  | .task => true
  | .keyboard => true
  | .wake w _ => w = .keyboard
  | .wakeOn w _ _ _ => w = .keyboard
  | _ => false

def CpuPc.searching : CpuPc K → Bool
  | .schedule .dequeue => true
  | .schedule (.steal _) => true
  | _ => false

namespace Machine

section effects

variable (s : Machine K M) (place : Word → Place K M) (a : Action K M)

inductive Effect : Machine K M → (Word → Place K M) → Prop
  | stay : Effect s place
  | timer (c : K) (h : interruptible s c = true) (ha : a = .timer c) : Effect (s.goto c .sleepers) place
  | typed (c : K) (kbd : Kbd) (h : interruptible s c = true) (hfree : s.kbdLocked = false) :
      Effect ({ s with kbd := kbd, kbdLocked := true }.goto c .keyboard) place
  | silent (kbd : Kbd) (h : kbd.head = s.kbd.head ∧ kbd.tail = s.kbd.tail) : Effect { s with kbd := kbd } place
  | enter (c : K) (t : Word) (p : TaskPc K M) (h : s.At c t .outside) (hidle : s.idle c ≠ t) (hlist : p.list = none)
      (hhand : p.hand = none) (hmode : p.mode ≠ .marked) : Effect (s.taskGoto t p) place
  | unlockWake (c : K) (t u : Word) (m : M) (h : s.At c t .outside) (hidle : s.idle c ≠ t) (hholds : s.holds t m = true)
      (hu : place u = .list (.inr (.wait m))) :
      Effect ({ s with
        sys := s.sys.setNext u none
        mutexes := update s.mutexes m { s.mutexes m with owner := none, waitList := (s.sys.tasks u).schedNext }
        holds := update s.holds t (update (s.holds t) m false)
        waitsFor := update s.waitsFor u none }.taskGoto t (.waking u)) (update place u (.hand (.task t)))
  | unlockFree (c : K) (t : Word) (m : M) (h : s.At c t .outside) (hidle : s.idle c ≠ t) (hholds : s.holds t m = true) :
      Effect ({ s with
        mutexes := update s.mutexes m { s.mutexes m with owner := none, count := 1 }
        holds := update s.holds t (update (s.holds t) m false) }.taskGoto t .outside) place
  | exit (c : K) (t : Word) (h : s.At c t .outside) (hidle : s.idle c ≠ t) :
      Effect (taskExit s t) (update place t (.list (.inr .dead)))
  | create (c : K) (t u : Word) (user : Bool) (stackBase cr3 rsp : Word) (h : s.At c t .outside) (hu : s.used u = false) :
      Effect (taskCreate s c t u user stackBase cr3 rsp) (update place u (.hand (.task t)))
  | reap (c : K) (t : Word) (h : s.At c t .outside) (hidle : s.idle c = t) (hleft : ∀ c t, s.current c = some t →
    s.stateOf t ≠ .zombie) :
      Effect ({ s with deadTaskList := none }.taskGoto t (.reaping s.deadTaskList))
        fun u => redirect (.inr .dead) (.inr (.toClean t)) (place u)
  | mark (c : K) (t : Word) (cpu : K) (ms : Word) (direct : Bool) (now : Word) (h : s.At c t (.sleepCall cpu ms direct)) :
      Effect ((s.onSys fun x => (x.setState t .sleeping).setSleepUntil t (now + ms)).taskGoto t (.sleepMarked cpu direct)) place
  | sleep (c : K) (t : Word) (cpu : K) (direct : Bool) (sys : Cpus K) (h : s.At c t (.sleepMarked cpu direct))
      (hkept : Kept (s.sys.setSleeping cpu (sys.cpus cpu).sleepingList) sys) :
      Effect ({ s with sys := sys }.taskGoto t (if direct then .reschedule else .yield .outside))
        (update place t (.list (.inr (.sleeping cpu))))
  | yield (c : K) (t : Word) (next : Resume M) (h : s.At c t (.yield next)) :
      Effect ((s.taskGoto t next.pc).goto c .sleepers) place
  | reschedule (c : K) (t : Word) (h : s.At c t .reschedule) :
      Effect ((s.taskGoto t .outside).goto c (.schedule .begin)) place
  | acquire (c : K) (t : Word) (m : M) (h : s.At c t (.mutexLoop m)) (hfree : 0 < (s.mutexes m).count) :
      Effect ({ s with
        mutexes := update s.mutexes m { s.mutexes m with count := 0, owner := some t }
        holds := update s.holds t (update (s.holds t) m true) }.taskGoto t .outside) place
  | wait (c : K) (t : Word) (m : M) (h : s.At c t (.mutexLoop m)) (hheld : ¬ 0 < (s.mutexes m).count) :
      Effect ({ s with
        sys := ((s.sys.setState t .blocked).setReason t .mutex).setNext t (s.mutexes m).waitList
        mutexes := update s.mutexes m { s.mutexes m with waitList := some t }
        waitsFor := update s.waitsFor t (some m) }.taskGoto t (.yield (.mutexLoop m))) (update place t (.list (.inr (.wait m))))
  | ready (c : K) (t u : Word) (k : K) (h : s.At c t (.waking u)) (hk : s.getCpuById (s.sys.tasks u).cpuId = some k) :
      Effect ((s.onSys fun x => x.setState u .ready).taskGoto t (.enqueue k u)) place
  | register (c : K) (t : Word) (k : K) (u : Word) (h : s.At c t (.enqueue k u)) :
      Effect ((s.onSys fun x => enqueueTask x k u).taskGoto t .outside)
        (update place u (.list (.inl (k, levelOf (s.sys.tasks u).basePriority))))
  | noKey (c : K) (t : Word) (h : s.At c t .kbdLoop) (hnone : s.kbd.head = s.kbd.tail) : Effect (s.taskGoto t .kbdEmpty) place
  | key (c : K) (t : Word) (kbd : Kbd) (h : s.At c t .kbdLoop) (hkey : s.kbd.head ≠ s.kbd.tail) :
      Effect ({ s with kbd := kbd }.taskGoto t .outside) place
  | block (c : K) (t : Word) (now frame : Word) (locked : Bool) (h : s.At c t .kbdEmpty)
    (ha : a = .advance c now frame locked) :
      Effect (blockCurrent s t .keyboard .kbdLoop) (update place t (.list (.inr .blocked)))
  | exited (c : K) (t : Word) (h : s.At c t .exited) : Effect (s.taskGoto t (.yield .exited)) place
  | reaped (c : K) (t : Word) (h : s.At c t (.reaping none)) : Effect (s.taskGoto t .outside) place
  | free (c : K) (t u : Word) (h : s.At c t (.reaping (some u))) : Effect (reapNext s t u) (update place u .nowhere)
  | expire (c : K) (sys : Cpus K) (list : Option Word) (place' : Word → Place K M) (h : s.cpuPc c = .sleepers)
      (hkept : Kept (s.sys.setSleeping c (sys.cpus c).sleepingList) sys)
      (now frame : Word) (locked : Bool) (ha : a = .advance c now frame locked)
      (hplace : ∀ u, place' u = place u ∨
        place u = .list (.inr (.sleeping c)) ∧ place' u = .list (.inr (.toWake c)) ∧ (s.sys.tasks u).sleepUntil ≤ now) :
      Effect ({ s with sys := sys }.goto c (.wake .sleepers list)) place'
  | wakeup (c : K) (sys : Cpus K) (blocked list : Option Word) (l : List Word) (place' : Word → Place K M)
    (h : s.cpuPc c = .keyboard)
      (hl : ∀ u, u ∈ l ↔ place u = .list (.inr .blocked)) (hkept : Kept (s.sys.readyAll l .keyboard) sys)
      (hplace : ∀ u, place' u = if u ∈ l ∧ (s.sys.tasks u).waitReason = .keyboard then .list (.inr (.toWake c)) else place u) :
      Effect ({ s with sys := sys, blockedTaskList := blocked }.goto c (.wake .keyboard list)) place'
  | wakeSleeper (c : K) (t : Word) (rest : Option Word) (h : s.cpuPc c = .wake .sleepers (some t))
      (ht : place t = .list (.inr (.toWake c))) :
      Effect ((s.onSys fun x => (x.setState t .ready).setNext t none).goto c (.wakeOn .sleepers c t rest))
        (update place t (.hand (.cpu c)))
  | wakeReader (c k : K) (t : Word) (rest : Option Word) (h : s.cpuPc c = .wake .keyboard (some t))
      (ht : place t = .list (.inr (.toWake c))) : Effect (s.goto c (.wakeOn .keyboard k t rest))
        (update place t (.hand (.cpu c)))
  | sleepersDone (c : K) (h : s.cpuPc c = .wake .sleepers none) : Effect (s.goto c (.schedule .begin)) place
  | readersDone (c : K) (h : s.cpuPc c = .wake .keyboard none) : Effect ({ s with kbdLocked := false }.goto c .task) place
  | wakeOn (c : K) (w : Waker) (k : K) (t : Word) (rest : Option Word) (h : s.cpuPc c = .wakeOn w k t rest) :
      Effect ((s.onSys fun x => enqueueTask x k t).goto c (.wake w rest))
        (update place t (.list (.inl (k, levelOf (s.sys.tasks t).basePriority))))
  | publish (c : K) (t : Word) (sys : Cpus K) (place' : Word → Place K M) (h : s.cpuPc c = .schedule .begin)
      (ht : s.current c = some t) (hrun : s.stateOf t = .running) (hpriority : (s.sys.tasks t).priority ≠ 3)
        (hkept : Kept s.sys sys)
      (hplace : ∀ u, place' u = place u ∨ place' u = boosted c (place u)) :
      Effect ({ s with sys := sys.setState t .ready }.goto c (.schedule (.enqueue t))) (update place' t (.hand (.cpu c)))
  | pass (c : K) (t : Word) (sys : Cpus K) (place' : Word → Place K M) (h : s.cpuPc c = .schedule .begin)
      (ht : s.current c = some t) (hnot : s.stateOf t = .running → (s.sys.tasks t).priority = 3) (hkept : Kept s.sys sys)
      (hplace : ∀ u, place' u = place u ∨ place' u = boosted c (place u)) :
      Effect ({ s with sys := sys }.goto c (.schedule (.affinity t))) place'
  | noTask (c : K) (sys : Cpus K) (place' : Word → Place K M) (h : s.cpuPc c = .schedule .begin) (hnone : s.current c = none)
      (hkept : Kept s.sys sys) (hplace : ∀ u, place' u = place u ∨ place' u = boosted c (place u)) :
      Effect ({ s with sys := sys }.goto c (.schedule .dequeue)) place'
  | requeue (c : K) (t : Word) (h : s.cpuPc c = .schedule (.enqueue t)) :
      Effect ((s.onSys fun x => enqueueTask x c t).goto c (.schedule (.affinity t)))
        (update place t (.list (.inl (c, levelOf (s.sys.tasks t).basePriority))))
  | affinity (c : K) (t : Word) (h : s.cpuPc c = .schedule (.affinity t)) :
      Effect ((if (s.sys.tasks t).tid ≥ 10 then s.onSys fun x => x.setCpuId t (-1) else s).goto c (.schedule .dequeue)) place
  | pick (c : K) (k : K) (p : Level) (t : Word) (sys : Cpus K) (h : (s.cpuPc c).searching = true) (hkept : Kept s.sys sys)
      (ht : place t = .list (.inl (k, p))) (now frame : Word) (locked : Bool) (ha : a = .advance c now frame locked)
      (hpick : s.picks c locked = some t) :
      Effect ({ s with sys := sys }.goto c (.schedule (.switch t))) (update place t (.hand (.next c)))
  | search (c : K) (stage : Stage) (sys : Cpus K) (h : (s.cpuPc c).searching = true) (hkept : Kept s.sys sys)
      (hstage : (∃ i, stage = .steal i) ∨ stage = .fallback) : Effect ({ s with sys := sys }.goto c (.schedule stage)) place
  | fallback (c : K) (h : s.cpuPc c = .schedule .fallback) : Effect (switchTo s c (s.idle c)) place
  | switch (c : K) (t : Word) (h : s.cpuPc c = .schedule (.switch t)) (halone : ∀ c', s.current c' = some t → c' = c) :
      Effect (switchTo s c t) (update place t .nowhere)

end effects

end Machine

end KernelSmp.Sched
