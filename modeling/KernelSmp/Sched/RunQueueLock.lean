import KernelSmp.Base.Runs

/-! The locks of the run queues and the interrupt flag: which code of the kernel takes an `rq_lock`, and with which flag.
A task is its stack of activations, and the branches that depend on the data of the scheduler are left to the action. -/

namespace KernelSmp.Sched.RunQueueLock

set_option linter.unusedSectionVars false

open Base.Runs Function List Option

/-- What kernel code does with the flag and the locks. At `inside q` the lock of the CPU `q` is held: it is the rest of
`enqueue_task`, `dequeue_task` or `steal_task_from_cpu`. `enqueueHere` is `enqueue_task(get_cpu(), t)`. -/
inductive Op (K : Type)
  | irqSave
  | irqRestore
  | enqueueTask (q : K)
  | dequeueTask (q : K)
  | stealTask (q : K)
  | inside (q : K)
  | enqueueHere
  | publish (q : K)
  | wakeSleepers (q : K)
  | wakeBlocked
  | mutexPass
  | yield
  | switch
  deriving DecidableEq, Repr

inductive Kind
  | task
  | syscall
  | interrupt
  deriving DecidableEq, Repr

/-- An activation: the code that is left, the flags that `spin_irq_save` has returned in it, and the flag that `iretq`
brings back at its end. -/
structure Frame (K : Type) where
  kind : Kind
  code : List (Op K)
  saved : List Bool
  rflags : Bool
  deriving DecidableEq, Repr

/-- A task without activations is in user mode. `rflags` is the flag in the frame to which the `rsp` of a task points that does
not run. -/
structure State (K T : Type) where
  cpuTable : List K
  flag : K → Bool
  running : K → T
  stack : T → List (Frame K)
  rflags : T → Bool
  rqLock : K → Option T

section code

variable {K : Type} [DecidableEq K]

def schedUpdateSleepers (c : K) : List (Op K) := [.irqSave, .wakeSleepers c, .irqRestore]

def schedule (cpuTable : List K) (c : K) : List (Op K) :=
  [.irqSave, .publish c, .dequeueTask c] ++ (cpuTable.filter (· ≠ c)).map .stealTask ++ [.irqRestore, .switch]

def timerHandler (cpuTable : List K) (c : K) : List (Op K) := schedUpdateSleepers c ++ schedule cpuTable c

def schedWakeup : List (Op K) := [.irqSave, .irqRestore, .wakeBlocked]

def keyboardHandler (typed : Bool) : List (Op K) := [.irqSave] ++ (if typed then schedWakeup else []) ++ [.irqRestore]

/-- The calls of which the code of tasks and system calls is made. `spinSection` is a section under any other spinlock between
`spin_irq_save` and `spin_irq_restore`, and `woken` is the CPU of the task that `mutex_unlock` wakes. -/
inductive Call (K : Type)
  | spinSection
  | mutexLock
  | mutexUnlock (woken : Option K)
  | yield
  | taskRegister
  | schedule
  deriving DecidableEq, Repr

def Call.code (cpuTable : List K) (c : K) : Call K → List (Op K)
  | .spinSection => [.irqSave, .irqRestore]
  | .mutexLock => [.mutexPass]
  | .mutexUnlock woken => [.irqSave, .irqRestore] ++ woken.toList.map .enqueueTask
  | .yield => [.yield]
  | .taskRegister => [.irqSave, .irqRestore, .enqueueHere]
  | .schedule => RunQueueLock.schedule cpuTable c

def Call.enqueues : Call K → Bool
  | .mutexUnlock woken => woken.isSome
  | .taskRegister => true
  | _ => false

end code

section steps

variable {K T : Type} [DecidableEq K] [DecidableEq T]

/-- What the data decide: whether a loop or a branch is taken, for which CPU, and which task `schedule` has chosen. -/
structure Choice (K T : Type) where
  again : Bool
  target : K
  next : T

inductive Action (K T : Type)
  | timer (c : K)
  | keyboard (c : K) (typed : Bool)
  | shootdown (c : K)
  | syscall (c : K)
  | iret (c : K)
  | sti (c : K)
  | call (c : K) (what : Call K)
  | exec (c : K) (x : Choice K T)

def State.put (s : State K T) (c : K) (flag : Bool) (stack : List (Frame K)) : State K T :=
  { s with flag := update s.flag c flag, stack := update s.stack (s.running c) stack }

def State.goOn (s : State K T) (c : K) (f : Frame K) (rest : List (Frame K)) (code : List (Op K)) : State K T :=
  s.put c (s.flag c) ({ f with code := code } :: rest)

def State.enter (s : State K T) (c : K) (kind : Kind) (code : List (Op K)) (stack : List (Frame K)) : State K T :=
  s.put c false (⟨kind, code, [], s.flag c⟩ :: stack)

def State.spinLock (s : State K T) (c q : K) (f : Frame K) (rest : List (Frame K)) (code : List (Op K)) : State K T :=
  if s.rqLock q = none then
    { s.goOn c f rest (.inside q :: code) with rqLock := update s.rqLock q (some (s.running c)) }
  else s

def State.switchTo (s : State K T) (c : K) (f : Frame K) (rest : List (Frame K)) (next : T) : State K T :=
  let rflags := update s.rflags (s.running c) f.rflags
  { s with
    running := update s.running c next
    stack := update s.stack (s.running c) rest
    rflags := rflags
    flag := update s.flag c (rflags next) }

def exec (s : State K T) (c : K) (x : Choice K T) (f : Frame K) (rest : List (Frame K)) (code : List (Op K)) :
    Op K → Option (State K T)
  | .irqSave => some (s.put c false ({ f with code := code, saved := s.flag c :: f.saved } :: rest))
  | .irqRestore => f.saved.head?.map fun flag => s.put c flag ({ f with code := code, saved := f.saved.tail } :: rest)
  | .enqueueTask q => some (s.spinLock c q f rest code)
  | .dequeueTask q => some (s.spinLock c q f rest code)
  -- the loop over the other CPUs ends with the first task that is found
  | .stealTask q => some (if x.again ∧ s.rqLock q = none then s.spinLock c q f rest code else s.goOn c f rest code)
  | .inside q => some { s.goOn c f rest code with rqLock := update s.rqLock q none }
  | .enqueueHere => some (s.goOn c f rest (.enqueueTask c :: code))
  | .publish q => some (s.goOn c f rest (if x.again then .enqueueTask q :: code else code))
  | .wakeSleepers q => some (s.goOn c f rest (if x.again then .enqueueTask q :: .wakeSleepers q :: code else code))
  | .wakeBlocked => some (s.goOn c f rest (if x.again then .enqueueTask x.target :: .wakeBlocked :: code else code))
  | .mutexPass => some (s.goOn c f rest ([.irqSave, .irqRestore] ++ if x.again then .yield :: .mutexPass :: code else code))
  | .yield => some (s.enter c .interrupt (timerHandler s.cpuTable c) ({ f with code := code } :: rest))
  | .switch => some (s.switchTo c f rest x.next)

def step (s : State K T) : Action K T → Option (State K T)
  | .timer c => if s.flag c then some (s.enter c .interrupt (timerHandler s.cpuTable c) (s.stack (s.running c))) else none
  | .keyboard c typed => if s.flag c then some (s.enter c .interrupt (keyboardHandler typed) (s.stack (s.running c))) else none
  | .shootdown c => if s.flag c then some (s.enter c .interrupt [] (s.stack (s.running c))) else none
  | .syscall c => if s.stack (s.running c) = [] then some (s.enter c .syscall [] []) else none
  | .iret c =>
    match s.stack (s.running c) with
    | f :: rest => if f.kind ≠ .task ∧ f.code = [] then some (s.put c f.rflags rest) else none
    | [] => none
  | .sti c =>
    match s.stack (s.running c) with
    | f :: rest => if f.kind = .task ∧ f.code = [] then some (s.put c true (f :: rest)) else none
    | [] => none
  | .call c what =>
    match s.stack (s.running c) with
    | f :: rest =>
      if f.code = [] ∧ (f.kind = .syscall ∨ f.kind = .task ∧ what ≠ .schedule) then
        some (s.goOn c f rest (what.code s.cpuTable c))
      else none
    | [] => none
  | .exec c x =>
    match s.stack (s.running c) with
    | f :: rest =>
      match f.code with
      | op :: code => exec s c x f rest code op
      | [] => none
    | [] => none

def State.next (s : State K T) (c : K) : Option (Op K) := (s.stack (s.running c)).head?.bind fun f => f.code.head?

structure Booted (s : State K T) : Prop where
  apart : Injective s.running
  flag : ∀ c, s.flag c = false
  kernel : ∀ c, s.stack (s.running c) ≠ []
  stack : ∀ t, s.stack t = [] ∨ s.stack t = [⟨.task, [], [], true⟩]
  rflags : ∀ t, s.rflags t = true
  rqLock : ∀ q, s.rqLock q = none

/-- `task_register`, and `mutex_unlock` when it wakes a task, are called with interrupts disabled. -/
def State.Masked (s : State K T) : Action K T → Prop
  | .call c what => what.enqueues = true → s.flag c = false
  | _ => True

def State.Apart (s : State K T) : Action K T → Prop
  | .exec c x => s.next c = some .switch → ∀ c', s.running c' = x.next → c' = c
  | _ => True

end steps

section masking

variable {K T : Type}

def Op.locks : Op K → Bool
  | .irqSave | .irqRestore | .mutexPass | .yield | .switch => false
  | _ => true

def Quiet : Bool → List Bool → List (Op K) → Prop
  | _, _, [] => True
  | flag, saved, .irqSave :: code => Quiet false (flag :: saved) code
  | _, flag :: saved, .irqRestore :: code => Quiet flag saved code
  | _, [], .irqRestore :: _ => False
  | flag, saved, op :: code => (op.locks = true → flag = false) ∧ Quiet flag saved code

def Calm : Bool → List (Frame K) → Prop
  | _, [] => True
  | flag, f :: rest => Quiet flag f.saved f.code ∧ Calm f.rflags rest

def Unlocked (code : List (Op K)) : Prop := ∀ q, .inside q ∉ code

def Tidy : List (Frame K) → Prop
  | [] => True
  | f :: rest => Unlocked f.code.tail ∧ ∀ g ∈ rest, Unlocked g.code

def held : List (Frame K) → Option K
  | ⟨_, .inside q :: _, _, _⟩ :: _ => some q
  | _ => none

structure Sound (s : State K T) : Prop where
  apart : Injective s.running
  calm : ∀ c, Calm (s.flag c) (s.stack (s.running c))
  calmAway : ∀ t, (∀ c, s.running c ≠ t) → Calm (s.rflags t) (s.stack t)
  tidy : ∀ t, Tidy (s.stack t)
  heldAway : ∀ t, (∀ c, s.running c ≠ t) → held (s.stack t) = none
  rqLock : ∀ q t, s.rqLock q = some t ↔ held (s.stack t) = some q

variable {s : State K T} {c q : K} {flag : Bool} {saved : List Bool} {code : List (Op K)} {f : Frame K}
  {rest stack : List (Frame K)}

lemma unlocked_cons {op : Op K} : Unlocked (op :: code) ↔ (∀ q, op ≠ .inside q) ∧ Unlocked code := by
  simp only [Unlocked, mem_cons, not_or, forall_and, ne_comm]

lemma unlocked_nil : Unlocked ([] : List (Op K)) := fun _ => not_mem_nil

lemma Unlocked.tail (h : Unlocked code) : Unlocked code.tail := fun q hq => h q (mem_of_mem_tail hq)

lemma held_eq_none (h : Unlocked f.code) : held (f :: rest) = none := by
  rcases f with ⟨_, _ | ⟨op, code⟩, saved, rflags⟩
  · rfl
  · cases op with
    | inside q => exact absurd rfl ((unlocked_cons.mp h).1 q)
    | _ => rfl

lemma held_eq_none_of_forall (h : ∀ g ∈ stack, Unlocked g.code) : held stack = none := by
  cases stack with
  | nil => rfl
  | cons f => exact held_eq_none (h f mem_cons_self)

lemma tidy_of_forall (h : ∀ g ∈ stack, Unlocked g.code) : Tidy stack := by
  cases stack with
  | nil => trivial
  | cons f => exact ⟨(h f mem_cons_self).tail, fun g hg => h g (mem_cons_of_mem f hg)⟩

lemma held_inside (hcode : f.code = .inside q :: code) : held (f :: rest) = some q := by
  rcases f with ⟨_, _, _, _⟩
  cases hcode
  rfl

lemma Calm.flag_eq_false (h : Calm flag stack) (hheld : held stack = some q) : flag = false := by
  rcases stack with _ | ⟨⟨kind, _ | ⟨op, code⟩, saved, rflags⟩, rest⟩
  · cases hheld
  · cases hheld
  · cases op with
    | inside => exact h.1.1 rfl
    | _ => cases hheld

lemma quiet_stealTask (saved : List Bool) (code : List (Op K)) (l : List K) :
    Quiet false saved (l.map .stealTask ++ code) ↔ Quiet false saved code := by
  induction l with
  | nil => rfl
  | cons q l ih =>
    rw [map_cons, cons_append, Quiet, ih]
    · simp
    all_goals simp

end masking


section soundness

variable {K T : Type} [DecidableEq K] [DecidableEq T] {s s' : State K T} {c q : K} {flag : Bool} {code : List (Op K)}
  {f : Frame K} {rest stack : List (Frame K)}

lemma Sound.put_locks (h : Sound s) (hcalm : Calm flag stack) (htidy : Tidy stack) {locks : K → Option T}
    (hlocks : ∀ q t, locks q = some t ↔ held (update s.stack (s.running c) stack t) = some q) :
    Sound { s.put c flag stack with rqLock := locks } where
  apart := h.apart
  calm d := by
    by_cases hd : d = c
    · subst hd
      simpa [State.put] using hcalm
    · have hne : s.running d ≠ s.running c := fun hsame => hd (h.apart hsame)
      simpa [State.put, hd, hne] using h.calm d
  calmAway t ht := by
    have hne : t ≠ s.running c := fun hsame => ht c hsame.symm
    simpa [State.put, hne] using h.calmAway t ht
  tidy t := by
    by_cases ht : t = s.running c
    · subst ht
      simpa [State.put] using htidy
    · simpa [State.put, ht] using h.tidy t
  heldAway t ht := by
    have hne : t ≠ s.running c := fun hsame => ht c hsame.symm
    simpa [State.put, hne] using h.heldAway t ht
  rqLock := hlocks

lemma Sound.put (h : Sound s) (hcalm : Calm flag stack) (htidy : Tidy stack)
    (hheld : held stack = held (s.stack (s.running c))) : Sound (s.put c flag stack) := by
  refine h.put_locks hcalm htidy fun q t => ?_
  rw [h.rqLock]
  by_cases ht : t = s.running c
  · rw [ht, update_self, hheld]
  · rw [update_of_ne ht]

section top

variable (hstack : s.stack (s.running c) = f :: rest)

include hstack

lemma Sound.top (h : Sound s) :
    Quiet (s.flag c) f.saved f.code ∧ Calm f.rflags rest ∧ Unlocked f.code.tail ∧ ∀ g ∈ rest, Unlocked g.code := by
  have hcalm := h.calm c
  have htidy := h.tidy (s.running c)
  rw [hstack] at hcalm htidy
  exact ⟨hcalm.1, hcalm.2, htidy.1, htidy.2⟩

lemma Sound.goOn (h : Sound s) (hold : Unlocked f.code) (hcode : Unlocked code) (hquiet : Quiet (s.flag c) f.saved code) :
    Sound (s.goOn c f rest code) := by
  obtain ⟨-, hcalm, -, houter⟩ := h.top hstack
  refine h.put ⟨hquiet, hcalm⟩ ⟨hcode.tail, houter⟩ ?_
  rw [hstack, held_eq_none hold, held_eq_none hcode]

lemma Sound.choose {again : Bool} {code' : List (Op K)} (h : Sound s) (hold : Unlocked f.code)
    (hthen : Unlocked code ∧ Quiet (s.flag c) f.saved code) (helse : Unlocked code' ∧ Quiet (s.flag c) f.saved code') :
    Sound (s.goOn c f rest (if again then code else code')) := by
  split
  · exact h.goOn hstack hold hthen.1 hthen.2
  · exact h.goOn hstack hold helse.1 helse.2

lemma Sound.spinLock (h : Sound s) (hold : Unlocked f.code) (hcode : Unlocked code)
    (hquiet : Quiet (s.flag c) f.saved (.inside q :: code)) : Sound (s.spinLock c q f rest code) := by
  obtain ⟨-, hcalm, -, houter⟩ := h.top hstack
  rw [State.spinLock]
  split_ifs with hfree
  · have hcalm' : Calm (s.flag c) ({ f with code := .inside q :: code } :: rest) := ⟨hquiet, hcalm⟩
    refine h.put_locks hcalm' ⟨hcode, houter⟩ fun q' t => ?_
    by_cases ht : t = s.running c
    · -- the task held no lock before
      have hnone : s.rqLock q' ≠ some (s.running c) := by
        rw [Ne, h.rqLock, hstack, held_eq_none hold]
        simp
      rw [ht, update_self, held_inside rfl]
      by_cases hq : q' = q
      · simp [hq]
      · simp [hq, hnone, Ne.symm hq]
    · rw [update_of_ne ht, ← h.rqLock]
      by_cases hq : q' = q
      · simp [hq, hfree, Ne.symm ht]
      · simp [hq]
  · exact h

lemma Sound.unlock (h : Sound s) (hin : f.code = .inside q :: code) :
    Sound { s.goOn c f rest code with rqLock := update s.rqLock q none } := by
  obtain ⟨hquiet, hcalm, hcode, houter⟩ := h.top hstack
  rw [hin] at hquiet hcode
  have hlock : s.rqLock q = some (s.running c) := by rw [h.rqLock, hstack, held_inside hin]
  have hcalm' : Calm (s.flag c) ({ f with code := code } :: rest) := ⟨hquiet.2, hcalm⟩
  refine h.put_locks hcalm' ⟨hcode.tail, houter⟩ fun q' t => ?_
  by_cases ht : t = s.running c
  · rw [ht, update_self, held_eq_none hcode]
    by_cases hq : q' = q
    · simp [hq]
    · have hnone : s.rqLock q' ≠ some (s.running c) := by
        rw [Ne, h.rqLock, hstack, held_inside hin]
        simpa using Ne.symm hq
      simp [hq, hnone]
  · rw [update_of_ne ht, ← h.rqLock]
    by_cases hq : q' = q
    · simp [hq, hlock, Ne.symm ht]
    · simp [hq]

lemma Sound.switchTo {next : T} (h : Sound s) (hold : Unlocked f.code) (happart : ∀ c', s.running c' = next → c' = c) :
    Sound (s.switchTo c f rest next) := by
  obtain ⟨-, hcalm, -, houter⟩ := h.top hstack
  have haway : ∀ t, (∀ c', c' ≠ c → s.running c' ≠ t) →
      Calm (update s.rflags (s.running c) f.rflags t) (update s.stack (s.running c) rest t) ∧
      held (update s.stack (s.running c) rest t) = none := by
    intro t hrun
    by_cases ht : t = s.running c
    · rw [ht, update_self, update_self]
      exact ⟨hcalm, held_eq_none_of_forall houter⟩
    · have hnot : ∀ c', s.running c' ≠ t := by
        intro c'
        by_cases hc : c' = c
        · rw [hc]
          exact Ne.symm ht
        · exact hrun c' hc
      rw [update_of_ne ht, update_of_ne ht]
      exact ⟨h.calmAway t hnot, h.heldAway t hnot⟩
  have hothers : ∀ t, (∀ c', (s.switchTo c f rest next).running c' ≠ t) → ∀ c', c' ≠ c → s.running c' ≠ t := by
    intro t ht c' hc
    simpa [State.switchTo, hc] using ht c'
  refine ⟨?_, fun d => ?_, fun t ht => (haway t (hothers t ht)).1, fun t => ?_, fun t ht => (haway t (hothers t ht)).2,
    fun q t => ?_⟩
  · intro d d' hsame
    simp only [State.switchTo, update_apply] at hsame
    split_ifs at hsame with hd hd' hd'
    · rw [hd, hd']
    · exact absurd (happart d' hsame.symm) hd'
    · exact absurd (happart d hsame) hd
    · exact h.apart hsame
  · rcases eq_or_ne d c with rfl | hd
    · simpa [State.switchTo] using (haway next fun c' hc hrun => hc (happart c' hrun)).1
    · have hne : s.running d ≠ s.running c := fun hsame => hd (h.apart hsame)
      simpa [State.switchTo, hd, hne] using h.calm d
  · by_cases ht : t = s.running c
    · subst ht
      simpa [State.switchTo] using tidy_of_forall houter
    · simpa [State.switchTo, ht] using h.tidy t
  · show s.rqLock q = some t ↔ held (update s.stack (s.running c) rest t) = some q
    rw [h.rqLock]
    by_cases ht : t = s.running c
    · rw [ht, update_self, hstack, held_eq_none hold, held_eq_none_of_forall houter]
    · rw [update_of_ne ht]

end top

lemma Sound.enter {kind : Kind} (h : Sound s) (hcalm : Calm (s.flag c) stack) (houter : ∀ g ∈ stack, Unlocked g.code)
    (hheld : held (s.stack (s.running c)) = none) (hcode : Unlocked code) (hquiet : Quiet false [] code) :
    Sound (s.enter c kind code stack) := by
  refine h.put ⟨hquiet, hcalm⟩ ⟨hcode.tail, houter⟩ ?_
  rw [hheld, held_eq_none hcode]

lemma Sound.interrupt (h : Sound s) (hflag : s.flag c = true) (hcode : Unlocked code) (hquiet : Quiet false [] code) :
    Sound (s.enter c .interrupt code (s.stack (s.running c))) := by
  have hheld : held (s.stack (s.running c)) = none := by
    by_contra hne
    obtain ⟨q, hq⟩ := ne_none_iff_exists'.mp hne
    simp [(h.calm c).flag_eq_false hq] at hflag
  refine h.enter (h.calm c) ?_ hheld hcode hquiet
  have htidy := h.tidy (s.running c)
  generalize s.stack (s.running c) = stack at htidy hheld
  rcases stack with _ | ⟨⟨kind, _ | ⟨op, code⟩, saved, rflags⟩, rest⟩
  · simp
  · simpa using ⟨unlocked_nil, htidy.2⟩
  · have hop : ∀ q, op ≠ .inside q := by
      rintro q rfl
      cases hheld
    exact forall_mem_cons.mpr ⟨unlocked_cons.mpr ⟨hop, htidy.1⟩, htidy.2⟩

end soundness

section handlers

variable {K : Type} [DecidableEq K] (cpuTable : List K) (c : K) (flag : Bool) (saved : List Bool)

lemma schedule_quiet : Quiet flag saved (schedule cpuTable c) := by
  have hsteal := quiet_stealTask (flag :: saved) [.irqRestore, .switch] (cpuTable.filter (· ≠ c))
  simpa [schedule, Quiet, Op.locks] using hsteal

lemma schedule_unlocked : Unlocked (schedule cpuTable c) := by
  simp [Unlocked, schedule]

lemma timerHandler_quiet : Quiet flag saved (timerHandler cpuTable c) := by
  simpa [timerHandler, schedUpdateSleepers, Quiet] using schedule_quiet cpuTable c flag saved

lemma timerHandler_unlocked : Unlocked (timerHandler cpuTable c) := by
  simpa [timerHandler, schedUpdateSleepers, Unlocked] using schedule_unlocked cpuTable c

lemma keyboardHandler_quiet (typed : Bool) : Quiet flag saved (keyboardHandler typed : List (Op K)) := by
  cases typed <;> simp [keyboardHandler, schedWakeup, Quiet]

lemma keyboardHandler_unlocked (typed : Bool) : Unlocked (keyboardHandler typed : List (Op K)) := by
  cases typed <;> simp [keyboardHandler, schedWakeup, Unlocked]

lemma Call.quiet {what : Call K} (h : what.enqueues = true → flag = false) : Quiet flag saved (what.code cpuTable c) := by
  cases what with
  | mutexUnlock woken =>
    cases woken with
    | none => simp [Call.code, Quiet]
    | some => simpa [Call.code, Quiet, Op.locks] using h rfl
  | taskRegister => simpa [Call.code, Quiet, Op.locks] using h rfl
  | schedule => exact schedule_quiet cpuTable c flag saved
  | _ => simp [Call.code, Quiet, Op.locks]

lemma Call.unlocked (what : Call K) : Unlocked (what.code cpuTable c) := by
  cases what with
  | schedule => exact schedule_unlocked cpuTable c
  | _ => simp [Call.code, Unlocked]

end handlers

section runs

variable {K T : Type} [DecidableEq K] [DecidableEq T] {s s' : State K T} {c : K} {op : Op K} {code : List (Op K)} {f : Frame K}
  {rest : List (Frame K)}

lemma Sound.exec {x : Choice K T} (h : Sound s) (hstack : s.stack (s.running c) = f :: rest) (hop : f.code = op :: code)
    (happart : op = .switch → ∀ c', s.running c' = x.next → c' = c) (hexec : exec s c x f rest code op = some s') :
      Sound s' := by
  obtain ⟨hquiet, hcalm, hcode, houter⟩ := h.top hstack
  rw [hop] at hquiet hcode
  have hold : (∀ q, op ≠ .inside q) → Unlocked f.code := fun hne => hop ▸ unlocked_cons.mpr ⟨hne, hcode⟩
  cases op with
  | irqSave =>
    cases hexec
    refine h.put ⟨hquiet, hcalm⟩ ⟨hcode.tail, houter⟩ ?_
    rw [hstack, held_eq_none (hold (by simp)), held_eq_none hcode]
  | irqRestore =>
    obtain ⟨_, hflag, rfl⟩ := map_eq_some_iff.mp hexec
    rcases hsaved : f.saved with _ | ⟨flag', saved⟩
    · simp [hsaved] at hflag
    · rw [hsaved] at hquiet hflag
      cases hflag
      refine h.put ⟨hquiet, hcalm⟩ ⟨hcode.tail, houter⟩ ?_
      rw [hstack, held_eq_none (hold (by simp)), held_eq_none hcode]
  | enqueueTask =>
    cases hexec
    exact h.spinLock hstack (hold (by simp)) hcode hquiet
  | dequeueTask =>
    cases hexec
    exact h.spinLock hstack (hold (by simp)) hcode hquiet
  | stealTask =>
    cases hexec
    split
    · exact h.spinLock hstack (hold (by simp)) hcode hquiet
    · exact h.goOn hstack (hold (by simp)) hcode hquiet.2
  | inside =>
    cases hexec
    exact h.unlock hstack hop
  | enqueueHere =>
    cases hexec
    exact h.goOn hstack (hold (by simp)) (unlocked_cons.mpr ⟨by simp, hcode⟩) hquiet
  | publish =>
    cases hexec
    exact h.choose hstack (hold (by simp)) ⟨unlocked_cons.mpr ⟨by simp, hcode⟩, hquiet⟩ ⟨hcode, hquiet.2⟩
  | wakeSleepers =>
    cases hexec
    refine h.choose hstack (hold (by simp)) ⟨?_, hquiet.1, hquiet⟩ ⟨hcode, hquiet.2⟩
    exact unlocked_cons.mpr ⟨by simp, unlocked_cons.mpr ⟨by simp, hcode⟩⟩
  | wakeBlocked =>
    cases hexec
    refine h.choose hstack (hold (by simp)) ⟨?_, hquiet.1, hquiet⟩ ⟨hcode, hquiet.2⟩
    exact unlocked_cons.mpr ⟨by simp, unlocked_cons.mpr ⟨by simp, hcode⟩⟩
  | mutexPass =>
    cases hexec
    refine h.goOn hstack (hold (by simp)) ?_ ?_
    · refine unlocked_cons.mpr ⟨by simp, unlocked_cons.mpr ⟨by simp, ?_⟩⟩
      split
      · exact unlocked_cons.mpr ⟨by simp, unlocked_cons.mpr ⟨by simp, hcode⟩⟩
      · exact hcode
    · split
      · exact ⟨by simp [Op.locks], hquiet⟩
      · exact hquiet.2
  | yield =>
    cases hexec
    refine h.enter ⟨hquiet.2, hcalm⟩ (forall_mem_cons.mpr ⟨hcode, houter⟩) ?_ (timerHandler_unlocked _ _)
      (timerHandler_quiet _ _ _ _)
    rw [hstack, held_eq_none (hold (by simp))]
  | switch =>
    cases hexec
    exact h.switchTo hstack (hold (by simp)) (happart rfl)

lemma Sound.step {a : Action K T} (h : Sound s) (hmasked : s.Masked a) (happart : s.Apart a)
    (hstep : step s a = some s') : Sound s' := by
  cases a with
  | timer c =>
    rw [RunQueueLock.step] at hstep
    split at hstep
    · rename_i hflag
      cases hstep
      exact h.interrupt hflag (timerHandler_unlocked _ _) (timerHandler_quiet _ _ _ _)
    · cases hstep
  | keyboard c typed =>
    rw [RunQueueLock.step] at hstep
    split at hstep
    · rename_i hflag
      cases hstep
      exact h.interrupt hflag (keyboardHandler_unlocked _) (keyboardHandler_quiet _ _ _)
    · cases hstep
  | shootdown c =>
    rw [RunQueueLock.step] at hstep
    split at hstep
    · rename_i hflag
      cases hstep
      exact h.interrupt hflag unlocked_nil trivial
    · cases hstep
  | syscall c =>
    rw [RunQueueLock.step] at hstep
    split at hstep
    · rename_i hempty
      cases hstep
      exact h.enter trivial (by simp) (by rw [hempty]; rfl) unlocked_nil trivial
    · cases hstep
  | iret c =>
    rw [RunQueueLock.step] at hstep
    split at hstep
    · rename_i f rest hstack
      split at hstep
      · rename_i hdone
        cases hstep
        obtain ⟨-, hcalm, -, houter⟩ := h.top hstack
        refine h.put hcalm (tidy_of_forall houter) ?_
        rw [hstack, held_eq_none_of_forall houter, held_eq_none (hdone.2 ▸ unlocked_nil)]
      · cases hstep
    · cases hstep
  | sti c =>
    rw [RunQueueLock.step] at hstep
    split at hstep
    · rename_i f rest hstack
      split at hstep
      · rename_i hdone
        cases hstep
        obtain ⟨-, hcalm, hcode, houter⟩ := h.top hstack
        refine h.put ⟨?_, hcalm⟩ ⟨hcode, houter⟩ (by rw [hstack])
        rw [hdone.2]
        trivial
      · cases hstep
    · cases hstep
  | call c what =>
    rw [RunQueueLock.step] at hstep
    split at hstep
    · rename_i f rest hstack
      split at hstep
      · rename_i hdone
        cases hstep
        exact h.goOn hstack (hdone.1 ▸ unlocked_nil) (what.unlocked _ _) (what.quiet _ _ _ _ hmasked)
      · cases hstep
    · cases hstep
  | exec c x =>
    rw [RunQueueLock.step] at hstep
    split at hstep
    · rename_i f rest hstack
      split at hstep
      · rename_i op code hop
        refine h.exec hstack hop (fun hswitch => ?_) hstep
        exact happart (by simp [State.next, hstack, hop, hswitch])
      · cases hstep
    · cases hstep

lemma Booted.sound (h : Booted s) : Sound s where
  apart := h.apart
  calm c := by
    rcases h.stack (s.running c) with hstack | hstack <;> simp [hstack, Calm, Quiet]
  calmAway t _ := by
    rcases h.stack t with hstack | hstack <;> simp [hstack, Calm, Quiet]
  tidy t := by
    rcases h.stack t with hstack | hstack <;> simp [hstack, Tidy, Unlocked]
  heldAway t _ := by
    rcases h.stack t with hstack | hstack <;> simp [hstack, held]
  rqLock q t := by
    rcases h.stack t with hstack | hstack <;> simp [h.rqLock, hstack, held]

theorem rqLock_masked {actions : List (Action K T)} (h : Booted s)
    (hg : Guarded step (fun s a => s.Masked a ∧ s.Apart a) s actions) :
    Always step (fun s => (∀ c, s.rqLock c = some (s.running c) → s.flag c = false) ∧
      ∀ c q, s.next c = some (.enqueueTask q) ∨ s.next c = some (.dequeueTask q) → s.rqLock q ≠ some (s.running c)) s
        actions := by
  have halways := invariant (fun s a s' hsound ha hstep => hsound.step ha.1 ha.2 hstep) h.sound hg
  apply halways.mono
  intro s hsound
  refine ⟨fun c hc => (hsound.calm c).flag_eq_false ((hsound.rqLock c _).mp hc), fun c q hnext hq => ?_⟩
  -- who holds a lock is inside its section, and not in front of another one
  have hheld := (hsound.rqLock q _).mp hq
  rw [State.next] at hnext
  generalize s.stack (s.running c) = stack at hnext hheld
  rcases stack with _ | ⟨⟨kind, _ | ⟨op, code⟩, saved, rflags⟩, rest⟩
  · cases hheld
  · cases hheld
  · cases op with
    | inside q' => simp at hnext
    | _ => cases hheld

instance (s : State K T) : (a : Action K T) → Decidable (s.Masked a)
  | .call c what => inferInstanceAs (Decidable (what.enqueues = true → s.flag c = false))
  | .timer _ | .keyboard _ _ | .shootdown _ | .syscall _ | .iret _ | .sti _ | .exec _ _ => .isTrue trivial

instance [Fintype K] (s : State K T) : (a : Action K T) → Decidable (s.Apart a)
  | .exec c x => inferInstanceAs (Decidable (s.next c = some .switch → ∀ c', s.running c' = x.next → c' = c))
  | .timer _ | .keyboard _ _ | .shootdown _ | .syscall _ | .iret _ | .sti _ | .call _ _ => .isTrue trivial

def twoCpus : State (Fin 2) (Fin 3) where
  cpuTable := [0, 1]
  flag _ := false
  running := ![0, 1]
  stack := ![[⟨.task, [], [], true⟩], [⟨.task, [], [], true⟩], []]
  rflags _ := true
  rqLock _ := none

lemma booted_twoCpus : Booted twoCpus := ⟨by decide, by decide, by decide, by decide, by decide, by decide⟩

def execs (c : Fin 2) (n : ℕ) : List (Action (Fin 2) (Fin 3)) := List.replicate n (.exec c ⟨false, 0, 2⟩)

def registerEnabled : List (Action (Fin 2) (Fin 3)) := [.sti 0, .call 0 .taskRegister] ++ execs 0 4

def timerInSection : List (Action (Fin 2) (Fin 3)) := [.timer 0] ++ execs 0 4 ++ [.exec 0 ⟨true, 0, 2⟩]

theorem rqLock_self_deadlock :
    (∃ s, run step twoCpus registerEnabled = some s ∧ s.rqLock 0 = some (s.running 0) ∧ s.flag 0 = true) ∧
    ∃ s, run step twoCpus (registerEnabled ++ timerInSection) = some s ∧ s.next 0 = some (.enqueueTask 0) ∧
      s.rqLock 0 = some (s.running 0) := by
  decide +kernel

def registerMasked : List (Action (Fin 2) (Fin 3)) :=
  [.call 1 .taskRegister] ++ execs 1 5 ++ [.sti 1, .timer 1] ++ execs 1 10 ++
    [.syscall 1, .call 1 (.mutexUnlock (some 1))] ++ execs 1 3

theorem rqLock_masked_twoCpus :
    Guarded step (fun s a => s.Masked a ∧ s.Apart a) twoCpus registerMasked ∧
    Always step (fun s => (∀ c, s.rqLock c = some (s.running c) → s.flag c = false) ∧
      ∀ c q, s.next c = some (.enqueueTask q) ∨ s.next c = some (.dequeueTask q) → s.rqLock q ≠ some (s.running c)) twoCpus
      registerMasked := by
  have hg : Guarded step (fun s a => s.Masked a ∧ s.Apart a) twoCpus registerMasked := by
    decide +kernel
  exact ⟨hg, rqLock_masked booted_twoCpus hg⟩

end runs

end KernelSmp.Sched.RunQueueLock
