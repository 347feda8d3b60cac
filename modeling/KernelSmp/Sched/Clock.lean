import KernelSmp.Sched.Exclusive

/-! The clock that `interrupt_dispatch` keeps, and how long the sleepers sleep by it. -/

namespace KernelSmp.Sched

set_option linter.unusedSectionVars false

open Base Base.LinkedQueue Base.Dispatch Function Atomic Drivers List Option

structure Sleep where
  task : Word
  since : ℕ
  ms : Word
  deriving DecidableEq

/-- The scheduler with `system_uptime_ms`. Beside it, `ticks` counts the interrupts that the timer has raised on CPU 0, and
`asleep` has the calls whose tasks have not been put back on a run queue. -/
structure Clocked (K M : Type) where
  machine : Machine K M
  uptime : Word
  ticks : ℕ
  asleep : List Sleep

variable {K M : Type} [DecidableEq K] [DecidableEq M]

namespace Machine

def yieldsOn (s : Machine K M) (c : K) : Bool :=
  s.cpuPc c = .task && (s.current c).any fun t =>
    match s.taskPc t with
    | .yield _ => true
    | _ => false

def sleeps (s : Machine K M) (c : K) : Option (Word × Word) :=
  if s.cpuPc c = .task then (s.current c).bind fun t =>
    match s.taskPc t with
    | .sleepCall _ ms _ => some (t, ms)
    | _ => none
  else none

def ticks (s : Machine K M) : Action K M → Bool
  | .timer c => (s.sys.cpus c).cpuId = 0
  | _ => false

def yieldTicks (s : Machine K M) : Action K M → Bool
  | .advance c _ _ _ => (s.sys.cpus c).cpuId = 0 && s.yieldsOn c
  | _ => false

def Action.atTime (now : Word) : Action K M → Action K M
  | .advance c _ frame locked => .advance c now frame locked
  | a => a

end Machine

namespace Clocked

def asleepAfter (s : Clocked K M) : Machine.Action K M → List Sleep
  | .advance c now frame locked =>
    let kept := s.asleep.filter fun r => (s.machine.enqueues (.advance c now frame locked)).map Prod.snd ≠ some r.task
    match s.machine.sleeps c with
    | some (t, ms) => ⟨t, s.ticks, ms⟩ :: kept.filter fun r => r.task ≠ t
    | none => kept
  | _ => s.asleep

def step (s : Clocked K M) (a : Machine.Action K M) : Option (Clocked K M) :=
  (s.machine.step (a.atTime s.uptime)).map fun m =>
    { machine := m
      uptime := if s.machine.ticks a || s.machine.yieldTicks a then s.uptime + 5 else s.uptime
      ticks := if s.machine.ticks a then s.ticks + 1 else s.ticks
      asleep := s.asleepAfter a }

def Slept (s : Clocked K M) (r : Sleep) : Prop := r.ms.toNat ≤ 5 * (s.ticks - r.since)

instance (s : Clocked K M) (r : Sleep) : Decidable (s.Slept r) := inferInstanceAs (Decidable (_ ≤ _))

def Patient (s : Clocked K M) : Prop := ∀ a k t, s.machine.enqueues a = some (k, t) → ∀ r ∈ s.asleep, r.task = t → s.Slept r

/-- `sched_yield` is not called on CPU 0 while a sleeper has to wait, and no time to wake wraps. -/
def Steady (s : Clocked K M) : Machine.Action K M → Prop
  | .advance c now frame locked =>
    (s.machine.yieldTicks (.advance c now frame locked) = true → ∀ r ∈ s.asleep, s.Slept r) ∧
    ∀ x ∈ s.machine.sleeps c, s.uptime.toNat + x.2.toNat < 2 ^ 64
  | _ => True

end Clocked

namespace Machine

variable {s s' : Machine K M} {place place' : Word → Place K M} {a : Action K M}

lemma Inv.sleepUntil_eq (h : Inv s place) (he : Effect s place a s' place') {x : Word} (hused : s.used x = true)
    (hcall : ∀ c cpu ms direct, ¬ s.At c x (.sleepCall cpu ms direct)) :
    (s'.sys.tasks x).sleepUntil = (s.sys.tasks x).sleepUntil := by
  have hchange := h.change he x
  change (s'.sys.tasks x).face.sleepUntil = _
  generalize (s'.sys.tasks x).face = v at hchange
  cases hchange with
  | create user stackBase cr3 rsp hunused => simp [hused] at hunused
  | mark c cpu ms now direct hat => exact absurd hat (hcall c cpu ms direct)
  | _ => rfl

lemma sleeps_at {c : K} {x : Word × Word} (h : s.sleeps c = some x) : ∃ cpu direct, s.At c x.1 (.sleepCall cpu x.2 direct) := by
  rw [sleeps] at h
  split at h
  · rename_i hpc
    obtain ⟨_, ht, hcall⟩ := bind_eq_some_iff.mp h
    split at hcall
    · rename_i cpu ms direct htask
      cases hcall
      exact ⟨cpu, direct, hpc, ht, htask⟩
    · cases hcall
  · cases h

lemma enqueues_hand {k : K} {t : Word} (h : s.enqueues a = some (k, t)) : ∃ j, s.hands j = some t := by
  cases a with
  | advance c now frame locked =>
    rw [enqueues] at h
    split at h
    · obtain ⟨u, -, hcall⟩ := bind_eq_some_iff.mp h
      split at hcall
      · rename_i target v htask
        cases hcall
        exact ⟨.task u, by rw [hands, htask]; rfl⟩
      · cases hcall
    · rename_i w target u rest hpc
      cases h
      exact ⟨.cpu c, by rw [hands, hpc]; rfl⟩
    · rename_i u hpc
      cases h
      exact ⟨.cpu k, by rw [hands, hpc]; rfl⟩
    · cases h
  | _ => cases h

lemma permit_atTime (now : Word) (h : s.Apart a ∧ s.Left a ∧ s.Fresh a) :
    s.Apart (a.atTime now) ∧ s.Left (a.atTime now) ∧ s.Fresh (a.atTime now) := by
  cases a with
  | advance => exact h
  | _ => exact h

end Machine

namespace Clocked

open Machine

variable {s s' : Clocked K M} {place place' : Word → Place K M} {a : Action K M} {r : Sleep}

structure Waits (s : Clocked K M) (place : Word → Place K M) (r : Sleep) : Prop where
  used : s.machine.used r.task = true
  stage : (s.machine.taskPc r.task).mode = .marked ∨ ∃ c, place r.task = .list (.inr (.sleeping c))
  since : r.since ≤ s.ticks
  clock : ∃ start, start + r.ms.toNat < 2 ^ 64 ∧ (s.machine.sys.tasks r.task).sleepUntil.toNat = start + r.ms.toNat ∧
    s.uptime.toNat = (start + 5 * (s.ticks - r.since)) % 2 ^ 64

lemma Waits.slept (h : s.Waits place r) (hdue : (s.machine.sys.tasks r.task).sleepUntil ≤ s.uptime) : s.Slept r := by
  obtain ⟨start, -, huntil, huptime⟩ := h.clock
  rw [BitVec.le_def, huntil, huptime] at hdue
  rw [Slept]
  omega

lemma Waits.no_call (h : s.Waits place r) (hinv : Inv s.machine place) (c cpu : K) (ms : Word) (direct : Bool) :
    ¬ s.machine.At c r.task (.sleepCall cpu ms direct) := by
  intro hat
  rcases h.stage with hmarked | ⟨k, hplace⟩
  · rw [hat.pc] at hmarked
    cases hmarked
  · simp [hinv.nowhere (hinv.running hat rfl)] at hplace

lemma Waits.not_gone (h : s.Waits place r) (hinv : Inv s.machine place) : (place r.task).gone = false := by
  rcases h.stage with hmarked | ⟨k, hplace⟩
  · rw [hinv.marked_nowhere hmarked]
    rfl
  · rw [hplace]
    rfl

lemma Slept.mono (h : s.Slept r) (hticks : s.ticks ≤ s'.ticks) : s'.Slept r := by
  rw [Slept] at h ⊢
  omega

lemma ticks_le (hstep : s.step a = some s') : s.ticks ≤ s'.ticks := by
  obtain ⟨_, -, rfl⟩ := map_eq_some_iff.mp hstep
  simp only
  split
  · exact Nat.le_succ _
  · exact le_rfl

lemma Waits.step (h : s.Waits place r) (hinv : Inv s.machine place) (hyield : s.machine.yieldTicks a = false)
    (hstep : s.step a = some s') (he : Machine.Effect s.machine place (a.atTime s.uptime) s'.machine place') :
    s'.Slept r ∨ s'.Waits place' r := by
  have hused : s'.machine.used r.task = true := by
    rcases he.used_cases hinv r.task with hkeep | ⟨hunused, -⟩ | hgone
    · rw [hkeep, h.used]
    · simp [h.used] at hunused
    · simp [h.not_gone hinv] at hgone
  have hticks := ticks_le hstep
  have hclock : ∃ start, start + r.ms.toNat < 2 ^ 64 ∧
      (s'.machine.sys.tasks r.task).sleepUntil.toNat = start + r.ms.toNat ∧
      s'.uptime.toNat = (start + 5 * (s'.ticks - r.since)) % 2 ^ 64 := by
    obtain ⟨start, hwrap, huntil, huptime⟩ := h.clock
    refine ⟨start, hwrap, by rw [hinv.sleepUntil_eq he h.used (h.no_call hinv), huntil], ?_⟩
    have hsince := h.since
    obtain ⟨_, -, rfl⟩ := map_eq_some_iff.mp hstep
    simp only [hyield, Bool.or_false]
    split
    · rw [BitVec.toNat_add, huptime, show (5 : Word).toNat = 5 from rfl, Nat.succ_sub hsince]
      omega
    · exact huptime
  have hstay : ((s'.machine.taskPc r.task).mode = .marked ∨ ∃ c, place' r.task = .list (.inr (.sleeping c))) →
      s'.Waits place' r := fun hstage => ⟨hused, hstage, h.since.trans hticks, hclock⟩
  rcases h.stage with hmarked | ⟨c, hplace⟩
  · -- the task can only go on to its insertion into the list
    refine .inr (hstay ?_)
    have hact := he.act r.task
    generalize s.machine.taskPc r.task = p at hact hmarked
    generalize s'.machine.taskPc r.task = q at hact
    cases hact with
    | stay => exact .inl hmarked
    | new hunused => simp [h.used] at hunused
    | sleep c cpu direct q hat hq hplace => exact .inr ⟨cpu, hplace⟩
    | _ => cases hmarked
  · have hmove := hinv.move he r.task
    rw [hplace] at hmove
    generalize hq : place' r.task = q at hmove
    cases hmove with
    | stay => exact .inr (hstay (.inr ⟨c, hq⟩))
    | expire c now frame locked ha hdue =>
      have hnow : now = s.uptime := by
        cases a with
        | advance =>
          cases ha
          rfl
        | _ => cases ha
      exact .inl ((h.slept (hnow ▸ hdue)).mono hticks)

lemma mem_asleepAfter (hr : r ∈ s.asleepAfter a) : r ∈ s.asleep ∨ ∃ c now frame locked x, a = .advance c now frame locked ∧
    s.machine.sleeps c = some x ∧ r = ⟨x.1, s.ticks, x.2⟩ := by
  cases a with
  | advance c now frame locked =>
    simp only [asleepAfter] at hr
    split at hr
    · rename_i t ms hsleeps
      rcases mem_cons.mp hr with rfl | hr
      · exact .inr ⟨c, now, frame, locked, (t, ms), rfl, hsleeps, rfl⟩
      · exact .inl (mem_of_mem_filter (mem_of_mem_filter hr))
    · exact .inl (mem_of_mem_filter hr)
  | _ => exact .inl hr

lemma waits_of_call {c : K} {now frame : Word} {locked : Bool} {x : Word × Word} (hinv : Inv s.machine place)
    (hsleeps : s.machine.sleeps c = some x) (hwrap : s.uptime.toNat + x.2.toNat < 2 ^ 64)
    (hstep : s.step (.advance c now frame locked) = some s') : s'.Waits place' ⟨x.1, s.ticks, x.2⟩ := by
  obtain ⟨cpu, direct, hat⟩ := sleeps_at hsleeps
  have hyields : s.machine.yieldsOn c = false := by
    simp [yieldsOn, hat.current, hat.pc]
  have hmark : s.machine.step (.advance c s.uptime frame locked) =
      some ((s.machine.onSys fun y => (y.setState x.1 .sleeping).setSleepUntil x.1 (s.uptime + x.2)).taskGoto x.1
        (.sleepMarked cpu direct)) := by
    have hcurrent : (s.machine.sys.cpus c).currentTask = some x.1 := hat.current
    simp only [Machine.step, hat.cpu, hcurrent, bind_some, taskStep, hat.pc]
  rw [step, show Action.atTime s.uptime (.advance c now frame locked) = .advance c s.uptime frame locked from rfl,
    hmark] at hstep
  simp only [map_some, Machine.ticks, yieldTicks, hyields, Bool.and_false, Bool.or_false, Bool.false_eq_true, if_false,
    Option.some.injEq] at hstep
  subst hstep
  refine ⟨hinv.sound.current_used c x.1 hat.current, .inl ?_, le_rfl, s.uptime.toNat, hwrap, ?_, ?_⟩
  · simp [taskGoto, TaskPc.mode]
  · simpa [taskGoto, onSys, Cpus.setSleepUntil, Cpus.onTask] using hwrap
  · simp [Nat.mod_eq_of_lt s.uptime.isLt]

def Timely (s : Clocked K M) (place : Word → Place K M) : Prop := ∀ r ∈ s.asleep, s.Slept r ∨ s.Waits place r

lemma Timely.step (h : s.Timely place) (hsteady : s.Steady a) (hinv : Inv s.machine place) (hstep : s.step a = some s')
    (he : Machine.Effect s.machine place (a.atTime s.uptime) s'.machine place') : s'.Timely place' := by
  intro r hr
  have hasleep : s'.asleep = s.asleepAfter a := by
    obtain ⟨_, -, rfl⟩ := map_eq_some_iff.mp hstep
    rfl
  rcases mem_asleepAfter (hasleep ▸ hr) with hr | ⟨c, now, frame, locked, x, rfl, hsleeps, rfl⟩
  · by_cases hyield : s.machine.yieldTicks a = true
    · cases a with
      | advance => exact .inl ((hsteady.1 hyield r hr).mono (ticks_le hstep))
      | _ => cases hyield
    · rcases h r hr with hslept | hwaits
      · exact .inl (hslept.mono (ticks_le hstep))
      · exact hwaits.step hinv (Bool.eq_false_of_not_eq_true hyield) hstep he
  · exact .inr (waits_of_call hinv hsleeps (hsteady.2 x hsleeps) hstep)

lemma Timely.patient (h : s.Timely place) (hinv : Inv s.machine place) : s.Patient := by
  rintro a k t ha r hr rfl
  obtain ⟨_, hj⟩ := enqueues_hand ha
  have hplace := hinv.held hj
  refine (h r hr).resolve_right fun hwaits => ?_
  rcases hwaits.stage with hmarked | ⟨c', hsleeping⟩
  · simp [hinv.marked_nowhere hmarked] at hplace
  · simp [hsleeping] at hplace

variable {actions : List (Action K M)}

theorem sleepers_patient (h : Booted s.machine) (hnone : s.asleep = [])
    (hg : Runs.Guarded step (fun s a => s.Steady a ∧ s.machine.Apart a ∧ s.machine.Left a ∧ s.machine.Fresh a) s actions) :
    Runs.Always step Patient s actions := by
  have hstart : s.Timely fun _ => .nowhere := by
    intro r hr
    simp [hnone] at hr
  have halways : Runs.Always step (fun s => ∃ place, Inv s.machine place ∧ s.Timely place) s actions := by
    refine Runs.invariant ?_ ⟨_, h.inv, hstart⟩ hg
    rintro s a s' ⟨place, hinv, htimely⟩ ⟨hsteady, hpermit⟩ hstep
    obtain ⟨hapart, hleft, hfresh⟩ := permit_atTime s.uptime hpermit
    obtain ⟨m, hm, hs'⟩ := map_eq_some_iff.mp hstep
    have hmachine : s'.machine = m := by rw [← hs']
    obtain ⟨place', he, hinv'⟩ := hinv.step hapart hleft hfresh hm
    rw [← hmachine] at he hinv'
    exact ⟨place', hinv', htimely.step hsteady hinv hstep he⟩
  apply halways.mono
  rintro s ⟨place, hinv, htimely⟩
  exact htimely.patient hinv

instance (s : Clocked K M) : (a : Action K M) → Decidable (s.Steady a)
  | .advance c _ _ _ =>
    have : Decidable (∀ r ∈ s.asleep, s.Slept r) := List.decidableBAll _ _
    have : Decidable (∀ x ∈ s.machine.sleeps c, s.uptime.toNat + x.2.toNat < 2 ^ 64) := Option.decidableForallMem _
    inferInstanceAs (Decidable ((s.machine.yieldTicks _ = true → _) ∧ _))
  | .timer _ | .keyboard _ _ | .call _ _ => .isTrue trivial

def twoCpusClock : Clocked (Fin 2) Unit := ⟨Machine.twoCpus, 0, 0, []⟩

def stealUser : List (Machine.Action (Fin 2) Unit) :=
  [.call 0 (.create 0x400 true 0 0 0)] ++ advances 0 1 ++ [.timer 1] ++ advances 1 7

def wakeOn1 : List (Machine.Action (Fin 2) Unit) := [.timer 1] ++ advances 1 2

lemma not_patient {c : Fin 2} {n : ℕ} {actions : List (Machine.Action (Fin 2) Unit)} (hlate : 5 * (n - r.since) < r.ms.toNat)
    (hrun : ∃ s ∈ Runs.run step twoCpusClock actions, s.machine.enqueues (.advance c 0 0 true) = some (c, r.task) ∧
    s.asleep = [r] ∧ s.ticks = n) : ∃ s, Runs.run step twoCpusClock actions = some s ∧ ¬ s.Patient := by
  obtain ⟨s, hs, henqueues, hasleep, hticks⟩ := hrun
  refine ⟨s, hs, fun hpatient => ?_⟩
  have hslept := hpatient _ c r.task henqueues r (by simp [hasleep]) rfl
  rw [Slept, hticks] at hslept
  omega

theorem sleepers_early :
    (∃ s, Runs.run step twoCpusClock ([.call 0 (.sleep 5 false)] ++ advances 0 5) = some s ∧ ¬ s.Patient) ∧
    ∃ s, Runs.run step twoCpusClock
      (stealUser ++ [.timer 0] ++ advances 0 1 ++ [.call 1 (.sleep (-1) true)] ++ advances 1 40 ++ wakeOn1) = some s ∧
      ¬ s.Patient := by
  constructor
  · exact not_patient (c := 0) (r := ⟨0x300, 0, 5⟩) (n := 0) (by decide) (by decide +kernel)
  · exact not_patient (c := 1) (r := ⟨0x400, 1, -1⟩) (n := 1) (by decide) (by decide +kernel)

theorem sleepers_patient_twoCpus :
    Runs.Guarded step (fun s a => s.Steady a ∧ s.machine.Apart a ∧ s.machine.Left a ∧ s.machine.Fresh a) twoCpusClock
      (stealUser ++ [.call 1 (.sleep 5 true)] ++ advances 1 40 ++ [.timer 0] ++ advances 0 1 ++ wakeOn1) ∧
    Runs.Always step Patient twoCpusClock
      (stealUser ++ [.call 1 (.sleep 5 true)] ++ advances 1 40 ++ [.timer 0] ++ advances 0 1 ++ wakeOn1) := by
  have hg : Runs.Guarded step (fun s a => s.Steady a ∧ s.machine.Apart a ∧ s.machine.Left a ∧ s.machine.Fresh a) twoCpusClock
      (stealUser ++ [.call 1 (.sleep 5 true)] ++ advances 1 40 ++ [.timer 0] ++ advances 0 1 ++ wakeOn1) := by
    decide +kernel
  exact ⟨hg, sleepers_patient booted_twoCpus rfl hg⟩

end Clocked

end KernelSmp.Sched
