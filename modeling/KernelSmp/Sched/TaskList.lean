import KernelSmp.Base.LinkedList
import KernelSmp.Base.LinkedQueue
import KernelSmp.Base.Runs

/-! The list of all tasks: `task_register` adds a task before `root_task`, and the reaper takes out the dead. -/

namespace KernelSmp.Sched.TaskList

open Base Base.LinkedList Base.LinkedQueue Base.Runs Function List Option

variable {Task : Type} [DecidableEq Task]

structure State (Task : Type) where
  rootTask : Option Task
  next : Task → Option Task
  prev : Task → Option Task
  schedNext : Task → Option Task
  deadTaskList : Option Task
  toClean : Option Task

def schedInit (mainTask : Task) : State Task where
  rootTask := some mainTask
  next := update (fun _ => none) mainTask (some mainTask)
  prev := update (fun _ => none) mainTask (some mainTask)
  schedNext := fun _ => none
  deadTaskList := none
  toClean := none

def taskRegister (s : State Task) (t : Task) : Option (State Task) := do
  let head ← s.rootTask
  let tail ← s.prev head
  let next := update s.next t (some head)
  let prev := update s.prev t (some tail)
  return { s with next := update next tail (some t), prev := update prev head (some t) }

def taskExit (s : State Task) (t : Task) : State Task :=
  { s with schedNext := update s.schedNext t s.deadTaskList, deadTaskList := some t }

def cleanUp (s : State Task) : Option (State Task) := do
  let t ← s.toClean
  let p ← s.prev t
  let n ← s.next t
  return { s with
    next := update s.next p (some n)
    prev := update s.prev n (some p)
    rootTask := if s.rootTask = some t then if n = t then none else some n else s.rootTask
    toClean := s.schedNext t }

/-- A pass of `sched_reap` takes the dead and then cleans them up one by one. The queues of the scheduler use `sched_next` of
the tasks that have not exited, and the memory of a task that is not registered may hold anything. -/
inductive Action (Task : Type)
  | taskRegister (t : Task)
  | taskExit (t : Task)
  | schedReap
  | cleanUp
  | queue (t : Task) (schedNext : Option Task)
  | reuse (t : Task) (next prev : Option Task)

def step (s : State Task) : Action Task → Option (State Task)
  | .taskRegister t => taskRegister s t
  | .taskExit t => some (taskExit s t)
  | .schedReap => some { s with toClean := s.deadTaskList, deadTaskList := none }
  | .cleanUp => cleanUp s
  | .queue t v => some { s with schedNext := update s.schedNext t v }
  | .reuse t n p => some { s with next := update s.next t n, prev := update s.prev t p }

structure Tasks (Task : Type) where
  registered : List Task
  dead : List Task
  cleaning : List Task
deriving DecidableEq

def Tasks.step (mainTask : Task) (a : Tasks Task) : Action Task → Option (Tasks Task)
  | .taskRegister t => if t ∉ mainTask :: a.registered then some { a with registered := a.registered ++ [t] } else none
  | .taskExit t =>
    if t ∈ a.registered ∧ t ∉ a.dead ++ a.cleaning then some { a with dead := t :: a.dead } else none
  | .schedReap => if a.cleaning = [] then some { a with cleaning := a.dead, dead := [] } else none
  | .cleanUp =>
    match a.cleaning with
    | [] => none
    | t :: rest => some { a with registered := a.registered.erase t, cleaning := rest }
  | .queue t _ => if t ∉ a.dead ++ a.cleaning then some a else none
  | .reuse t _ _ => if t ∉ mainTask :: a.registered then some a else none

structure Rep (mainTask : Task) (s : State Task) (a : Tasks Task) : Prop where
  root : s.rootTask = some mainTask
  circle : Circle s.next s.prev mainTask a.registered
  dead : Chain s.schedNext s.deadTaskList a.dead none
  cleaning : Chain s.schedNext s.toClean a.cleaning none
  exited : ∀ t ∈ a.dead ++ a.cleaning, t ∈ a.registered
  nodup : (a.dead ++ a.cleaning).Nodup

variable {mainTask : Task} {s : State Task} {a a' : Tasks Task} {t : Task}

lemma rep_schedInit (mainTask : Task) : Rep mainTask (schedInit mainTask) ⟨[], [], []⟩ where
  root := rfl
  circle := ⟨by simp [schedInit, Linked], nodup_singleton mainTask⟩
  dead := rfl
  cleaning := rfl
  exited := fun _ ht => nomatch ht
  nodup := nodup_nil

lemma Rep.queue (h : Rep mainTask s a) (ht : t ∉ a.dead ++ a.cleaning) (v : Option Task) :
    Chain (update s.schedNext t v) s.deadTaskList a.dead none ∧ Chain (update s.schedNext t v) s.toClean a.cleaning none := by
  have hkept : ∀ b ∈ a.dead ++ a.cleaning, update s.schedNext t v b = s.schedNext b := by
    rintro b hb
    refine update_of_ne ?_ _ _
    rintro rfl
    exact ht hb
  exact ⟨h.dead.congr fun b hb => hkept b (mem_append_left _ hb),
    h.cleaning.congr fun b hb => hkept b (mem_append_right _ hb)⟩

lemma Rep.taskRegister (h : Rep mainTask s a) (ht : t ∉ mainTask :: a.registered) :
    ∃ s', taskRegister s t = some s' ∧ Rep mainTask s' { a with registered := a.registered ++ [t] } := by
  obtain ⟨_, htail, -⟩ := bind_eq_some_iff.mp (h.circle.inverse mem_cons_self).2
  simp only [TaskList.taskRegister, h.root, bind_eq_bind, bind_some, htail]
  refine ⟨_, rfl, ⟨rfl, h.circle.insert ht htail, h.dead, h.cleaning, fun b hb => ?_, h.nodup⟩⟩
  exact mem_append_left _ (h.exited b hb)

lemma Rep.cleanUp {rest : List Task} (h : Rep mainTask s a) (hcleaning : a.cleaning = t :: rest) :
    ∃ s', cleanUp s = some s' ∧ Rep mainTask s' { a with registered := a.registered.erase t, cleaning := rest } := by
  have hchain := h.cleaning
  have hnodup := h.nodup
  rw [hcleaning] at hchain hnodup
  obtain ⟨hfirst, hrest⟩ := hchain
  have ht : t ∈ a.registered := h.exited t (by rw [hcleaning]; exact mem_append_right _ mem_cons_self)
  obtain ⟨l₁, l₂, hl⟩ := append_of_mem ht
  obtain ⟨hmain, hregistered⟩ := nodup_cons.mp h.circle.nodup
  have herase : a.registered.erase t = l₁ ++ l₂ := by
    rw [hl] at hregistered ⊢
    rw [erase_append_right _ fun hmem => (nodup_append'.mp hregistered).2.2 hmem mem_cons_self,
      erase_cons_head]
  obtain ⟨hnext, hprev⟩ := h.circle.inverse (mem_cons_of_mem mainTask ht)
  obtain ⟨_, hn, -⟩ := bind_eq_some_iff.mp hnext
  obtain ⟨_, hp, -⟩ := bind_eq_some_iff.mp hprev
  have hcircle := h.circle
  rw [hl] at hcircle
  simp only [TaskList.cleanUp, hfirst, bind_eq_bind, bind_some, hp, hn]
  refine ⟨_, rfl, ⟨?_, ?_, h.dead, hrest, fun b hb => ?_, ?_⟩⟩
  · refine (if_neg ?_).trans h.root
    rw [h.root, Option.some.injEq]
    rintro rfl
    exact hmain ht
  · rw [herase]
    exact hcircle.remove hp hn
  · have hbt : b ≠ t := by
      rintro rfl
      rw [nodup_middle, nodup_cons] at hnodup
      exact hnodup.1 hb
    refine (mem_erase_of_ne hbt).mpr (h.exited b ?_)
    rw [hcleaning, mem_append, mem_cons]
    exact (mem_append.mp hb).imp_right .inr
  · exact hnodup.sublist ((sublist_cons_self t rest).append_left a.dead)

lemma Rep.step (h : Rep mainTask s a) {action : Action Task} (ha : Tasks.step mainTask a action = some a') :
    ∃ s', TaskList.step s action = some s' ∧ Rep mainTask s' a' := by
  cases action with
  | taskRegister =>
    obtain ⟨ht, ⟨⟩⟩ := ite_none_right_eq_some.mp ha
    exact h.taskRegister ht
  | taskExit t =>
    obtain ⟨⟨ht, hnew⟩, ⟨⟩⟩ := ite_none_right_eq_some.mp ha
    obtain ⟨hdead, hcleaning⟩ := h.queue hnew s.deadTaskList
    refine ⟨_, rfl, ⟨h.root, h.circle, ⟨rfl, ?_⟩, hcleaning, fun b hb => ?_, nodup_cons.mpr ⟨hnew, h.nodup⟩⟩⟩
    · change Chain _ (update s.schedNext t s.deadTaskList t) a.dead none
      rwa [update_self]
    · rcases mem_cons.mp hb with rfl | hb
      · exact ht
      · exact h.exited b hb
  | schedReap =>
    obtain ⟨hcleaning, ⟨⟩⟩ := ite_none_right_eq_some.mp ha
    have hexited := h.exited
    have hnodup := h.nodup
    rw [hcleaning, append_nil] at hexited hnodup
    exact ⟨_, rfl, ⟨h.root, h.circle, rfl, h.dead, hexited, hnodup⟩⟩
  | cleanUp =>
    cases hcleaning : a.cleaning with
    | nil => simp [Tasks.step, hcleaning] at ha
    | cons =>
      simp only [Tasks.step, hcleaning, Option.some.injEq] at ha
      subst ha
      exact h.cleanUp hcleaning
  | queue t v =>
    obtain ⟨ht, ⟨⟩⟩ := ite_none_right_eq_some.mp ha
    obtain ⟨hdead, hcleaning⟩ := h.queue ht v
    exact ⟨_, rfl, ⟨h.root, h.circle, hdead, hcleaning, h.exited, h.nodup⟩⟩
  | reuse t n p =>
    obtain ⟨ht, ⟨⟩⟩ := ite_none_right_eq_some.mp ha
    have hne : ∀ b ∈ mainTask :: a.registered, b ≠ t := by
      rintro b hb rfl
      exact ht hb
    have hcircle : Circle (update s.next t n) (update s.prev t p) mainTask a.registered :=
      h.circle.congr (fun b hb => update_of_ne (hne b hb) _ _) fun b hb => update_of_ne (hne b hb) _ _
    exact ⟨_, rfl, ⟨h.root, hcircle, h.dead, h.cleaning, h.exited, h.nodup⟩⟩

lemma Rep.run (h : Rep mainTask s a) {as : List (Action Task)} (ha : Runs.run (Tasks.step mainTask) a as = some a') :
    ∃ s', Runs.run TaskList.step s as = some s' ∧ Rep mainTask s' a' := by
  induction as generalizing s a with
  | nil =>
    cases ha
    exact ⟨s, rfl, h⟩
  | cons action as ih =>
    obtain ⟨_, hb, hrest⟩ := run_cons ha
    obtain ⟨_, ht, hrep⟩ := h.step hb
    obtain ⟨s', hs', hrep'⟩ := ih hrep hrest
    exact ⟨s', by rw [Runs.run, ht, bind_some, hs'], hrep'⟩

theorem task_list_circle (mainTask : Task) (as : List (Action Task)) {a : Tasks Task}
    (h : run (Tasks.step mainTask) ⟨[], [], []⟩ as = some a) :
    ∃ s, run step (schedInit mainTask) as = some s ∧ s.rootTask = some mainTask ∧
      Circle s.next s.prev mainTask a.registered ∧
      ∀ t ∈ mainTask :: a.registered, (s.next t).bind s.prev = some t ∧ (s.prev t).bind s.next = some t := by
  obtain ⟨s, hs, hrep⟩ := (rep_schedInit mainTask).run h
  exact ⟨s, hs, hrep.root, hrep.circle, fun t ht => hrep.circle.inverse ht⟩

theorem task_list_circle_reaped : ∃ s, run step (schedInit 0)
    [.taskRegister 1, .taskRegister 2, .taskRegister 3, .taskExit 1, .taskExit 3, .schedReap, .cleanUp, .taskRegister 4,
      .cleanUp] = some s ∧ s.rootTask = some 0 ∧ Circle s.next s.prev 0 [2, 4] ∧
      ∀ t ∈ [0, 2, 4], (s.next t).bind s.prev = some t ∧ (s.prev t).bind s.next = some t :=
  task_list_circle 0 [.taskRegister 1, .taskRegister 2, .taskRegister 3, .taskExit 1, .taskExit 3, .schedReap, .cleanUp,
    .taskRegister 4, .cleanUp] (a := ⟨[2, 4], [], []⟩) (by decide)

end KernelSmp.Sched.TaskList
