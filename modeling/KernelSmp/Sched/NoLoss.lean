import KernelSmp.Sched.Mutexes
import KernelSmp.Sched.Wakeups

/-! Every task that does not run is in a list from which it can be woken. -/

namespace KernelSmp.Sched.Machine

set_option linter.unusedSectionVars false

open Base Base.LinkedQueue Base.Dispatch Function Atomic Drivers List

variable {K M : Type} [DecidableEq K] [DecidableEq M]

def TaskPc.exposed : TaskPc K M → Bool
  | .sleepMarked _ _ => true
  | .waking _ => true
  | .enqueue _ _ => true
  | _ => false

/-- No timer interrupt comes while the current task is between two lists or holds another one that is. -/
def Undisturbed (s : Machine K M) : Action K M → Prop
  | .timer c => ∀ t, s.current c = some t → TaskPc.exposed (s.taskPc t) = false
  | _ => True

def CpuPc.keeps : CpuPc K → Bool
  | .schedule .begin => true
  | .schedule _ => false
  | _ => true

lemma left_of_searching {p : CpuPc K} (hp : p.searching = true) : CpuPc.keeps p = false ∧ p.back = false := by
  cases p with
  | schedule stage => cases stage <;> simp_all [CpuPc.searching, CpuPc.keeps, CpuPc.back]
  | _ => cases hp

structure Has (s : Machine K M) (c : K) (x : Word) : Prop where
  current : s.current c = some x
  keeps : CpuPc.keeps (s.cpuPc c) = true
  state : s.stateOf x = .running ∨ (s.taskPc x).mode = .marked ∧ (s.cpuPc c).back = true

structure NoLoss (s : Machine K M) (place : Word → Place K M) : Prop where
  carry : ∀ t, (s.taskPc t).hand ≠ none → ∃ c, s.current c = some t ∧ (s.cpuPc c).back = true
  nowhere : ∀ x, s.used x = true → (∀ c, s.idle c ≠ x) → place x = .nowhere → ∃ c, s.Has c x
  priorities : ∀ x, s.used x = true → (∀ c, s.idle c ≠ x) → (s.sys.tasks x).priority < 3 ∧ (s.sys.tasks x).basePriority < 3
  levels : ∀ x c p, place x = .list (.inl (c, p)) → p ≠ 3

variable {s s' : Machine K M} {place place' : Word → Place K M} {a : Action K M} {x t : Word} {c : K}

section effect

variable (h : Inv s place) (he : Effect s place a s' place')

include he

lemma Effect.hand_cases (hhand : (s'.taskPc t).hand ≠ none) :
    s'.taskPc t = s.taskPc t ∨ ∃ c, s'.current c = some t ∧ s'.cpuPc c = .task := by
  have hact := he.act t
  generalize s.taskPc t = o, s'.taskPc t = q at hact hhand
  cases hact with
  | stay => exact .inl rfl
  | enter c p hat hidle hlist hno => exact absurd hno hhand
  | unlockWake c u hat => exact .inr ⟨c, hat.keeps, hat.after⟩
  | create c u hat => exact .inr ⟨c, hat.keeps, hat.after⟩
  | ready c u k hat => exact .inr ⟨c, hat.keeps, hat.after⟩
  | sleep c cpu direct q hat hq =>
    rcases hq with rfl | rfl
    · exact absurd rfl hhand
    · exact absurd rfl hhand
  | yield c next => cases next <;> exact absurd rfl hhand
  | _ => exact absurd rfl hhand

lemma Effect.marked_stays (hx' : place' x = .nowhere) (hused : s.used x = true) (hmarked : (s.taskPc x).mode = .marked) :
    (s'.taskPc x).mode = .marked := by
  have hact := he.act x
  generalize s.taskPc x = o, s'.taskPc x = q at hact hmarked
  cases hact with
  | stay => exact hmarked
  | new hunused => simp [hused] at hunused
  | sleep c cpu direct q hat hq hplace => simp [hplace] at hx'
  | _ => cases hmarked

include h

lemma Effect.running_stays (hx' : place' x = .nowhere) (hrun : s.stateOf x = .running) :
    s'.stateOf x = .running ∨ (s'.taskPc x).mode = .marked ∧ ∃ c, s.current c = some x ∧ s'.cpuPc c = .task := by
  rcases he.state_cases h x with hsame | ⟨-, hgone⟩ | hfresh
  · exact .inl (hsame.trans hrun)
  · rw [hx'] at hgone
    cases hgone
  · exact hfresh.why.imp_right fun hwhy => hwhy.resolve_left (absurd hx')

end effect

lemma Turn.back_cases {p p' : CpuPc K} (hturn : Turn s s' place' a c p p') (hback : p.back = true) :
    p'.back = true ∨ a = .timer c ∨ (∃ t next, s.At c t (.yield next)) ∨ ∃ t, s.At c t .reschedule := by
  cases hturn with
  | stay => exact .inl hback
  | timer ha => exact .inr (.inl ha)
  | yield t next hat => exact .inr (.inr (.inl ⟨t, next, hat⟩))
  | reschedule t hat => exact .inr (.inr (.inr ⟨t, hat⟩))
  | take => exact .inl hback
  | wakeOn => exact .inl hback
  | typed => exact .inl rfl
  | wakeup => exact .inl rfl
  | readersDone => exact .inl rfl
  | pick p t hp => simp [(left_of_searching hp).2] at hback
  | search p stage hp => simp [(left_of_searching hp).2] at hback
  | _ => cases hback

lemma Has.effect (hhas : s.Has c x) (hquiet : s.Undisturbed a) (h : Inv s place) (he : Effect s place a s' place')
    (h' : Inv s' place')
    (hused : s.used x = true) (hpriority : (s.sys.tasks x).priority < 3) (hx' : place' x = .nowhere) : s'.Has c x := by
  have hkeeps := hhas.keeps
  have hwas := hhas.state
  rcases h.turn he c with ⟨hsame, hturn⟩ | ⟨u, hswitch⟩
  swap
  · -- the CPU has already given the task up when it switches
    rcases hswitch.before with ⟨hbefore, -⟩ | hbefore
    · rw [hbefore] at hkeeps
      cases hkeeps
    · rw [hbefore] at hkeeps
      cases hkeeps
  -- the task runs on, or it has announced that it will sleep and its CPU goes on with it
  have hstate : s'.stateOf x = .running ∨
      (s'.taskPc x).mode = .marked ∧ ((s'.cpuPc c).back = true ∨ (s.taskPc x).mode = .marked ∧ (s.cpuPc c).back = true) := by
    rcases hwas with hrun | ⟨hmarked, hback⟩
    · refine (he.running_stays h hx' hrun).imp_right fun ⟨hmarked, c', hc', htask⟩ => ⟨hmarked, .inl ?_⟩
      rw [← h.sound.current_unique c' c x hc' hhas.current, htask]
      rfl
    · exact .inr ⟨he.marked_stays hx' hused hmarked, .inr ⟨hmarked, hback⟩⟩
  have hplaced : (s'.cpuPc c).hand ≠ some x := by
    intro hhand
    rw [h'.held (k := .cpu c) hhand] at hx'
    cases hx'
  refine ⟨hsame.trans hhas.current, ?_, ?_⟩
  · generalize s.cpuPc c = p, s'.cpuPc c = p' at hturn hkeeps hwas hplaced
    cases hturn with
    | stay => exact hkeeps
    | publish t ht =>
      cases hhas.current.symm.trans ht
      exact absurd rfl hplaced
    | pass t ht hnot =>
      cases hhas.current.symm.trans ht
      rcases hwas with hrun | ⟨-, hback⟩
      · rw [hnot hrun] at hpriority
        omega
      · cases hback
    | noTask hnone => cases hhas.current.symm.trans hnone
    | pick p t hp => simp [(left_of_searching hp).1] at hkeeps
    | search p stage hp => simp [(left_of_searching hp).1] at hkeeps
    | requeue => cases hkeeps
    | affinity => cases hkeeps
    | _ => rfl
  · rcases hstate with hrun | ⟨hmarked', hback | ⟨hmarked, hback⟩⟩
    · exact .inl hrun
    · exact .inr ⟨hmarked', hback⟩
    · refine .inr ⟨hmarked', ?_⟩
      have hat : ∀ {t o}, s.At c t o → o.mode = .marked := by
        intro t o hat
        cases hhas.current.symm.trans hat.current
        rwa [hat.pc] at hmarked
      rcases hturn.back_cases hback with hback' | rfl | ⟨t, next, hyield⟩ | ⟨t, hre⟩
      · exact hback'
      · have hexposed := hquiet x hhas.current
        generalize s.taskPc x = q at hexposed hmarked
        cases q with
        | sleepMarked => cases hexposed
        | _ => cases hmarked
      · cases hat hyield
      · cases hat hre

lemma NoLoss.effect (hn : NoLoss s place) (hquiet : s.Undisturbed a) (h : Inv s place) (he : Effect s place a s' place')
    (h' : Inv s' place') : NoLoss s' place' := by
  have hnew : ∀ x, s'.used x = true → s.used x = false → ∃ t, place' x = .hand (.task t) := by
    intro x hused hunused
    obtain ⟨-, -, -, -, -, -, t, k, hpc⟩ := he.created hunused hused
    exact ⟨t, h'.held (by rw [hands, hpc]; rfl)⟩
  have hplaced : ∀ {x}, place x ≠ .nowhere → (s.sys.tasks x).basePriority < 3 := by
    intro x hx
    refine (hn.priorities x (h.sound.spot_used x fun hspot => hx (Place.eq_nowhere hspot)) ?_).2
    rintro c rfl
    exact hx (Place.eq_nowhere (h.sound.idle_nowhere c))
  have hlevel : ∀ {n : ℕ}, n < 3 → levelOf n ≠ 3 := by
    intro n hn
    interval_cases n <;> decide
  refine ⟨fun t hhand => ?_, fun x hused hidle hx' => ?_, fun x hused hidle => ?_, fun x c p hx' => ?_⟩
  · rcases he.hand_cases hhand with hsame | ⟨c, hc, hpc⟩
    · rw [hsame] at hhand
      obtain ⟨c, hc, hback⟩ := hn.carry t hhand
      refine ⟨c, ?_⟩
      have hat : ∀ {u o}, s.At c u o → o.hand ≠ none := by
        intro u o hat
        cases hc.symm.trans hat.current
        rwa [hat.pc] at hhand
      rcases h.turn he c with ⟨hkeep, hturn⟩ | ⟨u, hswitch⟩
      · refine ⟨hkeep.trans hc, ?_⟩
        rcases hturn.back_cases hback with hback' | rfl | ⟨u, next, hyield⟩ | ⟨u, hre⟩
        · exact hback'
        · have hexposed := hquiet t hc
          generalize s.taskPc t = q at hexposed hhand
          cases q with
          | waking => cases hexposed
          | enqueue => cases hexposed
          | _ => exact absurd rfl hhand
        · exact absurd rfl (hat hyield)
        · exact absurd rfl (hat hre)
      · rcases hswitch.before with ⟨hbefore, -⟩ | hbefore
        · rw [hbefore] at hback
          cases hback
        · rw [hbefore] at hback
          cases hback
    · exact ⟨c, hc, by rw [hpc]; rfl⟩
  · have hwas : s.used x = true := by
      by_contra hunused
      obtain ⟨t, ht⟩ := hnew x hused (by simpa using hunused)
      cases hx'.symm.trans ht
    rw [he.idle_eq] at hidle
    have hmove := h.move he x
    rw [hx'] at hmove
    generalize hp : place x = q at hmove
    cases hmove with
    | stay =>
      obtain ⟨c, hhas⟩ := hn.nowhere x hwas hidle hp
      exact ⟨c, hhas.effect hquiet h he h' hwas (hn.priorities x hwas hidle).1 hx'⟩
    | free t hunused => simp [hused] at hunused
    | switch c =>
      have hpc := next_eq_some.mp (h.hands_eq hp)
      refine ⟨c, ?_⟩
      rcases h.turn he c with ⟨-, hturn⟩ | ⟨u, hswitch⟩
      · -- the task would still be in the hands of the CPU
        rw [hpc] at hturn
        generalize hc' : s'.cpuPc c = p' at hturn
        cases hturn with
        | stay => cases hx'.symm.trans (h'.held (k := .next c) (next_eq_some.mpr hc'))
        | pick p t hp => cases hp
        | search p stage hp => cases hp
      · obtain rfl : x = u := by
          rcases hswitch.before with ⟨hbefore, -⟩ | hbefore
          · cases hpc.symm.trans hbefore
          · simpa using hpc.symm.trans hbefore
        exact ⟨hswitch.current, by rw [hswitch.after]; rfl, .inl hswitch.running⟩
  · rw [he.idle_eq] at hidle
    by_cases hwas : s.used x = true
    · have hbefore := hn.priorities x hwas hidle
      rcases he.core_cases h x with hcore | ⟨-, hcore⟩ | ⟨hunused, -⟩
      · rw [Task.core, Task.core] at hcore
        simp only [Prod.mk.injEq] at hcore
        rwa [hcore.2.1, hcore.2.2]
      · rw [Task.core] at hcore
        simp only [Prod.mk.injEq] at hcore
        rw [hcore.2.1, hcore.2.2]
        exact ⟨hbefore.2, hbefore.2⟩
      · simp [hwas] at hunused
    · obtain ⟨_, user, _, _, _, htask, -⟩ := he.created (by simpa using hwas) hused
      rw [htask]
      cases user <;> simp [newTask]
  · have hmove := h.move he x
    rw [hx'] at hmove
    generalize hp : place x = q at hmove
    cases hmove with
    | stay => exact hn.levels x c p hp
    | register => exact hlevel (hplaced (by simp [hp]))
    | enqueue => exact hlevel (hplaced (by simp [hp]))
    | boost c hlt => exact ne_of_lt (hlt.trans_le (Fin.le_last _))

def sleepers (s : Machine K M) (c : K) : List Word := follow (nextOf s.sys) walkFuel (s.sys.cpus c).sleepingList

def Linked (s : Machine K M) (c : K) (x : Word) : Prop :=
  (∃ p ∈ levels, x ∈ queue s.sys c p) ∨ x ∈ s.sleepers c ∨ x ∈ s.blockedTasks ∨ ∃ m, x ∈ s.waitList m

lemma Booted.noLoss (h : Booted s) : NoLoss s fun _ => .nowhere := by
  refine ⟨fun t ht => ?_, fun x hused hidle _ => ?_, fun x hused hidle => ?_, fun x c p hx => by cases hx⟩
  · rw [h.taskPc] at ht
    exact absurd rfl ht
  · obtain ⟨⟨c, hc⟩, -⟩ := h.main x hused hidle
    exact ⟨c, hc, by rw [h.cpuPc]; rfl, .inl (h.running x hused)⟩
  · obtain ⟨-, hpriority, hbase⟩ := h.main x hused hidle
    rw [hpriority, hbase]
    decide

lemma NoLoss.linked [Subsingleton K] (hn : NoLoss s place) (h : Inv s place) (hpc : s.cpuPc c = .task)
    (hhand : ∀ t, s.current c = some t → (s.taskPc t).hand = none) (hused : s.used x = true) (hstate : s.stateOf x ≠ .zombie)
    (hidle : s.idle c ≠ x) (hcurrent : s.current c ≠ some x) : s.Linked c x := by
  have hone : ∀ c', c' = c := fun c' => Subsingleton.elim c' c
  obtain ⟨_, hqueues, hothers, -, hlisted⟩ := h.lists
  cases hx : place x with
  | nowhere =>
    obtain ⟨c', hhas⟩ := hn.nowhere x hused (fun c' => by rwa [hone c']) hx
    rw [← hone c'] at hcurrent
    exact absurd hhas.current hcurrent
  | list i =>
    have hin := (hlisted i x).mpr hx
    rcases i with ⟨c', p⟩ | j
    · have hp := hn.levels x c' p hx
      rw [hone c'] at hin
      refine .inl ⟨p, ?_, by rwa [hqueues]⟩
      revert hp
      fin_cases p <;> decide
    · cases j with
      | sleeping c' =>
        rw [hone c', ← hothers] at hin
        exact .inr (.inl hin)
      | blocked =>
        rw [← hothers] at hin
        exact .inr (.inr (.inl hin))
      | wait m =>
        rw [← hothers] at hin
        exact .inr (.inr (.inr ⟨m, hin⟩))
      | toWake c' =>
        rw [← hothers, others, hone c', hpc] at hin
        cases hin
      | dead => exact absurd (h.gone_zombie x (by rw [hx]; rfl)) hstate
      | toClean => exact absurd (h.gone_zombie x (by rw [hx]; rfl)) hstate
  | hand k =>
    have hk := h.hands_eq hx
    cases k with
    | cpu c' =>
      rw [hands, hone c', hpc] at hk
      cases hk
    | next c' =>
      rw [hands, hone c', hpc] at hk
      cases hk
    | task t =>
      have hne : (s.taskPc t).hand ≠ none := by
        rw [show (s.taskPc t).hand = some x from hk]
        simp
      obtain ⟨c', hc', -⟩ := hn.carry t hne
      rw [hone c'] at hc'
      exact absurd (hhand t hc') hne

theorem no_task_lost {s : Machine (Fin 1) M} {actions : List (Action (Fin 1) M)} (h : Booted s)
    (hg : Runs.Guarded step (fun s a => s.Undisturbed a ∧ s.Fresh a) s actions) :
    Runs.Always step (fun s => s.cpuPc 0 = .task → (∀ t, s.current 0 = some t → (s.taskPc t).hand = none) →
      ∀ x, s.used x = true → s.stateOf x ≠ .zombie → s.idle 0 ≠ x → s.current 0 ≠ some x → s.Linked 0 x) s actions := by
  have hpermit : ∀ (s : Machine (Fin 1) M) place a s', Inv s place → NoLoss s place → s.Undisturbed a ∧ s.Fresh a →
      step s a = some s' → s.Apart a ∧ s.Left a ∧ s.Fresh a := by
    intro s place a s' hinv _ hg hstep
    have hapart : s.Apart a := by
      cases a with
      | advance c now frame locked => exact fun t _ c' _ => Subsingleton.elim c' c
      | _ => trivial
    refine ⟨hapart, ?_, hg.2⟩
    cases a with
    | call c what =>
      cases what with
      | reap =>
        -- the reaper is the idle task, and it runs
        intro c' t ht
        obtain rfl : c = c' := Subsingleton.elim c c'
        rw [step, show (s.sys.cpus c).currentTask = some t from ht] at hstep
        simp only at hstep
        split at hstep
        · rename_i hpc
          rw [hinv.running ⟨hpc.1, ht, hpc.2⟩ rfl]
          simp
        · cases hstep
      | _ => trivial
    | _ => trivial
  have halways := h.always h.noLoss hpermit (fun s place a s' place' hinv hn hg he hinv' => hn.effect hg.1 hinv he hinv') hg
  apply halways.mono
  rintro s ⟨place, hinv, hn⟩ hpc hhand x hused hstate hidle hcurrent
  exact hn.linked hinv hpc hhand hused hstate hidle hcurrent

instance (s : Machine K M) : (a : Action K M) → Decidable (s.Undisturbed a)
  | .timer c => Option.decidableForallMem (p := fun t => TaskPc.exposed (s.taskPc t) = false) (s.current c)
  | .advance .. => .isTrue trivial
  | .keyboard _ _ => .isTrue trivial
  | .call _ _ => .isTrue trivial

def oneCpu : Machine (Fin 1) Unit := started ![0x100] 0x300 0

lemma booted_oneCpu : Booted oneCpu := booted_started 0 (by decide) (by decide)

def loseMain : List (Action (Fin 1) Unit) := [.call 0 (.sleep 1000 false)] ++ advances 0 1 ++ [.timer 0] ++ advances 0 39

theorem main_task_lost : ∃ s, Runs.run step oneCpu loseMain = some s ∧
    s.cpuPc 0 = .task ∧ s.current 0 = some 0x100 ∧ s.used 0x300 = true ∧ s.stateOf 0x300 = .sleeping ∧ ¬ s.Linked 0 0x300 := by
  refine Runs.exists_of_check (fun s => (s.cpuPc 0 = .task ∧ s.current 0 = some 0x100 ∧ s.used 0x300 = true ∧
    s.stateOf 0x300 = .sleeping) ∧ levels.map (queue s.sys 0) ++ [s.sleepers 0, s.blockedTasks, s.waitList ()] =
      List.replicate 6 []) (by decide +kernel) ?_
  rintro s hrun ⟨⟨hpc, hcurrent, hused, hsleeping⟩, hlists⟩
  refine ⟨hpc, hcurrent, hused, hsleeping, ?_⟩
  have hempty : ∀ l ∈ levels.map (queue s.sys 0) ++ [s.sleepers 0, s.blockedTasks, s.waitList ()], 0x300 ∉ l := by
    rw [hlists]
    decide
  rintro (⟨p, hp, hin⟩ | hin | hin | ⟨m, hin⟩)
  · exact hempty _ (mem_append_left _ (mem_map_of_mem hp)) hin
  · exact hempty _ (by simp) hin
  · exact hempty _ (by simp) hin
  · exact hempty _ (by simp) hin

theorem no_task_lost_oneCpu : ∃ s, Runs.run step oneCpu ([.call 0 (.sleep 1000 false)] ++ advances 0 42) = some s ∧
    s.current 0 = some 0x100 ∧ s.Linked 0 0x300 := by
  refine Runs.exists_of_check (fun s => (s.cpuPc 0 = .task ∧ s.stateOf 0x300 = .sleeping ∧ s.idle 0 = 0x100) ∧
    s.current 0 = some 0x100 ∧ s.used 0x300 = true ∧ (s.taskPc 0x100).hand = none) (by decide +kernel) ?_
  rintro s hrun ⟨⟨hpc, hsleeping, hidle⟩, hcurrent, hused, hhand⟩
  refine ⟨hcurrent, (no_task_lost booted_oneCpu (by decide +kernel)).last hrun hpc (fun t ht => ?_) 0x300 hused ?_ ?_ ?_⟩
  · cases hcurrent.symm.trans ht
    exact hhand
  · rw [hsleeping]
    simp
  · rw [hidle]
    decide
  · rw [hcurrent]
    decide

end KernelSmp.Sched.Machine
