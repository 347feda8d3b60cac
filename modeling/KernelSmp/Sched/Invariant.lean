import KernelSmp.Sched.Placed

/-! The machine as a board of tasks and CPUs, and the effects of its steps. -/

namespace KernelSmp.Sched

set_option linter.unusedSectionVars false

open Base Base.LinkedQueue Base.Dispatch Function Atomic Drivers

variable {K M : Type} [DecidableEq K] [DecidableEq M]

def Place.spot : Place K M → Spot K
  | .nowhere => .nowhere
  | .list (.inr .dead) => .dead
  | .list (.inr (.toClean _)) => .doomed
  | .hand (.next c) => .picked c
  | _ => .kept

lemma Place.eq_nowhere {q : Place K M} (h : q.spot = .nowhere) : q = .nowhere := by
  cases q with
  | nowhere => rfl
  | list i =>
    rcases i with i | j
    · cases h
    · cases j <;> cases h
  | hand k => cases k <;> cases h

lemma Place.eq_dead {q : Place K M} (h : q.spot = .dead) : q = .list (.inr .dead) := by
  cases q with
  | nowhere => cases h
  | list i =>
    rcases i with i | j
    · cases h
    · cases j with
      | dead => rfl
      | _ => cases h
  | hand k => cases k <;> cases h

def Place.gone : Place K M → Bool
  | .list (.inr .dead) => true
  | .list (.inr (.toClean _)) => true
  | _ => false

namespace Machine

def board (s : Machine K M) (place : Word → Place K M) : Board K Word where
  spot x := (place x).spot
  running x := s.stateOf x = .running
  mode x := (s.taskPc x).mode
  current := s.current
  back c := (s.cpuPc c).back
  used := s.used
  idle := s.idle

structure Inv (s : Machine K M) (place : Word → Place K M) : Prop where
  placed : s.Placed place
  sound : Sound (s.board place)
  idle_priority : ∀ c, (s.sys.tasks (s.idle c)).priority = 3
  idle_pc : ∀ c, (s.taskPc (s.idle c)).ofIdle = true
  gone_zombie : ∀ u, (place u).gone = true → s.stateOf u = .zombie
  zombie_gone : ∀ u, s.used u = true → s.stateOf u = .zombie → (place u).gone = true
  gone_pc : ∀ u, (place u).gone = true → s.taskPc u = .exited ∨ s.taskPc u = .yield .exited
  unused_pc : ∀ u, s.used u = false → (s.taskPc u).list = none ∧ (s.taskPc u).hand = none

variable {s s' : Machine K M} {place : Word → Place K M} {c : K} {t u : Word} {p : TaskPc K M}

section facts

variable (h : Inv s place)

include h

lemma Inv.running (hat : s.At c t p) (hbusy : p.mode = .busy) : s.stateOf t = .running := by
  have hrun := h.sound.active c t hat.current (by simp [board, hat.cpu, CpuPc.back]) (by simp [board, hat.pc, hbusy])
  simpa [board] using hrun

lemma Inv.nowhere (hrun : s.stateOf t = .running) : place t = .nowhere :=
  Place.eq_nowhere (h.sound.running_nowhere t (by simpa [board] using hrun))

lemma Inv.marked_nowhere (hmode : (s.taskPc t).mode = .marked) : place t = .nowhere :=
  Place.eq_nowhere (h.sound.marked t hmode).1

lemma Inv.unused_nowhere (hused : s.used t = false) : place t = .nowhere := by
  by_contra hplace
  have hin : s.used t = true := h.sound.spot_used t fun hspot => hplace (Place.eq_nowhere hspot)
  simp [hused] at hin

lemma Inv.held {k : Hand K} (hk : s.hands k = some t) : place t = .hand k := by
  obtain ⟨_, hrep⟩ := h.placed
  exact (hrep.held k t).mp hk

lemma Inv.hands_eq {k : Hand K} (ht : place t = .hand k) : s.hands k = some t := by
  obtain ⟨_, hrep⟩ := h.placed
  exact (hrep.held k t).mpr ht

lemma Inv.reaped {o : TaskPc K M} (hat : s.At c t o) (ho : o.list = some u) : place u = .list (.inr (.toClean t)) := by
  obtain ⟨_, hrep⟩ := h.placed
  refine hrep.first ?_
  rw [others, hat.pc, ho]

lemma Inv.idle_ne (hat : s.At c t p) (hpc : p.ofIdle = false) (c' : K) : s.idle c' ≠ t := by
  rintro rfl
  have hidle := h.idle_pc c'
  simp [hat.pc, hpc] at hidle

end facts

lemma decode_ends (kbd : Kbd) (scancode : Byte) : (decode kbd scancode).1.head = kbd.head ∧
    (decode kbd scancode).1.tail = kbd.tail := by
  unfold decode
  split_ifs <;> exact ⟨rfl, rfl⟩

lemma interruptible_pc (h : interruptible s c = true) : s.cpuPc c = .task := by
  rw [interruptible, Bool.and_eq_true] at h
  exact of_decide_eq_true h.1

lemma Inv.call_effect {what : Call M} (h : Inv s place) (hleft : s.Left (.call c what))
    (hfresh : s.Fresh (.call c what)) (hat : s.At c t .outside)
    (hcall : call s c t what = some s') : ∃ place', s'.Placed place' ∧ Effect s place (.call c what) s' place' := by
  have henter : ∀ q : TaskPc K M, s.idle c ≠ t → q.list = none → q.hand = none → q.mode ≠ .marked →
      ∃ place', (s.taskGoto t q).Placed place' ∧ Effect s place (.call c what) (s.taskGoto t q) place' :=
        fun q hidle hlist hhand hmode =>
    ⟨place, h.placed.taskGoto hat.pc hlist hhand, .enter c t q hat hidle hlist hhand hmode⟩
  cases what with
  | mutexLock m =>
    rw [call] at hcall
    split at hcall
    · cases hcall
    · rename_i hidle
      cases hcall
      exact henter (.mutexLoop m) hidle rfl rfl (by simp [TaskPc.mode])
  | mutexUnlock m =>
    rw [call] at hcall
    split at hcall
    · cases hcall
    · rename_i hidle
      rw [not_or, Bool.not_eq_false] at hidle
      cases hcall
      rw [mutexUnlockSection]
      simp only
      split
      · rename_i u hu
        obtain ⟨hplace, hplaced⟩ := h.placed.unlock hu hat.pc _ _
        exact ⟨_, hplaced, .unlockWake c t u m hat hidle.1 hidle.2 hplace⟩
      · exact ⟨place, (h.placed.mutex m 1 none _).taskGoto hat.pc rfl rfl, .unlockFree c t m hat hidle.1 hidle.2⟩
  | sleep ms direct =>
    rw [call] at hcall
    split at hcall
    · cases hcall
    · rename_i hidle
      cases hcall
      split
      · exact henter .reschedule hidle rfl rfl (by simp [TaskPc.mode])
      · exact henter (.sleepCall c ms direct) hidle rfl rfl (by simp [TaskPc.mode])
  | yield =>
    rw [call] at hcall
    split at hcall
    · cases hcall
    · rename_i hidle
      cases hcall
      exact henter (.yield .outside) hidle rfl rfl (by simp [TaskPc.mode])
  | readKbd =>
    rw [call] at hcall
    split at hcall
    · cases hcall
    · rename_i hidle
      cases hcall
      exact henter .kbdLoop hidle rfl rfl (by simp [TaskPc.mode])
  | exit =>
    rw [call] at hcall
    split at hcall
    · cases hcall
    · rename_i hidle
      cases hcall
      refine ⟨_, ?_, .exit c t hat hidle⟩
      refine h.placed.push (h.nowhere (h.running hat rfl)) ?_ rfl ?_ ?_
      · exact (nextOf_setNext _ t _).trans (by rw [nextOf_setCpuId, nextOf_setState]; rfl)
      · refine Eq.trans (others_taskGoto_of (o := .outside) ?_ rfl) (others_dead (some t))
        exact hat.pc
      · refine hands_taskGoto_of (o := .outside) ?_ rfl
        exact hat.pc
  | create u user stackBase cr3 rsp =>
    cases hcall
    have hu : s.used u = false := hfresh
    have hut : u ≠ t := by
      rintro rfl
      have hused : s.used u = true := h.sound.current_used c u hat.current
      simp [hu] at hused
    exact ⟨_, h.placed.create (h.unused_nowhere hu) hut hat.pc (h.unused_pc u hu).1 (h.unused_pc u hu).2 user stackBase cr3 rsp,
      .create c t u user stackBase cr3 rsp hat hu⟩
  | reap =>
    rw [call] at hcall
    split at hcall
    · rename_i hidle
      cases hcall
      rw [schedReap]
      split
      · exact ⟨place, h.placed, .stay⟩
      · exact ⟨_, h.placed.reap hat.pc, .reap c t hat hidle.1 hleft⟩
    · cases hcall

variable {now frame : Word} {locked : Bool}

lemma Inv.taskStep_effect (h : Inv s place) (hcpu : s.cpuPc c = .task) (hcur : s.current c = some t)
    (hstep : taskStep s c now t = some s') : ∃ place', s'.Placed place' ∧
    Effect s place (.advance c now frame locked) s' place' := by
  rw [taskStep] at hstep
  split at hstep
  · cases hstep
  · rename_i cpu ms direct hpc
    cases hstep
    refine ⟨place, ?_, .mark c t cpu ms direct now ⟨hcpu, hcur, hpc⟩⟩
    have hstate := h.placed.onTask t (f := fun y => { y with state := .sleeping }) fun _ => rfl
    have htime := hstate.onTask t (f := fun y => { y with sleepUntil := now + ms }) fun _ => rfl
    exact htime.taskGoto hpc rfl rfl
  · rename_i cpu direct hpc
    obtain ⟨sys, hsleep, hkept, hplaced⟩ := h.placed.sleep (h.marked_nowhere (by rw [hpc]; rfl)) hpc
    rw [hsleep] at hstep
    cases hstep
    exact ⟨_, hplaced, .sleep c t cpu direct sys ⟨hcpu, hcur, hpc⟩ hkept⟩
  · rename_i next hpc
    cases hstep
    have hback := h.placed.taskGoto (q := next.pc) hpc (by cases next <;> rfl) (by cases next <;> rfl)
    exact ⟨place, hback.goto hcpu rfl rfl rfl, .yield c t next ⟨hcpu, hcur, hpc⟩⟩
  · rename_i hpc
    cases hstep
    have hback := h.placed.taskGoto (q := .outside) hpc rfl rfl
    exact ⟨place, hback.goto hcpu rfl rfl rfl, .reschedule c t ⟨hcpu, hcur, hpc⟩⟩
  · rename_i m hpc
    have hat : s.At c t (.mutexLoop m) := ⟨hcpu, hcur, hpc⟩
    cases hstep
    rw [mutexLockSection]
    split_ifs with hfree
    · exact ⟨place, (h.placed.mutex m 0 (some t) _).taskGoto hpc rfl rfl, .acquire c t m hat hfree⟩
    · refine ⟨_, ?_, .wait c t m hat hfree⟩
      refine h.placed.push (h.nowhere (h.running hat rfl)) ?_ rfl ?_ ?_
      · exact (nextOf_setNext _ t _).trans (by rw [nextOf_setReason, nextOf_setState]; rfl)
      · refine Eq.trans (others_taskGoto_of (o := .mutexLoop m) ?_ rfl) (others_mutexes _)
        exact hpc
      · refine hands_taskGoto_of (o := .mutexLoop m) ?_ rfl
        exact hpc
  · rename_i u hpc
    rw [mutexUnlockWake] at hstep
    cases hk : s.getCpuById (s.sys.tasks u).cpuId with
    | none =>
      simp [hk] at hstep
    | some k =>
      rw [hk] at hstep
      cases hstep
      have hstate := h.placed.onTask u (f := fun y => { y with state := .ready }) fun _ => rfl
      exact ⟨place, hstate.taskGoto hpc rfl rfl, .ready c t u k ⟨hcpu, hcur, hpc⟩ hk⟩
  · rename_i target u hpc
    cases hstep
    exact ⟨_, h.placed.enqueueTask hpc, .register c t target u ⟨hcpu, hcur, hpc⟩⟩
  · rename_i hpc
    split at hstep
    · cases hstep
    · have hat : s.At c t .kbdLoop := ⟨hcpu, hcur, hpc⟩
      cases hstep
      rw [kbdPopChar]
      split_ifs with hnone
      · exact ⟨place, h.placed.taskGoto hpc rfl rfl, .noKey c t hat hnone⟩
      · exact ⟨place, Placed.taskGoto h.placed hpc rfl rfl, .key c t _ hat hnone⟩
  · rename_i hpc
    have hat : s.At c t .kbdEmpty := ⟨hcpu, hcur, hpc⟩
    cases hstep
    refine ⟨_, ?_, .block c t now frame locked hat rfl⟩
    refine h.placed.push (h.nowhere (h.running hat rfl)) ?_ rfl ?_ ?_
    · exact (nextOf_setNext _ t _).trans (by rw [nextOf_setReason, nextOf_setState]; rfl)
    · refine Eq.trans (others_taskGoto_of (o := .kbdEmpty) ?_ rfl) (others_blocked (some t))
      exact hpc
    · refine hands_taskGoto_of (o := .kbdEmpty) ?_ rfl
      exact hpc
  · rename_i hpc
    cases hstep
    exact ⟨place, h.placed.taskGoto hpc rfl rfl, .exited c t ⟨hcpu, hcur, hpc⟩⟩
  · rename_i hpc
    cases hstep
    exact ⟨place, h.placed.taskGoto hpc rfl rfl, .reaped c t ⟨hcpu, hcur, hpc⟩⟩
  · rename_i u hpc
    cases hstep
    exact ⟨_, h.placed.free hpc, .free c t u ⟨hcpu, hcur, hpc⟩⟩

variable {stage : Stage}

lemma Searched.effect {k : K} {r : Option Word} {sys : Cpus K}
    (h : Searched s place c k r sys stage) (hsearch : (s.cpuPc c).searching = true) (hstage : (∃ i, stage = .steal i) ∨
    stage = .fallback)
    (hpick : ∀ t, r = some t → s.picks c locked = some t) :
    ∃ place', ({ s with sys := sys }.goto c (.schedule (r.elim stage .switch))).Placed place' ∧
      Effect s place (.advance c now frame locked) ({ s with sys := sys }.goto c (.schedule (r.elim stage .switch)))
        place' := by
  obtain ⟨hkept, ⟨rfl, hplaced⟩ | ⟨t, p, rfl, ht, hplaced⟩⟩ := h
  · exact ⟨place, hplaced, .search c stage sys hsearch hkept hstage⟩
  · exact ⟨_, hplaced, .pick c k p t sys hsearch hkept ht now frame locked rfl (hpick t rfl)⟩

lemma Inv.search_effect (h : Inv s place)
    (hsearch : (s.cpuPc c).searching = true)
    (hstage : (∃ i, stage = .steal i) ∨ stage = .fallback) :
    ∃ place', (s.goto c (.schedule stage)).Placed place' ∧
      Effect s place (.advance c now frame locked) (s.goto c (.schedule stage)) place' := by
  obtain ⟨ls, hrep⟩ := h.placed
  exact (Placed.searched (k := c) (.refl s.sys) hsearch hstage (.inl ⟨rfl, ls, hrep⟩)).effect hsearch
    hstage (by simp)

lemma Inv.schedule_effect (h : Inv s place) (hpc : s.cpuPc c = .schedule stage) (hapart : ∀ t, stage = .switch t →
    ∀ c', s.current c' = some t → c' = c) (hstep : schedule s c now frame locked stage = some s') :
    ∃ place', s'.Placed place' ∧ Effect s place (.advance c now frame locked) s' place' := by
  cases stage with
  | begin =>
    cases hstep
    obtain ⟨sys, place', hkept, hsys, hplace, hplaced⟩ := h.placed.boost c now
    rw [schedBegin]
    simp only [hsys]
    split
    · rename_i hnone
      exact ⟨place', hplaced.goto hpc rfl rfl rfl, .noTask c sys place' hpc hnone hkept hplace⟩
    · rename_i t ht
      have hsave := hkept.setRsp t frame
      have hrsp : ({ s with sys := sys.setRsp t frame } : Machine K M).Placed place' := hplaced.onTask t fun _ => rfl
      split_ifs with hrun
      · rw [hsave.state, hsave.priority] at hrun
        have hnowhere : place' t = .nowhere := by
          have ht := h.nowhere hrun.1
          rcases hplace t with hsame | hboost
          · rw [hsame, ht]
          · rw [hboost, ht]
            rfl
        have hready := hrsp.onTask t (f := fun y => { y with state := .ready }) fun _ => rfl
        exact ⟨_, hready.hold hnowhere hpc rfl rfl rfl rfl, .publish c t _ place' hpc ht hrun.1 hrun.2 hsave hplace⟩
      · rw [hsave.state, hsave.priority, not_and, not_not] at hrun
        exact ⟨place', hrsp.goto hpc rfl rfl rfl, .pass c t _ place' hpc ht hrun hsave hplace⟩
  | enqueue t =>
    cases hstep
    exact ⟨_, h.placed.enqueueCpu hpc rfl c rfl rfl rfl, .requeue c t hpc⟩
  | affinity t =>
    cases hstep
    refine ⟨place, ?_, .affinity c t hpc⟩
    split
    · exact (h.placed.onTask t (f := fun y => { y with cpuId := -1 }) fun _ => rfl).goto hpc rfl rfl rfl
    · exact h.placed.goto hpc rfl rfl rfl
  | dequeue =>
    cases hstep
    have hsearch : (s.cpuPc c).searching = true := by
      rw [hpc]
      rfl
    have hstage : (∃ i, Stage.steal 0 = .steal i) ∨ Stage.steal 0 = .fallback := .inl ⟨0, rfl⟩
    obtain ⟨ls, hrep⟩ := h.placed
    have hfound := Placed.searched ((Kept.refl s.sys).dequeueLoop c levels) hsearch hstage
      (hrep.dequeueTask (next_none_of_searching hsearch) rfl)
    refine hfound.effect hsearch hstage fun t ht => ?_
    rwa [picks, hpc]
  | steal i =>
    have hsearch : (s.cpuPc c).searching = true := by
      rw [hpc]
      rfl
    have hstage : (∃ i', Stage.steal (i + 1) = .steal i') ∨ Stage.steal (i + 1) = .fallback := .inl ⟨i + 1, rfl⟩
    rw [schedule] at hstep
    split_ifs at hstep with hi
    · rw [stealFrom] at hstep
      split at hstep
      · cases hstep
        exact h.search_effect hsearch hstage
      · rename_i other hother
        split_ifs at hstep with hne
        · cases hstep
          exact h.search_effect hsearch hstage
        · cases hsteal : stealTaskFromCpu s.sys other locked with
          | none =>
            simp [hsteal] at hstep
          | some =>
            rw [hsteal] at hstep
            cases hstep
            obtain ⟨_, hrep⟩ := h.placed
            obtain ⟨hkept, hcases⟩ := hrep.stealTaskFromCpu (next_none_of_searching hsearch) hsteal
            have hfound := Placed.searched hkept hsearch hstage hcases
            refine hfound.effect hsearch hstage fun t ht => ?_
            rw [picks, hpc]
            simp only [if_pos hi, hother, Option.bind_some, if_neg hne, hsteal]
            exact ht
    · cases hstep
      exact h.search_effect hsearch (.inr rfl)
  | fallback =>
    cases hstep
    refine ⟨place, ?_, .fallback c hpc⟩
    have hsys := (h.placed.onTask (s.idle c) (f := fun y => { y with state := .running }) fun _ => rfl).onTask (s.idle c)
      (f := fun y => { y with cpuId := (s.sys.cpus c).cpuId }) fun _ => rfl
    exact (hsys.onCpu c (f := fun y => { y with currentTask := some (s.idle c) }) (fun _ => rfl) (fun _ => rfl) (fun _ => rfl)
      fun _ => rfl).goto hpc rfl rfl rfl
  | switch t =>
    cases hstep
    refine ⟨_, ?_, .switch c t hpc (hapart t rfl)⟩
    have hsys := (h.placed.onTask t (f := fun y => { y with state := .running }) fun _ => rfl).onTask t
      (f := fun y => { y with cpuId := (s.sys.cpus c).cpuId }) fun _ => rfl
    exact (hsys.onCpu c (f := fun y => { y with currentTask := some t }) (fun _ => rfl) (fun _ => rfl) (fun _ => rfl)
      fun _ => rfl).release hpc

theorem Inv.effect {a : Action K M} (h : Inv s place) (hapart : s.Apart a) (hleft : s.Left a) (hfresh : s.Fresh a)
    (hstep : step s a = some s') : ∃ place', s'.Placed place' ∧ Effect s place a s' place' := by
  cases a with
  | timer c =>
    rw [step] at hstep
    split at hstep
    · rename_i hint
      cases hstep
      exact ⟨place, h.placed.goto (interruptible_pc hint) rfl rfl rfl, .timer c hint rfl⟩
    · cases hstep
  | keyboard c scancode =>
    rw [step] at hstep
    split at hstep
    · rename_i hint
      cases hstep
      have hpc := interruptible_pc hint.1
      rw [keyboardInterrupt]
      split
      · refine ⟨place, ?_, .typed c _ hint.1 hint.2⟩
        exact Placed.goto h.placed hpc rfl rfl rfl
      · exact ⟨place, h.placed, .silent _ (decode_ends s.kbd scancode)⟩
    · cases hstep
  | call c what =>
    rw [step] at hstep
    split at hstep
    · rename_i t hcur
      split at hstep
      · rename_i hpc
        exact h.call_effect hleft hfresh ⟨hpc.1, hcur, hpc.2⟩ hstep
      · cases hstep
    · cases hstep
  | advance c now frame locked =>
    rw [step] at hstep
    split at hstep
    · rename_i hpc
      obtain ⟨t, ht, htask⟩ := Option.bind_eq_some_iff.mp hstep
      exact h.taskStep_effect hpc ht htask
    · rename_i hpc
      obtain ⟨sys, list, place', hrun, hkept, hplace, hplaced⟩ := h.placed.expire hpc now
      rw [hrun] at hstep
      cases hstep
      exact ⟨place', hplaced, .expire c sys list place' hpc hkept now frame locked rfl hplace⟩
    · rename_i hpc
      obtain ⟨sys, blocked, list, l, place', hrun, hl, hkept, hplace, hplaced⟩ := h.placed.wakeup hpc
      rw [hrun] at hstep
      cases hstep
      exact ⟨place', hplaced, .wakeup c sys blocked list l place' hpc hl hkept hplace⟩
    · rename_i w list hpc
      cases hstep
      cases list with
      | none =>
        cases w with
        | sleepers => exact ⟨place, h.placed.goto hpc rfl rfl rfl, .sleepersDone c hpc⟩
        | keyboard =>
          refine ⟨place, ?_, .readersDone c hpc⟩
          exact Placed.goto h.placed hpc rfl rfl rfl
      | some t =>
        cases w with
        | sleepers =>
          obtain ⟨ht, hplaced⟩ := h.placed.toWake hpc
          refine ⟨_, ?_, .wakeSleeper c t _ hpc ht⟩
          exact (hplaced.onTask t (f := fun y => { y with state := .ready }) fun _ => rfl).loose (by simp) none
        | keyboard =>
          obtain ⟨ht, hplaced⟩ := h.placed.toWake hpc
          exact ⟨_, hplaced, .wakeReader c _ t _ hpc ht⟩
    · rename_i w target t rest hpc
      cases hstep
      exact ⟨_, h.placed.enqueueCpu hpc rfl target rfl rfl rfl, .wakeOn c w target t rest hpc⟩
    · rename_i stage hpc
      exact h.schedule_effect hpc (fun t ht => hapart t (hpc.trans (by rw [ht]))) hstep

end Machine

end KernelSmp.Sched
