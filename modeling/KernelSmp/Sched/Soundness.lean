import KernelSmp.Sched.Moves

/-! The invariant holds in every state of a permitted run. -/

namespace KernelSmp.Sched.Machine

set_option linter.unusedSectionVars false

open Base Base.LinkedQueue Base.Dispatch Function Atomic Drivers

variable {K M : Type} [DecidableEq K] [DecidableEq M]

variable {s s' : Machine K M} {place place' : Word → Place K M} {a : Action K M} {c : K} {t u : Word} {p : CpuPc K}
  {q : TaskPc K M}

lemma board_goto : (s.goto c p).board place = { s.board place with back := update (s.board place).back c p.back } := by
  have hback := funext fun c' => apply_update (fun _ => CpuPc.back) s.cpuPc c p c'
  rw [board, board, ← hback]
  rfl

lemma board_taskGoto (place : Word → Place K M) : (s.taskGoto t q).board place =
    { s.board place with mode := update (s.board place).mode t q.mode } := by
  have hmode := funext fun x => apply_update (fun _ => TaskPc.mode) s.taskPc t q x
  rw [board, board, ← hmode]
  rfl

lemma board_place (q : Place K M) : s.board (update place t q) =
    { s.board place with spot := update (s.board place).spot t q.spot } := by
  have hspot := funext fun x => apply_update (fun _ => Place.spot) place t q x
  rw [board, board, ← hspot]

variable {sys : Cpus K}

lemma board_sys (place : Word → Place K M) (hrun : ∀ x, (sys.tasks x).state = .running ↔
    (s.sys.tasks x).state = .running)
    (hcur : ∀ c, (sys.cpus c).currentTask = (s.sys.cpus c).currentTask)
    (hidle : ∀ c, (sys.cpus c).idleTask = (s.sys.cpus c).idleTask) :
    ({ s with sys := sys } : Machine K M).board place = s.board place := by
  have hcur' : ({ s with sys := sys } : Machine K M).current = s.current := funext hcur
  have hidle' : ({ s with sys := sys } : Machine K M).idle = s.idle := funext hidle
  have hrun' : (fun x => decide (({ s with sys := sys } : Machine K M).stateOf x = .running)) = fun x =>
    decide (s.stateOf x = .running) :=
    funext fun x => decide_eq_decide.mpr (hrun x)
  rw [board, board, hrun', hcur', hidle']

lemma board_kept (place : Word → Place K M) (h : Kept s.sys sys) :
    ({ s with sys := sys } : Machine K M).board place = s.board place :=
  board_sys place (fun x => by rw [h.state]) h.currentTask h.idleTask

lemma board_kept_sleeping {cpu : K} {v : Option Word} (h : Kept (s.sys.setSleeping cpu v) sys) :
    ({ s with sys := sys } : Machine K M).board place = s.board place :=
  board_sys place (fun x => by rw [h.state]; rfl) (fun c => (h.currentTask c).trans (setSleeping_currentTask cpu c v))
    fun c => (h.idleTask c).trans (setSleeping_idleTask cpu c v)

lemma board_onTask (place : Word → Place K M) (t : Word) (f : Task → Task) : (s.onSys fun x => x.onTask t f).board place =
    { s.board place with running := update (s.board place).running t (decide ((f (s.sys.tasks t)).state = .running)) } := by
  have hrun : (fun x => decide ((update s.sys.tasks t (f (s.sys.tasks t)) x).state = .running)) =
      update (fun x => decide ((s.sys.tasks x).state = .running)) t (decide ((f (s.sys.tasks t)).state = .running)) :=
    funext fun x => apply_update (fun _ y => decide (y.state = .running)) s.sys.tasks t _ x
  rw [board, board]
  exact congrArg (fun r => ({ s.board place with running := r } : Board K Word)) hrun

lemma board_onTask_same (t : Word) {f : Task → Task} (hf : ∀ x, (f x).state = x.state) :
    (s.onSys fun x => x.onTask t f).board place = s.board place := by
  rw [board_onTask, hf]
  exact congrArg (fun r => ({ s.board place with running := r } : Board K Word)) (update_eq_self t (s.board place).running)

lemma board_enqueueTask : (s.onSys fun x => enqueueTask x c t).board place = s.board place :=
  (board_kept (s := s.onSys fun x => x.adopt c t) place (Kept.enqueueTask s.sys c t)).trans (board_onTask_same t fun _ => rfl)

lemma board_state (s : Machine K M) (place : Word → Place K M) (t : Word) (sys : Cpus K) (x : TaskState)
    (hstate : ∀ y, (sys.tasks y).state = if y = t then x else (s.sys.tasks y).state)
    (hcur : ∀ c, (sys.cpus c).currentTask = (s.sys.cpus c).currentTask)
    (hidle : ∀ c, (sys.cpus c).idleTask = (s.sys.cpus c).idleTask) :
    ({ s with sys := sys } : Machine K M).board place =
      { s.board place with running := update (s.board place).running t (decide (x = .running)) } := by
  have hcur' : ({ s with sys := sys } : Machine K M).current = s.current := funext hcur
  have hidle' : ({ s with sys := sys } : Machine K M).idle = s.idle := funext hidle
  have hrun : (fun y => decide (({ s with sys := sys } : Machine K M).stateOf y = .running)) =
      update (fun y => decide (s.stateOf y = .running)) t (decide (x = .running)) := by
    funext y
    by_cases hy : y = t
    · rw [hy, update_self]
      exact decide_eq_decide.mpr (by simp [stateOf, hstate])
    · rw [update_of_ne hy]
      exact decide_eq_decide.mpr (by simp [stateOf, hstate, hy])
  rw [board, board, hrun, hcur', hidle']

lemma board_spots (h : ∀ x, (place' x).spot = (place x).spot) : s.board place' = s.board place := by
  rw [board, board, funext h]

lemma board_setCurrent (place : Word → Place K M) : (s.onSys fun x => x.setCurrent c t).board place =
    { s.board place with current := update (s.board place).current c (some t) } := by
  have hcur : (fun c' => (update s.sys.cpus c { s.sys.cpus c with currentTask := some t } c').currentTask) =
      update (fun c' => (s.sys.cpus c').currentTask) c (some t) :=
    funext fun c' => apply_update (fun _ => CpuContext.currentTask) s.sys.cpus c _ c'
  have hidle : (fun c' => (update s.sys.cpus c { s.sys.cpus c with currentTask := some t } c').idleTask) =
      fun c' => (s.sys.cpus c').idleTask := by
    funext c'
    rw [apply_update (fun _ => CpuContext.idleTask)]
    exact congrFun (update_eq_self c fun c' => (s.sys.cpus c').idleTask) c'
  rw [board, board]
  exact (congrArg₂ (fun x y => ({ s.board place with current := x, idle := y } : Board K Word)) hcur hidle)

lemma board_switchTo (place : Word → Place K M) : (switchTo s c t).board place = { s.board place with
    running := update (s.board place).running t true, current := update (s.board place).current c (some t)
    back := update (s.board place).back c true } := by
  have hstate := board_state s place t ((s.sys.setState t .running).setCpuId t (s.sys.cpus c).cpuId)
    .running (fun y => by by_cases hy : y = t <;> simp [Cpus.setState, Cpus.setCpuId, Cpus.onTask, hy]) (fun _ => rfl)
      fun _ => rfl
  have hcur := board_setCurrent (s := { s with sys := (s.sys.setState t .running).setCpuId t (s.sys.cpus c).cpuId })
    (c := c) (t := t) place
  rw [hstate] at hcur
  rw [switchTo, board_goto]
  exact congrArg (fun b : Board K Word => ({ b with back := update b.back c true } : Board K Word)) hcur

section sound

variable (h : Inv s place)

include h

lemma Inv.not_running (hplace : place t ≠ .nowhere) : (s.board place).running t = false := by
  rw [← Bool.not_eq_true]
  exact fun hrun => hplace (Place.eq_nowhere (h.sound.running_nowhere t hrun))

lemma Inv.gone_used (hgone : (place t).gone = true) : s.used t = true := by
  refine h.sound.spot_used t ?_
  intro hspot
  rw [Place.eq_nowhere hspot] at hgone
  cases hgone

lemma Inv.setRunning_false (hplace : place t ≠ .nowhere) : update (s.board place).running t false =
    (s.board place).running := by
  rw [← h.not_running hplace, update_eq_self]

variable {o : TaskPc K M}

lemma Inv.idle_ne_current (hat : s.At c t o) (hidle : s.idle c ≠ t) (c' : K) : s.idle c' ≠ t := by
  rintro rfl
  obtain rfl := h.sound.idle_home c' c hat.current
  exact hidle rfl

lemma Inv.setBack (hback : p.back = true → (s.cpuPc c).back = true) :
    Sound { s.board place with back := update (s.board place).back c p.back } := by
  cases hp : p.back with
  | false => exact h.sound.leave c
  | true =>
    have hsame : update (s.board place).back c true = (s.board place).back := by
      rw [← show (s.board place).back c = true from hback hp, update_eq_self]
    rw [hsame]
    exact h.sound

lemma Inv.setMode (hat : s.At c t o) (hidle : q.mode ≠ .busy → ∀ c, s.idle c ≠ t) (hbusy : q.mode = .busy → o.mode = .busy)
    (hmode : q.mode ≠ .marked) : Sound { s.board place with mode := update (s.board place).mode t q.mode } := by
  refine h.sound.setMode hidle (fun hq hne => absurd ?_ hne) fun hmarked => absurd hmarked hmode
  rw [show (s.board place).mode t = (s.taskPc t).mode from rfl, hat.pc]
  exact hbusy hq

lemma Inv.goOn (hat : s.At c t o) (ho : o.mode = .busy) (hq : q.mode = .busy)
    (hsame : s'.board place' = s.board place) : Sound ((s'.taskGoto t q).board place') := by
  rw [board_taskGoto, hsame]
  exact h.setMode hat (fun hne => absurd hq hne) (fun _ => ho) (by simp [hq])

lemma Inv.goAway (hp : p.back = false) (hsame : s'.board place' = s.board place) : Sound ((s'.goto c p).board place') := by
  rw [board_goto, hsame]
  exact h.setBack (by simp [hp])

lemma Inv.setMode_busy (hat : s.At c t o) (hbusy : o.mode = .busy) :
    update (s.board place).mode t .busy = (s.board place).mode := by
  rw [← hbusy, ← hat.pc]
  exact update_eq_self t (s.board place).mode

lemma Inv.put {spot : Spot K} (hat : s.At c t o) (hbusy : o.mode = .busy)
    (hspot : spot = .kept ∨ spot = .dead) (hidle : ∀ c, s.idle c ≠ t) :
    Sound { s.board place with
      mode := update (s.board place).mode t .parked, running := update (s.board place).running t false
      spot := update (s.board place).spot t spot } := by
  have hpark := h.sound.setMode (m := .parked) (fun _ => hidle) (fun hne => by cases hne) fun hne => by cases hne
  refine hpark.put hspot ?_ hidle (fun hmode => ?_) (h.sound.current_used c t hat.current)
  · simpa [board] using h.running hat hbusy
  · simp at hmode

lemma Inv.resume (hat : s.At c t o) (ho : o.ofIdle = false) (hq : q.mode ≠ .marked) :
    Sound { s.board place with mode := update (s.board place).mode t q.mode, back := update (s.board place).back c false } := by
  refine (h.sound.leave c).setMode (fun _ => h.idle_ne hat ho) (fun _ _ c' hc' => ?_) fun hmarked => absurd hmarked hq
  obtain rfl := h.sound.current_unique c' c t hc' hat.current
  exact update_self c' _ _

omit h in
lemma spot_update {q' : Place K M} {x : Word} (hspot : q'.spot = (place t).spot) : (update place t q' x).spot =
    (place x).spot := by
  by_cases hx : x = t
  · rw [hx, update_self, hspot]
  · rw [update_of_ne hx]

omit h in
lemma boosted_spot (c : K) (q : Place K M) : (boosted c q).spot = q.spot := by
  rw [boosted, redirect, redirect]
  split_ifs <;> simp_all [Place.spot]

omit h in
lemma spot_boost (hplace : ∀ u, place' u = place u ∨ place' u = boosted c (place u)) (x : Word) : (place' x).spot =
    (place x).spot := by
  rcases hplace x with hx | hx
  · rw [hx]
  · rw [hx, boosted_spot]

theorem Inv.effect_sound (he : Effect s place a s' place') : Sound (s'.board place') := by
  cases he with
  | stay => exact h.sound
  | timer => exact h.goAway rfl rfl
  | typed c kbd hint =>
    rw [board_goto]
    exact h.setBack fun _ => by rw [interruptible_pc hint]; rfl
  | silent => exact h.sound
  | enter c t p hat hidle hlist hhand hmode =>
    rw [board_taskGoto]
    exact h.setMode hat (fun _ => h.idle_ne_current hat hidle) (fun _ => rfl) hmode
  | unlockWake c t u m hat hidle hholds hu => 
    have hspots : s.board (update place u (.hand (.task t))) = s.board place := board_spots fun x =>
      spot_update (by rw [hu]; rfl)
    exact h.goOn hat rfl rfl ((board_kept _ ((Kept.refl s.sys).setNext u none)).trans hspots)
  | unlockFree c t m hat => exact h.goOn hat rfl rfl rfl
  | exit c t hat hidle =>
    rw [board_place, taskExit, board_taskGoto]
    have hstate := board_state s place t (((s.sys.setState t .zombie).setCpuId t (-1)).setNext t s.deadTaskList)
      .zombie (fun y => by by_cases hy : y = t <;> simp [Cpus.setState, Cpus.setCpuId, Cpus.setNext, Cpus.onTask, hy])
        (fun _ => rfl) fun _ => rfl
    exact hstate.symm ▸ h.put hat rfl (.inr rfl) (h.idle_ne_current hat hidle)
  | create c t u user stackBase cr3 rsp hat hu =>
    have hut : t ≠ u := by
      rintro rfl
      have hused : s.used t = true := h.sound.current_used c t hat.current
      simp [hu] at hused
    have hnew := board_state s place u
      { s.sys with tasks := update s.sys.tasks u (newTask s.nextTid user stackBase cr3 rsp) }
      .ready (fun y => by by_cases hy : y = u <;> simp [newTask, hy]) (fun _ => rfl) fun _ => rfl
    have hmade : (taskCreate s c t u user stackBase cr3 rsp).board (update place u (.hand (.task t))) = { s.board place with
        spot := update (s.board place).spot u .kept, running := update (s.board place).running u false
        mode := update (s.board place).mode u .busy, used := update (s.board place).used u true } := by
      have hbusy : update (update (s.board place).mode u .busy) t .busy = update (s.board place).mode u .busy := by
        rw [update_comm hut.symm, h.setMode_busy hat rfl]
      rw [board_place, taskCreate, board_taskGoto]
      have hboard := board_taskGoto (t := u) (q := .outside)
        (s := { s with sys := { s.sys with tasks := update s.sys.tasks u (newTask s.nextTid user stackBase cr3 rsp) } }) place
      rw [hnew] at hboard
      exact (congrArg (fun b : Board K Word => ({ b with
        spot := update b.spot u .kept, mode := update b.mode t .busy, used := update b.used u true } : Board K Word))
          hboard).trans
        (congrArg (fun m => ({ s.board place with
          spot := update (s.board place).spot u .kept, running := update (s.board place).running u false, mode := m
          used := update (s.board place).used u true } : Board K Word)) hbusy)
    rw [hmade]
    exact h.sound.create hu
  | reap c t hat hidle hleft =>
    rw [board_taskGoto]
    have hsame := h.setMode_busy hat rfl
    have hdead : ∀ y c, (s.board place).spot y = .dead → (s.board place).current c ≠ some y := fun y c hy hc =>
      hleft c y hc (h.gone_zombie y (by rw [Place.eq_dead hy]; rfl))
    refine (congrArg (fun m => Sound ({ s.board place with
      mode := m, spot := fun u => (redirect (.inr .dead) (.inr (.toClean t)) (place u)).spot } : Board K Word)) hsame).mpr ?_
    refine h.sound.condemn hdead (fun y hy => ?_) fun y hy => ?_
    · rw [redirect, if_pos (Place.eq_dead hy)]
      rfl
    · rw [redirect, if_neg fun hplace => hy (by rw [show (s.board place).spot y = (place y).spot from rfl, hplace]; rfl)]
      rfl
  | mark c t cpu ms direct now hat =>
    rw [board_taskGoto]
    have hstate := board_state s place t ((s.sys.setState t .sleeping).setSleepUntil t (now + ms))
      .sleeping (fun y => by by_cases hy : y = t <;> simp [Cpus.setState, Cpus.setSleepUntil, Cpus.onTask, hy])
        (fun _ => rfl) fun _ => rfl
    have hrun : (s.board place).running t = true := by simpa [board] using h.running hat rfl
    exact hstate.symm ▸ h.sound.mark hrun (h.idle_ne hat rfl)
  | sleep c t cpu direct sys hat hkept =>
    rw [board_place, board_taskGoto, board_kept_sleeping hkept]
    have hmarked := h.sound.marked t (by rw [show (s.board place).mode t = (s.taskPc t).mode from rfl, hat.pc]; rfl)
    have hmode : (if direct then .reschedule else .yield .outside : TaskPc K M).mode = .parked := by cases direct <;> rfl
    rw [hmode]
    have hpark := h.sound.setMode (m := .parked) (fun _ => h.idle_ne hat rfl) (fun hne => by cases hne)
      fun hne => by cases hne
    exact hpark.setSpot (.inl rfl) (h.idle_ne hat rfl) hmarked.2 (by simp) (h.sound.current_used c t hat.current)
  | yield c t next hat =>
    rw [board_goto, board_taskGoto]
    exact h.resume hat rfl (by cases next <;> simp [Resume.pc, TaskPc.mode])
  | reschedule c t hat =>
    rw [board_goto, board_taskGoto]
    exact h.resume hat rfl (by simp [TaskPc.mode])
  | acquire c t m hat => exact h.goOn hat rfl rfl rfl
  | wait c t m hat =>
    rw [board_place, board_taskGoto]
    have hstate := board_state s place t
      (((s.sys.setState t .blocked).setReason t .mutex).setNext t (s.mutexes m).waitList)
      .blocked (fun y => by by_cases hy : y = t <;> simp [Cpus.setState, Cpus.setReason, Cpus.setNext, Cpus.onTask, hy])
        (fun _ => rfl) fun _ => rfl
    exact hstate.symm ▸ h.put hat rfl (.inl rfl) (h.idle_ne hat rfl)
  | ready c t u k hat =>
    rw [board_taskGoto]
    have hu : place u = .hand (.task t) := h.held (by rw [hands, hat.pc]; rfl)
    have hstate := board_onTask (s := s) place u fun y => { y with state := .ready }
    refine hstate.symm ▸ ?_
    refine (congrArg (fun r => Sound ({ s.board place with running := r, mode := _ } : Board K Word))
      (h.setRunning_false (by simp [hu]))).mpr ?_
    exact h.setMode hat (by simp [TaskPc.mode]) (fun _ => rfl) (by simp [TaskPc.mode])
  | register c t k u hat => 
    have hu : place u = .hand (.task t) := h.held (by rw [hands, hat.pc]; rfl)
    exact h.goOn hat rfl rfl (board_enqueueTask.trans (board_spots fun x => spot_update (by rw [hu]; rfl)))
  | noKey c t hat => exact h.goOn hat rfl rfl rfl
  | key c t kbd hat => exact h.goOn hat rfl rfl rfl
  | block c t now frame locked hat =>
    rw [board_place, blockCurrent, board_taskGoto]
    have hstate := board_state s place t
      (((s.sys.setState t .blocked).setReason t .keyboard).setNext t s.blockedTaskList)
      .blocked (fun y => by by_cases hy : y = t <;> simp [Cpus.setState, Cpus.setReason, Cpus.setNext, Cpus.onTask, hy])
        (fun _ => rfl) fun _ => rfl
    exact hstate.symm ▸ h.put hat rfl (.inl rfl) (h.idle_ne hat rfl)
  | exited c t hat =>
    rw [board_taskGoto]
    exact h.setMode hat (fun _ => h.idle_ne hat rfl) (by simp [TaskPc.mode]) (by simp [TaskPc.mode])
  | reaped c t hat => exact h.goOn hat rfl rfl rfl
  | free c t u hat =>
    rw [board_place, reapNext, board_taskGoto]
    have hsame := h.setMode_busy hat rfl
    refine (congrArg (fun m => Sound ({ s.board place with
      mode := m, spot := update (s.board place).spot u .nowhere, used := update s.used u false } : Board K Word)) hsame).mpr ?_
    exact h.sound.free (by rw [show (s.board place).spot u = (place u).spot from rfl, h.reaped hat rfl]; rfl)
  | expire c sys list place' hpc hkept now frame locked ha hplace =>
    have hspots : ∀ x, (place' x).spot = (place x).spot := fun x => by
      rcases hplace x with hx | ⟨hx, hx', -⟩
      · rw [hx]
      · rw [hx, hx']
        rfl
    exact h.goAway rfl ((board_kept_sleeping hkept).trans (board_spots hspots))
  | wakeup c sys blocked list l place' hpc hl hkept hplace =>
    have hspots : ∀ x, (place' x).spot = (place x).spot := fun x => by
      rw [hplace]
      split_ifs with hx
      · rw [(hl x).mp hx.1]
        rfl
      · rfl
    have hrun : ∀ x, (sys.tasks x).state = .running ↔ (s.sys.tasks x).state = .running := fun x => by
      rw [hkept.state, Cpus.readyAll]
      by_cases hx : x ∈ l ∧ (s.sys.tasks x).waitReason = .keyboard
      · -- a blocked task does not run
        have hnot : ¬ (s.sys.tasks x).state = .running :=
          of_decide_eq_false (h.not_running (by rw [(hl x).mp hx.1]; simp))
        simpa [hx] using hnot
      · simp [hx]
    have hboard := board_sys place hrun hkept.currentTask hkept.idleTask
    rw [board_spots hspots, board_goto]
    exact hboard.symm ▸ h.setBack fun _ => by rw [hpc]; rfl
  | wakeSleeper c t rest hpc ht =>
    rw [board_spots fun x => spot_update (by rw [ht]; rfl), board_goto]
    have hstate := board_state s place t ((s.sys.setState t .ready).setNext t none)
      .ready (fun y => by by_cases hy : y = t <;> simp [Cpus.setState, Cpus.setNext, Cpus.onTask, hy]) (fun _ => rfl)
        fun _ => rfl
    refine hstate.symm ▸ ?_
    refine (congrArg (fun r => Sound ({ s.board place with running := r, back := _ } : Board K Word))
      (h.setRunning_false (by simp [ht]))).mpr ?_
    exact h.setBack (by simp [CpuPc.back])
  | wakeReader c k t rest hpc ht =>
    rw [board_spots fun x => spot_update (by rw [ht]; rfl), board_goto]
    exact h.setBack fun _ => by rw [hpc]; rfl
  | sleepersDone => exact h.goAway rfl rfl
  | readersDone c hpc =>
    rw [board_goto]
    exact h.setBack fun _ => by rw [hpc]; rfl
  | wakeOn c w k t rest hpc =>
    have ht := h.held (by rw [hands, hpc]; rfl)
    rw [board_spots fun x => spot_update (by rw [ht]; rfl), board_goto]
    rw [board_enqueueTask]
    exact h.setBack fun hw => by rw [hpc]; exact hw
  | publish c t sys place' hpc ht hrun hpriority hkept hplace =>
    have hstate := board_state s place t (sys.setState t .ready) .ready
      (fun y => by by_cases hy : y = t <;> simp [Cpus.setState, Cpus.onTask, hy, hkept.state]) hkept.currentTask hkept.idleTask
    rw [board_place, board_goto, board_spots (spot_boost hplace), hstate]
    have hidle : ∀ c', s.idle c' ≠ t := by
      rintro c' rfl
      exact hpriority (h.idle_priority c')
    refine (h.sound.leave c).put (.inl rfl) (by simpa [board] using hrun) hidle (fun _ c' hc' => ?_)
      (h.sound.current_used c t ht)
    obtain rfl := h.sound.current_unique c' c t hc' ht
    exact update_self c' _ _
  | pass c t sys place' hpc ht hnot hkept hplace =>
    exact h.goAway rfl ((board_kept _ hkept).trans (board_spots (spot_boost hplace)))
  | noTask c sys place' hpc hnone hkept hplace =>
    exact h.goAway rfl ((board_kept _ hkept).trans (board_spots (spot_boost hplace)))
  | requeue c t hpc => 
    have ht := h.held (by rw [hands, hpc]; rfl)
    exact h.goAway rfl (board_enqueueTask.trans (board_spots fun x => spot_update (by rw [ht]; rfl)))
  | affinity c t => 
    refine h.goAway rfl ?_
    split
    · exact board_onTask_same t fun _ => rfl
    · rfl
  | pick c k p t sys hpc hkept ht =>
    rw [board_place, board_goto, board_kept _ hkept]
    exact (h.sound.leave c).pick (by rw [show (s.board place).spot t = (place t).spot from rfl, ht]; rfl) c
  | search c stage sys hpc hkept => exact h.goAway rfl (board_kept _ hkept)
  | fallback c =>
    rw [board_switchTo]
    exact h.sound.rest c
  | switch c t hpc halone =>
    have ht : place t = .hand (.next c) := h.held (by rw [hands, hpc]; rfl)
    rw [board_place, board_switchTo]
    exact h.sound.start (by rw [show (s.board place).spot t = (place t).spot from rfl, ht]; rfl) halone

end sound

structure Fresher (s s' : Machine K M) (place' : Word → Place K M) (x : Word) (v : TaskState) : Prop where
  alive : v ≠ .zombie
  place : (place' x).gone = false
  why : v = .running ∨ place' x ≠ .nowhere ∨ (s'.taskPc x).mode = .marked ∧ ∃ c, s.current c = some x ∧ s'.cpuPc c = .task

lemma Fresher.of_kept {x : Word} {v : TaskState} (hv : v ≠ .zombie) (hplace : (place' x).Kept) : Fresher s s' place' x v :=
  ⟨hv, hplace.2, Or.inr (Or.inl hplace.1)⟩

section rest

variable (h : Inv s place) (he : Effect s place a s' place')

include he

lemma Effect.cpu_eq (c : K) : (s'.sys.cpus c).cpuId = (s.sys.cpus c).cpuId ∧ (s'.sys.cpus c).idleTask =
    (s.sys.cpus c).idleTask := by
  have hsleeping : ∀ {cpu : K} {v : Option Word} {sys : Cpus K}, Kept (s.sys.setSleeping cpu v) sys →
      (sys.cpus c).cpuId = (s.sys.cpus c).cpuId ∧ (sys.cpus c).idleTask = (s.sys.cpus c).idleTask := by
    intro cpu v sys hkept
    rw [hkept.id, hkept.idleTask]
    by_cases hc : c = cpu <;> simp [Cpus.setSleeping, Cpus.onCpu, hc]
  have henqueue : ∀ (k : K) (u : Word), ((enqueueTask s.sys k u).cpus c).cpuId = (s.sys.cpus c).cpuId ∧
      ((enqueueTask s.sys k u).cpus c).idleTask = (s.sys.cpus c).idleTask :=
    fun k u => ⟨(Kept.enqueueTask s.sys k u).id c, (Kept.enqueueTask s.sys k u).idleTask c⟩
  have hswitch : ∀ (c' : K) (t : Word), ((switchTo s c' t).sys.cpus c).cpuId = (s.sys.cpus c).cpuId ∧
      ((switchTo s c' t).sys.cpus c).idleTask = (s.sys.cpus c).idleTask := by
    intro c' t
    by_cases hc : c = c' <;> simp [switchTo, goto, Cpus.setCurrent, Cpus.setState, Cpus.setCpuId, Cpus.onTask, Cpus.onCpu, hc]
  cases he with
  | sleep c t cpu direct sys hat hkept => exact hsleeping hkept
  | expire c sys list place' hpc hkept => exact hsleeping hkept
  | wakeup c sys blocked list l place' hpc hl hkept => exact ⟨hkept.id _, hkept.idleTask _⟩
  | publish c t sys place' hpc ht hrun hpriority hkept => exact ⟨hkept.id _, hkept.idleTask _⟩
  | pass c t sys place' hpc ht hnot hkept => exact ⟨hkept.id _, hkept.idleTask _⟩
  | noTask c sys place' hpc hnone hkept => exact ⟨hkept.id _, hkept.idleTask _⟩
  | pick c k p t sys hpc hkept => exact ⟨hkept.id _, hkept.idleTask _⟩
  | search c stage sys hpc hkept => exact ⟨hkept.id _, hkept.idleTask _⟩
  | register c t k u => exact henqueue k u
  | wakeOn c w k t => exact henqueue k t
  | requeue c t => exact henqueue c t
  | affinity =>
    split
    · exact ⟨rfl, rfl⟩
    · exact ⟨rfl, rfl⟩
  | fallback c => exact hswitch c _
  | switch c t => exact hswitch c t
  | _ => exact ⟨rfl, rfl⟩

lemma Effect.idle_eq : s'.idle = s.idle := funext fun c => (he.cpu_eq c).2

include h

lemma Effect.core_cases (x : Word) : (s'.sys.tasks x).core = (s.sys.tasks x).core ∨
    (place x ≠ .nowhere ∧ (s'.sys.tasks x).core =
      ((s.sys.tasks x).tid, (s.sys.tasks x).basePriority, (s.sys.tasks x).basePriority)) ∨
    (s.used x = false ∧ ∃ user : Bool, (s'.sys.tasks x).core = (s.nextTid, if user then 1 else 0, if user then 1 else 0)) := by
  have hchange := h.change he x
  change (s'.sys.tasks x).face.core = _ ∨ (_ ∧ (s'.sys.tasks x).face.core = _) ∨
    (_ ∧ ∃ user : Bool, (s'.sys.tasks x).face.core = _)
  generalize (s'.sys.tasks x).face = v at hchange
  cases hchange with
  | create user stackBase cr3 rsp hunused => exact .inr (.inr ⟨hunused, user, rfl⟩)
  | adopt k hplace => exact .inr (.inl ⟨hplace, rfl⟩)
  | _ => exact .inl rfl

variable {x : Word}

lemma Effect.gone_cases (hx : (place' x).gone = true) :
    (place x).gone = true ∨ s'.taskPc x = .yield .exited ∧ s'.stateOf x = .zombie := by
  have hmove := h.move he x
  generalize place x = q, place' x = q' at hmove hx
  cases hmove with
  | stay => exact .inl hx
  | exit hpc hstate => exact .inr ⟨hpc, hstate⟩
  | condemn => exact .inl rfl
  | _ => cases hx

lemma Effect.exited_stays (hpc : s.taskPc x = .exited ∨ s.taskPc x = .yield .exited) (hused : s.used x = true) :
    s'.taskPc x = .exited ∨ s'.taskPc x = .yield .exited := by
  have hact := he.act x
  rcases hpc with hpc | hpc
  · rw [hpc] at hact
    generalize s'.taskPc x = q at hact
    cases hact with
    | stay => exact .inl rfl
    | exited => exact .inr rfl
    | new hunused => simp [hused] at hunused
  · rw [hpc] at hact
    generalize s'.taskPc x = q at hact
    cases hact with
    | stay => exact .inr rfl
    | yield => exact .inl rfl
    | new hunused => simp [hused] at hunused

lemma Inv.effect_gone_pc (x : Word) (hx : (place' x).gone = true) : s'.taskPc x = .exited ∨ s'.taskPc x = .yield .exited := by
  rcases he.gone_cases h hx with hgone | ⟨hexit, -⟩
  · exact he.exited_stays h (h.gone_pc x hgone) (h.gone_used hgone)
  · exact .inr hexit

lemma Inv.effect_idle_pc (c : K) : (s'.taskPc (s'.idle c)).ofIdle = true := by
  rw [he.idle_eq]
  have hact := he.act (s.idle c)
  have hidle := h.idle_pc c
  have hother : ∀ {c' : K} {o : TaskPc K M}, s.At c' (s.idle c) o → s.idle c' = s.idle c := fun hat =>
    by rw [h.sound.idle_home c _ hat.current]
  generalize s.taskPc (s.idle c) = o, s'.taskPc (s.idle c) = q at hact hidle
  cases hact with
  | stay => exact hidle
  | enter c' p hat hne => exact absurd (hother hat) hne
  | unlockWake c' u hat hne => exact absurd (hother hat.toAt) hne
  | exit c' hat hne => exact absurd (hother hat) hne
  | new => rfl
  | create => rfl
  | reap => rfl
  | register => rfl
  | reaped => rfl
  | free => rfl
  | _ => cases hidle

lemma Inv.effect_idle_priority (c : K) : (s'.sys.tasks (s'.idle c)).priority = 3 := by
  rw [he.idle_eq]
  rcases he.core_cases h (s.idle c) with hsame | ⟨hplace, -⟩ | ⟨hunused, -⟩
  · exact (congrArg (fun x => x.2.1) hsame).trans (h.idle_priority c)
  · exact absurd (Place.eq_nowhere (h.sound.idle_nowhere c)) hplace
  · have hused : s.used (s.idle c) = true := h.sound.idle_used c
    simp [hunused] at hused

lemma Effect.gone_stays (hx : (place x).gone = true) : (place' x).gone = true ∨ s'.used x = false := by
  have hmove := h.move he x
  generalize place x = q, place' x = q' at hmove hx
  cases hmove with
  | stay => exact .inl hx
  | condemn => exact .inl rfl
  | free t hunused => exact .inr hunused
  | _ => cases hx

lemma Effect.state_cases (x : Word) : s'.stateOf x = s.stateOf x ∨ (s'.stateOf x = .zombie ∧ (place' x).gone = true) ∨
    Fresher s s' place' x (s'.stateOf x) := by
  have hchange := h.change he x
  rw [show s'.stateOf x = (s'.sys.tasks x).face.state from rfl]
  generalize (s'.sys.tasks x).face = v at hchange
  cases hchange with
  | create user stackBase cr3 rsp hunused hplace => exact .inr (.inr (.of_kept nofun hplace))
  | mark c cpu ms now direct hat hplace hcpu hpc =>
    refine .inr (.inr ⟨nofun, by rw [hplace]; rfl, .inr (.inr ⟨by rw [hpc]; rfl, c, hat.current, hcpu⟩)⟩)
  | block c o reason hat hbusy hplace => exact .inr (.inr (.of_kept nofun hplace))
  | exit hplace => exact .inr (.inl ⟨rfl, hplace⟩)
  | ready hplace => exact .inr (.inr (.of_kept nofun hplace))
  | run c hgone => exact .inr (.inr ⟨nofun, hgone, .inl rfl⟩)
  | _ => exact .inl rfl

lemma Effect.used_cases (x : Word) : s'.used x = s.used x ∨ (s.used x = false ∧ s'.stateOf x = .ready) ∨
    (place x).gone = true := by
  cases he with
  | create c t u user stackBase cr3 rsp hat hu =>
    rcases eq_or_ne x u with rfl | hx
    · exact .inr (.inl ⟨hu, by simp [taskCreate, taskGoto, stateOf, newTask]⟩)
    · exact .inl (by simp [taskCreate, taskGoto, hx])
  | free c t u hat =>
    rcases eq_or_ne x u with rfl | hx
    · exact .inr (.inr (by rw [h.reaped hat rfl]; rfl))
    · exact .inl (by simp [reapNext, taskGoto, hx])
  | affinity =>
    refine .inl ?_
    split
    · rfl
    · rfl
  | _ => exact .inl rfl

lemma Inv.effect_gone_zombie (x : Word) (hx : (place' x).gone = true) : s'.stateOf x = .zombie := by
  rcases he.gone_cases h hx with hgone | ⟨-, hzombie⟩
  · rcases he.state_cases h x with hsame | ⟨hzombie, -⟩ | hfresh
    · rw [hsame]
      exact h.gone_zombie x hgone
    · exact hzombie
    · have hnot := hfresh.place
      simp [hx] at hnot
  · exact hzombie

lemma Inv.effect_zombie_gone (x : Word) (hused : s'.used x = true) (hx : s'.stateOf x = .zombie) : (place' x).gone = true := by
  have hstay : (place x).gone = true → (place' x).gone = true := fun hgone =>
    (he.gone_stays h hgone).resolve_right (by rw [hused]; simp)
  rcases he.state_cases h x with hsame | ⟨-, hgone⟩ | hfresh
  · rcases he.used_cases h x with hkeep | ⟨-, hready⟩ | hgone
    · exact hstay (h.zombie_gone x (hkeep ▸ hused) (hsame ▸ hx))
    · simp [hx] at hready
    · exact hstay hgone
  · exact hgone
  · exact absurd hx hfresh.alive

lemma Inv.effect_unused_pc (x : Word) (hx : s'.used x = false) : (s'.taskPc x).list = none ∧ (s'.taskPc x).hand = none := by
  have hunused : s.used x = false → (s'.taskPc x).list = none ∧ (s'.taskPc x).hand = none := by
    intro hunused
    rcases (he.act x).acts with hsame | ⟨-, -, hpc⟩ | ⟨c, hat⟩
    · rw [hsame]
      exact h.unused_pc x hunused
    · rw [hpc]
      exact ⟨rfl, rfl⟩
    · have hused : s.used x = true := h.sound.current_used c x hat.current
      simp [hunused] at hused
  rcases he.used_cases h x with hkeep | ⟨hfree, -⟩ | hgone
  · exact hunused (hkeep ▸ hx)
  · exact hunused hfree
  · rcases he.exited_stays h (h.gone_pc x hgone) (h.gone_used hgone) with hpc | hpc
    · rw [hpc]
      exact ⟨rfl, rfl⟩
    · rw [hpc]
      exact ⟨rfl, rfl⟩

end rest

theorem Inv.step (h : Inv s place) (hapart : s.Apart a) (hleft : s.Left a) (hfresh : s.Fresh a)
    (hstep : Machine.step s a = some s') : ∃ place', Effect s place a s' place' ∧ Inv s' place' := by
  obtain ⟨place', hplaced, he⟩ := h.effect hapart hleft hfresh hstep
  exact ⟨place', he, {
    placed := hplaced
    sound := h.effect_sound he
    idle_priority := h.effect_idle_priority he
    idle_pc := h.effect_idle_pc he
    gone_zombie := h.effect_gone_zombie he
    zombie_gone := h.effect_zombie_gone he
    gone_pc := h.effect_gone_pc he
    unused_pc := h.effect_unused_pc he }⟩

end KernelSmp.Sched.Machine
