import KernelSmp.Sched.Effects

/-! Each step of the machine moves the tasks as its effect says. -/

namespace KernelSmp.Sched

set_option linter.unusedSectionVars false

open Base Base.LinkedQueue Function Atomic Drivers

namespace Machine

variable {K M : Type} [DecidableEq K] [DecidableEq M]

variable {s : Machine K M} {place : Word → Place K M} {c : K} {t u : Word} {p : CpuPc K} {q : TaskPc K M} {sys : Cpus K} {m : M}

lemma others_sys (h : ∀ c, (sys.cpus c).sleepingList = (s.sys.cpus c).sleepingList) :
    ({ s with sys := sys } : Machine K M).others = s.others := by
  funext j
  cases j with
  | sleeping c => exact h c
  | _ => rfl

lemma others_sleeping {cpu : K} (h : Kept (s.sys.setSleeping cpu (sys.cpus cpu).sleepingList) sys) :
    ({ s with sys := sys } : Machine K M).others = update s.others (.sleeping cpu) (sys.cpus cpu).sleepingList := by
  funext j
  cases j with
  | sleeping c =>
    have hlist := h.sleepingList c
    rcases eq_or_ne c cpu with rfl | hc
    · simp [others]
    · simpa [others, hc, Cpus.setSleeping, Cpus.onCpu] using hlist
  | _ => rfl

lemma others_mutexes (mutex : MutexT) :
    ({ s with mutexes := update s.mutexes m mutex } : Machine K M).others = update s.others (.wait m) mutex.waitList := by
  funext j
  cases j with
  | wait m' =>
    rcases eq_or_ne m' m with rfl | hm
    · simp [others]
    · simp [others, hm]
  | _ => rfl

lemma others_blocked (v : Option Word) : ({ s with blockedTaskList := v } : Machine K M).others =
    update s.others .blocked v := by
  funext j
  cases j with
  | _ => simp [others]

lemma others_dead (v : Option Word) : ({ s with deadTaskList := v } : Machine K M).others = update s.others .dead v := by
  funext j
  cases j with
  | _ => simp [others]

variable {o : CpuPc K}

lemma others_goto_of (hpc : s.cpuPc c = o) (hlist : p.list = o.list) : (s.goto c p).others = s.others := by
  rw [others_goto, hlist, ← hpc]
  exact update_eq_self (.toWake c) s.others

lemma hands_goto_hand (hpc : s.cpuPc c = o) (hnext : p.next = o.next) : (s.goto c p).hands =
    update s.hands (.cpu c) p.hand := by
  have hsame : update s.hands (.next c) (s.cpuPc c).next = s.hands := update_eq_self (.next c) s.hands
  rw [hands_goto, hnext, ← hpc, update_comm (by simp), hsame]

lemma hands_goto_next (hpc : s.cpuPc c = o) (hhand : p.hand = o.hand) : (s.goto c p).hands =
    update s.hands (.next c) p.next := by
  have hsame : update s.hands (.cpu c) (s.cpuPc c).hand = s.hands := update_eq_self (.cpu c) s.hands
  rw [hands_goto, hhand, ← hpc, hsame]

lemma hands_goto_of (hpc : s.cpuPc c = o) (hhand : p.hand = o.hand) (hnext : p.next = o.next) :
    (s.goto c p).hands = s.hands := by
  rw [hands_goto_next hpc hhand, hnext, ← hpc]
  exact update_eq_self (.next c) s.hands

lemma others_taskGoto_of {o : TaskPc K M} (hpc : s.taskPc t = o) (hlist : q.list = o.list) : (s.taskGoto t q).others =
    s.others := by
  rw [others_taskGoto, hlist, ← hpc]
  exact update_eq_self (.toClean t) s.others

lemma hands_taskGoto_of {o : TaskPc K M} (hpc : s.taskPc t = o) (hhand : q.hand = o.hand) : (s.taskGoto t q).hands =
    s.hands := by
  rw [hands_taskGoto, hhand, ← hpc]
  exact update_eq_self (.task t) s.hands

lemma adopt_sleepingList (k c : K) : ((enqueueTask s.sys k t).cpus c).sleepingList = (s.sys.cpus c).sleepingList :=
  (Kept.enqueueTask s.sys k t).sleepingList c

lemma Placed.of_rep {s' : Machine K M} {others : Other K M → Option Word} {hands : Hand K → Option Word} {ls : Family K M}
    (hrep : Rep others hands sys ls place) (hothers : s'.others = others) (hhands : s'.hands = hands) (hsys : s'.sys = sys) :
    s'.Placed place := by
  subst hothers hhands hsys
  exact ⟨ls, hrep⟩

lemma Placed.goto (h : s.Placed place) (hpc : s.cpuPc c = o) (hlist : p.list = o.list) (hhand : p.hand = o.hand)
    (hnext : p.next = o.next) : (s.goto c p).Placed place := by
  obtain ⟨_, hrep⟩ := h
  exact Placed.of_rep hrep (others_goto_of hpc hlist) (hands_goto_of hpc hhand hnext) rfl

lemma Placed.taskGoto {o : TaskPc K M} (h : s.Placed place) (hpc : s.taskPc t = o) (hlist : q.list = o.list)
    (hhand : q.hand = o.hand) : (s.taskGoto t q).Placed place := by
  obtain ⟨_, hrep⟩ := h
  exact Placed.of_rep hrep (others_taskGoto_of hpc hlist) (hands_taskGoto_of hpc hhand) rfl

lemma Placed.onTask (h : s.Placed place) (t : Word) {f : Task → Task} (hf : ∀ x, (f x).schedNext = x.schedNext) :
    (s.onSys fun x => x.onTask t f).Placed place := by
  obtain ⟨ls, hrep⟩ := h
  exact ⟨ls, hrep.of_eq (nextOf_onTask s.sys t hf) rfl rfl rfl⟩

lemma Placed.loose (h : s.Placed place) (ht : ∀ i, place t ≠ .list i) (v : Option Word) :
    (s.onSys fun x => x.setNext t v).Placed place := by
  obtain ⟨ls, hrep⟩ := h
  exact ⟨ls, hrep.loose ht v⟩

lemma Placed.onCpu (h : s.Placed place) (c : K) {f : CpuContext → CpuContext} (hhead : ∀ x, (f x).rqHead = x.rqHead)
    (htail : ∀ x, (f x).rqTail = x.rqTail) (hcount : ∀ x, (f x).rqCount = x.rqCount)
    (hsleep : ∀ x, (f x).sleepingList = x.sleepingList) : (s.onSys fun x => x.onCpu c f).Placed place := by
  obtain ⟨ls, hrep⟩ := h
  refine ⟨ls, ?_⟩
  rw [onSys, others_sys fun c' => ?_]
  · exact hrep.of_eq rfl (onCpu_same s.sys c CpuContext.rqHead f (hhead _)) (onCpu_same s.sys c CpuContext.rqTail f (htail _))
      (onCpu_same s.sys c CpuContext.rqCount f (hcount _))
  · rcases eq_or_ne c' c with rfl | hc
    · simp [Cpus.onCpu, hsleep]
    · simp [Cpus.onCpu, hc]

lemma Placed.enqueueCpu (h : s.Placed place) (hpc : s.cpuPc c = o) (ht : o.hand = some t) (k : K)
    (hhand : p.hand = none)
    (hlist : p.list = o.list) (hnext : p.next = o.next) : ((s.onSys fun x => enqueueTask x k t).goto c p).Placed
      (update place t (.list (.inl (k, levelOf (s.sys.tasks t).basePriority)))) := by
  obtain ⟨_, hrep⟩ := h
  have hhold : s.hands (.cpu c) = some t := by
    rw [hands, hpc, ht]
  obtain ⟨_, hrep'⟩ := hrep.enqueue hhold k
  refine Placed.of_rep hrep' ?_ ?_ rfl
  · exact (others_goto_of (s := s.onSys fun x => Sched.enqueueTask x k t) hpc hlist).trans (others_sys (adopt_sleepingList k))
  · rw [hands_goto_hand (s := s.onSys fun x => Sched.enqueueTask x k t) hpc hnext, hhand]
    rfl

variable {k : K}

lemma Placed.enqueueTask (h : s.Placed place) (hpc : s.taskPc t = .enqueue k u) :
    ((s.onSys fun x => enqueueTask x k u).taskGoto t .outside).Placed
      (update place u (.list (.inl (k, levelOf (s.sys.tasks u).basePriority)))) := by
  obtain ⟨_, hrep⟩ := h
  have hhand : s.hands (.task t) = some u := by
    rw [hands, hpc]
    rfl
  obtain ⟨_, hrep'⟩ := hrep.enqueue hhand k
  refine Placed.of_rep hrep' ?_ (hands_taskGoto _ t _) rfl
  exact (others_taskGoto_of (s := s.onSys fun x => Sched.enqueueTask x k u) (q := .outside) hpc rfl).trans
    (others_sys (adopt_sleepingList k))

lemma Placed.unlock (h : s.Placed place) (hwait : (s.mutexes m).waitList = some u) (hpc : s.taskPc t = .outside)
    (holds : Word → M → Bool) (waitsFor : Word → Option M) :
    place u = .list (.inr (.wait m)) ∧ Placed ({ s with
      sys := s.sys.setNext u none
      mutexes := update s.mutexes m { s.mutexes m with owner := none, waitList := (s.sys.tasks u).schedNext }
      holds := holds
      waitsFor := waitsFor }.taskGoto t (.waking u)) (update place u (.hand (.task t))) := by
  obtain ⟨_, hrep⟩ := h
  have hfirst : s.others (.wait m) = some u := hwait
  have hnone : s.hands (.task t) = none := by
    rw [hands, hpc]
    rfl
  obtain ⟨_, hrep'⟩ := hrep.take hfirst hnone
  refine ⟨hrep.first hfirst, Placed.of_rep (hrep'.loose (by simp) none) ?_ (hands_taskGoto _ t _) rfl⟩
  refine Eq.trans (others_taskGoto_of (o := .outside) ?_ rfl) (others_mutexes _)
  exact hpc

lemma Placed.mutex (h : s.Placed place) (m : M) (count : Int) (owner : Option Word) (holds : Word → M → Bool) :
    Placed { s with mutexes := update s.mutexes m { s.mutexes m with count := count, owner := owner }, holds := holds }
      place := by
  obtain ⟨_, hrep⟩ := h
  exact Placed.of_rep hrep ((others_mutexes _).trans (update_eq_self (.wait m) s.others)) rfl rfl

lemma Placed.push {s' : Machine K M} {j : Other K M} (h : s.Placed place) (ht : place t = .nowhere)
    (hnext : nextOf s'.sys = update (nextOf s.sys) t (s.others j)) (hcpus : s'.sys.cpus = s.sys.cpus)
    (hothers : s'.others = update s.others j (some t)) (hhands : s'.hands = s.hands) :
      s'.Placed (update place t (.list (.inr j))) := by
  obtain ⟨_, hrep⟩ := h
  have hhead : headOf s'.sys = headOf s.sys := by
    funext i
    rw [headOf, headOf, hcpus]
  have htail : tailOf s'.sys = tailOf s.sys := by
    funext i
    rw [tailOf, tailOf, hcpus]
  have hcount : countOf s'.sys = countOf s.sys := by
    funext i
    rw [countOf, countOf, hcpus]
  exact Placed.of_rep (hrep.push ht hnext hhead htail hcount) hothers hhands rfl

lemma Placed.reap (h : s.Placed place) (hpc : s.taskPc t = .outside) :
    ({ s with deadTaskList := none }.taskGoto t (.reaping s.deadTaskList)).Placed
      fun u => redirect (.inr .dead) (.inr (.toClean t)) (place u) := by
  obtain ⟨_, hrep⟩ := h
  have hnone : s.others (.toClean t) = none := by
    rw [others, hpc]
    rfl
  obtain ⟨_, hrep'⟩ := hrep.handOver (j := .dead) (by simp) hnone
  refine Placed.of_rep hrep' ?_ (hands_taskGoto_of hpc rfl) rfl
  rw [others_taskGoto, others_dead]
  rfl

lemma Placed.free (h : s.Placed place) (hpc : s.taskPc t = .reaping (some u)) :
    (reapNext s t u).Placed (update place u .nowhere) := by
  obtain ⟨_, hrep⟩ := h
  have hfirst : s.others (.toClean t) = some u := by
    rw [others, hpc]
    rfl
  obtain ⟨_, -, hrep'⟩ := hrep.lose hfirst
  exact Placed.of_rep hrep' (others_taskGoto _ t _) (hands_taskGoto_of hpc rfl) rfl

lemma Placed.create (h : s.Placed place) (hu : place u = .nowhere) (hut : u ≠ t) (hpc : s.taskPc t = .outside)
    (hlist : (s.taskPc u).list = none) (hhand : (s.taskPc u).hand = none) (user : Bool)
    (stackBase cr3 rsp : Word) : (taskCreate s c t u user stackBase cr3 rsp).Placed (update place u (.hand (.task t))) := by
  obtain ⟨ls, hrep⟩ := h
  have hloose := hrep.loose (t := u) (by simp [hu]) none
  have hnew : Rep s.others s.hands
      { s.sys with tasks := update s.sys.tasks u (newTask s.nextTid user stackBase cr3 rsp) } ls place := by
    refine hloose.of_eq ?_ rfl rfl rfl
    funext x
    by_cases hx : x = u
    · simp [nextOf, hx, newTask, Cpus.setNext, Cpus.onTask]
    · simp [nextOf, hx, Cpus.setNext, Cpus.onTask]
  have hnone : s.hands (.task t) = none := by
    rw [hands, hpc]
    rfl
  refine Placed.of_rep (hnew.hold hu hnone) ?_ ?_ rfl
  · refine Eq.trans (others_taskGoto_of (o := .outside) ?_ rfl) ?_
    · exact (update_of_ne hut.symm _ _).trans hpc
    exact others_taskGoto_of rfl hlist.symm
  · refine (hands_taskGoto _ t _).trans ?_
    exact congrArg (fun f : Hand K → Option Word => update f (.task t) (some u))
      (hands_taskGoto_of rfl hhand.symm)

lemma Placed.sleep {cpu : K} {direct : Bool} (h : s.Placed place) (ht : place t = .nowhere)
    (hpc : s.taskPc t = .sleepMarked cpu direct) :
    ∃ sys, makeTaskSleep s t cpu direct = some
      ({ s with sys := sys }.taskGoto t (if direct then .reschedule else .yield .outside)) ∧
      Kept (s.sys.setSleeping cpu (sys.cpus cpu).sleepingList) sys ∧
      ({ s with sys := sys }.taskGoto t (if direct then .reschedule else .yield .outside)).Placed
        (update place t (.list (.inr (.sleeping cpu)))) := by
  obtain ⟨_, hrep⟩ := h
  obtain ⟨_, hfind, ⟨_, hrep'⟩, hkept⟩ := hrep.sleep (s.sys.tasks t).sleepUntil rfl ht
  refine ⟨_, by rw [makeTaskSleep, hfind]; rfl, hkept, Placed.of_rep hrep' ?_ ?_ rfl⟩
  · refine Eq.trans (others_taskGoto_of (o := .sleepMarked cpu direct) ?_ (by cases direct <;> rfl))
      (others_sleeping hkept)
    exact hpc
  · refine hands_taskGoto_of (o := .sleepMarked cpu direct) ?_ (by cases direct <;> rfl)
    exact hpc

lemma Placed.expire (h : s.Placed place) (hpc : s.cpuPc c = .sleepers) (now : Word) :
    ∃ sys list place', updateSleepers s c now = some ({ s with sys := sys }.goto c (.wake .sleepers list)) ∧
      Kept (s.sys.setSleeping c (sys.cpus c).sleepingList) sys ∧
      (∀ u, place' u = place u ∨
        place u = .list (.inr (.sleeping c)) ∧ place' u = .list (.inr (.toWake c)) ∧ (s.sys.tasks u).sleepUntil ≤ now) ∧
      ({ s with sys := sys }.goto c (.wake .sleepers list)).Placed place' := by
  obtain ⟨_, hrep⟩ := h
  have hempty : s.others (.toWake c) = none := by
    rw [others, hpc]
    rfl
  obtain ⟨sys, list, _, place', hrun, hrep', hplace, hkept⟩ := hrep.takeExpired now rfl hempty rfl
    (Nat.lt_succ_of_le (Word.length_le_of_nodup (hrep.queues.lists.nodup (.inr (.sleeping c)))))
  refine ⟨sys, list, place', ?_, hkept, hplace,
    Placed.of_rep hrep' ?_ (hands_goto_of hpc rfl rfl) rfl⟩
  · rw [updateSleepers, show walkFuel = (2 ^ 64).succ from rfl, hrun]
    rfl
  · rw [others_goto, others_sleeping hkept]
    rfl

lemma Placed.wakeup (h : s.Placed place) (hpc : s.cpuPc c = .keyboard) :
    ∃ sys blocked list l place', schedWakeup s c .keyboard =
        some ({ s with sys := sys, blockedTaskList := blocked }.goto c (.wake .keyboard list)) ∧
      (∀ u, u ∈ l ↔ place u = .list (.inr .blocked)) ∧ Kept (s.sys.readyAll l .keyboard) sys ∧
      (∀ u, place' u = if u ∈ l ∧ (s.sys.tasks u).waitReason = .keyboard then .list (.inr (.toWake c)) else place u) ∧
      ({ s with sys := sys, blockedTaskList := blocked }.goto c (.wake .keyboard list)).Placed place' := by
  obtain ⟨ls, hrep⟩ := h
  have hempty : s.others (.toWake c) = none := by
    rw [others, hpc]
    rfl
  obtain ⟨sys, blocked, list, _, place', hrun, hrep', hplace, hkept⟩ := hrep.wakeLoop .keyboard rfl hempty
    (List.nil_append _).symm rfl
    (Nat.lt_succ_of_le (Word.length_le_of_nodup (hrep.queues.lists.nodup (.inr .blocked))))
  have hchain := hrep.queues.lists.chain (.inr .blocked)
  refine ⟨sys, blocked, list, ls (.inr .blocked), place', ?_, hrep.listed _, hkept, hplace, Placed.of_rep hrep' ?_
    (hands_goto_of hpc rfl rfl) rfl⟩
  · rw [← hchain.link_eq] at hrun
    rw [schedWakeup, show walkFuel = (2 ^ 64).succ from rfl]
    exact congrArg _ hrun
  · rw [others_goto]
    refine congrArg (fun f : Other K M → Option Word => update f (.toWake c) list) ?_
    rw [others_blocked (s := { s with sys := sys }), others_sys hkept.sleepingList]

lemma Placed.toWake {w : Waker} (h : s.Placed place) (hpc : s.cpuPc c = .wake w (some t)) :
    place t = .list (.inr (.toWake c)) ∧
      (s.goto c (.wakeOn w k t (s.sys.tasks t).schedNext)).Placed (update place t (.hand (.cpu c))) := by
  obtain ⟨_, hrep⟩ := h
  have hfirst : s.others (.toWake c) = some t := by
    rw [others, hpc]
    rfl
  have hnone : s.hands (.cpu c) = none := by
    rw [hands, hpc]
    rfl
  obtain ⟨_, hrep'⟩ := hrep.take hfirst hnone
  exact ⟨hrep.first hfirst, Placed.of_rep hrep' (others_goto _ c _) (hands_goto_hand hpc rfl) rfl⟩

lemma Placed.boost (h : s.Placed place) (c : K) (now : Word) : ∃ sys place', Kept s.sys sys ∧
    (if now ≥ (s.sys.cpus c).nextPriorityBoost then (prioBoost s.sys c).setNextBoost c (now + 100) else s.sys) = sys ∧
    (∀ u, place' u = place u ∨ place' u = boosted c (place u)) ∧ ({ s with sys := sys } : Machine K M).Placed place' := by
  by_cases htime : now ≥ (s.sys.cpus c).nextPriorityBoost
  · obtain ⟨_, hrep⟩ := h
    obtain ⟨_, hrep'⟩ := hrep.prioBoost
    have hkept := (Kept.refl s.sys).prioBoost c
    have hboost : ({ s with sys := prioBoost s.sys c } : Machine K M).Placed fun u => boosted c (place u) :=
      Placed.of_rep hrep' (others_sys hkept.sleepingList) rfl rfl
    exact ⟨_, _, hkept.setNextBoost c _, if_pos htime, fun u => .inr rfl, hboost.onCpu c (fun _ => rfl) (fun _ => rfl)
      (fun _ => rfl) fun _ => rfl⟩
  · exact ⟨s.sys, place, .refl s.sys, if_neg htime, fun u => .inl rfl, h⟩

lemma Placed.hold (h : s.Placed place) (ht : place t = .nowhere) (hpc : s.cpuPc c = o) (hnone : o.hand = none)
    (hhand : p.hand = some t) (hlist : p.list = o.list) (hnext : p.next = o.next) :
      (s.goto c p).Placed (update place t (.hand (.cpu c))) := by
  obtain ⟨_, hrep⟩ := h
  have hfree : s.hands (.cpu c) = none := by
    rw [hands, hpc, hnone]
  refine Placed.of_rep (hrep.hold ht hfree) (others_goto_of hpc hlist) ?_ rfl
  rw [hands_goto_hand hpc hnext, hhand]

lemma Placed.release (h : s.Placed place) (hpc : s.cpuPc c = .schedule (.switch t)) :
    (s.goto c .task).Placed (update place t .nowhere) := by
  obtain ⟨_, hrep⟩ := h
  have hnext : s.hands (.next c) = some t := by
    rw [hands, hpc]
    rfl
  exact Placed.of_rep (hrep.release hnext) (others_goto_of hpc rfl) (hands_goto_next hpc rfl) rfl

def Searched (s : Machine K M) (place : Word → Place K M) (c k : K) (r : Option Word) (sys : Cpus K) (stage : Stage) : Prop :=
  Kept s.sys sys ∧ ((r = none ∧ ({ s with sys := sys }.goto c (.schedule stage)).Placed place) ∨
    ∃ t p, r = some t ∧ place t = .list (.inl (k, p)) ∧
      ({ s with sys := sys }.goto c (.schedule (.switch t))).Placed (update place t (.hand (.next c))))

lemma searching_empty (h : p.searching = true) : p.list = none ∧ p.hand = none ∧ p.next = none := by
  cases p with
  | schedule stage =>
    cases stage with
    | dequeue => exact ⟨rfl, rfl, rfl⟩
    | steal => exact ⟨rfl, rfl, rfl⟩
    | _ => cases h
  | _ => cases h

lemma next_none_of_searching (h : (s.cpuPc c).searching = true) : s.hands (.next c) = none := (searching_empty h).2.2

lemma Placed.searched {r : Option Word} {stage : Stage} (hkept : Kept s.sys sys)
    (hsearch : (s.cpuPc c).searching = true)
    (hstage : (∃ i, stage = .steal i) ∨ stage = .fallback)
    (h : (r = none ∧ ∃ ls, Rep s.others s.hands sys ls place) ∨ ∃ t p, r = some t ∧ place t = .list (.inl (k, p)) ∧
      ∃ ls, Rep s.others (update s.hands (.next c) (some t)) sys ls (update place t (.hand (.next c)))) :
    Searched s place c k r sys stage := by
  obtain ⟨hlist, hhand, hnext⟩ := searching_empty hsearch
  have hothers := others_sys hkept.sleepingList
  have hstage' : (CpuPc.schedule stage : CpuPc K).hand = none ∧ (CpuPc.schedule stage : CpuPc K).next = none := by
    rcases hstage with ⟨_, rfl⟩ | rfl
    · exact ⟨rfl, rfl⟩
    · exact ⟨rfl, rfl⟩
  refine ⟨hkept, ?_⟩
  rcases h with ⟨hr, ls, hrep⟩ | ⟨t, p, hr, ht, ls, hrep⟩
  · refine .inl ⟨hr, Placed.of_rep hrep ?_ ?_ rfl⟩
    · exact (others_goto_of (s := { s with sys := sys }) (p := .schedule stage) rfl hlist.symm).trans hothers
    · exact hands_goto_of rfl (hstage'.1.trans hhand.symm) (hstage'.2.trans hnext.symm)
  · refine .inr ⟨t, p, hr, ht, Placed.of_rep hrep ?_ ?_ rfl⟩
    · exact (others_goto_of (s := { s with sys := sys }) (p := .schedule (.switch t)) rfl hlist.symm).trans hothers
    · exact hands_goto_next rfl hhand.symm

end Machine

end KernelSmp.Sched
