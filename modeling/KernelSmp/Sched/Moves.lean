import KernelSmp.Sched.Invariant

/-! How a task gets from place to place, and a CPU from one place in the code to the next. -/

namespace KernelSmp.Sched

def Place.Kept {K M : Type} (q : Place K M) : Prop := q ≠ .nowhere ∧ q.gone = false

namespace Machine

set_option linter.unusedSectionVars false

open Base Base.LinkedQueue Base.Dispatch Function Atomic Drivers

variable {K M : Type} [DecidableEq K] [DecidableEq M]

inductive Move (s s' : Machine K M) (a : Action K M) (x : Word) : Place K M → Place K M → Prop
  | stay (q : Place K M) : Move s s' a x q q
  | exit (hpc : s'.taskPc x = .yield .exited) (hstate : s'.stateOf x = .zombie) : Move s s' a x .nowhere (.list (.inr .dead))
  | create (t : Word) (hunused : s.used x = false) : Move s s' a x .nowhere (.hand (.task t))
  | sleep (c : K) : Move s s' a x .nowhere (.list (.inr (.sleeping c)))
  | wait (m : M) (hwaits : s'.waitsFor x = some m) : Move s s' a x .nowhere (.list (.inr (.wait m)))
  | block (c : K) (now frame : Word) (locked : Bool) (hat : s.At c x .kbdEmpty) (ha : a = .advance c now frame locked) :
      Move s s' a x .nowhere (.list (.inr .blocked))
  | publish (c : K) : Move s s' a x .nowhere (.hand (.cpu c))
  | unlock (t : Word) (m : M) (hwaits : s'.waitsFor x = none) : Move s s' a x (.list (.inr (.wait m))) (.hand (.task t))
  | register (t : Word) (k : K) : Move s s' a x (.hand (.task t)) (.list (.inl (k, levelOf (s.sys.tasks x).basePriority)))
  | condemn (t : Word) : Move s s' a x (.list (.inr .dead)) (.list (.inr (.toClean t)))
  | free (t : Word) (hunused : s'.used x = false) : Move s s' a x (.list (.inr (.toClean t))) .nowhere
  | expire (c : K) (now frame : Word) (locked : Bool) (ha : a = .advance c now frame locked)
    (hdue : (s.sys.tasks x).sleepUntil ≤ now) :
      Move s s' a x (.list (.inr (.sleeping c))) (.list (.inr (.toWake c)))
  | wakeup (c : K) : Move s s' a x (.list (.inr .blocked)) (.list (.inr (.toWake c)))
  | take (c : K) : Move s s' a x (.list (.inr (.toWake c))) (.hand (.cpu c))
  | enqueue (c k : K) : Move s s' a x (.hand (.cpu c)) (.list (.inl (k, levelOf (s.sys.tasks x).basePriority)))
  | boost (c : K) {p p' : Level} (hp : p' < p) : Move s s' a x (.list (.inl (c, p))) (.list (.inl (c, p')))
  | pick (c k : K) (p : Level) : Move s s' a x (.list (.inl (k, p))) (.hand (.next c))
  | switch (c : K) : Move s s' a x (.hand (.next c)) .nowhere

variable {s s' : Machine K M} {place place' : Word → Place K M} {a : Action K M}

lemma move_update {t x : Word} {q q' : Place K M} (hq : place t = q) (hmove : x = t → Move s s' a t q q') :
    Move s s' a x (place x) (update place t q' x) := by
  rcases eq_or_ne x t with rfl | hx
  · rw [update_self, hq]
    exact hmove rfl
  · rw [update_of_ne hx]
    exact .stay _

lemma move_boost {c : K} (hplace : ∀ u, place' u = place u ∨ place' u = boosted c (place u)) (x : Word) :
    Move s s' a x (place x) (place' x) := by
  rcases hplace x with hx | hx
  · rw [hx]
    exact .stay _
  · rw [hx, boosted, redirect, redirect]
    by_cases hone : place x = .list (.inl (c, 1))
    · simpa [hone] using Move.boost c (show (0 : Level) < 1 by decide)
    · rw [if_neg hone]
      split_ifs with htwo
      · rw [htwo]
        exact .boost c (by decide)
      · exact .stay _

theorem Inv.move (h : Inv s place) (he : Effect s place a s' place') (x : Word) : Move s s' a x (place x) (place' x) := by
  cases he with
  | unlockWake c t u m hat hidle hholds hu => exact move_update hu fun _ => .unlock t m (update_self u _ _)
  | exit c t hat =>
    refine move_update (h.nowhere (h.running hat rfl)) fun _ => .exit (update_self t _ _) ?_
    simp [taskExit, taskGoto, stateOf, Cpus.setState, Cpus.setCpuId, Cpus.setNext, Cpus.onTask]
  | create c t u user stackBase cr3 rsp hat hu => exact move_update (h.unused_nowhere hu) fun _ => .create t hu
  | reap c t =>
    simp only [redirect]
    split_ifs with hx
    · rw [hx]
      exact .condemn t
    · exact .stay _
  | sleep c t cpu direct sys hat => exact move_update (h.marked_nowhere (by rw [hat.pc]; rfl)) fun _ => .sleep cpu
  | wait c t m hat => exact move_update (h.nowhere (h.running hat rfl)) fun _ => .wait m (update_self t _ _)
  | register c t k u hat => exact move_update (h.held (by rw [hands, hat.pc]; rfl)) fun _ => .register t k
  | block c t now frame locked hat ha => exact move_update (h.nowhere (h.running hat rfl)) fun _ => .block c now frame locked hat ha
  | free c t u hat => exact move_update (h.reaped hat rfl) fun _ => .free t (update_self u _ _)
  | expire c sys list place' hpc hkept now frame locked ha hplace =>
    rcases hplace x with hx | ⟨hx, hx', hdue⟩
    · rw [hx]
      exact .stay _
    · rw [hx, hx']
      exact .expire c now frame locked ha hdue
  | wakeup c sys blocked list l place' hpc hl hkept hplace =>
    rw [hplace]
    split_ifs with hx
    · rw [(hl x).mp hx.1]
      exact .wakeup c
    · exact .stay _
  | wakeSleeper c t rest hpc ht => exact move_update ht fun _ => .take c
  | wakeReader c k t rest hpc ht => exact move_update ht fun _ => .take c
  | wakeOn c w k t rest hpc => exact move_update (h.held (by rw [hands, hpc]; rfl)) fun _ => .enqueue c k
  | publish c t sys place'' hpc ht hrun hpriority hkept hplace =>
    rcases eq_or_ne x t with rfl | hx
    · rw [update_self, h.nowhere hrun]
      exact .publish c
    · rw [update_of_ne hx]
      exact move_boost hplace x
  | pass c t sys place' hpc ht hnot hkept hplace => exact move_boost hplace x
  | noTask c sys place' hpc hnone hkept hplace => exact move_boost hplace x
  | requeue c t hpc => exact move_update (h.held (by rw [hands, hpc]; rfl)) fun _ => .enqueue c c
  | pick c k p t sys hpc hkept ht => exact move_update ht fun _ => .pick c k p
  | switch c t hpc => exact move_update (h.held (by rw [hands, hpc]; rfl)) fun _ => .switch c
  | _ => exact .stay _

section changes

inductive Change (s s' : Machine K M) (place place' : Word → Place K M) (x : Word) : Task → Prop
  | keep : Change s s' place place' x (s.sys.tasks x).face
  | create (user : Bool) (stackBase cr3 rsp : Word) (hunused : s.used x = false) (hplace : (place' x).Kept) :
      Change s s' place place' x (newTask s.nextTid user stackBase cr3 rsp).face
  | mark (c cpu : K) (ms now : Word) (direct : Bool) (hat : s.At c x (.sleepCall cpu ms direct)) (hplace : place' x = .nowhere)
      (hcpu : s'.cpuPc c = .task) (hpc : s'.taskPc x = .sleepMarked cpu direct) :
      Change s s' place place' x { (s.sys.tasks x).face with state := .sleeping, sleepUntil := now + ms }
  | block (c : K) (o : TaskPc K M) (reason : TaskReason) (hat : s.At c x o) (hbusy : o.mode = .busy) (hplace : (place' x).Kept) :
      Change s s' place place' x { (s.sys.tasks x).face with state := .blocked, waitReason := reason }
  | exit (hplace : (place' x).gone = true) :
      Change s s' place place' x { (s.sys.tasks x).face with state := .zombie, cpuId := -1 }
  | ready (hplace : (place' x).Kept) : Change s s' place place' x { (s.sys.tasks x).face with state := .ready }
  | leave (c : K) (hpc : s.cpuPc c = .schedule (.affinity x)) (hpc' : s'.cpuPc c = .schedule .dequeue)
      (htid : (s.sys.tasks x).tid ≥ 10) : Change s s' place place' x { (s.sys.tasks x).face with cpuId := -1 }
  | adopt (k : K) (hplace : place x ≠ .nowhere) :
      Change s s' place place' x { (s.sys.tasks x).face with
        priority := (s.sys.tasks x).basePriority
        cpuId := if (s.sys.tasks x).cpuId = -1 then (s.sys.cpus k).cpuId else (s.sys.tasks x).cpuId }
  | run (c : K) (hgone : (place' x).gone = false) :
      Change s s' place place' x { (s.sys.tasks x).face with state := .running, cpuId := (s.sys.cpus c).cpuId }

lemma Change.of_face {x : Word} (h : (s'.sys.tasks x).face = (s.sys.tasks x).face) :
    Change s s' place place' x (s'.sys.tasks x).face := by
  rw [h]
  exact .keep

lemma Change.of_set {t : Word} {v : Task} (x : Word) (ht : Change s s' place place' t v)
    (h : ∀ y, (s'.sys.tasks y).face = if y = t then v else (s.sys.tasks y).face) :
    Change s s' place place' x (s'.sys.tasks x).face := by
  rw [h]
  split_ifs with hx
  · rw [hx]
    exact ht
  · exact .keep

lemma Change.of_adopt {k : K} {t : Word} (x : Word) (ht : place t ≠ .nowhere) (h : Kept (s.sys.adopt k t) s'.sys) :
    Change s s' place place' x (s'.sys.tasks x).face := by
  refine .of_set x (.adopt k ht) fun y => ?_
  rw [h.task]
  by_cases hy : y = t <;> simp [Cpus.adopt, Cpus.onTask, Task.face, hy]

lemma Change.of_switch {c : K} {t : Word} (x : Word) (ht : (place' t).gone = false) :
    Change s (switchTo s c t) place place' x ((switchTo s c t).sys.tasks x).face := by
  refine .of_set x (.run c ht) fun y => ?_
  by_cases hy : y = t <;>
    simp [switchTo, goto, Cpus.setCurrent, Cpus.setState, Cpus.setCpuId, Cpus.onTask, Cpus.onCpu, Task.face, hy]

theorem Inv.change (h : Inv s place) (he : Effect s place a s' place') (x : Word) :
    Change s s' place place' x (s'.sys.tasks x).face := by
  have hput : ∀ {place : Word → Place K M} {t : Word} {q : Place K M}, q.Kept → (update place t q t).Kept := by
    intro place t q hq
    rwa [update_self]
  have hheld : ∀ {k : Hand K} {t : Word}, s.hands k = some t → place t ≠ .nowhere := by
    intro k t hk
    simp [h.held hk]
  cases he with
  | create c t u user stackBase cr3 rsp hat hu =>
    refine .of_set x (.create user stackBase cr3 rsp hu (hput ⟨by simp, rfl⟩)) fun y => ?_
    by_cases hy : y = u <;> simp [taskCreate, taskGoto, hy]
  | mark c t cpu ms direct now hat =>
    refine .of_set x (.mark c cpu ms now direct hat (h.nowhere (h.running hat rfl)) hat.cpu (update_self t _ _)) fun y => ?_
    by_cases hy : y = t <;> simp [onSys, taskGoto, Cpus.setState, Cpus.setSleepUntil, Cpus.onTask, Task.face, hy]
  | wait c t m hat =>
    refine .of_set x (.block c _ .mutex hat rfl (hput ⟨by simp, rfl⟩)) fun y => ?_
    by_cases hy : y = t <;> simp [taskGoto, Cpus.setState, Cpus.setReason, Cpus.setNext, Cpus.onTask, Task.face, hy]
  | block c t now frame locked hat =>
    refine .of_set x (.block c _ .keyboard hat rfl (hput ⟨by simp, rfl⟩)) fun y => ?_
    by_cases hy : y = t <;>
      simp [blockCurrent, taskGoto, Cpus.setState, Cpus.setReason, Cpus.setNext, Cpus.onTask, Task.face, hy]
  | exit c t =>
    refine .of_set x (.exit (by rw [update_self]; rfl)) fun y => ?_
    by_cases hy : y = t <;> simp [taskExit, taskGoto, Cpus.setState, Cpus.setCpuId, Cpus.setNext, Cpus.onTask, Task.face, hy]
  | unlockWake c t u => exact .of_face (((Kept.refl s.sys).setNext u none).task x)
  | ready c t u k hat =>
    have hu : place u = .hand (.task t) := h.held (by rw [hands, hat.pc]; rfl)
    refine .of_set x (.ready (by rw [hu]; exact ⟨by simp, rfl⟩)) fun y => ?_
    by_cases hy : y = u <;> simp [onSys, taskGoto, Cpus.setState, Cpus.onTask, Task.face, hy]
  | wakeSleeper c t =>
    refine .of_set x (.ready (hput ⟨by simp, rfl⟩)) fun y => ?_
    by_cases hy : y = t <;> simp [onSys, goto, Cpus.setState, Cpus.setNext, Cpus.onTask, Task.face, hy]
  | affinity c t hpc =>
    split_ifs with htid
    · refine .of_set x (.leave c hpc (update_self c _ _) htid) fun y => ?_
      by_cases hy : y = t <;> simp [onSys, goto, Cpus.setCpuId, Cpus.onTask, Task.face, hy]
    · exact .keep
  | publish c t sys place'' hpc ht hrun hpriority hkept =>
    refine .of_set x (.ready (hput ⟨by simp, rfl⟩)) fun y => ?_
    by_cases hy : y = t
    · rw [if_pos hy, ← hkept.task]
      simp [goto, Cpus.setState, Cpus.onTask, Task.face, hy]
    · simpa [goto, Cpus.setState, Cpus.onTask, hy] using hkept.task y
  | wakeup c sys blocked list l place' hpc hl hkept hplace =>
    by_cases hx : x ∈ l ∧ (s.sys.tasks x).waitReason = .keyboard
    · have hface : (sys.tasks x).face = { (s.sys.tasks x).face with state := .ready } :=
        (hkept.task x).trans (by simp [Cpus.readyAll, hx, Task.face])
      change Change s _ place place' x (sys.tasks x).face
      rw [hface]
      exact .ready (by rw [hplace, if_pos hx]; exact ⟨by simp, rfl⟩)
    · refine .of_face ((hkept.task x).trans ?_)
      simp [Cpus.readyAll, hx]
  | sleep c t cpu direct sys hat hkept => exact .of_face (hkept.task x)
  | expire c sys list place' hpc hkept => exact .of_face (hkept.task x)
  | pass c t sys place' hpc ht hnot hkept => exact .of_face (hkept.task x)
  | noTask c sys place' hpc hnone hkept => exact .of_face (hkept.task x)
  | pick c k p t sys hpc hkept => exact .of_face (hkept.task x)
  | search c stage sys hpc hkept => exact .of_face (hkept.task x)
  | register c t k u hat => exact .of_adopt x (hheld (k := .task t) (by rw [hands, hat.pc]; rfl)) (Kept.enqueueTask s.sys k u)
  | wakeOn c w k t rest hpc => exact .of_adopt x (hheld (by rw [hands, hpc]; rfl)) (Kept.enqueueTask s.sys k t)
  | requeue c t hpc => exact .of_adopt x (hheld (by rw [hands, hpc]; rfl)) (Kept.enqueueTask s.sys c t)
  | fallback c =>
    have hnowhere : place (s.idle c) = .nowhere := Place.eq_nowhere (h.sound.idle_nowhere c)
    exact .of_switch x (by rw [hnowhere]; rfl)
  | switch => exact .of_switch x (by rw [update_self]; rfl)
  | _ => exact .keep

end changes

lemma Effect.created (he : Effect s place a s' place') {x : Word} (hunused : s.used x = false) (hused : s'.used x = true) :
    ∃ tid user stackBase cr3 rsp, s'.sys.tasks x = newTask tid user stackBase cr3 rsp ∧ ∃ t k, s'.taskPc t = .enqueue k x := by
  have hchange : s'.used x ≠ s.used x := by simp [hunused, hused]
  cases he with
  | create c t u user stackBase cr3 rsp =>
    rcases eq_or_ne x u with rfl | hx
    · exact ⟨s.nextTid, user, stackBase, cr3, rsp, update_self x _ _, t, c, update_self t _ _⟩
    · exact absurd (by simp [taskCreate, taskGoto, hx]) hchange
  | free c t u =>
    by_cases hx : x = u
    · simp [reapNext, taskGoto, hx] at hused
    · exact absurd (by simp [reapNext, taskGoto, hx]) hchange
  | affinity =>
    refine absurd ?_ hchange
    split
    · rfl
    · rfl
  | _ => exact absurd rfl hchange

section acts

structure Works (s s' : Machine K M) (c : K) (t : Word) (o : TaskPc K M) : Prop extends s.At c t o where
  after : s'.cpuPc c = .task
  keeps : s'.current c = some t

inductive Act (s s' : Machine K M) (place' : Word → Place K M) (t : Word) : TaskPc K M → TaskPc K M → Prop
  | stay (q : TaskPc K M) : Act s s' place' t q q
  | new (hunused : s.used t = false) (hused : s'.used t = true) (q : TaskPc K M) : Act s s' place' t q .outside
  | enter (c : K) (p : TaskPc K M) (h : s.At c t .outside) (hidle : s.idle c ≠ t) (hlist : p.list = none)
    (hhand : p.hand = none)
      (hmode : p.mode ≠ .marked) : Act s s' place' t .outside p
  | unlockWake (c : K) (u : Word) (h : Works s s' c t .outside) (hidle : s.idle c ≠ t) : Act s s' place' t .outside (.waking u)
  | exit (c : K) (h : s.At c t .outside) (hidle : s.idle c ≠ t) : Act s s' place' t .outside (.yield .exited)
  | create (c : K) (u : Word) (h : Works s s' c t .outside) : Act s s' place' t .outside (.enqueue c u)
  | reap (c : K) (list : Option Word) (h : s.At c t .outside) (hidle : s.idle c = t) :
    Act s s' place' t .outside (.reaping list)
  | mark (c : K) (cpu : K) (ms : Word) (direct : Bool) (h : Works s s' c t (.sleepCall cpu ms direct)) :
      Act s s' place' t (.sleepCall cpu ms direct) (.sleepMarked cpu direct)
  | sleep (c : K) (cpu : K) (direct : Bool) (q : TaskPc K M) (h : s.At c t (.sleepMarked cpu direct))
    (hq : q = .reschedule ∨ q = .yield .outside)
      (hplace : place' t = .list (.inr (.sleeping cpu))) : Act s s' place' t (.sleepMarked cpu direct) q
  | yield (c : K) (next : Resume M) (h : s.At c t (.yield next)) : Act s s' place' t (.yield next) next.pc
  | reschedule (c : K) (h : s.At c t .reschedule) : Act s s' place' t .reschedule .outside
  | acquire (c : K) (m : M) (h : s.At c t (.mutexLoop m)) : Act s s' place' t (.mutexLoop m) .outside
  | wait (c : K) (m : M) (h : s.At c t (.mutexLoop m)) : Act s s' place' t (.mutexLoop m) (.yield (.mutexLoop m))
  | ready (c : K) (u : Word) (k : K) (h : Works s s' c t (.waking u)) : Act s s' place' t (.waking u) (.enqueue k u)
  | register (c : K) (k : K) (u : Word) (h : s.At c t (.enqueue k u)) (hsys : s'.sys = enqueueTask s.sys k u) :
      Act s s' place' t (.enqueue k u) .outside
  | noKey (c : K) (h : s.At c t .kbdLoop) : Act s s' place' t .kbdLoop .kbdEmpty
  | key (c : K) (h : s.At c t .kbdLoop) : Act s s' place' t .kbdLoop .outside
  | block (c : K) (h : s.At c t .kbdEmpty) : Act s s' place' t .kbdEmpty (.yield .kbdLoop)
  | exited (c : K) (h : s.At c t .exited) : Act s s' place' t .exited (.yield .exited)
  | reaped (c : K) (h : s.At c t (.reaping none)) : Act s s' place' t (.reaping none) .outside
  | free (c : K) (u : Word) (list : Option Word) (h : s.At c t (.reaping (some u))) :
    Act s s' place' t (.reaping (some u)) (.reaping list)

lemma Act.acts {t : Word} {o q : TaskPc K M} (h : Act s s' place' t o q) :
    q = o ∨ (s.used t = false ∧ s'.used t = true ∧ q = .outside) ∨ ∃ c, s.At c t o := by
  cases h with
  | stay => exact .inl rfl
  | new hunused hused => exact .inr (.inl ⟨hunused, hused, rfl⟩)
  | unlockWake c u h => exact .inr (.inr ⟨c, h.toAt⟩)
  | create c u h => exact .inr (.inr ⟨c, h.toAt⟩)
  | mark c cpu ms direct h => exact .inr (.inr ⟨c, h.toAt⟩)
  | ready c u k h => exact .inr (.inr ⟨c, h.toAt⟩)
  | _ => exact .inr (.inr ⟨_, ‹s.At _ t _›⟩)

lemma act_goto {c : K} {t x : Word} {o q : TaskPc K M} {pc : Word → TaskPc K M} (hat : s.At c t o)
    (hpc : pc = update s.taskPc t q) (hact : Act s s' place' t o q) : Act s s' place' x (s.taskPc x) (pc x) := by
  rcases eq_or_ne x t with rfl | hx
  · rw [hpc, update_self, hat.pc]
    exact hact
  · rw [hpc, update_of_ne hx]
    exact .stay _

theorem Effect.act (he : Effect s place a s' place') (x : Word) : Act s s' place' x (s.taskPc x) (s'.taskPc x) := by
  cases he with
  | enter c t p hat hidle hlist hhand hmode => exact act_goto hat rfl (.enter c p hat hidle hlist hhand hmode)
  | unlockWake c t u m hat hidle => exact act_goto hat rfl (.unlockWake c u ⟨hat, hat.cpu, hat.current⟩ hidle)
  | unlockFree c t m hat => exact act_goto hat rfl (.stay _)
  | exit c t hat hidle => exact act_goto hat rfl (.exit c hat hidle)
  | create c t u user stackBase cr3 rsp hat hu =>
    have hpc : (taskCreate s c t u user stackBase cr3 rsp).taskPc = update (update s.taskPc u .outside) t (.enqueue c u) := rfl
    rcases eq_or_ne x t with rfl | hx
    · rw [hpc, update_self, hat.pc]
      exact .create c u ⟨hat, hat.cpu, hat.current⟩
    · rcases eq_or_ne x u with rfl | hxu
      · rw [hpc, update_of_ne hx, update_self]
        exact .new hu (by simp [taskCreate, taskGoto]) _
      · rw [hpc, update_of_ne hx, update_of_ne hxu]
        exact .stay _
  | reap c t hat hidle => exact act_goto hat rfl (.reap c _ hat hidle)
  | mark c t cpu ms direct now hat => exact act_goto hat rfl (.mark c cpu ms direct ⟨hat, hat.cpu, hat.current⟩)
  | sleep c t cpu direct sys hat =>
    refine act_goto hat rfl (.sleep c cpu direct _ hat ?_ (update_self t _ _))
    cases direct
    · exact .inr rfl
    · exact .inl rfl
  | yield c t next hat => exact act_goto hat rfl (.yield c next hat)
  | reschedule c t hat => exact act_goto hat rfl (.reschedule c hat)
  | acquire c t m hat => exact act_goto hat rfl (.acquire c m hat)
  | wait c t m hat => exact act_goto hat rfl (.wait c m hat)
  | ready c t u k hat => exact act_goto hat rfl (.ready c u k ⟨hat, hat.cpu, hat.current⟩)
  | register c t k u hat => exact act_goto hat rfl (.register c k u hat rfl)
  | noKey c t hat => exact act_goto hat rfl (.noKey c hat)
  | key c t kbd hat => exact act_goto hat rfl (.key c hat)
  | block c t now frame locked hat => exact act_goto hat rfl (.block c hat)
  | exited c t hat => exact act_goto hat rfl (.exited c hat)
  | reaped c t hat => exact act_goto hat rfl (.reaped c hat)
  | free c t u hat => exact act_goto hat rfl (.free c u _ hat)
  | affinity =>
    split
    · exact .stay _
    · exact .stay _
  | _ => exact .stay _

end acts

section turns

inductive Turn (s s' : Machine K M) (place' : Word → Place K M) (a : Action K M) (c : K) : CpuPc K → CpuPc K → Prop
  | stay (p : CpuPc K) : Turn s s' place' a c p p
  | timer (ha : a = .timer c) : Turn s s' place' a c .task .sleepers
  | yield (t : Word) (next : Resume M) (h : s.At c t (.yield next)) : Turn s s' place' a c .task .sleepers
  | typed : Turn s s' place' a c .task .keyboard
  | reschedule (t : Word) (h : s.At c t .reschedule) : Turn s s' place' a c .task (.schedule .begin)
  | expire (list : Option Word) : Turn s s' place' a c .sleepers (.wake .sleepers list)
  | wakeup (list : Option Word) (hnone : ∀ x, place' x = .list (.inr .blocked) → (s'.sys.tasks x).waitReason ≠ .keyboard) :
      Turn s s' place' a c .keyboard (.wake .keyboard list)
  | take (w : Waker) (k : K) (t : Word) (rest : Option Word) : Turn s s' place' a c (.wake w (some t)) (.wakeOn w k t rest)
  | wakeOn (w : Waker) (k : K) (t : Word) (rest : Option Word) : Turn s s' place' a c (.wakeOn w k t rest) (.wake w rest)
  | sleepersDone : Turn s s' place' a c (.wake .sleepers none) (.schedule .begin)
  | readersDone : Turn s s' place' a c (.wake .keyboard none) .task
  | publish (t : Word) (ht : s.current c = some t) (hrun : s.stateOf t = .running) :
    Turn s s' place' a c (.schedule .begin) (.schedule (.enqueue t))
  | pass (t : Word) (ht : s.current c = some t) (hnot : s.stateOf t = .running → (s.sys.tasks t).priority = 3) :
      Turn s s' place' a c (.schedule .begin) (.schedule (.affinity t))
  | noTask (hnone : s.current c = none) : Turn s s' place' a c (.schedule .begin) (.schedule .dequeue)
  | requeue (t : Word) : Turn s s' place' a c (.schedule (.enqueue t)) (.schedule (.affinity t))
  | affinity (t : Word) : Turn s s' place' a c (.schedule (.affinity t)) (.schedule .dequeue)
  | pick (p : CpuPc K) (t : Word) (hp : p.searching = true) (now frame : Word) (locked : Bool)
    (ha : a = .advance c now frame locked)
      (hpick : s.picks c locked = some t) : Turn s s' place' a c p (.schedule (.switch t))
  | search (p : CpuPc K) (stage : Stage) (hp : p.searching = true) (hstage : (∃ i, stage = .steal i) ∨ stage = .fallback) :
      Turn s s' place' a c p (.schedule stage)

lemma setSleeping_currentTask (cpu c : K) (v : Option Word) : ((s.sys.setSleeping cpu v).cpus c).currentTask =
    (s.sys.cpus c).currentTask := by
  rcases eq_or_ne c cpu with rfl | hc
  · simp [Cpus.setSleeping, Cpus.onCpu]
  · simp [Cpus.setSleeping, Cpus.onCpu, hc]

lemma setSleeping_idleTask (cpu c : K) (v : Option Word) : ((s.sys.setSleeping cpu v).cpus c).idleTask =
    (s.sys.cpus c).idleTask := by
  rcases eq_or_ne c cpu with rfl | hc
  · simp [Cpus.setSleeping, Cpus.onCpu]
  · simp [Cpus.setSleeping, Cpus.onCpu, hc]

lemma waitReason_readyAll (sys : Cpus K) (l : List Word) (reason : TaskReason) (x : Word) :
    ((sys.readyAll l reason).tasks x).waitReason = (sys.tasks x).waitReason := by
  rw [Cpus.readyAll]
  simp only
  split <;> rfl

structure Switch (s s' : Machine K M) (place' : Word → Place K M) (c : K) (t : Word) : Prop where
  before : s.cpuPc c = .schedule .fallback ∧ t = s.idle c ∨ s.cpuPc c = .schedule (.switch t)
  after : s'.cpuPc c = .task
  current : s'.current c = some t
  running : s'.stateOf t = .running
  cpuId : (s'.sys.tasks t).cpuId = (s.sys.cpus c).cpuId
  nowhere : place' t = .nowhere

lemma switchTo_current (s : Machine K M) (c c' : K) (t : Word) : (switchTo s c' t).current c = if c =
    c' then some t else s.current c := by
  by_cases hc : c = c' <;> simp [switchTo, goto, current, Cpus.setCurrent, Cpus.onCpu, Cpus.setState, Cpus.setCpuId,
    Cpus.onTask, hc]

lemma turn_switch {c c' : K} {t : Word} (hpc : s.cpuPc c' = .schedule .fallback ∧ t = s.idle c' ∨
    s.cpuPc c' = .schedule (.switch t))
    (hplace : place' t = .nowhere) : ((switchTo s c' t).current c = s.current c ∧
      Turn s (switchTo s c' t) place' a c (s.cpuPc c) ((switchTo s c' t).cpuPc c)) ∨
        ∃ u, Switch s (switchTo s c' t) place' c u := by
  have hcpu : (switchTo s c' t).cpuPc = update s.cpuPc c' .task := rfl
  rcases eq_or_ne c c' with rfl | hc
  · refine .inr ⟨t, hpc, by rw [hcpu, update_self], by rw [switchTo_current, if_pos rfl], ?_, ?_, hplace⟩
    · simp [switchTo, goto, stateOf, Cpus.setCurrent, Cpus.onCpu, Cpus.setState, Cpus.setCpuId, Cpus.onTask]
    · simp [switchTo, goto, Cpus.setCurrent, Cpus.onCpu, Cpus.setCpuId, Cpus.onTask]
  · rw [switchTo_current, if_neg hc, hcpu, update_of_ne hc]
    exact .inl ⟨rfl, .stay _⟩

lemma turn_goto {c c' : K} {p o : CpuPc K} {current' : Option Word} {pc : K → CpuPc K} (hcurrent : current' = s.current c)
    (hpc : pc = update s.cpuPc c' p) (ho : s.cpuPc c' = o) (hturn : Turn s s' place' a c' o p) :
    (current' = s.current c ∧ Turn s s' place' a c (s.cpuPc c) (pc c)) := by
  refine ⟨hcurrent, ?_⟩
  rcases eq_or_ne c c' with rfl | hc
  · rw [hpc, update_self, ho]
    exact hturn
  · rw [hpc, update_of_ne hc]
    exact .stay _

theorem Inv.turn (h : Inv s place) (he : Effect s place a s' place') (c : K) :
    (s'.current c = s.current c ∧ Turn s s' place' a c (s.cpuPc c) (s'.cpuPc c)) ∨ ∃ t, Switch s s' place' c t := by
  cases he with
  | timer c' hint ha => exact .inl (turn_goto rfl rfl (interruptible_pc hint) (.timer ha))
  | typed c' kbd hint => exact .inl (turn_goto rfl rfl (interruptible_pc hint) .typed)
  | yield c' t next hat => exact .inl (turn_goto rfl rfl hat.cpu (.yield t next hat))
  | reschedule c' t hat => exact .inl (turn_goto rfl rfl hat.cpu (.reschedule t hat))
  | sleep c' t cpu direct sys hat hkept =>
    exact .inl ⟨(hkept.currentTask c).trans (setSleeping_currentTask cpu c _), .stay _⟩
  | register c' t k u => exact .inl ⟨(Kept.enqueueTask s.sys k u).currentTask c, .stay _⟩
  | expire c' sys list place' hpc hkept =>
    exact .inl (turn_goto ((hkept.currentTask c).trans (setSleeping_currentTask c' c _)) rfl hpc (.expire list))
  | wakeup c' sys blocked list l place' hpc hl hkept hplace =>
    refine .inl (turn_goto (hkept.currentTask c) rfl hpc (.wakeup list fun x hx => ?_))
    show (sys.tasks x).waitReason ≠ .keyboard
    rw [hkept.waitReason, waitReason_readyAll]
    intro hreason
    by_cases hin : x ∈ l ∧ (s.sys.tasks x).waitReason = .keyboard
    · simp [hplace, if_pos hin] at hx
    · rw [hplace, if_neg hin] at hx
      exact hin ⟨(hl x).mpr hx, hreason⟩
  | wakeSleeper c' t rest hpc => exact .inl (turn_goto rfl rfl hpc (.take .sleepers c' t rest))
  | wakeReader c' k t rest hpc => exact .inl (turn_goto rfl rfl hpc (.take .keyboard k t rest))
  | sleepersDone c' hpc => exact .inl (turn_goto rfl rfl hpc .sleepersDone)
  | readersDone c' hpc => exact .inl (turn_goto rfl rfl hpc .readersDone)
  | wakeOn c' w k t rest hpc =>
    exact .inl (turn_goto ((Kept.enqueueTask s.sys k t).currentTask c) rfl hpc (.wakeOn w k t rest))
  | publish c' t sys place' hpc ht hrun hpriority hkept =>
    exact .inl (turn_goto (hkept.currentTask c) rfl hpc (.publish t ht hrun))
  | pass c' t sys place' hpc ht hnot hkept => exact .inl (turn_goto (hkept.currentTask c) rfl hpc (.pass t ht hnot))
  | noTask c' sys place' hpc hnone hkept => exact .inl (turn_goto (hkept.currentTask c) rfl hpc (.noTask hnone))
  | requeue c' t hpc => exact .inl (turn_goto ((Kept.enqueueTask s.sys c' t).currentTask c) rfl hpc (.requeue t))
  | affinity c' t hpc =>
    split
    · exact .inl (turn_goto rfl rfl hpc (.affinity t))
    · exact .inl (turn_goto rfl rfl hpc (.affinity t))
  | pick c' k p t sys hpc hkept ht now frame locked ha hpick =>
    exact .inl (turn_goto (hkept.currentTask c) rfl rfl (.pick _ t hpc now frame locked ha hpick))
  | search c' stage sys hpc hkept hstage => exact .inl (turn_goto (hkept.currentTask c) rfl rfl (.search _ stage hpc hstage))
  | fallback c' hpc => exact turn_switch (.inl ⟨hpc, rfl⟩) (Place.eq_nowhere (h.sound.idle_nowhere c'))
  | switch c' t hpc => exact turn_switch (.inr hpc) (update_self t _ _)
  | _ => exact .inl ⟨rfl, .stay _⟩

end turns

end Machine

end KernelSmp.Sched
