import KernelSmp.Sched.Exclusive

/-! The mutexes: who holds one, who waits for it, and where a waiter is woken. -/

namespace KernelSmp.Sched.Machine

set_option linter.unusedSectionVars false

open Base Base.LinkedQueue Base.Dispatch Function Atomic Drivers List

variable {K M : Type} [DecidableEq K] [DecidableEq M]

variable {mutexes : M → MutexT} {holds : Word → M → Bool} {t u : Word} {m : M} {mutex : MutexT}

def Owned (mutexes : M → MutexT) (holds : Word → M → Bool) : Prop :=
  ∀ t m, holds t m = true → (mutexes m).owner = some t ∧ ¬ 0 < (mutexes m).count

lemma Owned.unique (h : Owned mutexes holds) (ht : holds t m = true) (hu : holds u m = true) : t = u :=
  Option.some.inj ((h t m ht).1.symm.trans (h u m hu).1)

lemma Owned.congr (h : Owned mutexes holds) (howner : mutex.owner = (mutexes m).owner)
    (hcount : mutex.count = (mutexes m).count) : Owned (update mutexes m mutex) holds := by
  intro x n hx
  rcases eq_or_ne n m with rfl | hn
  · rw [update_self, howner, hcount]
    exact h x n hx
  · rw [update_of_ne hn]
    exact h x n hx

lemma Owned.release (h : Owned mutexes holds) (ht : holds t m = true) (mutex : MutexT) :
    Owned (update mutexes m mutex) (update holds t (update (holds t) m false)) := by
  intro x n hx
  rcases eq_or_ne x t with rfl | hxt
  · rw [update_self] at hx
    by_cases hn : n = m
    · simp [hn] at hx
    · rw [update_of_ne hn] at hx ⊢
      exact h x n hx
  · rw [update_of_ne hxt] at hx
    by_cases hn : n = m
    · rw [hn] at hx
      exact absurd (h.unique hx ht) hxt
    · rw [update_of_ne hn]
      exact h x n hx

lemma Owned.acquire (h : Owned mutexes holds) (hfree : 0 < (mutexes m).count) (howner : mutex.owner = some t)
    (hcount : ¬ 0 < mutex.count) : Owned (update mutexes m mutex) (update holds t (update (holds t) m true)) := by
  intro x n hx
  rcases eq_or_ne n m with rfl | hn
  · rw [update_self]
    by_cases hxt : x = t
    · rw [hxt]
      exact ⟨howner, hcount⟩
    · rw [update_of_ne hxt] at hx
      exact absurd hfree (h x n hx).2
  · rw [update_of_ne hn]
    refine h x n ?_
    rcases eq_or_ne x t with rfl | hxt
    · rwa [update_self, update_of_ne hn] at hx
    · rwa [update_of_ne hxt] at hx

lemma Owned.forget (h : Owned mutexes holds) (t : Word) : Owned mutexes (update holds t fun _ => false) := by
  intro x n hx
  by_cases hxt : x = t
  · simp [hxt] at hx
  · rw [update_of_ne hxt] at hx
    exact h x n hx

variable {s s' : Machine K M} {place place' : Word → Place K M} {a : Action K M}

structure MutexInv (s : Machine K M) (place : Word → Place K M) : Prop where
  owned : Owned s.mutexes s.holds
  waits : ∀ t m, s.waitsFor t = some m ↔ place t = .list (.inr (.wait m))

lemma Effect.owned (he : Effect s place a s' place') (h : Owned s.mutexes s.holds) : Owned s'.mutexes s'.holds := by
  cases he with
  | unlockWake c t u m hat hidle hholds => exact h.release hholds _
  | unlockFree c t m hat hidle hholds => exact h.release hholds _
  | acquire c t m hat hfree => exact h.acquire hfree rfl (by simp)
  | wait => exact h.congr rfl rfl
  | create c t u => exact h.forget u
  | affinity =>
    split
    · exact h
    · exact h
  | _ => exact h

lemma Effect.waitsFor_cases (he : Effect s place a s' place') (x : Word) : s'.waitsFor x = s.waitsFor x ∨
    (∃ m, s'.waitsFor x = some m ∧ place' x = .list (.inr (.wait m))) ∨ s'.waitsFor x = none ∧ ∃ t, place' x =
      .hand (.task t) := by
  cases he with
  | unlockWake c t u =>
    rcases eq_or_ne x u with rfl | hx
    · exact .inr (.inr ⟨update_self x _ _, t, update_self x _ _⟩)
    · exact .inl (update_of_ne hx _ _)
  | wait c t m =>
    rcases eq_or_ne x t with rfl | hx
    · exact .inr (.inl ⟨m, update_self x _ _, update_self x _ _⟩)
    · exact .inl (update_of_ne hx _ _)
  | affinity =>
    refine .inl ?_
    split
    · rfl
    · rfl
  | _ => exact .inl rfl

lemma MutexInv.effect (hm : MutexInv s place) (h : Inv s place) (he : Effect s place a s' place') : MutexInv s' place' := by
  refine ⟨he.owned hm.owned, fun x m => ?_⟩
  rcases he.waitsFor_cases x with hsame | ⟨n, hwaits, hplace⟩ | ⟨hwaits, t, hplace⟩
  · have hbefore := hm.waits x m
    have hmove := h.move he x
    rw [← hsame] at hbefore
    generalize place x = q, place' x = q' at hmove hbefore
    cases hmove with
    | wait n hwaits =>
      rw [hwaits] at hbefore ⊢
      simp
    | unlock t n hwaits =>
      rw [hwaits]
      simp
    | _ => simpa using hbefore
  · rw [hwaits, hplace]
    simp
  · rw [hwaits, hplace]
    simp

def waitList (s : Machine K M) (m : M) : List Word := follow (nextOf s.sys) walkFuel (s.mutexes m).waitList

theorem mutex_exclusive {actions : List (Action K M)} (h : Booted s)
    (hg : Runs.Guarded step (fun s a => s.Apart a ∧ s.Left a ∧ s.Fresh a) s actions) :
    Runs.Always step (fun s => ∀ m,
      (∀ t u, s.holds t m = true → s.holds u m = true → t = u) ∧
      (∀ t, s.holds t m = true → (s.mutexes m).owner = some t) ∧
      (s.waitList m).Nodup ∧ ∀ t, t ∈ s.waitList m ↔ s.waitsFor t = some m) s actions := by
  have hstart : MutexInv s fun _ => .nowhere := by
    refine ⟨fun t m ht => ?_, fun t m => ?_⟩
    · simp [h.holds] at ht
    · simp [h.waitsFor]
  have halways := h.always hstart (fun s place a s' _ _ hg _ => hg)
    (fun s place a s' place' hinv hm _ he _ => hm.effect hinv he) hg
  apply halways.mono
  rintro s ⟨place, hinv, hm⟩ m
  obtain ⟨ls, -, hls, hnodup, hlisted⟩ := hinv.lists
  have hlist : s.waitList m = ls (.inr (.wait m)) := hls (.wait m)
  refine ⟨fun t u => hm.owned.unique, fun t ht => (hm.owned t m ht).1, ?_, fun t => ?_⟩
  · rw [hlist]
    exact hnodup _
  · rw [hlist, hlisted, hm.waits]

def blockOnMutex : List (Action (Fin 2) Unit) :=
  [.call 0 (.mutexLock ())] ++ advances 0 1 ++ startTask ++ [.call 0 (.mutexLock ())] ++ advances 0 8

theorem mutex_exclusive_twoCpus : ∃ s, Runs.run step twoCpus blockOnMutex = some s ∧
    s.waitList () = [0x400] ∧ s.holds 0x300 () = true ∧ (s.mutexes ()).owner = some 0x300 ∧ s.waitsFor 0x400 = some () := by
  refine Runs.exists_of_check (fun s => s.waitList () = [0x400] ∧ s.holds 0x300 () = true) (by decide +kernel)
    fun s hrun hs => ?_
  obtain ⟨-, howner, -, hwaits⟩ := (mutex_exclusive booted_twoCpus (by decide +kernel)).last hrun ()
  exact ⟨hs.1, hs.2, howner _ hs.2, (hwaits _).mp (by rw [hs.1]; exact mem_singleton_self _)⟩

variable {x : Word}

section homes

def Registered (s : Machine K M) (id : Word) : Prop := (s.getCpuById id).isSome = true

def past : CpuPc K → Bool
  | .schedule .dequeue => true
  | .schedule (.steal _) => true
  | .schedule .fallback => true
  | .schedule (.switch _) => true
  | _ => false

structure Homes (s : Machine K M) : Prop where
  cpus : ∀ c, s.Registered (s.sys.cpus c).cpuId
  ids : ∀ x, s.used x = true → s.Registered (s.sys.tasks x).cpuId ∨ (s.sys.tasks x).cpuId = -1
  stage : ∀ c t, s.cpuPc c = .schedule (.enqueue t) ∨ s.cpuPc c = .schedule (.affinity t) → s.current c = some t
  home : ∀ x, s.used x = true → s.Registered (s.sys.tasks x).cpuId ∨ s.stateOf x = .zombie ∨
    (∃ t k, s.taskPc t = .enqueue k x) ∨
    ((s.sys.tasks x).tid ≥ 10 ∧ ∀ c, s.current c = some x → past (s.cpuPc c) = true)

section effect

variable (h : Inv s place) (he : Effect s place a s' place')

include he

lemma Effect.cpuTable_eq : s'.cpuTable = s.cpuTable := by
  cases he with
  | affinity =>
    split
    · rfl
    · rfl
  | _ => rfl

lemma Effect.registered_iff (id : Word) : s'.Registered id ↔ s.Registered id := by
  rw [Registered, Registered, getCpuById, getCpuById, he.cpuTable_eq]

include h

lemma Effect.cpuId_cases (x : Word) : (s'.sys.tasks x).cpuId = (s.sys.tasks x).cpuId ∨
    (∃ k, (s'.sys.tasks x).cpuId = (s.sys.cpus k).cpuId) ∨
    ((s'.sys.tasks x).cpuId = -1 ∧ (s'.stateOf x = .zombie ∨ s.used x = false ∨
      ∃ c, s.cpuPc c = .schedule (.affinity x) ∧ past (s'.cpuPc c) = true ∧ (s.sys.tasks x).tid ≥ 10)) := by
  have hchange := h.change he x
  rw [show s'.stateOf x = (s'.sys.tasks x).face.state from rfl, show (s'.sys.tasks x).cpuId =
    (s'.sys.tasks x).face.cpuId from rfl]
  generalize (s'.sys.tasks x).face = v at hchange
  cases hchange with
  | create user stackBase cr3 rsp hunused => exact .inr (.inr ⟨rfl, .inr (.inl hunused)⟩)
  | exit => exact .inr (.inr ⟨rfl, .inl rfl⟩)
  | leave c hpc hpc' htid => exact .inr (.inr ⟨rfl, .inr (.inr ⟨c, hpc, by rw [hpc']; rfl, htid⟩)⟩)
  | run c => exact .inr (.inl ⟨c, rfl⟩)
  | adopt k =>
    split
    · exact .inr (.inl ⟨k, rfl⟩)
    · exact .inl rfl
  | _ => exact .inl rfl

lemma Effect.enqueue_cases {k : K} (hpc : s.taskPc t = .enqueue k x) : s'.taskPc t = .enqueue k x ∨
    (s'.sys.tasks x).cpuId = if (s.sys.tasks x).cpuId = -1 then (s.sys.cpus k).cpuId else (s.sys.tasks x).cpuId := by
  have hact := he.act t
  rw [hpc] at hact
  generalize s'.taskPc t = q at hact
  cases hact with
  | stay => exact .inl rfl
  | new hunused =>
    have hnone := (h.unused_pc t hunused).2
    rw [hpc] at hnone
    cases hnone
  | register c k u hat hsys =>
    refine .inr ?_
    rw [hsys, (Kept.enqueueTask s.sys k x).cpuId]
    simp [Cpus.adopt, Cpus.onTask]

lemma Effect.tid_eq (hused : s.used x = true) : (s'.sys.tasks x).tid = (s.sys.tasks x).tid := by
  rcases he.core_cases h x with hcore | ⟨-, hcore⟩ | ⟨hunused, -⟩
  · exact congrArg Prod.fst hcore
  · exact congrArg Prod.fst hcore
  · simp [hused] at hunused

end effect

lemma Homes.effect (hh : Homes s) (h : Inv s place) (he : Effect s place a s' place') (h' : Inv s' place') : Homes s' := by
  have hcpus : ∀ k, s'.Registered (s.sys.cpus k).cpuId := fun k => (he.registered_iff _).mpr (hh.cpus k)
  refine ⟨fun c => ?_, fun x hused => ?_, fun c t hc => ?_, fun x hused => ?_⟩
  · rw [(he.cpu_eq c).1]
    exact hcpus c
  · by_cases hwas : s.used x = true
    · rcases he.cpuId_cases h x with hsame | ⟨k, hk⟩ | ⟨hlost, -⟩
      · rw [hsame, he.registered_iff]
        exact hh.ids x hwas
      · rw [hk]
        exact .inl (hcpus k)
      · exact .inr hlost
    · obtain ⟨tid, user, stackBase, cr3, rsp, hnew, -⟩ := he.created (by simpa using hwas) hused
      rw [hnew]
      exact .inr rfl
  · rcases h.turn he c with ⟨hsame, hturn⟩ | ⟨u, hswitch⟩
    · rw [hsame]
      have hstage := hh.stage c t
      generalize s.cpuPc c = p, s'.cpuPc c = p' at hturn hc hstage
      cases hturn with
      | stay => exact hstage hc
      | publish => simp_all
      | pass => simp_all
      | requeue => exact hstage (.inl (by simpa using hc.symm))
      | search p stage hp hstage =>
        rcases hstage with ⟨i, rfl⟩ | rfl
        · simp at hc
        · simp at hc
      | _ => simp at hc
    · rw [hswitch.after] at hc
      simp at hc
  · by_cases hreg : s'.Registered (s'.sys.tasks x).cpuId
    · exact .inl hreg
    refine .inr ?_
    by_cases hwas : s.used x = true
    swap
    · obtain ⟨_, _, _, _, _, -, hpc⟩ := he.created (by simpa using hwas) hused
      exact .inr (.inl hpc)
    -- a CPU that still has `x` had it before, since one that starts it makes it its own
    have hcurrent : ∀ c, s'.current c = some x → s.current c = some x ∧ Turn s s' place' a c (s.cpuPc c) (s'.cpuPc c) := by
      intro c hc
      rcases h.turn he c with ⟨hsame, hturn⟩ | ⟨u, hswitch⟩
      · exact ⟨hsame.symm.trans hc, hturn⟩
      · cases hc.symm.trans hswitch.current
        rw [hswitch.cpuId] at hreg
        exact absurd (hcpus c) hreg
    have hzombie : s.stateOf x = .zombie → s'.stateOf x = .zombie := fun hx =>
      h'.gone_zombie x ((he.gone_stays h (h.zombie_gone x hwas hx)).resolve_right (by simp [hused]))
    rcases he.cpuId_cases h x with hsame | ⟨k, hk⟩ | ⟨hlost, hzombie' | hunused | ⟨c, hc, hpast, htid⟩⟩
    · rcases hh.home x hwas with hhome | hx | ⟨t, k, hpc⟩ | ⟨htid, haway⟩
      · rw [hsame, he.registered_iff] at hreg
        exact absurd hhome hreg
      · exact .inl (hzombie hx)
      · rcases he.enqueue_cases h hpc with hpc' | hcpuId
        · exact .inr (.inl ⟨t, k, hpc'⟩)
        · refine absurd ?_ hreg
          rw [hcpuId]
          split_ifs with hne
          · exact hcpus k
          · exact (he.registered_iff _).mpr ((hh.ids x hwas).resolve_right hne)
      · refine .inr (.inr ⟨by rwa [he.tid_eq h hwas], fun c hc => ?_⟩)
        obtain ⟨hbefore, hturn⟩ := hcurrent c hc
        have hpast := haway c hbefore
        generalize s.cpuPc c = p, s'.cpuPc c = p' at hturn hpast
        cases hturn with
        | stay => exact hpast
        | pick => rfl
        | search p stage hp hstage => rcases hstage with ⟨_, rfl⟩ | rfl <;> rfl
        | _ => cases hpast
    · rw [hk] at hreg
      exact absurd (hcpus k) hreg
    · exact .inl hzombie'
    · simp [hwas] at hunused
    · refine .inr (.inr ⟨by rwa [he.tid_eq h hwas], fun c' hc' => ?_⟩)
      obtain rfl := h.sound.current_unique c' c x (hcurrent c' hc').1 (hh.stage c x (.inr hc))
      exact hpast

def taskToWake (s : Machine K M) (c : K) : Option Word :=
  match s.cpuPc c, s.current c with
  | .task, some t =>
    match s.taskPc t with
    | .waking u => some u
    | _ => none
  | _, _ => none

lemma taskToWake_eq_some {c : K} (h : s.taskToWake c = some u) : ∃ t, s.At c t (.waking u) := by
  rw [taskToWake] at h
  split at h
  · rename_i t hcpu hcurrent
    split at h
    · rename_i v hpc
      cases h
      exact ⟨t, hcpu, hcurrent, hpc⟩
    · cases h
  · cases h

/-- `mutex_unlock` wakes a task that must stay on its CPU, or that its CPU has not left yet. -/
def WakesBound (s : Machine K M) : Action K M → Prop
  | .advance c _ _ _ => ∀ u, s.taskToWake c = some u →
      ¬ (s.sys.tasks u).tid ≥ 10 ∨ ∃ c', s.current c' = some u ∧ past (s.cpuPc c') = false
  | _ => True

def WakesOnCpu (s : Machine K M) : Action K M → Prop
  | .advance c _ _ _ => ∀ u, s.taskToWake c = some u → s.Registered (s.sys.tasks u).cpuId
  | _ => True

lemma Homes.wakesOnCpu (hh : Homes s) (h : Inv s place) (hbound : s.WakesBound a) : s.WakesOnCpu a := by
  cases a with
  | advance =>
    intro u hwake
    obtain ⟨t, hat⟩ := taskToWake_eq_some hwake
    have hu : place u = .hand (.task t) := h.held (by rw [hands, hat.pc]; rfl)
    have hused := h.sound.spot_used u (by
      show (place u).spot ≠ .nowhere
      rw [hu]
      simp [Place.spot])
    rcases hh.home u hused with hhome | hzombie | ⟨t', k, hpc⟩ | ⟨htid, haway⟩
    · exact hhome
    · have hgone := h.zombie_gone u hused hzombie
      rw [hu] at hgone
      cases hgone
    · have hu' : place u = .hand (.task t') := h.held (by rw [hands, hpc]; rfl)
      obtain rfl : t = t' := by simpa using hu.symm.trans hu'
      cases hat.pc.symm.trans hpc
    · rcases hbound u hwake with hlow | ⟨c', hc', hpast⟩
      · exact absurd htid hlow
      · simp [haway c' hc'] at hpast
  | _ => trivial

lemma registered_started {n : ℕ} [NeZero n] (idle : Fin n → Word) (main cr3 : Word) (hn : n ≤ 32) :
    (∀ c, (started idle main cr3 : Machine (Fin n) M).Registered
      ((started idle main cr3 : Machine (Fin n) M).sys.cpus c).cpuId) ∧
    ∀ t, (started idle main cr3 : Machine (Fin n) M).used t = true →
      (started idle main cr3 : Machine (Fin n) M).Registered
        ((started idle main cr3 : Machine (Fin n) M).sys.tasks t).cpuId := by
  have hid : ∀ i < n, (started idle main cr3 : Machine (Fin n) M).Registered (BitVec.ofNat 64 i) := by
    intro i hi
    have hsmall : i % 18446744073709551616 = i := Nat.mod_eq_of_lt (by omega)
    simp [Registered, getCpuById, started, hsmall, hi, show i < 32 by omega]
  refine ⟨fun c => hid c c.isLt, fun t ht => ?_⟩
  by_cases hmain : t = main
  · simpa [started, hmain, mainTask] using hid 0 (NeZero.pos n)
  · have hidle : (List.finRange n).findIdx (fun c => decide (idle c = t)) < n := by
      have hany : ∃ c ∈ List.finRange n, decide (idle c = t) = true := by
        simpa [started, hmain] using ht
      exact (findIdx_lt_length.mpr hany).trans_eq (length_finRange)
    simpa [started, hmain, idleTask] using hid _ hidle

theorem unlock_finds_cpu {actions : List (Action K M)} (h : Booted s) (hcpus : ∀ c, s.Registered (s.sys.cpus c).cpuId)
    (htasks : ∀ t, s.used t = true → s.Registered (s.sys.tasks t).cpuId)
    (hg : Runs.Guarded step (fun s a => s.WakesBound a ∧ s.Apart a ∧ s.Left a ∧ s.Fresh a) s actions) :
    Runs.Guarded step WakesOnCpu s actions := by
  have hstart : Homes s := by
    refine ⟨hcpus, fun x hx => .inl (htasks x hx), fun c t hc => ?_, fun x hx => .inl (htasks x hx)⟩
    rw [h.cpuPc] at hc
    simp at hc
  have halways := h.always (I := fun s _ => Homes s) hstart (fun s place a s' _ _ hg _ => hg.2)
    (fun s place a s' place' hinv hh _ he hinv' => hh.effect hinv he hinv') hg
  exact halways.guarded (fun s a ⟨place, hinv, hh⟩ hbound => hh.wakesOnCpu hinv hbound.1) hg

instance [Fintype K] (s : Machine K M) : (a : Action K M) → Decidable (s.WakesBound a)
  | .advance c _ _ _ => Option.decidableForallMem
      (p := fun u => ¬ (s.sys.tasks u).tid ≥ 10 ∨ ∃ c', s.current c' = some u ∧ past (s.cpuPc c') = false) (s.taskToWake c)
  | .timer _ | .keyboard _ _ | .call _ _ => .isTrue trivial

theorem unlock_finds_no_cpu : ∃ s, Runs.run step twoCpus (blockOnMutex ++ [.call 0 (.mutexUnlock ())]) = some s ∧
    s.taskToWake 0 = some 0x400 ∧ s.getCpuById (s.sys.tasks 0x400).cpuId = none := by
  decide +kernel

def wakeBound : List (Action (Fin 2) Unit) :=
  [.call 0 (.mutexLock ())] ++ advances 0 1 ++ stealTask ++ [.call 1 (.mutexLock ())] ++ advances 1 1 ++
    [.call 0 (.mutexUnlock ())] ++ advances 0 2

theorem unlock_finds_cpu_twoCpus : Runs.Guarded step (fun s a => s.WakesBound a ∧ s.Apart a ∧ s.Left a ∧ s.Fresh a)
    twoCpus wakeBound ∧
    Runs.Guarded step WakesOnCpu twoCpus wakeBound := by
  have hg : Runs.Guarded step (fun s a => s.WakesBound a ∧ s.Apart a ∧ s.Left a ∧ s.Fresh a) twoCpus wakeBound := by
    decide +kernel
  have hregistered := registered_started (M := Unit) ![0x100, 0x200] 0x300 0 (by decide)
  exact ⟨hg, unlock_finds_cpu booted_twoCpus hregistered.1 hregistered.2 hg⟩

end homes

end KernelSmp.Sched.Machine
