import KernelSmp.Sched.Boot

/-! No task runs on two CPUs, and none that still runs is freed. -/

namespace KernelSmp.Sched.Machine

set_option linter.unusedSectionVars false

open Base Base.LinkedQueue Base.Dispatch Function Atomic Drivers Option

variable {K M : Type} [DecidableEq K] [DecidableEq M]

variable {s s' : Machine K M} {place place' : Word → Place K M} {a : Action K M} {c : K} {t : Word}

def Alone (s : Machine K M) : Action K M → Prop
  | .advance c _ _ locked => ∀ t, s.picks c locked = some t → ∀ c', s.current c' = some t → c' = c
  | _ => True

lemma next_eq_some {p : CpuPc K} : p.next = some t ↔ p = .schedule (.switch t) := by
  cases p with
  | schedule stage => cases stage <;> simp [CpuPc.next]
  | _ => simp [CpuPc.next]

def PickedAlone (s : Machine K M) : Prop := ∀ c t, s.cpuPc c = .schedule (.switch t) → ∀ c', s.current c' = some t → c' = c

lemma PickedAlone.effect (hpicked : s.PickedAlone) (halone : s.Alone a) (h : Inv s place)
    (he : Effect s place a s' place') (h' : Inv s' place') : s'.PickedAlone := by
  intro c t hc c' hcur
  have hplace : place' t = .hand (.next c) := h'.held (by rw [hands, hc]; rfl)
  have hbefore : s.current c' = some t := by
    rcases h.turn he c' with ⟨hsame, -⟩ | ⟨u, hswitch⟩
    · rw [← hsame, hcur]
    · -- a task that has just been started has no place
      cases hcur.symm.trans hswitch.current
      simp [hswitch.nowhere] at hplace
  rcases h.turn he c with ⟨-, hturn⟩ | ⟨u, hswitch⟩
  · have hbusy := hpicked c t
    rw [hc] at hturn
    generalize s.cpuPc c = p at hturn hbusy
    cases hturn with
    | stay => exact hbusy rfl c' hbefore
    | pick p t hp now frame locked ha hpick =>
      subst ha
      exact halone t hpick c' hbefore
    | search p stage hp hstage => simp at hstage
  · simp [hswitch.after] at hc

lemma PickedAlone.apart (h : s.PickedAlone) (a : Action K M) : s.Apart a := by
  cases a with
  | advance c => exact h c
  | _ => trivial

variable {actions : List (Action K M)}

instance [Fintype K] (s : Machine K M) : (a : Action K M) → Decidable (s.Alone a)
  | .advance c _ _ locked => Option.decidableForallMem (p := fun t => ∀ c', s.current c' = some t → c' = c) (s.picks c locked)
  | .timer _ | .keyboard _ _ | .call _ _ => .isTrue trivial

instance [Fintype K] (s : Machine K M) : (a : Action K M) → Decidable (s.Apart a)
  | .advance c _ _ _ =>
    have := Option.decidableForallMem (p := fun t => ∀ c', s.current c' = some t → c' = c) (s.cpuPc c).next
    decidable_of_iff (∀ t ∈ (s.cpuPc c).next, ∀ c', s.current c' = some t → c' = c)
      (forall_congr' fun _ => by rw [mem_def, next_eq_some])
  | .timer _ | .keyboard _ _ | .call _ _ => .isTrue trivial

instance [Fintype K] (s : Machine K M) : (a : Action K M) → Decidable (s.Left a)
  | .call _ .reap =>
    have (c : K) := Option.decidableForallMem (p := fun t => s.stateOf t ≠ .zombie) (s.current c)
    inferInstanceAs (Decidable (∀ c, ∀ t ∈ s.current c, s.stateOf t ≠ .zombie))
  | .call _ (.mutexLock _) | .call _ (.mutexUnlock _) | .call _ (.sleep ..) | .call _ .yield | .call _ .readKbd | .call _ .exit
  | .call _ (.create ..) | .timer _ | .keyboard .. | .advance .. => .isTrue trivial

instance (s : Machine K M) : (a : Action K M) → Decidable (s.Fresh a)
  | .call _ (.create u _ _ _ _) => inferInstanceAs (Decidable (s.used u = false))
  | .call _ .reap | .call _ (.mutexLock _) | .call _ (.mutexUnlock _) | .call _ (.sleep ..) | .call _ .yield | .call _ .readKbd
  | .call _ .exit | .timer _ | .keyboard .. | .advance .. => .isTrue trivial

theorem tasks_exclusive (h : Booted s) (hg : Runs.Guarded step (fun s a => s.Alone a ∧ s.Left a ∧ s.Fresh a) s actions) :
    Runs.Always step (fun s =>
      (∀ c c' t, s.current c = some t → s.current c' = some t → c = c') ∧
      (∀ c p, (queue s.sys c p).Nodup) ∧
      (∀ c p c' p' t, t ∈ queue s.sys c p → t ∈ queue s.sys c' p' → c = c' ∧ p = p') ∧
      ∀ c c' t, s.cpuPc c = .schedule (.switch t) → s.current c' = some t → c' = c) s actions := by
  have hstart : s.PickedAlone := by
    intro c t hc
    simp [h.cpuPc] at hc
  have halways := h.always (I := fun s _ => s.PickedAlone) hstart (fun s place a s' _ hpicked hg _ => ⟨hpicked.apart a, hg.2⟩)
    (fun s place a s' place' hinv hpicked hg he hinv' => hpicked.effect hg.1 hinv he hinv') hg
  apply halways.mono
  rintro s ⟨place, hinv, hpicked⟩
  obtain ⟨ls, hls, -, hnodup, hlisted⟩ := hinv.lists
  refine ⟨hinv.sound.current_unique, fun c p => ?_, fun c p c' p' t hc hc' => ?_, fun c c' t hc => hpicked c t hc c'⟩
  · rw [hls]
    exact hnodup _
  · rw [hls, hlisted] at hc hc'
    simpa using hc.symm.trans hc'

instance neZeroTwo : NeZero 2 := ⟨by decide⟩

def twoCpus : Machine (Fin 2) Unit := started ![0x100, 0x200] 0x300 0

lemma booted_twoCpus : Booted twoCpus := booted_started 0 (by decide) (by decide)

def advances {K : Type} (c : K) (n : ℕ) : List (Action K Unit) := List.replicate n (.advance c 0 0 true)

def startTask : List (Action (Fin 2) Unit) :=
  [.call 0 (.create 0x400 false 0 0 0)] ++ advances 0 1 ++ [.timer 0] ++ advances 0 7

theorem two_cpus_run_one_task : ∃ s, Runs.run step twoCpus
    (startTask ++ [.timer 0] ++ advances 0 5 ++ [.timer 1] ++ advances 1 7) = some s ∧
    s.current 0 = some 0x400 ∧ s.current 1 = some 0x400 := by
  decide +kernel

theorem tasks_exclusive_twoCpus : Runs.Guarded step (fun s a => s.Alone a ∧ s.Left a ∧ s.Fresh a) twoCpus startTask ∧
    Runs.Always step (fun s => ∀ c c' t, s.current c = some t → s.current c' = some t → c = c') twoCpus startTask := by
  have hg : Runs.Guarded step (fun s a => s.Alone a ∧ s.Left a ∧ s.Fresh a) twoCpus startTask := by
    decide +kernel
  exact ⟨hg, (tasks_exclusive booted_twoCpus hg).mono fun s hs => hs.1⟩

theorem reaper_spares_current (h : Booted s) (hg : Runs.Guarded step (fun s a => s.Left a ∧ s.Apart a ∧ s.Fresh a) s actions) :
    Runs.Always step (fun s => (∀ c t u, s.At c t (.reaping (some u)) → ∀ c', s.current c' ≠ some u) ∧
      ∀ c t, s.current c = some t → s.used t = true) s actions := by
  have halways := h.always (I := fun _ _ => True) trivial (fun s place a s' _ _ hg _ => ⟨hg.2.1, hg.1, hg.2.2⟩)
    (fun _ _ _ _ _ _ _ _ _ _ => trivial) hg
  apply halways.mono
  rintro s ⟨place, hinv, -⟩
  refine ⟨fun c t u hat c' => hinv.sound.doomed_away u c' ?_, hinv.sound.current_used⟩
  show (place u).spot = .doomed
  rw [hinv.reaped hat rfl]
  rfl

def stealTask : List (Action (Fin 2) Unit) :=
  [.call 0 (.create 0x400 false 0 0 0)] ++ advances 0 1 ++ [.timer 1] ++ advances 1 7

def sleepMain : List (Action (Fin 2) Unit) := [.call 0 (.sleep 1000 true)] ++ advances 0 40

theorem reaper_frees_current : ∃ s, Runs.run step twoCpus
    (stealTask ++ sleepMain ++ [.call 1 .exit, .call 0 .reap] ++ advances 0 1) = some s ∧
    s.current 1 = some 0x400 ∧ s.used 0x400 = false := by
  decide +kernel

theorem reaper_spares_current_twoCpus :
    Runs.Guarded step (fun s a => s.Left a ∧ s.Apart a ∧ s.Fresh a) twoCpus
      (stealTask ++ sleepMain ++ [.call 1 .exit] ++ advances 1 40 ++ [.call 0 .reap] ++ advances 0 1) ∧
    Runs.Always step (fun s => ∀ c t u, s.At c t (.reaping (some u)) → ∀ c', s.current c' ≠ some u) twoCpus
      (stealTask ++ sleepMain ++ [.call 1 .exit] ++ advances 1 40 ++ [.call 0 .reap] ++ advances 0 1) := by
  have hg : Runs.Guarded step (fun s a => s.Left a ∧ s.Apart a ∧ s.Fresh a) twoCpus
      (stealTask ++ sleepMain ++ [.call 1 .exit] ++ advances 1 40 ++ [.call 0 .reap] ++ advances 0 1) := by
    decide +kernel
  exact ⟨hg, (reaper_spares_current booted_twoCpus hg).mono fun s hs => hs.1⟩

end KernelSmp.Sched.Machine
