import KernelSmp.Sched.NoLoss

/-! How often a level is served before the levels below it. -/

namespace KernelSmp.Sched

set_option linter.unusedSectionVars false

open Base Base.LinkedQueue Function Atomic Drivers List Option

variable {K M : Type} [DecidableEq K] [DecidableEq M]

variable {s : Cpus K} {c : K} {p low : Level}

def pickLoop (cpu : CpuContext) : List Level → Option Level
  | [] => none
  | p :: ps =>
    if cpu.rqHead p = none then pickLoop cpu ps
    else if cpu.currentQuanta p ≥ priorityQuanta p ∧ workBelow cpu p = true then pickLoop cpu ps
    else some p

def pickLevel (cpu : CpuContext) : Option Level := pickLoop cpu levels

variable {cpu : CpuContext}

lemma pickLoop_onQuanta {q : Level → BitVec 32} (ps : List Level) (h : ∀ p ∈ ps, q p = cpu.currentQuanta p) :
    pickLoop { cpu with currentQuanta := q } ps = pickLoop cpu ps := by
  induction ps with
  | nil => rfl
  | cons p ps ih =>
    rw [pickLoop, pickLoop, ih fun r hr => h r (mem_cons_of_mem p hr)]
    simp only [h p mem_cons_self]
    rfl

lemma onQuanta_cpu (f : BitVec 32 → BitVec 32) : ((s.onQuanta c p f).cpus c) =
    { s.cpus c with currentQuanta := update (s.cpus c).currentQuanta p (f ((s.cpus c).currentQuanta p)) } := by
  simp [Cpus.onQuanta, Cpus.onCpu]

lemma takeFirst_quanta (t : Word) : ((takeFirst s c p t).cpus c).currentQuanta =
    update (s.cpus c).currentQuanta p ((s.cpus c).currentQuanta p + 1) := by
  simp only [takeFirst]
  split <;> simp [Cpus.onQuanta, Cpus.onCount, Cpus.setHead, Cpus.setTail, Cpus.onCpu]

lemma dequeueLoop_quanta (ps : List Level) (hnodup : ps.Nodup) (hpick : pickLoop (s.cpus c) ps = some p)
    (hwork : workBelow (s.cpus c) p = true) : (s.cpus c).currentQuanta p < priorityQuanta p ∧
      (((dequeueLoop c ps s).2.cpus c).currentQuanta p) = (s.cpus c).currentQuanta p + 1 := by
  induction ps generalizing s with
  | nil => cases hpick
  | cons r ps ih =>
    rw [nodup_cons] at hnodup
    -- a level that is passed over loses its quanta, which says nothing about `p`
    have hpass : pickLoop (s.cpus c) ps = some p → r ≠ p → (s.cpus c).currentQuanta p < priorityQuanta p ∧
        (((dequeueLoop c ps (s.onQuanta c r fun _ => 0)).2.cpus c).currentQuanta p) = (s.cpus c).currentQuanta p + 1 := by
      intro hrest hrp
      have hcpu := onQuanta_cpu (s := s) (c := c) (p := r) fun _ => 0
      have hsame : (update (s.cpus c).currentQuanta r 0) p = (s.cpus c).currentQuanta p := update_of_ne hrp.symm _ _
      have := ih hnodup.2
        (by
          rw [hcpu, pickLoop_onQuanta ps fun q hq => update_of_ne (by rintro rfl; exact hnodup.1 hq) _ _]
          exact hrest)
        (by rw [hcpu]; exact hwork)
      rw [hcpu] at this
      simpa only [hsame] using this
    have hmem : ∀ {cpu : CpuContext} {ps : List Level}, pickLoop cpu ps = some p → p ∈ ps := by
      intro cpu ps hp
      induction ps with
      | nil => cases hp
      | cons q ps ih =>
        rw [pickLoop] at hp
        split_ifs at hp with hhead hskip
        · exact mem_cons_of_mem q (ih hp)
        · exact mem_cons_of_mem q (ih hp)
        · cases hp
          exact mem_cons_self
    rw [pickLoop] at hpick
    rw [dequeueLoop]
    split_ifs at hpick with hhead hskip
    · rw [hhead]
      exact hpass hpick (by rintro rfl; exact hnodup.1 (hmem hpick))
    · obtain ⟨t, ht⟩ := ne_none_iff_exists'.mp hhead
      rw [ht]
      simp only [if_pos hskip.1, if_pos hskip.2]
      exact hpass hpick (by rintro rfl; exact hnodup.1 (hmem hpick))
    · cases hpick
      obtain ⟨_, ht⟩ := ne_none_iff_exists'.mp hhead
      have hlow : ¬ (s.cpus c).currentQuanta p ≥ priorityQuanta p := fun hge => hskip ⟨hge, hwork⟩
      rw [ht]
      simp only [if_neg hlow]
      refine ⟨BitVec.not_le.mp hlow, ?_⟩
      rw [takeFirst_quanta, update_self]

lemma workBelow_of_head (hlow : low ∈ levels) (hp : p < low) (hhead : (cpu.rqHead low).isSome = true) :
    workBelow cpu p = true := by
  rw [workBelow, List.any_eq_true]
  exact ⟨low, hlow, by simp [hp, hhead]⟩

lemma pickLevel_isSome (hlow : low ∈ levels) (hhead : (cpu.rqHead low).isSome = true) : (pickLevel cpu).isSome = true := by
  -- the lowest of the levels that have a task is served at the latest
  have hcases : cpu.rqHead 2 ≠ none ∨ cpu.rqHead 1 ≠ none ∨ cpu.rqHead 0 ≠ none := by
    rw [isSome_iff_ne_none] at hhead
    fin_cases hlow
    · exact .inr (.inr hhead)
    · exact .inr (.inl hhead)
    · exact .inl hhead
  have hwork : ∀ p, workBelow cpu p = true ↔ (p < 1 ∧ cpu.rqHead 1 ≠ none) ∨ (p < 2 ∧ cpu.rqHead 2 ≠ none) := by
    intro p
    simp [workBelow, levels, isSome_iff_ne_none]
  simp only [pickLevel, levels, pickLoop, hwork, show ¬ (2 : Level) < 1 by decide, show ¬ (1 : Level) < 1 by decide,
    show ¬ (2 : Level) < 2 by decide, show (1 : Level) < 2 by decide, show (0 : Level) < 1 by decide, show (0 : Level) < 2 by decide]
  grind

variable {s' : Cpus K} {c' : K}

section frame

def quantaOf (s : Cpus K) (c : K) : Level → BitVec 32 := (s.cpus c).currentQuanta

lemma quantaOf_onCpu (s : Cpus K) (c : K) {f : CpuContext → CpuContext} (hf : ∀ x, (f x).currentQuanta = x.currentQuanta) :
    quantaOf (s.onCpu c f) = quantaOf s := by
  funext c'
  by_cases hc : c' = c
  · simp [quantaOf, Cpus.onCpu, hc, hf]
  · simp [quantaOf, Cpus.onCpu, hc]

lemma quantaOf_onQuanta (s : Cpus K) (hc : c' ≠ c) (p : Level) (f : BitVec 32 → BitVec 32) :
    quantaOf (s.onQuanta c p f) c' = quantaOf s c' := by
  simp [quantaOf, Cpus.onQuanta, Cpus.onCpu, hc]

section setters

variable (s : Cpus K) (c : K) (p : Level) (v : Option Word)

lemma quantaOf_setHead : quantaOf (s.setHead c p v) = quantaOf s := quantaOf_onCpu s c fun _ => rfl
lemma quantaOf_setTail : quantaOf (s.setTail c p v) = quantaOf s := quantaOf_onCpu s c fun _ => rfl
lemma quantaOf_onCount (f : BitVec 32 → BitVec 32) : quantaOf (s.onCount c p f) = quantaOf s := quantaOf_onCpu s c fun _ => rfl
lemma quantaOf_setSleeping : quantaOf (s.setSleeping c v) = quantaOf s := quantaOf_onCpu s c fun _ => rfl
lemma quantaOf_setCurrent (t : Word) : quantaOf (s.setCurrent c t) = quantaOf s := quantaOf_onCpu s c fun _ => rfl
lemma quantaOf_setNextBoost (x : Word) : quantaOf (s.setNextBoost c x) = quantaOf s := quantaOf_onCpu s c fun _ => rfl

lemma quantaOf_setNext (t : Word) : quantaOf (s.setNext t v) = quantaOf s := rfl
lemma quantaOf_setCpuId (t n : Word) : quantaOf (s.setCpuId t n) = quantaOf s := rfl

lemma quantaOf_linkFrom (prev : Option Word) : quantaOf (s.linkFrom c p prev v) = quantaOf s := by
  cases prev with
  | none => exact quantaOf_setHead s c p v
  | some => rfl

lemma quantaOf_linkSleeper (prev : Option Word) : quantaOf (s.linkSleeper c prev v) = quantaOf s := by
  cases prev with
  | none => exact quantaOf_setSleeping s c v
  | some => rfl

end setters

lemma quantaOf_takeFirst (s : Cpus K) (hc : c' ≠ c) (p : Level) (t : Word) : quantaOf (takeFirst s c p t) c' =
    quantaOf s c' := by
  simp only [takeFirst]
  rw [quantaOf_onQuanta _ hc, quantaOf_onCount]
  split
  · rw [quantaOf_setTail, quantaOf_setHead]
  · rw [quantaOf_setHead]

lemma quantaOf_dequeueLoop (s : Cpus K) (hc : c' ≠ c) (ps : List Level) : quantaOf (dequeueLoop c ps s).2 c' =
    quantaOf s c' := by
  induction ps generalizing s with
  | nil => rfl
  | cons p ps ih =>
    rw [dequeueLoop]
    split
    · rw [ih, quantaOf_onQuanta s hc]
    · split
      · split
        · rw [ih, quantaOf_onQuanta s hc]
        · rw [quantaOf_takeFirst _ hc, quantaOf_onQuanta s hc]
      · exact quantaOf_takeFirst s hc p _

lemma quantaOf_takeOut (s : Cpus K) (c : K) (p : Level) (prev : Option Word) (t : Word) :
    quantaOf (takeOut s c p prev t) = quantaOf s := by
  simp only [takeOut]
  rw [quantaOf_setNext, quantaOf_onCount]
  split
  · rw [quantaOf_setTail, quantaOf_linkFrom]
  · rw [quantaOf_linkFrom]

lemma quantaOf_stealTaskFromCpu {locked : Bool} {r : Option Word × Cpus K} (h : stealTaskFromCpu s c locked = some r) :
    quantaOf r.2 = quantaOf s := by
  have hloop : ∀ ps, stealLoop s c ps = some r → quantaOf r.2 = quantaOf s := by
    intro ps hps
    induction ps with
    | nil =>
      cases hps
      rfl
    | cons p ps ih =>
      obtain ⟨found, -, hrest⟩ := bind_eq_some_iff.mp hps
      cases found with
      | none => exact ih hrest
      | some =>
        cases hrest
        exact quantaOf_takeOut s c p _ _
  rw [stealTaskFromCpu] at h
  split at h
  · exact hloop levels h
  · cases h
    rfl

lemma quantaOf_boostLevel (s : Cpus K) (c : K) (p below : Level) : quantaOf (boostLevel s c p below) = quantaOf s := by
  rw [boostLevel]
  split
  · rfl
  · simp only [quantaOf_onCount, quantaOf_setTail, quantaOf_setHead, quantaOf_linkFrom]

lemma quantaOf_prioBoost (s : Cpus K) (c : K) : quantaOf (prioBoost s c) = quantaOf s := by
  rw [prioBoost, quantaOf_boostLevel, quantaOf_boostLevel]

lemma quantaOf_takeExpired {now : Word} {fuel : ℕ} {ready : Option Word} {r : Cpus K × Option Word}
    (h : takeExpired now c fuel s ready = some r) : quantaOf r.1 = quantaOf s := by
  induction fuel generalizing s ready with
  | zero => cases h
  | succ fuel ih =>
    rw [takeExpired] at h
    split at h
    · cases h
      rfl
    · split at h
      · exact (ih h).trans (quantaOf_setSleeping s c _)
      · cases h
        rfl

lemma quantaOf_wakeLoop {reason : TaskReason} {fuel : ℕ} {blocked prev curr toWake : Option Word}
    {r : Cpus K × Option Word × Option Word}
    (h : wakeLoop reason fuel s blocked prev curr toWake = some r) : quantaOf r.1 = quantaOf s := by
  induction fuel generalizing s blocked prev curr toWake with
  | zero => cases h
  | succ fuel ih =>
    cases curr with
    | none =>
      cases h
      rfl
    | some =>
      simp only [wakeLoop] at h
      split at h
      · split at h
        · exact (ih h).trans rfl
        · exact (ih h).trans rfl
      · exact ih h

lemma quantaOf_enqueueTask (s : Cpus K) (c : K) (t : Word) (c' : K) : quantaOf (enqueueTask s c t) c' =
    if c' = c then update (quantaOf s c) (levelOf (s.tasks t).basePriority) 0 else quantaOf s c' := by
  have hlevel : ((s.setPriority t (s.tasks t).basePriority).tasks t).priority = (s.tasks t).basePriority := by
    simp [Cpus.setPriority, Cpus.onTask]
  have hset : quantaOf (enqueueTask s c t) = quantaOf (s.onQuanta c (levelOf (s.tasks t).basePriority) fun _ => 0) := by
    simp only [enqueueTask, hlevel]
    split
    · rw [quantaOf_setCpuId, quantaOf_onCount, quantaOf_setTail, quantaOf_linkFrom]
      rfl
    · rw [quantaOf_onCount, quantaOf_setTail, quantaOf_linkFrom]
      rfl
  rw [hset]
  split_ifs with hc
  · rw [hc, quantaOf, onQuanta_cpu]
    rfl
  · exact quantaOf_onQuanta s hc _ _

end frame

namespace Machine

variable {s s' : Machine K M} {a : Action K M} {c : K} {t : Word} {p low : Level}

lemma call_quanta {what : Call M} (h : call s c t what = some s') : quantaOf s'.sys = quantaOf s.sys := by
  cases what with
  | mutexUnlock =>
    rw [call] at h
    split at h
    · cases h
    · cases h
      rw [mutexUnlockSection]
      simp only
      split <;> rfl
  | reap =>
    rw [call] at h
    split at h
    · cases h
      rw [schedReap]
      split <;> rfl
    · cases h
  | create =>
    cases h
    rfl
  | _ =>
    rw [call] at h
    split at h
    · cases h
    · cases h
      rfl

lemma taskStep_quanta {now : Word} (h : taskStep s c now t = some s') :
    quantaOf s'.sys = quantaOf s.sys ∨ ∃ k u, s.taskPc t = .enqueue k u ∧ s'.sys = enqueueTask s.sys k u := by
  rw [taskStep] at h
  split at h
  case h_8 k u hpc =>
    cases h
    exact .inr ⟨k, u, hpc, rfl⟩
  case h_3 cpu direct hpc =>
    obtain ⟨_, -, rfl⟩ := map_eq_some_iff.mp h
    exact .inl (quantaOf_linkSleeper _ cpu _ _)
  case h_6 m hpc =>
    cases h
    rw [mutexLockSection]
    split <;> exact .inl rfl
  case h_7 u hpc =>
    obtain ⟨_, -, rfl⟩ := map_eq_some_iff.mp h
    exact .inl rfl
  case h_9 hpc =>
    split at h
    · cases h
    · cases h
      split <;> exact .inl rfl
  all_goals
    cases h
    try exact .inl rfl

lemma schedBegin_quanta (now frame : Word) : quantaOf (schedBegin s c now frame).sys = quantaOf s.sys := by
  have hsys : quantaOf (if now ≥ (s.sys.cpus c).nextPriorityBoost then (prioBoost s.sys c).setNextBoost c
      (now + 100) else s.sys) =
      quantaOf s.sys := by
    split
    · rw [quantaOf_setNextBoost, quantaOf_prioBoost]
    · rfl
  rw [schedBegin]
  simp only
  generalize (if now ≥ (s.sys.cpus c).nextPriorityBoost then (prioBoost s.sys c).setNextBoost c (now + 100) else
    s.sys) = sys at hsys ⊢
  split
  · exact hsys
  · split
    · exact hsys
    · exact hsys

lemma step_quanta (h : step s a = some s') (c : K) : quantaOf s'.sys c = quantaOf s.sys c ∨
    (∃ t, s.enqueues a = some (c, t) ∧ quantaOf s'.sys c = update (quantaOf s.sys c) (levelOf (s.sys.tasks t).basePriority) 0) ∨
    ∃ now frame locked, a = .advance c now frame locked ∧ s.cpuPc c = .schedule .dequeue ∧
      s'.sys = (dequeueTask s.sys c).2 := by
  have henqueue : ∀ {k : K} {u : Word}, s'.sys = enqueueTask s.sys k u → s.enqueues a = some (k, u) →
      quantaOf s'.sys c = quantaOf s.sys c ∨
      ∃ t, s.enqueues a = some (c, t) ∧ quantaOf s'.sys c =
        update (quantaOf s.sys c) (levelOf (s.sys.tasks t).basePriority) 0 := by
    intro k u hsys hcall
    rw [hsys, quantaOf_enqueueTask]
    split_ifs with hc
    · subst hc
      exact .inr ⟨u, hcall, rfl⟩
    · exact .inl rfl
  cases a with
  | timer =>
    rw [step] at h
    split at h
    · cases h
      exact .inl rfl
    · cases h
  | keyboard =>
    rw [step] at h
    split at h
    · cases h
      rw [keyboardInterrupt]
      split <;> exact .inl rfl
    · cases h
  | call =>
    rw [step] at h
    split at h
    · split at h
      · exact .inl (congrFun (call_quanta h) c)
      · cases h
    · cases h
  | advance c' now frame locked =>
    rw [step] at h
    split at h
    · rename_i hpc
      obtain ⟨_, ht, htask⟩ := bind_eq_some_iff.mp h
      rcases taskStep_quanta htask with hsame | ⟨k, u, htpc, hsys⟩
      · exact .inl (congrFun hsame c)
      · refine (henqueue hsys ?_).imp_right .inl
        simp [enqueues, hpc, current, ht, htpc]
    · obtain ⟨r, hr, rfl⟩ := map_eq_some_iff.mp h
      exact .inl (congrFun (quantaOf_takeExpired hr) c)
    · obtain ⟨r, hr, rfl⟩ := map_eq_some_iff.mp h
      exact .inl (congrFun (quantaOf_wakeLoop hr) c)
    · rename_i w list hpc
      cases h
      cases w <;> cases list <;> exact .inl rfl
    · rename_i w target u rest hpc
      cases h
      exact (henqueue rfl (by simp [enqueues, hpc])).imp_right .inl
    · rename_i stage hpc
      cases stage with
      | begin =>
        cases h
        exact .inl (congrFun (schedBegin_quanta now frame) c)
      | enqueue =>
        cases h
        exact (henqueue rfl (by simp [enqueues, hpc])).imp_right .inl
      | affinity =>
        cases h
        refine .inl ?_
        split <;> rfl
      | dequeue =>
        cases h
        rcases eq_or_ne c c' with rfl | hc
        · exact .inr (.inr ⟨now, frame, locked, rfl, hpc, rfl⟩)
        · exact .inl (quantaOf_dequeueLoop s.sys hc levels)
      | steal =>
        rw [schedule] at h
        split at h
        · rw [stealFrom] at h
          split at h
          · cases h
            exact .inl rfl
          · split at h
            · cases h
              exact .inl rfl
            · obtain ⟨_, hr, rfl⟩ := map_eq_some_iff.mp h
              exact .inl (congrFun (quantaOf_stealTaskFromCpu hr) c)
        · cases h
          exact .inl rfl
      | fallback =>
        cases h
        exact .inl (congrFun (quantaOf_setCurrent _ c' _) c)
      | switch u =>
        cases h
        exact .inl (congrFun (quantaOf_setCurrent _ c' u) c)

def picksFrom (s : Machine K M) (c : K) : Action K M → Option Level
  | .advance c' _ _ _ => if c' = c ∧ s.cpuPc c = .schedule .dequeue then pickLevel (s.sys.cpus c) else none
  | _ => none

def pickedLevels (c : K) : Machine K M → List (Action K M) → List Level
  | _, [] => []
  | s, a :: actions => (step s a).elim [] fun s' => (s.picksFrom c a).toList ++ pickedLevels c s' actions

def KeepsQuanta (s : Machine K M) (c : K) (p : Level) (a : Action K M) : Prop :=
  ∀ t, s.enqueues a = some (c, t) → levelOf (s.sys.tasks t).basePriority = p → quantaOf s.sys c p = 0

lemma picksFrom_eq_some (h : s.picksFrom c a = some p) : ∃ now frame locked, a = .advance c now frame locked ∧
    s.cpuPc c = .schedule .dequeue ∧ pickLevel (s.sys.cpus c) = some p := by
  cases a with
  | advance c' now frame locked =>
    rw [picksFrom] at h
    split at h
    · rename_i hc
      obtain ⟨rfl, hpc⟩ := hc
      exact ⟨now, frame, locked, rfl, hpc, h⟩
    · cases h
  | _ => cases h

lemma quanta_pick (hstep : step s a = some s') (hpick : s.picksFrom c a = some p) (hwork : workBelow (s.sys.cpus c) p = true) :
    quantaOf s.sys c p < priorityQuanta p ∧ quantaOf s'.sys c p = quantaOf s.sys c p + 1 := by
  obtain ⟨_, _, _, rfl, hpc, hlevel⟩ := picksFrom_eq_some hpick
  rw [step, hpc] at hstep
  cases hstep
  exact dequeueLoop_quanta levels (by decide) hlevel hwork

lemma quanta_keep (hstep : step s a = some s') (hnone : s.picksFrom c a = none) (hlow : low ∈ levels)
    (hhead : ((s.sys.cpus c).rqHead low).isSome = true) (hkeeps : s.KeepsQuanta c p a) : quantaOf s'.sys c p =
      quantaOf s.sys c p := by
  rcases step_quanta hstep c with hsame | ⟨t, hcall, hreset⟩ | ⟨now, frame, locked, rfl, hpc, -⟩
  · rw [hsame]
  · rw [hreset]
    by_cases hlevel : levelOf (s.sys.tasks t).basePriority = p
    · rw [hlevel, update_self, hkeeps t hcall hlevel]
    · rw [update_of_ne (Ne.symm hlevel)]
  · rw [picksFrom, if_pos ⟨rfl, hpc⟩] at hnone
    have hsome := pickLevel_isSome hlow hhead
    simp [hnone] at hsome

theorem picks_bounded {actions : List (Action K M)} {n : ℕ} (hlow : low ∈ levels) (hp : p < low)
    (hg : Runs.Guarded step (fun s a => ((s.sys.cpus c).rqHead low).isSome = true ∧ s.KeepsQuanta c p a) s actions)
    (hpicks : pickedLevels c s actions = List.replicate n p) : n ≤ (priorityQuanta p).toNat := by
  have hnil : ∀ {n : ℕ}, [] = List.replicate n p → n = 0 := fun {n} h => by simpa using (congrArg List.length h).symm
  have hbound : n = 0 ∨ (quantaOf s.sys c p).toNat + n ≤ (priorityQuanta p).toNat := by
    induction actions generalizing s n with
    | nil => exact .inl (hnil hpicks)
    | cons a actions ih =>
      obtain ⟨⟨hhead, hkeeps⟩, hrest⟩ := hg
      rw [pickedLevels] at hpicks
      cases hstep : step s a with
      | none =>
        rw [hstep] at hpicks
        exact .inl (hnil hpicks)
      | some s' =>
        rw [hstep, elim_some] at hpicks
        cases hfrom : s.picksFrom c a with
        | none =>
          rw [hfrom, toList_none, nil_append] at hpicks
          rw [← quanta_keep hstep hfrom hlow hhead hkeeps]
          exact ih (hrest s' hstep) hpicks
        | some q =>
          rw [hfrom, toList_some, singleton_append] at hpicks
          cases n with
          | zero => exact .inl rfl
          | succ n =>
            rw [replicate_succ, List.cons.injEq] at hpicks
            obtain ⟨rfl, hpicks⟩ := hpicks
            obtain ⟨hlt, hused⟩ := quanta_pick hstep hfrom (workBelow_of_head hlow hp hhead)
            have hone : (quantaOf s.sys c q + 1).toNat = (quantaOf s.sys c q).toNat + 1 := by
              bv_omega
            rw [BitVec.lt_def] at hlt
            refine .inr ?_
            rcases ih (hrest s' hstep) hpicks with rfl | hih
            · omega
            · rw [hused, hone] at hih
              omega
  omega

instance (s : Machine K M) (c : K) (p : Level) (a : Action K M) : Decidable (s.KeepsQuanta c p a) :=
  have := Option.decidableForallMem (p := fun x : K × Word => x.1 = c → levelOf (s.sys.tasks x.2).basePriority = p →
    quantaOf s.sys c p = 0)
    (s.enqueues a)
  decidable_of_iff (∀ x ∈ s.enqueues a, x.1 = c → levelOf (s.sys.tasks x.2).basePriority = p → quantaOf s.sys c p = 0)
    ⟨fun h t ht => h (c, t) ht rfl, fun h x hx hc => h x.2 (by rw [← hc]; exact hx)⟩

section actions

local instance neZeroOne : NeZero 1 := ⟨by decide⟩

def waitBelow : List (Action (Fin 1) Unit) := [.timer 0] ++ advances 0 7 ++ [.call 0 (.create 0x400 true 0 0 0)] ++ advances 0 1

def yields (n : ℕ) : List (Action (Fin 1) Unit) := (List.replicate n ([.call 0 .yield] ++ advances 0 8)).flatten

end actions

theorem picks_unbounded : ∃ s, Runs.run step oneCpu waitBelow = some s ∧
    Runs.Guarded step (fun s _ => ((s.sys.cpus 0).rqHead 1).isSome = true) s (yields 11) ∧
    pickedLevels 0 s (yields 11) = List.replicate 11 0 ∧ (priorityQuanta 0).toNat = 10 := by
  decide +kernel

theorem picks_bounded_oneCpu : ∃ s, Runs.run step oneCpu
    (waitBelow ++ [.call 0 (.create 0x500 false 0 0 0)] ++ advances 0 1) = some s ∧
    pickedLevels 0 s ([.call 0 (.sleep 1000 true)] ++ advances 0 7) = List.replicate 1 0 ∧ 1 ≤ (priorityQuanta 0).toNat := by
  refine Runs.exists_of_check (fun s => Runs.Guarded step (fun s a => ((s.sys.cpus 0).rqHead 1).isSome = true ∧
    s.KeepsQuanta 0 0 a) s ([.call 0 (.sleep 1000 true)] ++ advances 0 7) ∧
      pickedLevels 0 s ([.call 0 (.sleep 1000 true)] ++ advances 0 7) = List.replicate 1 0) (by decide +kernel) fun s
        hrun hs => ?_
  exact ⟨hs.2, picks_bounded (p := 0) (by decide) (by decide) hs.1 hs.2⟩

end Machine

end KernelSmp.Sched
