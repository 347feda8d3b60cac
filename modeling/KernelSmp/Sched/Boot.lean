import KernelSmp.Sched.RunQueueCalls
import KernelSmp.Sched.Soundness

/-! The machine when its CPUs have been started. -/

namespace KernelSmp.Sched.Machine

set_option linter.unusedSectionVars false

open Base Base.LinkedQueue Base.Dispatch Function Atomic Drivers

variable {K M : Type} [DecidableEq K] [DecidableEq M]

structure Booted (s : Machine K M) : Prop where
  cpus : ∀ c, ∃ cpu : CpuContext, s.sys.cpus c = cpu.init ∧ cpu.sleepingList = none
  blocked : s.blockedTaskList = none
  dead : s.deadTaskList = none
  mutexes : ∀ m, s.mutexes m = ⟨1, none, none⟩
  kbd : s.kbd.head = s.kbd.tail
  kbdLocked : s.kbdLocked = false
  cpuPc : ∀ c, s.cpuPc c = .task
  taskPc : ∀ t, s.taskPc t = .outside
  holds : ∀ t m, s.holds t m = false
  waitsFor : ∀ t, s.waitsFor t = none
  running : ∀ t, s.used t = true → s.stateOf t = .running
  current_used : ∀ c t, s.current c = some t → s.used t = true
  current_unique : ∀ c c' t, s.current c = some t → s.current c' = some t → c = c'
  idle_used : ∀ c, s.used (s.idle c) = true
  idle_priority : ∀ c, (s.sys.tasks (s.idle c)).priority = 3
  idle_injective : Injective s.idle
  idle_home : ∀ c c', s.current c' = some (s.idle c) → c' = c
  main : ∀ t, s.used t = true → (∀ c, s.idle c ≠ t) →
    (∃ c, s.current c = some t) ∧ (s.sys.tasks t).priority = 0 ∧ (s.sys.tasks t).basePriority = 0

variable {s : Machine K M}

lemma Booted.placed (h : Booted s) : s.Placed fun _ => .nowhere := by
  have hothers : ∀ j, s.others j = none := by
    intro j
    cases j with
    | sleeping c =>
      obtain ⟨cpu, hcpu, _⟩ := h.cpus c
      rwa [others, hcpu]
    | blocked => exact h.blocked
    | dead => exact h.dead
    | wait => rw [others, h.mutexes]
    | toWake => simp [others, h.cpuPc, CpuPc.list]
    | toClean => simp [others, h.taskPc, TaskPc.list]
  have hhands : ∀ k, s.hands k = none := by
    intro k
    cases k with
    | cpu => simp [hands, h.cpuPc, CpuPc.hand]
    | next => simp [hands, h.cpuPc, CpuPc.next]
    | task => simp [hands, h.taskPc, TaskPc.hand]
  have hinit : ∀ i : K × Level, headOf s.sys i = none ∧ tailOf s.sys i = none ∧ countOf s.sys i = 0 := by
    intro i
    obtain ⟨_, hcpu, -⟩ := h.cpus i.1
    rw [headOf, tailOf, countOf, hcpu]
    exact ⟨rfl, rfl, rfl⟩
  refine ⟨fun _ => [], ⟨⟨fun i => ?_, fun i => List.nodup_nil, fun i j a ha => by cases ha⟩, fun i => (hinit i).2.1,
    fun i => (hinit i).2.2⟩,
    fun i t => by simp, fun k t => by simp [hhands]⟩
  cases i with
  | inl i => exact (hinit i).1
  | inr j => exact hothers j

theorem Booted.inv (h : Booted s) : Inv s fun _ => .nowhere where
  placed := h.placed
  sound := {
    running_nowhere := fun _ _ => rfl
    current_unique := h.current_unique
    active := fun c t hc _ _ => by simpa [board] using h.running t (h.current_used c t hc)
    marked := fun t ht => by
      rw [show (s.board _).mode t = (s.taskPc t).mode from rfl, h.taskPc] at ht
      cases ht
    idle_injective := h.idle_injective
    idle_nowhere := fun _ => rfl
    idle_busy := fun c => by
      show (s.taskPc (s.idle c)).mode = .busy
      rw [h.taskPc]
      rfl
    idle_home := h.idle_home
    current_used := h.current_used
    spot_used := fun _ ht => absurd rfl ht
    idle_used := h.idle_used
    doomed_away := fun _ _ ht => by cases ht }
  idle_priority := h.idle_priority
  idle_pc c := by
    rw [h.taskPc]
    rfl
  gone_zombie _ ht := by cases ht
  zombie_gone t hused ht := by
    rw [h.running t hused] at ht
    cases ht
  gone_pc _ ht := by cases ht
  unused_pc t _ := by
    rw [h.taskPc]
    exact ⟨rfl, rfl⟩

section runs

variable {s : Machine K M} {place : Word → Place K M} {g : Machine K M → Action K M → Prop}

theorem Booted.always {I : Machine K M → (Word → Place K M) → Prop} (h : Booted s) (hstart : I s fun _ => .nowhere)
    (hpermit : ∀ s place a s', Inv s place → I s place → g s a → step s a = some s' → s.Apart a ∧ s.Left a ∧ s.Fresh a)
    (hkeep : ∀ s place a s' place', Inv s place → I s place → g s a → Effect s place a s' place' → Inv s' place' → I s' place')
    {actions : List (Action K M)} (hg : Runs.Guarded step g s actions) :
    Runs.Always step (fun s => ∃ place, Inv s place ∧ I s place) s actions := by
  refine Runs.invariant ?_ ⟨_, h.inv, hstart⟩ hg
  rintro s a s' ⟨place, hinv, hI⟩ ha hstep
  obtain ⟨hapart, hleft, hfresh⟩ := hpermit s place a s' hinv hI ha hstep
  obtain ⟨place', he, hinv'⟩ := hinv.step hapart hleft hfresh hstep
  exact ⟨place', hinv', hkeep s place a s' place' hinv hI ha he hinv'⟩

lemma Inv.lists (h : Inv s place) : ∃ ls : Family K M, (∀ c p, queue s.sys c p = ls (.inl (c, p))) ∧
    (∀ j, follow (nextOf s.sys) walkFuel (s.others j) = ls (.inr j)) ∧ (∀ i, (ls i).Nodup) ∧ ∀ i t, t ∈ ls i ↔
      place t = .list i := by
  obtain ⟨ls, hrep⟩ := h.placed
  have hfuel : ∀ i, (ls i).length ≤ walkFuel := fun i => (Word.length_le_of_nodup (hrep.queues.lists.nodup i)).trans
    (Nat.le_succ _)
  exact ⟨ls, fun c p => (hrep.queues.lists.chain (.inl (c, p))).follow_eq (hfuel _),
    fun j => (hrep.queues.lists.chain (.inr j)).follow_eq (hfuel _), hrep.queues.lists.nodup, hrep.listed⟩

end runs

section start

def idleTask (cpuId stackBase cr3 rsp : Word) : Task where
  tid := 1
  rsp := rsp
  stackBase := stackBase
  stackSize := 4096
  state := .running
  waitReason := .keyboard
  cr3 := cr3
  schedNext := none
  priority := 3
  basePriority := 0
  cpuId := cpuId
  sleepUntil := 0

def mainTask (cpuId cr3 : Word) : Task where
  tid := 0
  rsp := 0
  stackBase := 0
  stackSize := 0
  state := .running
  waitReason := .keyboard
  cr3 := cr3
  schedNext := none
  priority := 0
  basePriority := 0
  cpuId := cpuId
  sleepUntil := 0

/-- What `sched_init` on CPU 0 and `sched_init_ap` on the others leave, with the idle tasks at `idle` and the main task
at `main`. -/
def started {n : ℕ} [NeZero n] (idle : Fin n → Word) (main cr3 : Word) : Machine (Fin n) M where
  sys := {
    tasks := fun t => if t = main then mainTask 0 cr3 else idleTask
      (BitVec.ofNat 64 ((List.finRange n).findIdx (idle · = t))) 0 cr3 0
    cpus := fun c => CpuContext.init
      ⟨BitVec.ofNat 64 c, some (if c = 0 then main else idle c), idle c, fun _ => none, fun _ => none, fun _ => 0,
        fun _ => 0, 0, none⟩ }
  cpuTable i := if h : i < n then some ⟨i, h⟩ else none
  blockedTaskList := none
  deadTaskList := none
  mutexes _ := ⟨1, none, none⟩
  kbd := .init
  kbdLocked := false
  nextTid := 10
  isUser _ := false
  cpuPc _ := .task
  taskPc _ := .outside
  holds _ _ := false
  waitsFor _ := none
  used t := t = main || (List.finRange n).any (idle · = t)

lemma booted_started {n : ℕ} [NeZero n] {idle : Fin n → Word} {main : Word} (cr3 : Word) (hidle : Injective idle)
    (hmain : ∀ c, idle c ≠ main) : Booted (started idle main cr3 : Machine (Fin n) M) := by
  have hcurrent : ∀ c t, (started idle main cr3 : Machine (Fin n) M).current c = some t → t = if c = 0 then main else idle c :=
    fun c t hc => (Option.some.inj hc).symm
  refine {
    cpus := fun c => ⟨_, rfl, rfl⟩
    blocked := rfl
    dead := rfl
    mutexes := fun _ => rfl
    kbd := rfl
    kbdLocked := rfl
    cpuPc := fun _ => rfl
    taskPc := fun _ => rfl
    holds := fun _ _ => rfl
    waitsFor := fun _ => rfl
    running := fun t _ => ?_
    current_used := fun c t hc => ?_
    current_unique := fun c c' t hc hc' => ?_
    idle_used := fun c => ?_
    idle_priority := fun c => ?_
    idle_injective := hidle
    idle_home := fun c c' hc => ?_
    main := fun t ht hnot => ?_ }
  · simp only [stateOf, started]
    split <;> rfl
  · rw [hcurrent c t hc]
    simp only [started]
    split <;> simp
  · have hsame := (hcurrent c t hc).symm.trans (hcurrent c' t hc')
    split_ifs at hsame with hc hc' hc'
    · rw [hc, hc']
    · exact absurd hsame.symm (hmain c')
    · exact absurd hsame (hmain c)
    · exact hidle hsame
  · simp [started, Machine.idle, CpuContext.init]
  · simp [started, Machine.idle, CpuContext.init, hmain, idleTask]
  · have hsame := hcurrent c' _ hc
    split_ifs at hsame with hc'
    · exact absurd hsame (hmain c)
    · exact (hidle hsame).symm
  · have htmain : t = main := by
      simp only [started, Bool.or_eq_true, decide_eq_true_eq, List.any_eq_true] at ht
      rcases ht with ht | ⟨c, -, hc⟩
      · exact ht
      · exact absurd hc (hnot c)
    subst htmain
    refine ⟨⟨0, ?_⟩, ?_, ?_⟩
    · simp [current, started, CpuContext.init]
    · simp [started, mainTask]
    · simp [started, mainTask]

end start

end KernelSmp.Sched.Machine
