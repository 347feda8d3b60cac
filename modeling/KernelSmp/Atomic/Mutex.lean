import KernelSmp.Base.Runs

/-! The sleeping mutex of `atomic.c`. Each section that holds `wait_lock` is one action, and
so is each scheduling decision that lets a task continue. -/

namespace KernelSmp.Atomic

open Base.Runs Function Option

inductive TaskState
  | ready | running | sleeping | zombie | finished | blocked
  deriving DecidableEq, Repr

inductive TaskReason
  | keyboard | mutex
  deriving DecidableEq, Repr

variable {τ : Type} [DecidableEq τ]

/-- `mutex_t` without its `wait_lock`; the list linked through `sched_next` starts at `wait_list`. -/
structure Mutex (τ : Type) where
  count : Int
  waitList : List τ
  owner : Option τ

def Mutex.init : Mutex τ := ⟨1, [], none⟩

/-- Where a task is in the mutex code. `loop` is the head of the `while (1)` of `mutex_lock`,
with a mark for a task that `mutex_unlock` has put back on a run queue; `waking t` is the part of
`mutex_unlock` after its section, with `task_to_wake = t`. -/
inductive Pc (τ : Type)
  | outside
  | loop (woken : Bool)
  | holding
  | waking (t : τ)
  deriving DecidableEq

structure State (τ : Type) where
  gLockEnabled : Bool
  mutex : Mutex τ
  state : τ → TaskState
  waitReason : τ → TaskReason
  pc : τ → Pc τ

def State.goto (s : State τ) (t : τ) (p : Pc τ) : State τ := { s with pc := update s.pc t p }

@[simp] lemma State.goto_mutex (s : State τ) (t : τ) (p : Pc τ) : (s.goto t p).mutex = s.mutex := rfl
@[simp] lemma State.goto_enabled (s : State τ) (t : τ) (p : Pc τ) :
    (s.goto t p).gLockEnabled = s.gLockEnabled := rfl
@[simp] lemma State.goto_pc (s : State τ) (t : τ) (p : Pc τ) : (s.goto t p).pc = update s.pc t p := rfl

def mutexLockBody (s : State τ) (current : τ) : State τ :=
  if 0 < s.mutex.count then
    { s with mutex := { s.mutex with count := 0, owner := some current } }.goto current .holding
  else
    { s with
      state := update s.state current .blocked
      waitReason := update s.waitReason current .mutex
      mutex := { s.mutex with waitList := current :: s.mutex.waitList } }.goto current (.loop false)

def mutexUnlockSection (s : State τ) (current : τ) : State τ :=
  match s.mutex.waitList with
  | t :: ts => { s with mutex := { s.mutex with owner := none, waitList := ts } }.goto current (.waking t)
  | [] => { s with mutex := { s.mutex with owner := none, count := 1 } }.goto current .outside

def mutexUnlockWake (s : State τ) (current t : τ) : State τ :=
  ({ s with state := update s.state t .ready }.goto t (.loop true)).goto current .outside

inductive Action (τ : Type)
  | lock (t : τ) | body (t : τ) | unlock (t : τ) | wake (t : τ)
  | dispatch (t : τ) | preempt (t : τ)
  deriving DecidableEq

/-- A task acts only while `schedule` has it on a CPU; a blocked one is left alone until it is
ready again. With `g_lock_enabled` clear both functions return at once. -/
def step (s : State τ) : Action τ → Option (State τ)
  | .lock t =>
    if s.pc t = .outside ∧ s.state t = .running then
      some (s.goto t (if s.gLockEnabled then .loop false else .holding))
    else none
  | .body t =>
    match s.pc t with
    | .loop _ => if s.state t = .running then some (mutexLockBody s t) else none
    | _ => none
  | .unlock t =>
    if s.pc t = .holding ∧ s.state t = .running then
      some (if s.gLockEnabled then mutexUnlockSection s t else s.goto t .outside)
    else none
  | .wake t =>
    match s.pc t with
    | .waking u => if s.state t = .running then some (mutexUnlockWake s t u) else none
    | _ => none
  | .dispatch t => if s.state t = .ready then some { s with state := update s.state t .running } else none
  | .preempt t => if s.state t = .running then some { s with state := update s.state t .ready } else none

def initial (enabled : Bool) (state : τ → TaskState) (reason : τ → TaskReason) : State τ :=
  ⟨enabled, .init, state, reason, fun _ => .outside⟩

def Woken (s : State τ) (t : τ) : Prop := s.pc t = .loop true ∨ ∃ u, s.pc u = .waking t

def Held (s : State τ) : Prop := ∃ t, s.pc t = .holding

def Alive (s : State τ) : Prop :=
  Held s ∨ s.mutex.count = 1 ∨ ∃ t, Woken s t ∧ (mutexLockBody s t).pc t = .holding

def Uncontended (s : State τ) (a : Action τ) : Prop :=
  ∀ t, a = .unlock t → s.pc t = .holding → s.state t = .running → s.gLockEnabled = true →
    s.mutex.waitList = []

inductive Token (s : State τ) : Prop
  | off : s.gLockEnabled = false → s.mutex.count = 1 →
      (∀ t, s.pc t = .outside ∨ s.pc t = .holding) → Token s
  | free : s.gLockEnabled = true → s.mutex.count = 1 → (∀ t, s.pc t ≠ .holding) → Token s
  | taken (t : τ) : s.gLockEnabled = true → s.mutex.count = 0 → s.pc t = .holding →
      (∀ u, s.pc u = .holding → u = t) → Token s

omit [DecidableEq τ] in
lemma token_initial (enabled : Bool) (state : τ → TaskState) (reason : τ → TaskReason) :
    Token (initial enabled state reason) := by
  cases enabled with
  | false => exact .off rfl rfl fun _ => .inl rfl
  | true => exact .free rfl rfl fun _ h => by cases h

variable {s : State τ}

lemma Token.alive (h : Token s) : Alive s := by
  cases h with
  | off _ hc _ | free _ hc _ => exact .inr (.inl hc)
  | taken t _ _ ht => exact .inl ⟨t, ht⟩

variable {t : τ} {p : Pc τ}

lemma Token.goto (h : Token s) (he : s.gLockEnabled = true)
    (ht : s.pc t ≠ .holding) (hp : p ≠ .holding) : Token (s.goto t p) := by
  have hold : ∀ u, (s.goto t p).pc u = .holding ↔ s.pc u = .holding := by
    intro u
    by_cases hu : u = t
    · subst u; simp [hp, ht]
    · simp [update_of_ne hu]
  cases h with
  | off hd => simp [he] at hd
  | free _ hc hn => exact .free he hc fun u hu => hn u ((hold u).mp hu)
  | taken u _ hc hu huniq =>
    exact .taken u he hc ((hold u).mpr hu) fun v hv => huniq v ((hold v).mp hv)

lemma Token.goto_off (h : Token s) (he : s.gLockEnabled = false) (t : τ)
    (hp : p = .outside ∨ p = .holding) : Token (s.goto t p) := by
  cases h with
  | free hd _ _ | taken _ hd _ _ _ => simp [he] at hd
  | off _ hc hn =>
    refine .off he hc fun u => ?_
    by_cases hu : u = t
    · subst u; simpa using hp
    · simpa [update_of_ne hu] using hn u

omit [DecidableEq τ] in
lemma Token.with_state (h : Token s) (f : τ → TaskState) (r : τ → TaskReason) :
    Token { s with state := f, waitReason := r } := by
  cases h with
  | off he hc hn => exact .off he hc hn
  | free he hc hn => exact .free he hc hn
  | taken t he hc ht hn => exact .taken t he hc ht hn

omit [DecidableEq τ] in
lemma Token.enabled (h : Token s) (ho : s.pc t ≠ .outside) (hh : s.pc t ≠ .holding) : s.gLockEnabled = true := by
  cases h with
  | off _ _ hn => exact ((hn t).elim ho hh).elim
  | free he _ _ | taken _ he _ _ _ => exact he

omit [DecidableEq τ] in
lemma Token.count_of_held (h : Token s) (he : s.gLockEnabled = true)
    (ht : s.pc t = .holding) : s.mutex.count = 0 ∧ ∀ u, s.pc u = .holding → u = t := by
  cases h with
  | off hd => simp [he] at hd
  | free _ _ hn => exact (hn t ht).elim
  | taken v _ hc _ huniq => exact ⟨hc, fun u hu => (huniq u hu).trans (huniq t ht).symm⟩

lemma mutexLockBody_token (h : Token s) {b : Bool} (ht : s.pc t = .loop b) : Token (mutexLockBody s t) := by
  have he : s.gLockEnabled = true := h.enabled (t := t) (by simp [ht]) (by simp [ht])
  rw [mutexLockBody]
  cases h with
  | off hd => simp [he] at hd
  | free _ hc hn =>
    rw [if_pos (by omega)]
    refine .taken t he rfl (by simp) fun u hu => ?_
    by_contra hne
    rw [State.goto_pc, update_of_ne hne] at hu
    exact hn u hu
  | taken u _ hc hu huniq =>
    rw [if_neg (by omega)]
    apply Token.goto
    · exact .taken u he hc hu huniq
    · exact he
    · simp [ht]
    · simp

lemma mutexLockBody_blocks (hc : s.mutex.count = 0) (t : τ) : (mutexLockBody s t).pc t = .loop false := by
  simp [mutexLockBody, hc]

lemma mutexUnlockSection_not_holding (huniq : ∀ u, s.pc u = .holding → u = t)
    (u : τ) : (mutexUnlockSection s t).pc u ≠ .holding := by
  intro hu
  by_cases hut : u = t
  · subst u
    cases hw : s.mutex.waitList <;> simp [mutexUnlockSection, hw] at hu
  · refine hut (huniq u ?_)
    cases hw : s.mutex.waitList <;> simpa [mutexUnlockSection, hw, update_of_ne hut] using hu

lemma mutexUnlockSection_token (h : Token s) (ht : s.pc t = .holding)
    (he : s.gLockEnabled = true) (hw : s.mutex.waitList = []) : Token (mutexUnlockSection s t) := by
  have hn := mutexUnlockSection_not_holding (h.count_of_held he ht).2
  refine .free ?_ ?_ hn <;> simp [mutexUnlockSection, hw, he]

lemma mutexUnlockSection_dead (h : Token s) (ht : s.pc t = .holding)
    (he : s.gLockEnabled = true) (hw : s.mutex.waitList ≠ []) : ¬ Alive (mutexUnlockSection s t) := by
  obtain ⟨hc, huniq⟩ := h.count_of_held he ht
  obtain ⟨_, _, hws⟩ := List.exists_cons_of_ne_nil hw
  have hcount : (mutexUnlockSection s t).mutex.count = 0 := by simp [mutexUnlockSection, hws, hc]
  rintro (⟨u, hu⟩ | hone | ⟨u, _, hu⟩)
  · exact mutexUnlockSection_not_holding huniq u hu
  · omega
  · simp [mutexLockBody_blocks hcount u] at hu

variable {a : Action τ}

lemma step_cases {s' : State τ} (hs : step s a = some s') :
    (∃ t, a = .lock t ∧ s.pc t = .outside ∧
      s' = s.goto t (if s.gLockEnabled then .loop false else .holding)) ∨
    (∃ t b, a = .body t ∧ s.pc t = .loop b ∧ s' = mutexLockBody s t) ∨
    (∃ t, a = .unlock t ∧ s.pc t = .holding ∧ s.state t = .running ∧
      s' = if s.gLockEnabled then mutexUnlockSection s t else s.goto t .outside) ∨
    (∃ t u, a = .wake t ∧ s.pc t = .waking u ∧ s' = mutexUnlockWake s t u) ∨
    ((∀ t, a ≠ .unlock t) ∧ ∃ f, s' = { s with state := f }) := by
  cases a with
  | lock t =>
    simp only [step, ite_none_right_eq_some, Option.some.injEq] at hs
    exact .inl ⟨t, rfl, hs.1.1, hs.2.symm⟩
  | body t =>
    simp only [step] at hs
    split at hs
    next b hb =>
      simp only [ite_none_right_eq_some, Option.some.injEq] at hs
      exact .inr (.inl ⟨t, b, rfl, hb, hs.2.symm⟩)
    next => cases hs
  | unlock t =>
    simp only [step, ite_none_right_eq_some, Option.some.injEq] at hs
    exact .inr (.inr (.inl ⟨t, rfl, hs.1.1, hs.1.2, hs.2.symm⟩))
  | wake t =>
    simp only [step] at hs
    split at hs
    next u hu =>
      simp only [ite_none_right_eq_some, Option.some.injEq] at hs
      exact .inr (.inr (.inr (.inl ⟨t, u, rfl, hu, hs.2.symm⟩)))
    next => cases hs
  | dispatch t | preempt t =>
    simp only [step, ite_none_right_eq_some, Option.some.injEq] at hs
    exact .inr (.inr (.inr (.inr ⟨by simp, _, hs.2.symm⟩)))

def Quiet (s : State τ) : Prop := ∀ t u, s.pc t ≠ .waking u

lemma Quiet.goto (h : Quiet s) (t : τ) (hp : ∀ u, p ≠ .waking u) : Quiet (s.goto t p) := by
  intro v u hv
  by_cases hvt : v = t
  · subst v; exact hp u (by simpa using hv)
  · exact h v u (by simpa [update_of_ne hvt] using hv)

lemma step_token {s' : State τ} (h : Token s ∧ Quiet s) (hg : Uncontended s a)
    (hs : step s a = some s') : Token s' ∧ Quiet s' := by
  obtain ⟨ht, hq⟩ := h
  obtain ⟨t, rfl, hp, rfl⟩ | ⟨t, b, rfl, hp, rfl⟩ | ⟨t, rfl, hp, hrun, rfl⟩ | ⟨t, u, rfl, hp, rfl⟩ |
    ⟨_, f, rfl⟩ := step_cases hs
  · cases he : s.gLockEnabled with
    | false => exact ⟨ht.goto_off he t (by simp), hq.goto t (by simp)⟩
    | true => exact ⟨ht.goto he (by simp [hp]) (by simp), hq.goto t (by simp)⟩
  · refine ⟨mutexLockBody_token ht hp, ?_⟩
    rw [mutexLockBody]
    split
    · exact Quiet.goto hq t (by simp)
    · exact Quiet.goto hq t (by simp)
  · cases he : s.gLockEnabled with
    | false => exact ⟨ht.goto_off he t (by simp), hq.goto t (by simp)⟩
    | true =>
      have hw := hg t rfl hp hrun he
      refine ⟨mutexUnlockSection_token ht hp he hw, ?_⟩
      simp only [mutexUnlockSection, hw]
      exact Quiet.goto hq t (by simp)
  · exact (hq t u hp).elim
  · exact ⟨ht.with_state f s.waitReason, hq⟩

lemma step_contended {s' : State τ} (h : Token s) (hg : ¬ Uncontended s a) (hs : step s a = some s') : ¬ Alive s' := by
  simp only [Uncontended, not_forall] at hg
  obtain ⟨_, rfl, hp, hrun, he, hw⟩ := hg
  simp only [step, hp, hrun, he, and_self, if_true, Option.some.injEq] at hs
  subst hs
  exact mutexUnlockSection_dead h hp he hw

lemma contended_enabled (hg : ¬ Uncontended s a) : ∃ s', step s a = some s' := by
  simp only [Uncontended, not_forall] at hg
  obtain ⟨t, rfl, hp, hrun, he, _⟩ := hg
  exact ⟨mutexUnlockSection s t, by simp only [step, hp, hrun, he, and_self, if_true]⟩

lemma alive_iff_uncontended (h : Token s ∧ Quiet s) (as : List (Action τ)) :
    Always step Alive s as ↔ Guarded step Uncontended s as := by
  induction as generalizing s with
  | nil => exact ⟨fun _ => trivial, fun _ => h.1.alive⟩
  | cons a as ih =>
    by_cases hg : Uncontended s a
    · constructor
      · exact fun ha => ⟨hg, fun t hs => (ih (step_token h hg hs)).mp (ha.2 t hs)⟩
      · exact fun ha => ⟨h.1.alive, fun t hs => (ih (step_token h hg hs)).mpr (ha.2 t hs)⟩
    · obtain ⟨t, hs⟩ := contended_enabled hg
      refine ⟨fun ha => ?_, fun ha => (hg ha.1).elim⟩
      exact (step_contended h.1 hg hs (ha.2 t hs).head).elim

theorem mutex_alive_iff (enabled : Bool) (state : τ → TaskState) (reason : τ → TaskReason)
    (as : List (Action τ)) :
    Always step Alive (initial enabled state reason) as ↔
      Guarded step Uncontended (initial enabled state reason) as :=
  alive_iff_uncontended ⟨token_initial enabled state reason, fun _ _ h => by cases h⟩ as

theorem mutex_dead_after_handover :
    ¬ Always step Alive (initial true (fun _ : Fin 2 => .running) (fun _ => .keyboard))
      [.lock 0, .body 0, .lock 1, .body 1, .unlock 0] := by
  rw [alive_iff_uncontended ⟨token_initial _ _ _, fun _ _ h => by cases h⟩]
  intro h
  have hw := ((((h.2 _ rfl).2 _ rfl).2 _ rfl).2 _ rfl).1 0 rfl rfl rfl rfl
  exact absurd hw (by decide)

end KernelSmp.Atomic
