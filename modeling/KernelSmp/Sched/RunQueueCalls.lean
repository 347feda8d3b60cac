import KernelSmp.Sched.RunQueueLists

/-! Sequences of calls on the run queues. -/

namespace KernelSmp.Sched

open Base Base.LinkedQueue Function Option

variable {K : Type} [DecidableEq K]

def queue (s : Cpus K) (c : K) (p : Level) : List Word := follow (nextOf s) walkFuel ((s.cpus c).rqHead p)

structure WellFormed (s : Cpus K) : Prop where
  chain : ∀ c p, Chain (nextOf s) ((s.cpus c).rqHead p) (queue s c p) none
  tail : ∀ c p, (s.cpus c).rqTail p = (queue s c p).getLast?
  count : ∀ c p, (s.cpus c).rqCount p = BitVec.ofNat 32 (queue s c p).length
  nodup : ∀ c p, (queue s c p).Nodup
  apart : ∀ c p c' p' t, t ∈ queue s c p → t ∈ queue s c' p' → c = c' ∧ p = p'

inductive Call (K : Type)
  | enqueue (c : K) (t : Word)
  | dequeue (c : K)
  | steal (other : K) (locked : Bool)
  | boost (c : K)

def perform (s : Cpus K) : Call K → Option (Option Word × Cpus K)
  | .enqueue c t => some (none, enqueueTask s c t)
  | .dequeue c => some (dequeueTask s c)
  | .steal other locked => stealTaskFromCpu s other locked
  | .boost c => some (none, prioBoost s c)

def step (s : Cpus K) (a : Call K) : Option (Cpus K) := (perform s a).map Prod.snd

def Call.Allowed (s : Cpus K) : Call K → Prop
  | .enqueue _ t => ∀ c p, t ∉ queue s c p
  | _ => True

instance [Fintype K] (s : Cpus K) : (a : Call K) → Decidable (a.Allowed s)
  | .enqueue _ t => inferInstanceAs (Decidable (∀ c p, t ∉ queue s c p))
  | .dequeue _ => .isTrue trivial
  | .steal _ _ => .isTrue trivial
  | .boost _ => .isTrue trivial

def setLevel (q : K → Level → List Word) (c : K) (p : Level) (l : List Word) : K → Level → List Word :=
  update q c (update (q c) p l)

inductive Effect (tid : Word → Word) (base : Word → ℕ) (q : K → Level → List Word) :
    Call K → Option Word → (K → Level → List Word) → Prop
  | enqueue (c : K) (t : Word) :
      Effect tid base q (.enqueue c t) none (setLevel q c (levelOf (base t)) (q c (levelOf (base t)) ++ [t]))
  | dequeueNothing (c : K) (hempty : ∀ p ∈ levels, q c p = []) : Effect tid base q (.dequeue c) none q
  | dequeue (c : K) (p : Level) (t : Word) (l : List Word) (hp : p ∈ levels) (hq : q c p = t :: l) :
      Effect tid base q (.dequeue c) (some t) (setLevel q c p l)
  | stealNothing (c : K) (locked : Bool) (hnone : locked = true → ∀ p ∈ levels, ∀ u ∈ q c p, ¬ tid u ≥ 10) :
      Effect tid base q (.steal c locked) none q
  | steal (c : K) (p : Level) (t : Word) (l₁ l₂ : List Word) (hp : p ∈ levels) (hq : q c p = l₁ ++ t :: l₂)
      (ht : tid t ≥ 10) (hbefore : ∀ u ∈ l₁, ¬ tid u ≥ 10) :
      Effect tid base q (.steal c true) (some t) (setLevel q c p (l₁ ++ l₂))
  | boost (c : K) :
      Effect tid base q (.boost c) none (setLevel (setLevel (setLevel q c 0 (q c 0 ++ q c 1)) c 1 (q c 2)) c 2 [])

variable {s s' : Cpus K} {q : K → Level → List Word} {c : K} {p : Level} {l : List Word}

def family (q : K → Level → List Word) : (K × Level) ⊕ Empty → List Word := Sum.elim (fun i => q i.1 i.2) Empty.elim

lemma family_setLevel : family (setLevel q c p l) = update (family q) (.inl (c, p)) l := by
  funext i
  rcases i with ⟨c', p'⟩ | e
  · rcases eq_or_ne c' c with rfl | hc
    · by_cases hp : p' = p
      · subst hp
        simp [family, setLevel]
      · simp [family, setLevel, hp]
    · simp [family, setLevel, hc]
  · exact e.elim

omit [DecidableEq K] in
lemma Queues.queue_eq (h : Queues Empty.elim s (family q)) : queue s = q := by
  funext c p
  exact (h.lists.chain (.inl (c, p))).follow_eq ((Word.length_le_of_nodup (h.lists.nodup (.inl (c, p)))).trans (Nat.le_succ _))

omit [DecidableEq K] in
lemma WellFormed.queues (h : WellFormed s) : Queues Empty.elim s (family (queue s)) where
  lists := {
    chain := by
      rintro (i | e)
      · exact h.chain i.1 i.2
      · exact e.elim
    nodup := by
      rintro (i | e)
      · exact h.nodup i.1 i.2
      · exact e.elim
    apart := by
      rintro (i | e) (j | e') t hi hj
      · obtain ⟨hc, hp⟩ := h.apart i.1 i.2 j.1 j.2 t hi hj
        exact congrArg Sum.inl (Prod.ext hc hp)
      · exact e'.elim
      · exact e.elim
      · exact e.elim }
  tail i := h.tail i.1 i.2
  count i := h.count i.1 i.2

omit [DecidableEq K] in
lemma Queues.wellFormed (h : Queues Empty.elim s (family q)) : WellFormed s := by
  obtain rfl := h.queue_eq
  refine ⟨fun c p => h.lists.chain (.inl (c, p)), fun c p => h.tail (c, p), fun c p => h.count (c, p),
    fun c p => h.lists.nodup (.inl (c, p)), fun c p c' p' t ht ht' => ?_⟩
  have heq := h.lists.apart (.inl (c, p)) (.inl (c', p')) t ht ht'
  simpa using heq

def tidOf (s : Cpus K) (t : Word) : Word := (s.tasks t).tid
def baseOf (s : Cpus K) (t : Word) : ℕ := (s.tasks t).basePriority

variable {a : Call K} {r : Option Word}

lemma family_moveUp {below : Level} :
    moveUp (family q) c p below = family (setLevel (setLevel q c below []) c p (q c p ++ q c below)) := by
  rw [family_setLevel, family_setLevel, moveUp]
  rfl

lemma family_boost : moveUp (moveUp (family q) c 0 1) c 1 2 =
    family (setLevel (setLevel (setLevel q c 0 (q c 0 ++ q c 1)) c 1 (q c 2)) c 2 []) := by
  rw [family_moveUp, family_moveUp]
  simp only [setLevel, update_self, update_idem]
  congr 2
  funext p
  fin_cases p
  · rfl
  · rfl
  · rfl
  · rfl

lemma perform_effect (h : WellFormed s) (ha : a.Allowed s) :
    ∃ r s', perform s a = some (r, s') ∧ WellFormed s' ∧ Effect (tidOf s) (baseOf s) (queue s) a r (queue s') := by
  have hdone : ∀ {r s' q}, Effect (tidOf s) (baseOf s) (queue s) a r q → perform s a = some (r, s') →
      Queues Empty.elim s' (family q) →
      ∃ r s', perform s a = some (r, s') ∧ WellFormed s' ∧ Effect (tidOf s) (baseOf s) (queue s) a r (queue s') := by
    intro r s' q heffect hperform hq
    refine ⟨r, s', hperform, hq.wellFormed, ?_⟩
    rwa [hq.queue_eq]
  have hq := h.queues
  cases a with
  | enqueue c t =>
    have hnew : ∀ i, t ∉ family (queue s) i := by
      rintro (i | e)
      · exact ha i.1 i.2
      · exact e.elim
    refine hdone (.enqueue c t) rfl ?_
    rw [family_setLevel]
    exact hq.enqueueTask hnew rfl
  | dequeue c =>
    obtain ⟨r, s', ls', hs', hdequeue, hq'⟩ := hq.dequeueTask
    have hperform : perform s (.dequeue c) = some (r, s') := congrArg some hs'
    cases hdequeue with
    | empty hempty => exact hdone (.dequeueNothing c hempty) hperform hq'
    | first p t l hp hl =>
      refine hdone (.dequeue c p t l hp hl) hperform ?_
      rw [family_setLevel]
      exact hq'
  | steal c locked =>
    cases locked with
    | false => exact hdone (.stealNothing c false nofun) rfl hq
    | true =>
      obtain ⟨r, s', _, hs', hsteal, hq'⟩ := hq.stealLoop
      have hperform : perform s (.steal c true) = some (r, s') := hs'
      cases hsteal with
      | nothing hnone => exact hdone (.stealNothing c true fun _ => hnone) hperform hq'
      | middle p t l₁ l₂ hp hl ht hbefore =>
        refine hdone (.steal c p t l₁ l₂ hp hl ht hbefore) hperform ?_
        rw [family_setLevel]
        exact hq'
  | boost c =>
    refine hdone (.boost c) rfl ?_
    rw [← family_boost]
    exact hq.prioBoost

lemma dequeueTask_none_iff (h : WellFormed s) (c : K) : (dequeueTask s c).1 = none ↔ ∀ p ∈ levels, queue s c p = [] := by
  obtain ⟨_, _, _, hs', hdequeue, -⟩ := h.queues.dequeueTask
  rw [hs']
  cases hdequeue with
  | empty hempty => exact iff_of_true rfl hempty
  | first p t l hp hl =>
    refine iff_of_false (some_ne_none t) fun hempty => ?_
    cases hl.symm.trans (hempty p hp)

theorem queues_served {calls : List (Call K)} (h : WellFormed s) (ha : Runs.Guarded step (fun s a => a.Allowed s) s calls) :
    (∃ s', Runs.run step s calls = some s') ∧
    Runs.Always step (fun s => WellFormed s ∧
      (∀ a, a.Allowed s → ∃ r s', perform s a = some (r, s') ∧ Effect (tidOf s) (baseOf s) (queue s) a r (queue s')) ∧
      ∀ c, (dequeueTask s c).1 = none ↔ ∀ p ∈ levels, queue s c p = []) s calls := by
  have hstep : ∀ (s : Cpus K) (a : Call K), WellFormed s → a.Allowed s → ∃ s', step s a = some s' ∧ WellFormed s' := by
    intro s a hs has
    obtain ⟨r, s', hperform, hs', -⟩ := perform_effect hs has
    exact ⟨s', by rw [step, hperform, map_some], hs'⟩
  constructor
  · exact Runs.progress hstep h ha
  · have hwell : Runs.Always step WellFormed s calls := by
      refine Runs.invariant ?_ h ha
      intro s a s' hs has hs'
      obtain ⟨s'', hs'', hwell⟩ := hstep s a hs has
      rwa [Option.some.inj (hs'.symm.trans hs'')]
    apply hwell.mono
    intro s hs
    refine ⟨hs, fun a has => ?_, dequeueTask_none_iff hs⟩
    obtain ⟨r, s', hperform, -, heffect⟩ := perform_effect hs has
    exact ⟨r, s', hperform, heffect⟩

omit [DecidableEq K] in
lemma wellFormed_init (h : ∀ c, ∃ cpu : CpuContext, s.cpus c = cpu.init) : WellFormed s := by
  have hhead : ∀ c p, (s.cpus c).rqHead p = none := by
    intro c p
    obtain ⟨cpu, hcpu⟩ := h c
    rw [hcpu]
    rfl
  have hempty : ∀ c p, queue s c p = [] := by
    intro c p
    rw [queue, hhead]
    rfl
  refine ⟨fun c p => ?_, fun c p => ?_, fun c p => ?_, fun c p => ?_, fun c p c' p' t ht => ?_⟩
  · rw [hempty, hhead]
    rfl
  · obtain ⟨cpu, hcpu⟩ := h c
    rw [hempty, hcpu]
    rfl
  · obtain ⟨_, hcpu⟩ := h c
    rw [hempty, hcpu]
    rfl
  · rw [hempty]
    exact List.nodup_nil
  · simp [hempty] at ht

def twoCpus : Cpus (Fin 2) where
  tasks t := ⟨t &&& 0xFF, 0, 0, 0, .ready, .keyboard, 0, none, 0, (t >>> 8).toNat % 256, -1, 0⟩
  cpus c := CpuContext.init ⟨c, none, 0, fun _ => none, fun _ => none, fun _ => 0, fun _ => 0, 0, none⟩

theorem queues_served_twoCpus : ∃ s', Runs.run step twoCpus [.enqueue 0 0x05, .enqueue 0 0x10A, .enqueue 0 0x20B,
      .enqueue 0 0x06, .enqueue 1 0x20C, .dequeue 0, .boost 0, .steal 0 true, .enqueue 1 0x10A] = some s' ∧
    queue s' 0 0 = [0x06] ∧ queue s' 0 1 = [0x20B] ∧ queue s' 1 1 = [0x10A] ∧ WellFormed s' := by
  refine Runs.exists_of_check (fun s => queue s 0 0 = [0x06] ∧ queue s 0 1 = [0x20B] ∧ queue s 1 1 = [0x10A])
    (by decide +kernel) fun s' hrun hs' => ?_
  have hserved := (queues_served (wellFormed_init fun c => ⟨_, rfl⟩) (by decide +kernel)).2.last hrun
  exact ⟨hs'.1, hs'.2.1, hs'.2.2, hserved.1⟩

end KernelSmp.Sched
