import KernelSmp.Sched.PlaceMoves
import KernelSmp.Sched.RunQueueCalls

/-! The sleepers of a CPU under sequences of `sched_make_task_sleep` and `sched_update_sleepers`, with the calls of the rest
of the scheduler on the run queues between them. -/

namespace KernelSmp.Sched.SleepQueue

open Base Base.LinkedQueue Function Atomic List Option

variable {K : Type} [DecidableEq K]

def schedMakeTaskSleep (s : Cpus K) (c : K) (now ms : Word) : Option (Cpus K) :=
  match (s.cpus c).currentTask with
  | none => some s
  | some current =>
    let s := (s.setState current .sleeping).setSleepUntil current (now + ms)
    (findSlot s.tasks (s.tasks current).sleepUntil walkFuel none (s.cpus c).sleepingList).map fun r =>
      (s.setNext current r.2).linkSleeper c r.1 (some current)

def wakeReady (c : K) : ℕ → Cpus K → Option Word → Option (Cpus K)
  | 0, _, _ => none
  | _ + 1, s, none => some s
  | fuel + 1, s, some t => wakeReady c fuel (enqueueTask ((s.setState t .ready).setNext t none) c t) (s.tasks t).schedNext

def schedUpdateSleepers (s : Cpus K) (c : K) (now : Word) : Option (Cpus K) := do
  let (s, readyQueue) ← takeExpired now c walkFuel s none
  wakeReady c walkFuel s readyQueue

/-- Beside the two functions, the calls on the run queues, and the end of `schedule`, which makes `next` the current task. -/
inductive Call (K : Type)
  | makeTaskSleep (c : K) (now ms : Word)
  | updateSleepers (c : K) (now : Word)
  | runQueue (a : Sched.Call K)
  | switch (c : K) (next : Word)

def step (s : Cpus K) : Call K → Option (Cpus K)
  | .makeTaskSleep c now ms => schedMakeTaskSleep s c now ms
  | .updateSleepers c now => schedUpdateSleepers s c now
  | .runQueue a => Sched.step s a
  | .switch c next => some (((s.setState next .running).setCpuId next (s.cpus c).cpuId).setCurrent c next)

variable {s s' : Cpus K} {ls : (K × Level) ⊕ Option K → List Word} {c : K} {t : Word} {ready : Option Word} {l r : List Word}
  {now : Word} {fuel : ℕ}

def sleepers (s : Cpus K) (c : K) : List Word := follow (nextOf s) walkFuel (s.cpus c).sleepingList

def expired (s : Cpus K) (c : K) (now : Word) : List Word := (sleepers s c).filter fun t => (s.tasks t).sleepUntil ≤ now

def levelIn (s : Cpus K) (t : Word) : Level := levelOf (s.tasks t).basePriority

def Loose (s : Cpus K) (t : Word) : Prop := (∀ c p, t ∉ queue s c p) ∧ ∀ c, t ∉ sleepers s c

instance [Fintype K] (s : Cpus K) (t : Word) : Decidable (Loose s t) := inferInstanceAs (Decidable (_ ∧ _))

def Call.Allowed (s : Cpus K) : Call K → Prop
  | .makeTaskSleep c _ _ => ∀ t ∈ (s.cpus c).currentTask, Loose s t
  | .runQueue (.enqueue _ t) => Loose s t
  | _ => True

instance [Fintype K] (s : Cpus K) : (a : Call K) → Decidable (a.Allowed s)
  | .makeTaskSleep c _ _ => Option.decidableForallMem (s.cpus c).currentTask
  | .runQueue (.enqueue _ t) => inferInstanceAs (Decidable (Loose s t))
  | .runQueue (.dequeue _) | .runQueue (.steal _ _) | .runQueue (.boost _) | .updateSleepers _ _ | .switch _ _ =>
    .isTrue trivial

structure Woken (s : Cpus K) (c : K) (now : Word) (s' : Cpus K) : Prop where
  sleepers : sleepers s' c = (sleepers s c).filter fun t => now < (s.tasks t).sleepUntil
  queue : ∀ p, queue s' c p = queue s c p ++ (expired s c now).reverse.filter fun t => levelIn s t = p
  ready : ∀ t ∈ expired s c now, (s'.tasks t).state = .ready
  state : ∀ t ∉ expired s c now, (s'.tasks t).state = (s.tasks t).state
  elsewhere : ∀ c' ≠ c, SleepQueue.sleepers s' c' = SleepQueue.sleepers s c' ∧ ∀ p, Sched.queue s' c' p = Sched.queue s c' p

def heads (s : Cpus K) (ready : Option Word) : Option K → Option Word
  | some c => (s.cpus c).sleepingList
  | none => ready

def lists (s : Cpus K) : (K × Level) ⊕ Option K → List Word
  | .inl i => queue s i.1 i.2
  | .inr (some c) => sleepers s c
  | .inr none => []

structure Ordered (s : Cpus K) : Prop where
  queues : Queues (heads s none) s (lists s)
  sorted : ∀ c, (sleepers s c).Pairwise fun t u => (s.tasks t).sleepUntil ≤ (s.tasks u).sleepUntil

omit [DecidableEq K] in
lemma lists_eq (h : Queues (heads s none) s ls) : lists s = ls := by
  have hfollow : ∀ i, follow (nextOf s) walkFuel (Sum.elim (headOf s) (heads s none) i) = ls i := fun i =>
    (h.lists.chain i).follow_eq ((Word.length_le_of_nodup (h.lists.nodup i)).trans (Nat.le_succ _))
  funext i
  rcases i with i | _ | c
  · exact hfollow (.inl i)
  · exact hfollow (.inr none)
  · exact hfollow (.inr (some c))

omit [DecidableEq K] in
lemma Ordered.of_queues (h : Queues (heads s none) s ls)
    (hsorted : ∀ c, (ls (.inr (some c))).Pairwise fun t u => (s.tasks t).sleepUntil ≤ (s.tasks u).sleepUntil) : Ordered s := by
  obtain rfl := lists_eq h
  exact ⟨h, hsorted⟩

omit [DecidableEq K] in
lemma Loose.notMem (h : Loose s t) (i : (K × Level) ⊕ Option K) : t ∉ lists s i := by
  rcases i with i | _ | c
  · exact h.1 i.1 i.2
  · exact not_mem_nil
  · exact h.2 c

lemma heads_setSleeping (v w ready ready' : Option Word) :
    heads ((s.setSleeping c v).setNext t w) ready = update (update (heads s ready') (some c) v) none ready := by
  funext j
  cases j with
  | none => simp [heads]
  | some c' =>
    by_cases hc : c' = c
    · simp [heads, Cpus.setNext, Cpus.setSleeping, Cpus.onTask, Cpus.onCpu, hc]
    · simp [heads, Cpus.setNext, Cpus.setSleeping, Cpus.onTask, Cpus.onCpu, hc]

lemma heads_of_sleepingList (h : ∀ c, (s'.cpus c).sleepingList = (s.cpus c).sleepingList) (ready ready' : Option Word) :
    heads s' ready = update (heads s ready') none ready := by
  funext j
  cases j with
  | none => rfl
  | some c => exact h c

lemma takeExpired_spec (now : Word) (h : Queues (heads s ready) s ls) (hl : ls (.inr (some c)) = l) (hfuel : l.length < fuel) :
    ∃ s' ready' l₁ l₂, takeExpired now c fuel s ready = some (s', ready') ∧ l = l₁ ++ l₂ ∧
      (∀ t ∈ l₁, (s.tasks t).sleepUntil ≤ now) ∧ (∀ t ∈ l₂.head?, ¬ (s.tasks t).sleepUntil ≤ now) ∧
      Queues (heads s' ready') s' (update (update ls (.inr (some c)) l₂) (.inr none) (l₁.reverse ++ ls (.inr none))) ∧
      ∀ x, (s'.tasks x).face = (s.tasks x).face := by
  induction l generalizing s ready ls fuel with
  | nil =>
    obtain ⟨fuel, rfl⟩ := Nat.exists_eq_succ_of_ne_zero (Nat.ne_zero_of_lt hfuel)
    have hempty : (s.cpus c).sleepingList = none := (h.lists.chain (.inr (some c))).eq_nil_iff.mp hl
    refine ⟨s, ready, [], [], ?_, rfl, forall_mem_nil _, nofun, ?_, fun _ => rfl⟩
    · rw [takeExpired, hempty]
    · rwa [reverse_nil, nil_append, ← hl, update_eq_self, update_eq_self]
  | cons t l ih =>
    obtain ⟨_, rfl⟩ := Nat.exists_eq_succ_of_ne_zero (Nat.ne_zero_of_lt hfuel)
    have hchain := h.lists.chain (.inr (some c))
    rw [hl] at hchain
    have hfirst : (s.cpus c).sleepingList = some t := hchain.1
    rw [takeExpired, hfirst]
    by_cases hdue : now ≥ (s.tasks t).sleepUntil
    swap
    · refine ⟨s, ready, [], t :: l, if_neg hdue, rfl, forall_mem_nil _, ?_, ?_, fun _ => rfl⟩
      · rintro u ⟨⟩
        exact hdue
      · rwa [← hl, update_eq_self, reverse_nil, nil_append, update_eq_self]
    obtain ⟨l', hl', hpop⟩ := h.pop (j := some c) hfirst
    obtain rfl : l' = l := (List.cons.inj (hl'.symm.trans hl)).2
    have hlink : ready = (ls (.inr none)).head? := (h.lists.chain (.inr none)).link_eq
    have hnone : update ls (.inr (some c)) l' (.inr none) = ls (.inr none) := update_of_ne (by simp) _ _
    have hshift := hpop.insert (h.lists.notMem_tail hl) ((nil_append _).symm)
      (show nextOf ((s.setSleeping c (s.tasks t).schedNext).setNext t ready) = _
        by rw [hnone, ← hlink]; simp [splice_nil]) (headOf_setSleeping _) (tailOf_setSleeping _) (countOf_setSleeping _)
    have hheads := heads_setSleeping (s := s) (c := c) (t := t) (s.tasks t).schedNext ready (some t) ready
    have hnext : Queues (heads ((s.setSleeping c (s.tasks t).schedNext).setNext t ready) (some t))
        ((s.setSleeping c (s.tasks t).schedNext).setNext t ready)
        (update (update ls (.inr (some c)) l') (.inr none) (t :: ls (.inr none))) := by
      rwa [hheads]
    obtain ⟨s', ready', l₁, l₂, hrun, rfl, hbefore, hbehind, hqueues, hface⟩ :=
      ih hnext (by rw [update_of_ne (by simp), update_self])
      (Nat.lt_of_succ_lt_succ hfuel)
    have hsame := fun x => ((Kept.refl (s.setSleeping c (s.tasks t).schedNext)).setNext t ready).task x
    have huntil : ∀ x, (((s.setSleeping c (s.tasks t).schedNext).setNext t ready).tasks x).sleepUntil =
        (s.tasks x).sleepUntil :=
      fun x => ((Kept.refl (s.setSleeping c (s.tasks t).schedNext)).setNext t ready).sleepUntil x
    simp only [huntil] at hbefore hbehind
    refine ⟨s', ready', t :: l₁, l₂, (if_pos hdue).trans hrun, rfl, forall_mem_cons.mpr ⟨hdue, hbefore⟩, hbehind, ?_,
      fun x => (hface x).trans (hsame x)⟩
    rw [update_pair (by simp), update_self] at hqueues
    rwa [reverse_cons, append_assoc]

def delivered (level : Word → Level) (c : K) (r : List Word) (ls : (K × Level) ⊕ Option K → List Word) :
    (K × Level) ⊕ Option K → List Word
  | .inl (c', p) => if c' = c then ls (.inl (c', p)) ++ r.filter (level · = p) else ls (.inl (c', p))
  | .inr (some c') => ls (.inr (some c'))
  | .inr none => []

lemma delivered_nil (level : Word → Level) (hnone : ls (.inr none) = []) : delivered level c [] ls = ls := by
  funext i
  rcases i with ⟨c', _⟩ | _ | c'
  · simp [delivered]
  · exact hnone.symm
  · rfl

lemma delivered_cons (level : Word → Level) :
    delivered level c r (update (update ls (.inr none) r) (.inl (c, level t)) (ls (.inl (c, level t)) ++ [t])) =
      delivered level c (t :: r) ls := by
  funext i
  rcases i with ⟨c', p⟩ | _ | c'
  · rcases eq_or_ne c' c with rfl | hc
    · by_cases hp : p = level t
      · simp [delivered, hp]
      · simp [delivered, hp, Ne.symm hp]
    · simp [delivered, hc]
  · rfl
  · simp [delivered]

lemma wakeReady_spec (c : K) (h : Queues (heads s ready) s ls) (hr : ls (.inr none) = r) (hfuel : r.length < fuel) :
    ∃ s', wakeReady c fuel s ready = some s' ∧ Queues (heads s' none) s' (delivered (levelIn s) c r ls) ∧
      ∀ x, (s'.tasks x).sleepUntil = (s.tasks x).sleepUntil ∧ (s'.tasks x).state =
        if x ∈ r then .ready else (s.tasks x).state := by
  induction r generalizing s ready ls fuel with
  | nil =>
    obtain ⟨fuel, rfl⟩ := Nat.exists_eq_succ_of_ne_zero (Nat.ne_zero_of_lt hfuel)
    obtain rfl : ready = none := (h.lists.chain (.inr none)).eq_nil_iff.mp hr
    refine ⟨s, rfl, ?_, fun x => ⟨rfl, rfl⟩⟩
    rwa [delivered_nil _ hr]
  | cons t r ih =>
    obtain ⟨_, rfl⟩ := Nat.exists_eq_succ_of_ne_zero (Nat.ne_zero_of_lt hfuel)
    have hchain := h.lists.chain (.inr none)
    rw [hr] at hchain
    obtain rfl : ready = some t := hchain.1
    obtain ⟨r', hr', hpop⟩ := h.pop (j := none) rfl
    obtain rfl : r' = r := (List.cons.inj (hr'.symm.trans hr)).2
    have hloose := h.lists.notMem_tail hr
    have hmarked : Queues (update (heads s (some t)) none (nextOf s t)) ((s.setState t .ready).setNext t none)
        (update ls (.inr none) r') := by
      refine ⟨?_, hpop.tail, hpop.count⟩
      rw [nextOf_setNext, show nextOf (s.setState t .ready) = nextOf s from nextOf_onTask s t fun _ => rfl]
      exact hpop.lists.loose hloose none
    have hbase : (((s.setState t .ready).setNext t none).tasks t).basePriority = (s.tasks t).basePriority := by
      simp [Cpus.setState, Cpus.setNext, Cpus.onTask]
    have hqueued := hmarked.enqueueTask (c := c) hloose (congrArg levelOf hbase).symm
    -- what `enqueue_task` leaves of the tasks
    have hkept := Kept.enqueueTask ((s.setState t .ready).setNext t none) c t
    have hlist : ∀ c', ((enqueueTask ((s.setState t .ready).setNext t none) c t).cpus c').sleepingList =
        (s.cpus c').sleepingList :=
      fun c' => hkept.sleepingList c'
    have htask : ∀ x, ((enqueueTask ((s.setState t .ready).setNext t none) c t).tasks x).sleepUntil = (s.tasks x).sleepUntil ∧
        ((enqueueTask ((s.setState t .ready).setNext t none) c t).tasks x).state =
          (if x = t then .ready else (s.tasks x).state) ∧
        levelIn (enqueueTask ((s.setState t .ready).setNext t none) c t) x = levelIn s x := by
      intro x
      rw [hkept.sleepUntil, hkept.state, levelIn, hkept.basePriority]
      by_cases hx : x = t <;> simp [Cpus.adopt, Cpus.setState, Cpus.setNext, Cpus.onTask, hx, levelIn]
    rw [← heads_of_sleepingList hlist (nextOf s t)] at hqueued
    have hlevel := funext fun x => (htask x).2.2
    obtain ⟨s', hrun, hqueues, hx⟩ := ih hqueued (by rw [update_of_ne (by simp), update_self]) (Nat.lt_of_succ_lt_succ hfuel)
    refine ⟨s', hrun, ?_, fun x => ⟨(hx x).1.trans (htask x).1, ?_⟩⟩
    · rw [hlevel, update_of_ne (by simp)] at hqueues
      rwa [← delivered_cons]
    · rw [(hx x).2, (htask x).2.1]
      by_cases hxt : x = t
      · simp [hxt]
      · simp [hxt]

variable {l₁ l₂ : List Word}

lemma nextOf_linkSleeper (l : List Word) (v : Option Word) : nextOf (s.linkSleeper c l.getLast? v) = splice (nextOf s) l v := by
  rw [splice]
  cases l.getLast? with
  | none => rfl
  | some b => exact nextOf_setNext s b v

lemma heads_linkSleeper (l : List Word) (v : Option Word) :
    heads (s.linkSleeper c l.getLast? v) none = update (heads s none) (some c) (relink l (s.cpus c).sleepingList v) := by
  rw [relink]
  induction l using List.reverseRecOn with
  | nil =>
    funext j
    cases j with
    | none => rfl
    | some c' =>
      rcases eq_or_ne c' c with rfl | hc
      · simp [heads, Cpus.linkSleeper, Cpus.setSleeping, Cpus.onCpu]
      · simp [heads, Cpus.linkSleeper, Cpus.setSleeping, Cpus.onCpu, hc]
  | append_singleton =>
    rw [List.getLast?_concat, if_neg (by simp)]
    exact (update_eq_self (some c) (heads s none)).symm

lemma links_linkSleeper (prev v : Option Word) : headOf (s.linkSleeper c prev v) = headOf s ∧
    tailOf (s.linkSleeper c prev v) = tailOf s ∧
    countOf (s.linkSleeper c prev v) = countOf s := by
  cases prev with
  | none => exact ⟨headOf_setSleeping v, tailOf_setSleeping v, countOf_setSleeping v⟩
  | some => exact ⟨rfl, rfl, rfl⟩

lemma sleepUntil_linkSleeper (prev v : Option Word) (x : Word) :
    ((s.linkSleeper c prev v).tasks x).sleepUntil = (s.tasks x).sleepUntil := by
  cases prev with
  | none => rfl
  | some b => exact ((Kept.refl s).setNext b v).sleepUntil x

lemma pairwise_insert {key : Word → Word} (h : (l₁ ++ l₂).Pairwise fun t u => key t ≤ key u) (hbefore : ∀ u ∈ l₁, key u < key t)
    (hbehind : ∀ u ∈ l₂.head?, ¬ key u < key t) : (l₁ ++ t :: l₂).Pairwise fun t u => key t ≤ key u := by
  obtain ⟨h₁, h₂, hacross⟩ := pairwise_append.mp h
  have hfirst : ∀ u ∈ l₂, key t ≤ key u := by
    cases l₂ with
    | nil => exact forall_mem_nil _
    | cons b =>
      have hb := BitVec.not_lt.mp (hbehind b rfl)
      refine forall_mem_cons.mpr ⟨hb, fun u hu => ?_⟩
      exact BitVec.le_trans hb ((pairwise_cons.mp h₂).1 u hu)
  refine pairwise_append.mpr ⟨h₁, pairwise_cons.mpr ⟨hfirst, h₂⟩, fun u hu v hv => ?_⟩
  rcases mem_cons.mp hv with rfl | hv
  · exact BitVec.le_of_lt (hbefore u hu)
  · exact hacross u hu v hv

lemma schedMakeTaskSleep_ordered (now ms : Word) (h : Ordered s) (hloose : ∀ t ∈ (s.cpus c).currentTask, Loose s t) :
    ∃ s', schedMakeTaskSleep s c now ms = some s' ∧ Ordered s' := by
  rw [schedMakeTaskSleep]
  cases hcurrent : (s.cpus c).currentTask with
  | none => exact ⟨s, rfl, h⟩
  | some t =>
    have hnot := (hloose t hcurrent).notMem
    generalize hs₁ : (s.setState t .sleeping).setSleepUntil t (now + ms) = s₁
    have hnext : nextOf s₁ = nextOf s := by
      funext x
      by_cases hx : x = t <;> simp [← hs₁, nextOf, Cpus.setSleepUntil, Cpus.setState, Cpus.onTask, hx]
    have hcpus : s₁.cpus = s.cpus := by
      rw [← hs₁]
      rfl
    have huntil : ∀ x ≠ t, (s₁.tasks x).sleepUntil = (s.tasks x).sleepUntil := by
      intro x hx
      simp [← hs₁, Cpus.setState, Cpus.setSleepUntil, Cpus.onTask, hx]
    have hheads : heads s₁ none = heads s none := by
      funext j
      cases j with
      | none => rfl
      | some => rw [heads, heads, hcpus]
    have hqueues : Queues (heads s₁ none) s₁ (lists s) := by
      rw [hheads]
      apply h.queues.of_eq hnext
      · rw [← hs₁]
        rfl
      · rw [← hs₁]
        rfl
      · rw [← hs₁]
        rfl
    obtain ⟨l₁, l₂, hl, hfind, hbefore, hbehind⟩ := findSlot_spec none (hqueues.lists.chain (.inr (some c)))
      (Nat.lt_succ_of_le (Word.length_le_of_nodup (hqueues.lists.nodup (.inr (some c)))))
    rw [or_none] at hfind
    refine ⟨(s₁.setNext t l₂.head?).linkSleeper c l₁.getLast? (some t), ?_, ?_⟩
    · simp only [hs₁]
      exact map_eq_some_iff.mpr ⟨_, hfind, rfl⟩
    have hinserted := hqueues.insert hnot hl
      (show nextOf ((s₁.setNext t l₂.head?).linkSleeper c l₁.getLast? (some t)) = _ by rw [nextOf_linkSleeper, nextOf_setNext])
      (links_linkSleeper _ _).1 (links_linkSleeper _ _).2.1 (links_linkSleeper _ _).2.2
    have hheads₂ : heads ((s₁.setNext t l₂.head?).linkSleeper c l₁.getLast? (some t)) none =
        update (heads s₁ none) (some c) (relink l₁ (heads s₁ none (some c)) (some t)) := heads_linkSleeper l₁ (some t)
    rw [← hheads₂] at hinserted
    have hkey : ∀ x, (((s₁.setNext t l₂.head?).linkSleeper c l₁.getLast? (some t)).tasks x).sleepUntil =
        (s₁.tasks x).sleepUntil :=
      fun x => (sleepUntil_linkSleeper _ _ x).trans (((Kept.refl s₁).setNext t _).sleepUntil x)
    have hsorted : ∀ c', (lists s (.inr (some c'))).Pairwise fun u v => (s₁.tasks u).sleepUntil ≤ (s₁.tasks v).sleepUntil := by
      intro c'
      refine (h.sorted c').imp_of_mem fun {u v} hu hv huv => ?_
      rwa [huntil u fun hut => hnot (.inr (some c')) (hut ▸ hu), huntil v fun hvt => hnot (.inr (some c')) (hvt ▸ hv)]
    refine .of_queues hinserted fun c' => ?_
    simp only [hkey]
    rcases eq_or_ne c' c with rfl | hc
    · rw [update_self]
      have hold := hsorted c'
      rw [hl] at hold
      exact pairwise_insert hold hbefore hbehind
    · rw [update_of_ne (by simpa using hc)]
      exact hsorted c'

omit [DecidableEq K] in
lemma Ordered.of_kept (h : Ordered s) (hq : Queues (heads s none) s' ls) (hls : ∀ c, ls (.inr (some c)) = sleepers s c)
    (huntil : ∀ x, (s'.tasks x).sleepUntil = (s.tasks x).sleepUntil)
    (hlist : ∀ c, (s'.cpus c).sleepingList = (s.cpus c).sleepingList) : Ordered s' := by
  have hheads : heads s' none = heads s none := by
    funext j
    cases j with
    | none => rfl
    | some c => exact hlist c
  rw [← hheads] at hq
  refine .of_queues hq fun c => ?_
  simp only [hls, huntil]
  exact h.sorted c

lemma runQueue_ordered (h : Ordered s) (a : Sched.Call K) (ha : (Call.runQueue a).Allowed s) :
    ∃ s', Sched.step s a = some s' ∧ Ordered s' := by
  cases a with
  | enqueue c t =>
    have hkept := Kept.enqueueTask s c t
    refine ⟨_, rfl, h.of_kept (h.queues.enqueueTask ha.notMem rfl) (fun c' => update_of_ne (by simp) _ _) (fun x => ?_)
      hkept.sleepingList⟩
    rw [hkept.sleepUntil]
    by_cases hx : x = t <;> simp [Cpus.adopt, Cpus.onTask, hx]
  | dequeue c =>
    obtain ⟨r, s', _, hrun, heffect, hq⟩ := h.queues.dequeueTask
    have hkept := (Kept.refl s).dequeueLoop c levels
    rw [show dequeueLoop c levels s = (r, s') from hrun] at hkept
    refine ⟨s', ?_, h.of_kept hq (fun c' => ?_) hkept.sleepUntil hkept.sleepingList⟩
    · rw [Sched.step, perform, map_some, hrun]
    · cases heffect with
      | empty => rfl
      | first => exact update_of_ne (by simp) _ _
  | steal c locked =>
    cases locked with
    | false => exact ⟨s, rfl, h⟩
    | true =>
      rcases stealLoop_cases h.queues levels with ⟨hrun, -⟩ | ⟨p, -, l₁, t, l₂, hl, -, -, hrun⟩
      · exact ⟨s, congrArg (Option.map Prod.snd) hrun, h⟩
      · have hkept := (Kept.refl s).takeOut c p l₁.getLast? t
        exact ⟨_, congrArg (Option.map Prod.snd) hrun, h.of_kept (h.queues.takeOut hl) (fun c' => update_of_ne (by simp) _ _)
          hkept.sleepUntil hkept.sleepingList⟩
  | boost c =>
    have hkept := (Kept.refl s).prioBoost c
    exact ⟨_, rfl, h.of_kept h.queues.prioBoost (fun c' => rfl) hkept.sleepUntil hkept.sleepingList⟩

lemma switch_ordered (h : Ordered s) (c : K) (next : Word) : ∃ s', step s (.switch c next) = some s' ∧ Ordered s' := by
  refine ⟨_, rfl, h.of_kept (h.queues.of_eq ?_ ?_ ?_ ?_) (fun c' => rfl) (fun x => ?_) fun c' => ?_⟩
  · rw [Cpus.setCurrent]
    exact (nextOf_setCpuId _ next _).trans (nextOf_onTask s next fun _ => rfl)
  · exact onCpu_same _ c CpuContext.rqHead _ rfl
  · exact onCpu_same _ c CpuContext.rqTail _ rfl
  · exact onCpu_same _ c CpuContext.rqCount _ rfl
  · by_cases hx : x = next <;> simp [Cpus.setCurrent, Cpus.setCpuId, Cpus.setState, Cpus.onTask, Cpus.onCpu, hx]
  · by_cases hc : c' = c <;> simp [Cpus.setCurrent, Cpus.setCpuId, Cpus.setState, Cpus.onTask, Cpus.onCpu, hc]

lemma filter_expired {key : Word → Word} (h : (l₁ ++ l₂).Pairwise fun t u => key t ≤ key u) (hbefore : ∀ u ∈ l₁, key u ≤ now)
    (hbehind : ∀ u ∈ l₂.head?, ¬ key u ≤ now) :
    (l₁ ++ l₂).filter (fun u => key u ≤ now) = l₁ ∧ (l₁ ++ l₂).filter (fun u => now < key u) = l₂ := by
  have hlater : ∀ u ∈ l₂, now < key u := by
    cases l₂ with
    | nil => exact forall_mem_nil _
    | cons b =>
      have hb := BitVec.not_le.mp (hbehind b rfl)
      refine forall_mem_cons.mpr ⟨hb, fun u hu => ?_⟩
      have hu' := (pairwise_cons.mp (pairwise_append.mp h).2.1).1 u hu
      exact hb.trans_le (BitVec.le_def.mp hu')
  rw [filter_append, filter_append]
  constructor
  · rw [filter_eq_self.mpr (by simpa using hbefore),
      filter_eq_nil_iff.mpr (by simpa using hlater), append_nil]
  · rw [filter_eq_nil_iff.mpr (by simpa using hbefore),
      filter_eq_self.mpr (by simpa using hlater), nil_append]

lemma schedUpdateSleepers_woken (h : Ordered s) (c : K) (now : Word) :
    ∃ s', schedUpdateSleepers s c now = some s' ∧ Ordered s' ∧ Woken s c now s' := by
  have hfuel : ∀ {l : List Word}, l.Nodup → l.length < walkFuel := fun hnodup =>
    Nat.lt_succ_of_le (Word.length_le_of_nodup hnodup)
  obtain ⟨s₁, ready, l₁, l₂, htake, hl, hbefore, hbehind, hqueues₁, hface⟩ :=
    takeExpired_spec now h.queues rfl (hfuel (h.queues.lists.nodup _))
  have hready : update (update (lists s) (.inr (some c)) l₂) (.inr none) (l₁.reverse ++ lists s (.inr none))
      (.inr none) = l₁.reverse := by
    rw [update_self]
    exact append_nil _
  obtain ⟨s', _, hqueues, htask⟩ := wakeReady_spec c hqueues₁ hready (hfuel (hready ▸ hqueues₁.lists.nodup (.inr none)))
  have hkept : Kept s { s₁ with cpus := s.cpus } := ⟨hface, fun _ => rfl⟩
  have hlevel : levelIn s₁ = levelIn s := funext fun x => congrArg levelOf (hkept.basePriority x)
  have hsorted : (l₁ ++ l₂).Pairwise fun t u => (s.tasks t).sleepUntil ≤ (s.tasks u).sleepUntil := hl ▸ h.sorted c
  obtain ⟨hexpired, hothers⟩ := filter_expired hsorted hbefore hbehind
  have hdue : expired s c now = l₁ := (congrArg _ hl).trans hexpired
  have huntil : ∀ x, (s'.tasks x).sleepUntil = (s.tasks x).sleepUntil := fun x => (htask x).1.trans (hkept.sleepUntil x)
  rw [hlevel] at hqueues
  have hlists := congrFun (lists_eq hqueues)
  refine ⟨s', ?_, .of_queues hqueues fun c' => ?_, ?_, fun p => ?_, fun t ht => ?_, fun t ht => ?_,
    fun c' hc => ⟨?_, fun p => ?_⟩⟩
  · rwa [schedUpdateSleepers, htake]
  · simp only [huntil, delivered]
    rcases eq_or_ne c' c with rfl | hc
    · rw [update_of_ne (by simp), update_self]
      exact (pairwise_append.mp hsorted).2.1
    · rw [update_of_ne (by simp), update_of_ne (by simpa using hc)]
      exact h.sorted c'
  · refine (hlists (.inr (some c))).trans ?_
    rw [delivered, update_of_ne (by simp), update_self, ← hothers, ← hl]
    rfl
  · refine (hlists (.inl (c, p))).trans ?_
    rw [delivered, if_pos rfl, update_of_ne (by simp), update_of_ne (by simp), hdue]
    rfl
  · rw [hdue] at ht
    rw [(htask t).2, if_pos (mem_reverse.mpr ht)]
  · rw [hdue] at ht
    rw [(htask t).2, if_neg (mt mem_reverse.mp ht), hkept.state t]
  · refine (hlists (.inr (some c'))).trans ?_
    rw [delivered, update_of_ne (by simp), update_of_ne (by simpa using hc)]
    rfl
  · refine (hlists (.inl (c', p))).trans ?_
    rw [delivered, if_neg hc, update_of_ne (by simp), update_of_ne (by simp)]
    rfl

theorem sleepers_served {calls : List (Call K)} (h : Ordered s) (ha : Runs.Guarded step (fun s a => a.Allowed s) s calls) :
    (∃ s', Runs.run step s calls = some s') ∧
    Runs.Always step (fun s =>
      (∀ c, (sleepers s c).Nodup ∧ (sleepers s c).Pairwise fun t u => (s.tasks t).sleepUntil ≤ (s.tasks u).sleepUntil) ∧
      ∀ c now, ∃ s', schedUpdateSleepers s c now = some s' ∧ Woken s c now s') s calls := by
  have hstep : ∀ (s : Cpus K) (a : Call K), Ordered s → a.Allowed s → ∃ s', step s a = some s' ∧ Ordered s' := by
    intro s a hs ha
    cases a with
    | makeTaskSleep c now ms => exact schedMakeTaskSleep_ordered now ms hs ha
    | updateSleepers c now =>
      obtain ⟨s', hs', hordered, -⟩ := schedUpdateSleepers_woken hs c now
      exact ⟨s', hs', hordered⟩
    | runQueue a => exact runQueue_ordered hs a ha
    | switch c next => exact switch_ordered hs c next
  refine ⟨Runs.progress hstep h ha, (Runs.progress_invariant hstep h ha).mono fun s hs => ⟨fun c => ?_, fun c now => ?_⟩⟩
  · exact ⟨hs.queues.lists.nodup (.inr (some c)), hs.sorted c⟩
  · obtain ⟨s', hs', -, hwoken⟩ := schedUpdateSleepers_woken hs c now
    exact ⟨s', hs', hwoken⟩

omit [DecidableEq K] in
lemma ordered_init (h : ∀ c, ∃ cpu : CpuContext, s.cpus c = { cpu.init with sleepingList := none }) :
    Ordered s := by
  have hempty : ∀ c, (s.cpus c).sleepingList = none ∧ ∀ p, (s.cpus c).rqHead p = none ∧ (s.cpus c).rqTail p = none ∧
      (s.cpus c).rqCount p = 0 := by
    intro c
    obtain ⟨_, hcpu⟩ := h c
    rw [hcpu]
    exact ⟨rfl, fun p => ⟨rfl, rfl, rfl⟩⟩
  have hqueues : Queues (heads s none) s fun _ => [] := by
    refine ⟨⟨fun i => ?_, fun i => nodup_nil, fun i j a ha => nomatch ha⟩, fun i => ((hempty i.1).2 i.2).2.1,
      fun i => ((hempty i.1).2 i.2).2.2⟩
    rcases i with i | _ | c
    · exact ((hempty i.1).2 i.2).1
    · rfl
    · exact (hempty c).1
  exact .of_queues hqueues fun _ => .nil

section calls

local instance neZeroTwo : NeZero 2 := ⟨by decide⟩

def threeSleeps : List (Call (Fin 2)) := [.switch 0 0x10A, .makeTaskSleep 0 100 50, .switch 0 0x10B, .makeTaskSleep 0 100 20,
  .switch 0 0x10C, .makeTaskSleep 0 105 30, .updateSleepers 0 110]

end calls

theorem sleepers_served_threeSleeps : ∃ s, Runs.run step twoCpus threeSleeps = some s ∧ sleepers s 0 = [0x10B, 0x10C, 0x10A] ∧
    ∃ s', schedUpdateSleepers s 0 140 = some s' ∧ sleepers s' 0 = [0x10A] ∧ queue s' 0 1 = [0x10C, 0x10B] := by
  refine Runs.exists_of_check (fun s => sleepers s 0 = [0x10B, 0x10C, 0x10A] ∧ queue s 0 1 = [] ∧
    ((sleepers s 0).filter fun t => 140 < (s.tasks t).sleepUntil) = [0x10A] ∧
    ((expired s 0 140).reverse.filter fun t => levelIn s t = 1) = [0x10C, 0x10B]) (by decide +kernel) ?_
  rintro s hrun ⟨hlist, hqueue, hlater, hdue⟩
  obtain ⟨-, hserved⟩ := (sleepers_served (ordered_init fun c => ⟨twoCpus.cpus c, rfl⟩)
    (show Runs.Guarded step (fun s a => a.Allowed s) twoCpus threeSleeps by decide +kernel)).2.last hrun
  obtain ⟨s', hs', hwoken⟩ := hserved 0 140
  refine ⟨hlist, s', hs', hwoken.sleepers.trans hlater, ?_⟩
  rw [hwoken.queue, hqueue, hdue]
  rfl

end KernelSmp.Sched.SleepQueue
