import KernelSmp.Sched.Places

/-! What the loops of the scheduler do to the places of the tasks, and what they leave alone. -/

namespace KernelSmp.Sched

set_option linter.unusedSectionVars false

open Base Base.LinkedQueue Function Atomic List

def Task.face (x : Task) : Task := { x with rsp := 0, schedNext := none }

def CpuContext.ids (x : CpuContext) : Word × Option Word × Word × Option Word :=
  (x.cpuId, x.currentTask, x.idleTask, x.sleepingList)

structure Kept {K : Type} (s s' : Cpus K) : Prop where
  task : ∀ x, (s'.tasks x).face = (s.tasks x).face
  cpu : ∀ c, (s'.cpus c).ids = (s.cpus c).ids

variable {K : Type}

section kept

variable {s s' s'' : Cpus K}

lemma Kept.refl (s : Cpus K) : Kept s s := ⟨fun _ => rfl, fun _ => rfl⟩

lemma Kept.trans (h : Kept s s') (h' : Kept s' s'') : Kept s s'' :=
  ⟨fun x => (h'.task x).trans (h.task x), fun c => (h'.cpu c).trans (h.cpu c)⟩

lemma Kept.state (h : Kept s s') (x : Word) : (s'.tasks x).state = (s.tasks x).state :=
  show (s'.tasks x).face.state = (s.tasks x).face.state by rw [h.task]
lemma Kept.waitReason (h : Kept s s') (x : Word) : (s'.tasks x).waitReason = (s.tasks x).waitReason :=
  show (s'.tasks x).face.waitReason = (s.tasks x).face.waitReason by rw [h.task]
lemma Kept.priority (h : Kept s s') (x : Word) : (s'.tasks x).priority = (s.tasks x).priority :=
  show (s'.tasks x).face.priority = (s.tasks x).face.priority by rw [h.task]
lemma Kept.basePriority (h : Kept s s') (x : Word) : (s'.tasks x).basePriority = (s.tasks x).basePriority :=
  show (s'.tasks x).face.basePriority = (s.tasks x).face.basePriority by rw [h.task]
lemma Kept.cpuId (h : Kept s s') (x : Word) : (s'.tasks x).cpuId = (s.tasks x).cpuId :=
  show (s'.tasks x).face.cpuId = (s.tasks x).face.cpuId by rw [h.task]
lemma Kept.sleepUntil (h : Kept s s') (x : Word) : (s'.tasks x).sleepUntil = (s.tasks x).sleepUntil :=
  show (s'.tasks x).face.sleepUntil = (s.tasks x).face.sleepUntil by rw [h.task]

lemma Kept.id (h : Kept s s') (c : K) : (s'.cpus c).cpuId = (s.cpus c).cpuId := congrArg Prod.fst (h.cpu c)
lemma Kept.currentTask (h : Kept s s') (c : K) : (s'.cpus c).currentTask = (s.cpus c).currentTask :=
  congrArg (fun x => x.2.1) (h.cpu c)
lemma Kept.idleTask (h : Kept s s') (c : K) : (s'.cpus c).idleTask = (s.cpus c).idleTask :=
    congrArg (fun x => x.2.2.1) (h.cpu c)
lemma Kept.sleepingList (h : Kept s s') (c : K) : (s'.cpus c).sleepingList = (s.cpus c).sleepingList :=
  congrArg (fun x => x.2.2.2) (h.cpu c)

lemma Kept.onTask (h : Kept s s') (t : Word) {f : Task → Task} (hf : ∀ x, (f x).face = x.face) : Kept s (s'.onTask t f) := by
  refine ⟨fun x => ?_, h.cpu⟩
  rw [← h.task]
  rcases eq_or_ne x t with rfl | hx
  · simp [Cpus.onTask, hf]
  · simp [Cpus.onTask, hx]

lemma Kept.setNext (h : Kept s s') (t : Word) (v : Option Word) : Kept s (s'.setNext t v) := h.onTask t fun _ => rfl
lemma Kept.setRsp (h : Kept s s') (t v : Word) : Kept s (s'.setRsp t v) := h.onTask t fun _ => rfl

lemma Kept.map (h : Kept s s') (t : Word) {f : Task → Task} (hf : ∀ x y, x.face = y.face → (f x).face = (f y).face) :
    Kept (s.onTask t f) (s'.onTask t f) := by
  refine ⟨fun x => ?_, h.cpu⟩
  rcases eq_or_ne x t with rfl | hx
  · simpa [Cpus.onTask] using hf _ _ (h.task x)
  · simpa [Cpus.onTask, hx] using h.task x

variable [DecidableEq K]

lemma Kept.onCpu (h : Kept s s') (c : K) {f : CpuContext → CpuContext} (hf : ∀ x, (f x).ids = x.ids) :
    Kept s (s'.onCpu c f) := by
  refine ⟨h.task, fun c' => ?_⟩
  rw [← h.cpu]
  rcases eq_or_ne c' c with rfl | hc
  · simp [Cpus.onCpu, hf]
  · simp [Cpus.onCpu, hc]

section steps

variable (h : Kept s s') (c : K) (p : Level) (v : Option Word) (f : BitVec 32 → BitVec 32)

include h

lemma Kept.setHead : Kept s (s'.setHead c p v) := h.onCpu c fun _ => rfl
lemma Kept.setTail : Kept s (s'.setTail c p v) := h.onCpu c fun _ => rfl
lemma Kept.onCount : Kept s (s'.onCount c p f) := h.onCpu c fun _ => rfl
lemma Kept.onQuanta : Kept s (s'.onQuanta c p f) := h.onCpu c fun _ => rfl
lemma Kept.setNextBoost (x : Word) : Kept s (s'.setNextBoost c x) := h.onCpu c fun _ => rfl

lemma Kept.linkFrom (prev : Option Word) : Kept s (s'.linkFrom c p prev v) := by
  cases prev with
  | none => exact h.setHead c p v
  | some b => exact h.setNext b v

lemma Kept.takeFirst (t : Word) : Kept s (takeFirst s' c p t) := by
  rw [Sched.takeFirst]
  apply Kept.onQuanta
  apply Kept.onCount
  split
  · exact (h.setHead c p _).setTail c p none
  · exact h.setHead c p _

lemma Kept.dequeueLoop (ps : List Level) : Kept s (dequeueLoop c ps s').2 := by
  induction ps generalizing s' with
  | nil => exact h
  | cons p ps ih =>
    have hreset := h.onQuanta c p fun _ => 0
    rw [Sched.dequeueLoop]
    split
    · exact ih hreset
    · split
      · split
        · exact ih hreset
        · exact hreset.takeFirst c p _
      · exact h.takeFirst c p _

lemma Kept.takeOut (prev : Option Word) (t : Word) : Kept s (takeOut s' c p prev t) := by
  rw [Sched.takeOut]
  apply Kept.setNext
  apply Kept.onCount
  split
  · exact (h.linkFrom c p _ prev).setTail c p prev
  · exact h.linkFrom c p _ prev

lemma Kept.boostLevel (below : Level) : Kept s (boostLevel s' c p below) := by
  rw [Sched.boostLevel]
  split
  · exact h
  · exact (((((h.linkFrom c p _ _).setTail c p _).onCount c p _).setHead c below none).setTail c below none).onCount c below _

lemma Kept.prioBoost : Kept s (prioBoost s' c) := (h.boostLevel c 0 1).boostLevel c 1 2

end steps

def Cpus.adopt (s : Cpus K) (c : K) (t : Word) : Cpus K :=
  s.onTask t fun x =>
    { x with priority := x.basePriority, cpuId := if x.cpuId = -1 then (s.cpus c).cpuId else x.cpuId }

lemma Kept.enqueueTask (s : Cpus K) (c : K) (t : Word) : Kept (s.adopt c t) (enqueueTask s c t) := by
  have hlinks : ∀ (p : Level) (prev : Option Word), Kept (s.setPriority t (s.tasks t).basePriority)
      ((((((s.setPriority t (s.tasks t).basePriority).onQuanta c p fun _ => 0).setNext t none).linkFrom c p prev
        (some t)).setTail
        c p (some t)).onCount c p (· + 1)) := fun p prev =>
    (((((Kept.refl _).onQuanta c p _).setNext t none).linkFrom c p _ prev).setTail c p _).onCount c p _
  rw [Sched.enqueueTask]
  rw [(hlinks _ _).cpuId t, (hlinks _ _).id c]
  have hid : ((s.setPriority t (s.tasks t).basePriority).tasks t).cpuId = (s.tasks t).cpuId := by
    simp [Cpus.setPriority, Cpus.onTask]
  rw [hid]
  split_ifs with hfree
  · have hadopt : s.adopt c t = (s.setPriority t (s.tasks t).basePriority).setCpuId t (s.cpus c).cpuId := by
      simp [Cpus.adopt, Cpus.setPriority, Cpus.setCpuId, Cpus.onTask, hfree]
    rw [hadopt]
    exact (hlinks _ _).map t fun x y hxy => by
      simp only [Task.face, Task.mk.injEq] at hxy ⊢
      simp [hxy]
  · have hadopt : s.adopt c t = s.setPriority t (s.tasks t).basePriority := by
      simp only [Cpus.adopt, Cpus.setPriority, Cpus.onTask, if_neg hfree]
    rw [hadopt]
    exact hlinks _ _

end kept

section moves

variable {M : Type} [DecidableEq K] [DecidableEq M] {others : Other K M → Option Word} {hands : Hand K → Option Word}
  {s s' : Cpus K}
  {ls : Family K M} {place : Word → Place K M} {j j' : Other K M} {k : Hand K} {c : K} {t : Word} {l l₁ l₂ : List Word}

lemma Rep.dequeueTask (h : Rep others hands s ls place) (hk : hands k = none) {r : Option Word}
    (hr : dequeueTask s c = (r, s')) : (r = none ∧ ∃ ls', Rep others hands s' ls' place) ∨ ∃ t p, r = some t ∧
    place t = .list (.inl (c, p)) ∧ ∃ ls', Rep others (update hands k (some t)) s' ls' (update place t (.hand k)) := by
  obtain ⟨_, _, _, hdequeue, heffect, hq⟩ := h.queues.dequeueTask
  obtain ⟨rfl, rfl⟩ := Prod.mk.inj (hdequeue.symm.trans hr)
  cases heffect with
  | empty => exact .inl ⟨rfl, _, hq, h.listed, h.held⟩
  | first p t l hp hl =>
    obtain ⟨ht, hrep⟩ := h.takeQueue (hl.trans (nil_append _).symm) hq hk
    exact .inr ⟨t, p, rfl, ht, _, hrep⟩

lemma Rep.stealTaskFromCpu (h : Rep others hands s ls place) (hk : hands k = none) {r : Option Word} {locked : Bool}
    (hr : stealTaskFromCpu s c locked = some (r, s')) :
    Kept s s' ∧ ((r = none ∧ ∃ ls', Rep others hands s' ls' place) ∨
    ∃ t p, r = some t ∧ place t = .list (.inl (c, p)) ∧
      ∃ ls', Rep others (update hands k (some t)) s' ls' (update place t (.hand k))) := by
  rw [Sched.stealTaskFromCpu] at hr
  split at hr
  · rcases stealLoop_cases h.queues levels with ⟨hloop, -⟩ | ⟨p, -, l₁, t, l₂, hl, -, -, hloop⟩
    · rw [hloop] at hr
      cases hr
      exact ⟨.refl s, .inl ⟨rfl, ls, h⟩⟩
    · rw [hloop] at hr
      cases hr
      obtain ⟨ht, hrep⟩ := h.takeQueue hl (h.queues.takeOut hl) hk
      exact ⟨(Kept.refl s).takeOut c p l₁.getLast? t, .inr ⟨t, p, rfl, ht, _, hrep⟩⟩
  · cases hr
    exact ⟨.refl s, .inl ⟨rfl, ls, h⟩⟩

section levels

local instance neZeroLevels : NeZero 4 := ⟨by decide⟩

def boosted (c : K) (q : Place K M) : Place K M :=
  redirect (.inl (c, 2)) (.inl (c, 1)) (redirect (.inl (c, 1)) (.inl (c, 0)) q)

end levels

lemma Rep.prioBoost (h : Rep others hands s ls place) : ∃ ls', Rep others hands (prioBoost s c) ls' fun u =>
    boosted c (place u) := by
  have hfirst := h.redirect (by simp) (h.queues.boostLevel (c := c) (show (0 : Level) ≠ 1 by decide))
  exact ⟨_, hfirst.redirect (by simp) (hfirst.queues.boostLevel (show (1 : Level) ≠ 2 by decide))⟩

lemma Rep.shift (h : Rep others hands s ls place) (ht : others j = some t) (hne : j' ≠ j) : ∃ l, ls (.inr j) = t :: l ∧
    Rep (update (update others j (nextOf s t)) j' (some t)) hands (s.setNext t (others j'))
      (update (update ls (.inr j) l) (.inr j') (t :: ls (.inr j'))) (update place t (.list (.inr j'))) := by
  obtain ⟨l, hl, hlose⟩ := h.lose ht
  have hnext : nextOf (s.setNext t (others j')) = update (nextOf s) t (update others j (nextOf s t) j') := by
    rw [nextOf_setNext, update_of_ne hne]
  have hpush := hlose.push (update_self t _ place) hnext rfl rfl rfl
  rw [update_idem, update_of_ne (by simpa using hne)] at hpush
  exact ⟨l, hl, hpush⟩

@[simp] lemma headOf_setSleeping (v : Option Word) : headOf (s.setSleeping c v) = headOf s :=
    onCpu_same s c CpuContext.rqHead _ rfl
@[simp] lemma tailOf_setSleeping (v : Option Word) : tailOf (s.setSleeping c v) = tailOf s :=
    onCpu_same s c CpuContext.rqTail _ rfl
@[simp] lemma countOf_setSleeping (v : Option Word) : countOf (s.setSleeping c v) = countOf s :=
    onCpu_same s c CpuContext.rqCount _ rfl
@[simp] lemma nextOf_setSleeping (v : Option Word) : nextOf (s.setSleeping c v) = nextOf s := rfl

lemma sleepingList_setSleeping (v : Option Word) : ((s.setSleeping c v).cpus c).sleepingList = v := by
  simp [Cpus.setSleeping, Cpus.onCpu]

lemma setSleeping_setNext (u v w : Option Word) :
    ((s.setSleeping c u).setNext t w).setSleeping c v = (s.setSleeping c v).setNext t w := by
  simp [Cpus.setSleeping, Cpus.setNext, Cpus.onCpu, Cpus.onTask]

lemma setSleeping_eq_self : s.setSleeping c (s.cpus c).sleepingList = s := by
  simp [Cpus.setSleeping, Cpus.onCpu]

lemma update_pair {α β : Type} [DecidableEq α] {a b : α} (hab : a ≠ b) (f : α → β) (x x' y y' : β) :
    update (update (update (update f a x) b y) a x') b y' = update (update f a x') b y' := by
  funext i
  by_cases hib : i = b
  · simp [hib]
  · by_cases hia : i = a
    · simp [hia, hab]
    · simp [hib, hia]

lemma Rep.takeExpired (now : Word) {fuel : ℕ} {ready : Option Word} (h : Rep others hands s ls place)
    (hsleep : others (.sleeping c) = (s.cpus c).sleepingList) (hready : others (.toWake c) = ready)
    (hl : ls (.inr (.sleeping c)) = l) (hfuel : l.length < fuel) :
    ∃ s' ready' ls' place', takeExpired now c fuel s ready = some (s', ready') ∧
      Rep (update (update others (.sleeping c) (s'.cpus c).sleepingList) (.toWake c) ready') hands s' ls' place' ∧
      (∀ u, place' u = place u ∨
        place u = .list (.inr (.sleeping c)) ∧ place' u = .list (.inr (.toWake c)) ∧ (s.tasks u).sleepUntil ≤ now) ∧
      Kept (s.setSleeping c (s'.cpus c).sleepingList) s' := by
  induction fuel generalizing others s ls place ready l with
  | zero => cases hfuel
  | succ fuel ih =>
    have hstop : ∃ s' ready' ls' place', some (s, ready) = some (s', ready') ∧
        Rep (update (update others (.sleeping c) (s'.cpus c).sleepingList) (.toWake c) ready') hands s' ls' place' ∧
        (∀ u, place' u = place u ∨
          place u = .list (.inr (.sleeping c)) ∧ place' u = .list (.inr (.toWake c)) ∧ (s.tasks u).sleepUntil ≤ now) ∧
        Kept (s.setSleeping c (s'.cpus c).sleepingList) s' := by
      refine ⟨s, ready, ls, place, rfl, ?_, fun u => .inl rfl, ?_⟩
      · rwa [← hsleep, update_eq_self, ← hready, update_eq_self]
      · rw [setSleeping_eq_self]
        exact .refl s
    rw [Sched.takeExpired]
    split
    · exact hstop
    · rename_i t ht
      split_ifs with hdue
      · have hfirst := hsleep.trans ht
        obtain ⟨_, hl', hshift⟩ := h.shift hfirst (show .toWake c ≠ _ by simp)
        have hnext : Rep (update (update others (.sleeping c) (nextOf s t)) (.toWake c) (some t)) hands
            ((s.setSleeping c (s.tasks t).schedNext).setNext t ready) _ _ :=
          hshift.of_eq (by rw [hready]; simp) (by simp) (by simp) (by simp)
        obtain ⟨s', ready', ls', place', hrun, hrep, hplace, hkept⟩ := ih hnext
          (by
            rw [update_of_ne (by simp), update_self]
            exact (sleepingList_setSleeping (nextOf s t)).symm)
          (update_self _ _ _) (by rw [update_of_ne (by simp), update_self])
          (by
            rw [← hl, hl', length_cons] at hfuel
            exact Nat.lt_of_succ_lt_succ hfuel)
        refine ⟨s', ready', ls', place', hrun, ?_, fun u => ?_, ?_⟩
        · rwa [update_pair (by simp)] at hrep
        · rcases hplace u with hu | ⟨hu, hu', hu''⟩
          · rcases eq_or_ne u t with rfl | hut
            · rw [update_self] at hu
              exact .inr ⟨h.first hfirst, hu, hdue⟩
            · rw [update_of_ne hut] at hu
              exact .inl hu
          · rcases eq_or_ne u t with rfl | hut
            · rw [update_self] at hu
              cases hu
            · rw [update_of_ne hut] at hu
              simp only [Cpus.setNext, Cpus.onTask, update_of_ne hut] at hu''
              exact .inr ⟨hu, hu', hu''⟩
        · rw [setSleeping_setNext] at hkept
          exact ((Kept.refl _).setNext t ready).trans hkept
      · exact hstop

lemma Rep.unlink (h : Rep others hands s ls place) (hl : ls (.inr j) = l₁ ++ t :: l₂)
    (hnext : nextOf s' = splice (nextOf s) l₁ (nextOf s t))
    (hhead : headOf s' = headOf s) (htail : tailOf s' = tailOf s) (hcount : countOf s' = countOf s) :
    Rep (update others j (relink l₁ (others j) (nextOf s t))) hands s' (update ls (.inr j) (l₁ ++ l₂))
      (update place t .nowhere) := by
  have hin : t ∈ ls (.inr j) := by rw [hl]; exact mem_append_right l₁ mem_cons_self
  refine h.move (h.queues.other ?_ hhead htail hcount)
    (mem_remove (h.queues.lists.nodup _) (fun i => h.queues.lists.apart _ i t hin) hl (by simp))
    (hands_keep (h.free_hands ((h.listed _ t).mp hin)) (by simp))
  rw [hnext]
  exact h.queues.lists.remove hl

section ready

local instance lawfulWord : LawfulBEq Word := inferInstance

def Cpus.readyAll (s : Cpus K) (l : List Word) (reason : TaskReason) : Cpus K :=
  { s with tasks := fun u => if u ∈ l ∧ (s.tasks u).waitReason = reason then { s.tasks u with state := .ready } else s.tasks u }

end ready

lemma readyAll_cons_of_ne {reason : TaskReason} (ht : (s.tasks t).waitReason ≠ reason) : s.readyAll (t :: l) reason =
    s.readyAll l reason := by
  simp only [Cpus.readyAll]
  congr 1
  funext u
  rcases eq_or_ne u t with rfl | hu
  · simp [ht]
  · simp [hu]

lemma kept_readyAll_cons {reason : TaskReason} (ht : (s.tasks t).waitReason = reason) (hnot : t ∉ l)
    (hkept : Kept (s.setState t .ready) s') : Kept (s.readyAll (t :: l) reason) (s'.readyAll l reason) := by
  refine ⟨fun u => ?_, hkept.cpu⟩
  have hface := hkept.task u
  rcases eq_or_ne u t with rfl | hu
  · simpa [Cpus.readyAll, hnot, ht, Cpus.setState, Cpus.onTask] using hface
  · have hreason : (s'.tasks u).waitReason = (s.tasks u).waitReason := by
      simpa [Cpus.setState, Cpus.onTask, hu] using hkept.waitReason u
    simp only [Cpus.setState, Cpus.onTask, update_of_ne hu] at hface
    simp only [Cpus.readyAll, hreason, mem_cons, hu, false_or]
    split
    · simp only [Task.face, Task.mk.injEq] at hface ⊢
      simp [hface]
    · exact hface

@[simp] lemma nextOf_setState (s : Cpus K) (t : Word) (x : TaskState) : nextOf (s.setState t x) = nextOf s :=
    nextOf_onTask s t fun _ => rfl

@[simp] lemma nextOf_setReason (s : Cpus K) (t : Word) (x : TaskReason) : nextOf (s.setReason t x) = nextOf s :=
    nextOf_onTask s t fun _ => rfl

def Cpus.linkBlocked (s : Cpus K) (prev v : Option Word) : Cpus K := prev.elim s fun b => s.setNext b v

lemma wakeLoop_some {reason : TaskReason} {fuel : ℕ} {blocked toWake : Option Word} (prev : Option Word) :
    wakeLoop reason (fuel + 1) s blocked prev (some t) toWake =
      if (s.tasks t).waitReason = reason then
        wakeLoop reason fuel (((s.linkBlocked prev (s.tasks t).schedNext).setNext t toWake).setState t .ready)
          (if prev = none then (s.tasks t).schedNext else blocked) prev (s.tasks t).schedNext (some t)
      else wakeLoop reason fuel s blocked (some t) (s.tasks t).schedNext toWake := by
  cases prev with
  | none => rfl
  | some => rfl

lemma nextOf_linkBlocked (l : List Word) (v : Option Word) : nextOf (s.linkBlocked l.getLast? v) = splice (nextOf s) l v := by
  rw [splice, Cpus.linkBlocked]
  cases l.getLast? with
  | none => rfl
  | some b => exact nextOf_setNext s b v

lemma Kept.linkBlocked (s : Cpus K) (prev v : Option Word) : Kept s (s.linkBlocked prev v) := by
  cases prev with
  | none => exact .refl s
  | some b => exact (Kept.refl s).setNext b v

lemma Kept.setState (h : Kept s s') (t : Word) (x : TaskState) : Kept (s.setState t x) (s'.setState t x) :=
  h.map t fun y z hyz => by
    simp only [Task.face, Task.mk.injEq] at hyz ⊢
    simp [hyz]

lemma Rep.wakeLoop (reason : TaskReason) {fuel : ℕ} {blocked prev toWake : Option Word} (h : Rep others hands s ls place)
    (hblocked : others .blocked = blocked) (hwake : others (.toWake c) = toWake) (hl : ls (.inr .blocked) = l₁ ++ l₂)
    (hprev : prev = l₁.getLast?) (hfuel : l₂.length < fuel) :
    ∃ s' blocked' toWake' ls' place', wakeLoop reason fuel s blocked prev l₂.head? toWake = some (s', blocked', toWake') ∧
      Rep (update (update others .blocked blocked') (.toWake c) toWake') hands s' ls' place' ∧
      (∀ u, place' u = if u ∈ l₂ ∧ (s.tasks u).waitReason = reason then .list (.inr (.toWake c)) else place u) ∧
      Kept (s.readyAll l₂ reason) s' := by
  induction l₂ generalizing others s ls place fuel blocked prev toWake l₁ with
  | nil =>
    cases fuel with
    | zero => cases hfuel
    | succ =>
      refine ⟨s, blocked, toWake, ls, place, rfl, ?_, fun u => by simp, ?_⟩
      · rwa [← hblocked, update_eq_self, ← hwake, update_eq_self]
      · simpa [Cpus.readyAll] using Kept.refl s
  | cons t l₂ ih =>
    cases fuel with
    | zero => cases hfuel
    | succ fuel =>
      have hchain := hl ▸ h.queues.lists.chain (.inr .blocked)
      obtain ⟨-, -, -, hrest⟩ := chain_append.mp hchain
      have hnext : (s.tasks t).schedNext = l₂.head? := hrest.link_eq
      have hfuel' := Nat.lt_of_succ_lt_succ hfuel
      have hnot : t ∉ l₂ := by
        have hnodup := h.queues.lists.nodup (.inr .blocked)
        rw [hl] at hnodup
        exact (nodup_cons.mp (List.Nodup.of_append_right hnodup)).1
      rw [List.head?_cons, wakeLoop_some, hnext]
      split
      · rename_i hreason
        -- `t` goes from the blocked tasks to the front of those to wake
        have hlinked : Kept s (s.linkBlocked prev l₂.head?) := .linkBlocked s prev _
        have hspliced : nextOf (s.linkBlocked prev l₂.head?) = splice (nextOf s) l₁ (nextOf s t) := by
          rw [hprev, nextOf_linkBlocked, show nextOf s t = l₂.head? from hnext]
        have hunlink := h.unlink hl hspliced (by cases prev <;> rfl) (by cases prev <;> rfl) (by cases prev <;> rfl)
        have hlink : nextOf (((s.linkBlocked prev l₂.head?).setNext t toWake).setState t .ready) =
            update (nextOf (s.linkBlocked prev l₂.head?)) t
              (update others .blocked (relink l₁ (others .blocked) (nextOf s t)) (.toWake c)) := by
          rw [nextOf_setState, nextOf_setNext, update_of_ne (by simp), hwake]
        have hpush := hunlink.push (update_self t _ place) hlink rfl rfl rfl
        have hblocked' : update (update others .blocked (relink l₁ (others .blocked) (nextOf s t))) (.toWake c)
            (some t) .blocked =
            if prev = none then l₂.head? else blocked := by
          rw [update_of_ne (by simp), update_self, relink, hprev, hblocked, show nextOf s t = l₂.head? from hnext]
          simp only [List.getLast?_eq_none_iff]
        obtain ⟨s', blocked', toWake', ls', place', hrun, hrep, hplace, hkept⟩ :=
          ih hpush hblocked' (update_self _ _ _) (by rw [update_of_ne (by simp), update_self]) hprev hfuel'
        refine ⟨s', blocked', toWake', ls', place', hrun, ?_, fun u => ?_, ?_⟩
        · rwa [update_pair (by simp)] at hrep
        · rw [hplace]
          rcases eq_or_ne u t with rfl | hu
          · simp [hreason]
          · have hsame : ((((s.linkBlocked prev l₂.head?).setNext t toWake).setState t .ready).tasks u).waitReason =
                (s.tasks u).waitReason := by
              rw [← hlinked.waitReason]
              simp [Cpus.setState, Cpus.setNext, Cpus.onTask, hu]
            simp [hu, hsame]
        · exact (kept_readyAll_cons hreason hnot ((hlinked.setNext t toWake).setState t .ready)).trans hkept
      · rename_i hreason
        obtain ⟨s', blocked', toWake', ls', place', hrun, hrep, hplace, _⟩ := ih h hblocked hwake
          (hl.trans (append_cons l₁ t l₂)) List.getLast?_concat.symm hfuel'
        refine ⟨s', blocked', toWake', ls', place', hrun, hrep, fun u => ?_, ?_⟩
        · rw [hplace]
          rcases eq_or_ne u t with rfl | hu
          · simp [hreason]
          · simp [hu]
        · rwa [readyAll_cons_of_ne hreason]

lemma findSlot_spec {«until» : Word} {fuel : ℕ} {link : Option Word} (prev : Option Word) (h : Chain (nextOf s) link l none)
    (hfuel : l.length < fuel) : ∃ l₁ l₂, l = l₁ ++ l₂ ∧ findSlot s.tasks «until» fuel prev link =
      some (l₁.getLast?.or prev, l₂.head?) ∧
      (∀ u ∈ l₁, (s.tasks u).sleepUntil < «until») ∧ ∀ u ∈ l₂.head?, ¬ (s.tasks u).sleepUntil < «until» := by
  induction l generalizing fuel prev link with
  | nil =>
    obtain rfl : link = none := h
    cases fuel with
    | zero => cases hfuel
    | succ => exact ⟨[], [], rfl, rfl, forall_mem_nil _, nofun⟩
  | cons a l ih =>
    obtain ⟨rfl, hrest⟩ := h
    cases fuel with
    | zero => cases hfuel
    | succ =>
      rw [findSlot]
      split_ifs with hearlier
      · obtain ⟨l₁, l₂, rfl, hfind, hbefore, hbehind⟩ := ih (some a) hrest (Nat.lt_of_succ_lt_succ hfuel)
        refine ⟨a :: l₁, l₂, rfl, hfind.trans ?_, forall_mem_cons.mpr ⟨hearlier, hbefore⟩, hbehind⟩
        rw [List.getLast?_cons]
        cases l₁.getLast? with
        | none => rfl
        | some => rfl
      · refine ⟨[], a :: l, rfl, rfl, forall_mem_nil _, ?_⟩
        rintro u ⟨⟩
        exact hearlier

lemma Rep.sleep (due : Word) (h : Rep others hands s ls place) (hsleep : others (.sleeping c) = (s.cpus c).sleepingList)
    (ht : place t = .nowhere) : ∃ r, findSlot s.tasks due walkFuel none (s.cpus c).sleepingList = some r ∧
      (∃ ls', Rep (update others (.sleeping c) ((((s.setNext t r.2).linkSleeper c r.1 (some t)).cpus c).sleepingList)) hands
        ((s.setNext t r.2).linkSleeper c r.1 (some t)) ls' (update place t (.list (.inr (.sleeping c))))) ∧
      Kept (s.setSleeping c ((((s.setNext t r.2).linkSleeper c r.1 (some t)).cpus c).sleepingList))
        ((s.setNext t r.2).linkSleeper c r.1 (some t)) := by
  have hchain : Chain (nextOf s) (others (.sleeping c)) (ls (.inr (.sleeping c))) none :=
    h.queues.lists.chain (.inr (.sleeping c))
  rw [hsleep] at hchain
  obtain ⟨l₁, l₂, hl, hfind, -⟩ := findSlot_spec none hchain
    (Nat.lt_succ_of_le (Word.length_le_of_nodup (h.queues.lists.nodup (.inr (.sleeping c)))))
  rw [Option.or_none] at hfind
  refine ⟨(l₁.getLast?, l₂.head?), hfind, ?_⟩
  induction l₁ using List.reverseRecOn with
  | nil =>
    have hhead : (((s.setNext t l₂.head?).linkSleeper c none (some t)).cpus c).sleepingList = some t :=
      sleepingList_setSleeping (some t)
    refine ⟨?_, ?_⟩
    · rw [List.getLast?_nil, hhead]
      exact ⟨_, h.insert ht hl (nextOf_setNext s t _) (headOf_setSleeping _) (tailOf_setSleeping _) (countOf_setSleeping _)⟩
    · rw [List.getLast?_nil, hhead]
      exact (Kept.refl (s.setSleeping c (some t))).setNext t _
  | append_singleton l₁ b =>
    rw [List.getLast?_concat]
    have hhead : (((s.setNext t l₂.head?).linkSleeper c (some b) (some t)).cpus c).sleepingList = (s.cpus c).sleepingList := rfl
    have hnext : nextOf ((s.setNext t l₂.head?).setNext b (some t)) = splice (update (nextOf s) t l₂.head?) (l₁ ++ [b])
        (some t) := by
      rw [nextOf_setNext, nextOf_setNext, splice_concat]
    have hinsert := h.insert ht hl hnext rfl rfl rfl
    rw [relink, if_neg (by simp), hsleep] at hinsert
    refine ⟨?_, ?_⟩
    · rw [hhead]
      exact ⟨_, hinsert⟩
    · rw [hhead, setSleeping_eq_self]
      exact ((Kept.refl s).setNext t _).setNext b _

end moves

def Task.core (x : Task) : Word × ℕ × ℕ := (x.tid, x.priority, x.basePriority)

end KernelSmp.Sched
