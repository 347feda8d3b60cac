import KernelSmp.Sched.Machine
import KernelSmp.Sched.RunQueueLists

/-! Where the machine keeps a task: in a list that is linked through `sched_next`, or in a local variable. -/

namespace KernelSmp.Sched

set_option linter.unusedSectionVars false

open Base Base.LinkedQueue Function List

/-- The lists beside the run queues. `toWake` is the list that an interrupt handler works off, `toClean` that of the
reaper. -/
inductive Other (K M : Type)
  | sleeping (c : K)
  | blocked
  | dead
  | wait (m : M)
  | toWake (c : K)
  | toClean (t : Word)
  deriving DecidableEq

/-- The local variables that hold a task which is on its way to a run queue, or from there to a CPU. -/
inductive Hand (K : Type)
  | cpu (c : K)
  | next (c : K)
  | task (t : Word)
  deriving DecidableEq

inductive Place (K M : Type)
  | nowhere
  | list (i : (K × Level) ⊕ Other K M)
  | hand (k : Hand K)
  deriving DecidableEq

def CpuPc.list {K : Type} : CpuPc K → Option Word
  | .wake _ list => list
  | .wakeOn _ _ _ rest => rest
  | _ => none

def CpuPc.hand {K : Type} : CpuPc K → Option Word
  | .wakeOn _ _ t _ => some t
  | .schedule (.enqueue t) => some t
  | _ => none

def CpuPc.next {K : Type} : CpuPc K → Option Word
  | .schedule (.switch t) => some t
  | _ => none

def TaskPc.list {K M : Type} : TaskPc K M → Option Word
  | .reaping list => list
  | _ => none

def TaskPc.hand {K M : Type} : TaskPc K M → Option Word
  | .waking t => some t
  | .enqueue _ t => some t
  | _ => none

section machine

variable {K M : Type} [DecidableEq K] [DecidableEq M] (s : Machine K M) (c : K) (t : Word) (p : CpuPc K) (q : TaskPc K M)

def Machine.others : Other K M → Option Word
  | .sleeping c => (s.sys.cpus c).sleepingList
  | .blocked => s.blockedTaskList
  | .dead => s.deadTaskList
  | .wait m => (s.mutexes m).waitList
  | .toWake c => (s.cpuPc c).list
  | .toClean t => (s.taskPc t).list

def Machine.hands : Hand K → Option Word
  | .cpu c => (s.cpuPc c).hand
  | .next c => (s.cpuPc c).next
  | .task t => (s.taskPc t).hand

lemma Machine.others_goto : (s.goto c p).others = update s.others (.toWake c) p.list := by
  funext j
  cases j with
  | toWake c' =>
    rcases eq_or_ne c' c with rfl | hc
    · simp [others, goto]
    · simp [others, goto, hc]
  | _ => simp [others, goto]

lemma Machine.hands_goto : (s.goto c p).hands = update (update s.hands (.cpu c) p.hand) (.next c) p.next := by
  funext k
  cases k with
  | task => simp [hands, goto]
  | cpu c' =>
    rcases eq_or_ne c' c with rfl | hc
    · simp [hands, goto]
    · simp [hands, goto, hc]
  | next c' =>
    rcases eq_or_ne c' c with rfl | hc
    · simp [hands, goto]
    · simp [hands, goto, hc]

lemma Machine.others_taskGoto : (s.taskGoto t q).others = update s.others (.toClean t) q.list := by
  funext j
  cases j with
  | toClean t' =>
    rcases eq_or_ne t' t with rfl | ht
    · simp [others, taskGoto]
    · simp [others, taskGoto, ht]
  | _ => simp [others, taskGoto]

lemma Machine.hands_taskGoto : (s.taskGoto t q).hands = update s.hands (.task t) q.hand := by
  funext k
  cases k with
  | task t' =>
    rcases eq_or_ne t' t with rfl | ht
    · simp [hands, taskGoto]
    · simp [hands, taskGoto, ht]
  | _ => simp [hands, taskGoto]

end machine

variable {K M : Type} [DecidableEq K] [DecidableEq M]

abbrev Family (K M : Type) := (K × Level) ⊕ Other K M → List Word

structure Rep (others : Other K M → Option Word) (hands : Hand K → Option Word) (s : Cpus K) (ls : Family K M)
    (place : Word → Place K M) : Prop where
  queues : Queues others s ls
  listed : ∀ i t, t ∈ ls i ↔ place t = .list i
  held : ∀ k t, hands k = some t ↔ place t = .hand k

section rep

variable {others others' : Other K M → Option Word} {hands hands' : Hand K → Option Word} {s s' : Cpus K} {ls ls' : Family K M}
  {place : Word → Place K M} {i : (K × Level) ⊕ Other K M} {j : Other K M} {k : Hand K} {t : Word} {q : Place K M}
  {l₁ l₂ : List Word}

lemma Rep.notMem (h : Rep others hands s ls place) (ht : ∀ i, place t ≠ .list i) (i : (K × Level) ⊕ Other K M) : t ∉ ls i :=
  fun hin => ht i ((h.listed i t).mp hin)

lemma Rep.move (h : Rep others hands s ls place) (hq : Queues others' s' ls')
    (hls : ∀ i u, u ∈ ls' i ↔ if u = t then q = .list i else u ∈ ls i)
    (hhands : ∀ k u, hands' k = some u ↔ if u = t then q = .hand k else hands k = some u) :
    Rep others' hands' s' ls' (update place t q) := by
  refine ⟨hq, fun i u => ?_, fun k u => ?_⟩
  · by_cases hu : u = t
    · simp [hls, hu]
    · simp [hls, hu, h.listed]
  · by_cases hu : u = t
    · simp [hhands, hu]
    · simp [hhands, hu, h.held]

section membership

lemma mem_insert (ht : ∀ j, t ∉ ls j) (hl : ls i = l₁ ++ l₂) (j : (K × Level) ⊕ Other K M) (u : Word) :
    u ∈ update ls i (l₁ ++ t :: l₂) j ↔ if u = t then (Place.list i : Place K M) = .list j else u ∈ ls j := by
  rcases eq_or_ne j i with rfl | hj
  · by_cases hu : u = t
    · simp [hu]
    · simp [hu, hl]
  · by_cases hu : u = t
    · simp [hu, hj, ht j, Ne.symm hj]
    · simp [hu, hj]

lemma mem_remove (hnodup : (ls i).Nodup) (hapart : ∀ j, t ∈ ls j → i = j) (hl : ls i = l₁ ++ t :: l₂) (hq : ∀ j, q ≠ .list j)
    (j : (K × Level) ⊕ Other K M) (u : Word) : u ∈ update ls i (l₁ ++ l₂) j ↔ if u = t then q = .list j else u ∈ ls j := by
  rw [hl, nodup_middle, nodup_cons] at hnodup
  rcases eq_or_ne j i with rfl | hj
  · by_cases hu : u = t
    · subst hu
      simpa [hq] using hnodup.1
    · simp [hu, hl]
  · rcases eq_or_ne u t with rfl | hu
    · simpa [hj, hq] using fun hin => hj (hapart j hin).symm
    · simp [hu, hj]

lemma hands_release (hk : ∀ u, hands k = some u ↔ place u = .hand k) (ht : place t = .hand k)
    (hother : ∀ k', hands k' = some t ↔ place t = .hand k') (hq : ∀ k, q ≠ .hand k) (k' : Hand K) (u : Word) :
    update hands k none k' = some u ↔ if u = t then q = .hand k' else hands k' = some u := by
  rcases eq_or_ne u t with rfl | hu
  · by_cases hkk : k' = k
    · simp [hkk, hq]
    · simpa [hkk, hq, hother, ht] using Ne.symm hkk
  · rcases eq_or_ne k' k with rfl | hkk
    · have hne : hands k' ≠ some u := by
        rw [(hk t).mpr ht]
        simpa using Ne.symm hu
      simp [hu, hne]
    · simp [hu, hkk]

lemma hands_hold (hk : hands k = none) (ht : ∀ k', hands k' ≠ some t) (k' : Hand K) (u : Word) :
    update hands k (some t) k' = some u ↔ if u = t then (Place.hand k : Place K M) = .hand k' else hands k' = some u := by
  rcases eq_or_ne u t with rfl | hu
  · by_cases hkk : k' = k
    · simp [hkk]
    · simpa [hkk, ht] using Ne.symm hkk
  · rcases eq_or_ne k' k with rfl | hkk
    · simp [hu, hk, Ne.symm hu]
    · simp [hu, hkk]

lemma hands_keep (ht : ∀ k, hands k ≠ some t) (hq : ∀ k, q ≠ .hand k) (k : Hand K) (u : Word) :
    hands k = some u ↔ if u = t then q = .hand k else hands k = some u := by
  rcases eq_or_ne u t with rfl | hu
  · simp [ht, hq]
  · simp [hu]

end membership

lemma Rep.insert (h : Rep others hands s ls place) (ht : place t = .nowhere) (hl : ls (.inr j) = l₁ ++ l₂)
    (hnext : nextOf s' = splice (Function.update (nextOf s) t l₂.head?) l₁ (some t))
    (hhead : headOf s' = headOf s) (htail : tailOf s' = tailOf s) (hcount : countOf s' = countOf s) :
    Rep (Function.update others j (relink l₁ (others j) (some t))) hands s' (Function.update ls (.inr j) (l₁ ++ t :: l₂))
      (Function.update place t (.list (.inr j))) := by
  have hnot : ∀ i, t ∉ ls i := h.notMem fun i => by simp [ht]
  refine h.move (h.queues.insert hnot hl hnext hhead htail hcount) (mem_insert hnot hl) (hands_keep (fun k hk => ?_) (by simp))
  simp [h.held, ht] at hk

lemma Rep.push (h : Rep others hands s ls place) (ht : place t = .nowhere)
    (hnext : nextOf s' = Function.update (nextOf s) t (others j))
    (hhead : headOf s' = headOf s) (htail : tailOf s' = tailOf s) (hcount : countOf s' = countOf s) :
    Rep (Function.update others j (some t)) hands s' (Function.update ls (.inr j) (t :: ls (.inr j)))
      (Function.update place t (.list (.inr j))) := by
  have hfirst : others j = (ls (.inr j)).head? := (h.queues.lists.chain (.inr j)).link_eq
  rw [hfirst] at hnext
  exact h.insert ht (nil_append _).symm hnext hhead htail hcount

lemma Rep.of_eq (h : Rep others hands s ls place) (hnext : nextOf s' = nextOf s) (hhead : headOf s' = headOf s)
    (htail : tailOf s' = tailOf s) (hcount : countOf s' = countOf s) : Rep others hands s' ls place :=
  ⟨h.queues.of_eq hnext hhead htail hcount, h.listed, h.held⟩

lemma Rep.loose (h : Rep others hands s ls place) (ht : ∀ i, place t ≠ .list i) (v : Option Word) :
    Rep others hands (s.setNext t v) ls place := by
  refine ⟨⟨?_, h.queues.tail, h.queues.count⟩, h.listed, h.held⟩
  rw [nextOf_setNext]
  exact h.queues.lists.loose (h.notMem ht) v

lemma Rep.free_hands (h : Rep others hands s ls place) (ht : place t = .list i) (k : Hand K) : hands k ≠ some t := by
  intro hk
  simp [h.held, ht] at hk

lemma Rep.first (h : Rep others hands s ls place) (ht : others j = some t) : place t = .list (.inr j) := by
  rw [← h.listed]
  have hchain : Chain (nextOf s) (others j) (ls (.inr j)) none := h.queues.lists.chain (.inr j)
  have hlink := hchain.link_eq
  rw [ht] at hlink
  exact List.mem_of_head? hlink.symm

lemma Rep.pop (h : Rep others hands s ls place) (ht : others j = some t) (hq : ∀ i, q ≠ .list i)
    (hhands : ∀ k u, hands' k = some u ↔ if u = t then q = .hand k else hands k = some u) : ∃ l, ls (.inr j) = t :: l ∧
    Rep (Function.update others j (nextOf s t)) hands' s (Function.update ls (.inr j) l) (Function.update place t q) := by
  obtain ⟨l, hl, hrest⟩ := h.queues.pop ht
  have hin : t ∈ ls (.inr j) := by rw [hl]; exact mem_cons_self
  exact ⟨l, hl, h.move hrest (mem_remove (h.queues.lists.nodup _) (fun i => h.queues.lists.apart _ i t hin)
    (hl.trans (nil_append _).symm) hq) hhands⟩

lemma Rep.take (h : Rep others hands s ls place) (ht : others j = some t) (hk : hands k = none) : ∃ ls',
    Rep (Function.update others j (nextOf s t)) (Function.update hands k (some t)) s ls'
      (Function.update place t (.hand k)) := by
  obtain ⟨_, -, hrest⟩ := h.pop ht (by simp) (hands_hold hk (h.free_hands (h.first ht)))
  exact ⟨_, hrest⟩

lemma Rep.lose (h : Rep others hands s ls place) (ht : others j = some t) : ∃ l, ls (.inr j) = t :: l ∧
    Rep (Function.update others j (nextOf s t)) hands s (Function.update ls (.inr j) l) (Function.update place t .nowhere) :=
  h.pop ht (by simp) (hands_keep (h.free_hands (h.first ht)) (by simp))

lemma Rep.hold (h : Rep others hands s ls place) (ht : place t = .nowhere) (hk : hands k = none) :
    Rep others (Function.update hands k (some t)) s ls (Function.update place t (.hand k)) := by
  have hnot : ∀ k, hands k ≠ some t := by
    intro k hk
    simp [h.held, ht] at hk
  refine h.move h.queues (fun i u => ?_) (hands_hold hk hnot)
  rcases eq_or_ne u t with rfl | hu
  · simpa using h.notMem (by simp [ht]) i
  · simp [hu]

lemma Rep.release (h : Rep others hands s ls place) (hk : hands k = some t) :
    Rep others (Function.update hands k none) s ls (Function.update place t .nowhere) := by
  have ht := (h.held k t).mp hk
  refine h.move h.queues (fun i u => ?_) (hands_release (h.held k) ht (fun k' => h.held k' t) (by simp))
  rcases eq_or_ne u t with rfl | hu
  · simpa using h.notMem (by simp [ht]) i
  · simp [hu]

lemma Rep.enqueue (h : Rep others hands s ls place) (hk : hands k = some t) (c : K) :
    ∃ ls', Rep others (Function.update hands k none) (enqueueTask s c t) ls'
      (Function.update place t (.list (.inl (c, levelOf (s.tasks t).basePriority)))) := by
  have ht := (h.held k t).mp hk
  have hnot := h.notMem (t := t) (by simp [ht])
  exact ⟨_, h.move (h.queues.enqueueTask hnot rfl) (mem_insert hnot (append_nil _).symm)
    (hands_release (h.held k) ht (fun k' => h.held k' t) (by simp))⟩

lemma Rep.takeQueue (h : Rep others hands s ls place) {c : K} {p : Level} (hl : ls (.inl (c, p)) = l₁ ++ t :: l₂)
    (hq : Queues others s' (Function.update ls (.inl (c, p)) (l₁ ++ l₂))) (hk : hands k = none) :
    place t = .list (.inl (c, p)) ∧
      Rep others (Function.update hands k (some t)) s' (Function.update ls (.inl (c, p)) (l₁ ++ l₂))
        (Function.update place t (.hand k)) := by
  have hin : t ∈ ls (.inl (c, p)) := by rw [hl]; exact mem_append_right l₁ mem_cons_self
  have ht := (h.listed _ t).mp hin
  exact ⟨ht, h.move hq (mem_remove (h.queues.lists.nodup _) (fun i => h.queues.lists.apart _ i t hin) hl (by simp))
    (hands_hold hk (h.free_hands ht))⟩

def redirect (i i' : (K × Level) ⊕ Other K M) (q : Place K M) : Place K M := if q = .list i then .list i' else q

lemma Rep.redirect {i' : (K × Level) ⊕ Other K M} (h : Rep others hands s ls place) (hne : i ≠ i')
    (hq : Queues others' s' (Function.update (Function.update ls i []) i' (ls i' ++ ls i))) :
    Rep others' hands s' (Function.update (Function.update ls i []) i' (ls i' ++ ls i)) fun u => redirect i i' (place u) := by
  refine ⟨hq, fun j u => ?_, fun k u => ?_⟩
  · rw [Sched.redirect]
    rcases eq_or_ne j i' with rfl | hj
    · by_cases hu : place u = .list i
      · simp [hu, h.listed]
      · simp [hu, h.listed]
    · rcases eq_or_ne j i with rfl | hji
      · by_cases hu : place u = .list j
        · simpa [hu, hj] using Ne.symm hj
        · simp [hu, hj]
      · by_cases hu : place u = .list i
        · simpa [hu, hj, hji, h.listed, Ne.symm hji] using Ne.symm hj
        · simp [hu, hj, hji, h.listed]
  · rw [h.held, Sched.redirect]
    by_cases hu : place u = .list i
    · simp [hu]
    · simp [hu]

lemma Rep.handOver {j' : Other K M} (h : Rep others hands s ls place) (hne : j ≠ j') (hnone : others j' = none) :
    ∃ ls', Rep (Function.update (Function.update others j none) j' (others j)) hands s ls' fun u =>
      Sched.redirect (.inr j) (.inr j') (place u) := by
  have hij : (Sum.inr j' : (K × Level) ⊕ Other K M) ≠ .inr j := by simpa using hne.symm
  have hchain := h.queues.lists.chain (.inr j')
  have hempty := hchain.eq_nil_iff.mpr hnone
  have hjoin := h.queues.lists.join hij
  refine ⟨_, h.redirect hij.symm ⟨?_, fun i => ?_, fun i => ?_⟩⟩
  · rw [hempty, splice_nil, relink, if_pos rfl] at hjoin
    rwa [hempty, ← Sum.update_elim_inr, ← Sum.update_elim_inr]
  · rw [update_of_ne (by simp), update_of_ne (by simp)]
    exact h.queues.tail i
  · rw [update_of_ne (by simp), update_of_ne (by simp)]
    exact h.queues.count i

end rep

end KernelSmp.Sched
