import KernelSmp.Base.LinkedQueue
import KernelSmp.Sched.RunQueue

/-! The run queues as lists of tasks. -/

namespace KernelSmp.Sched

open Base Base.LinkedQueue Function List BitVec

variable {K : Type} [DecidableEq K]

def nextOf (s : Cpus K) (t : Word) : Option Word := (s.tasks t).schedNext
def headOf (s : Cpus K) (i : K × Level) : Option Word := (s.cpus i.1).rqHead i.2
def tailOf (s : Cpus K) (i : K × Level) : Option Word := (s.cpus i.1).rqTail i.2
def countOf (s : Cpus K) (i : K × Level) : BitVec 32 := (s.cpus i.1).rqCount i.2

section setters

variable (s : Cpus K) (c : K) (p : Level) (t : Word) (v : Option Word) (f : BitVec 32 → BitVec 32)

omit [DecidableEq K] in
@[simp] lemma nextOf_setNext : nextOf (s.setNext t v) = update (nextOf s) t v := by
  funext u
  by_cases hu : u = t
  · subst hu
    simp [nextOf, Cpus.setNext, Cpus.onTask]
  · simp [nextOf, Cpus.setNext, Cpus.onTask, update_of_ne hu]

lemma onCpu_apply {β : Type} (field : CpuContext → Level → β) (f : CpuContext → CpuContext) (x : β)
    (hf : field (f (s.cpus c)) = update (field (s.cpus c)) p x) :
    (fun i : K × Level => field ((s.onCpu c f).cpus i.1) i.2) = update (fun i => field (s.cpus i.1) i.2) (c, p) x := by
  funext ⟨c', p'⟩
  rcases eq_or_ne c' c with rfl | hc
  · by_cases hp : p' = p
    · subst hp
      simp [Cpus.onCpu, hf]
    · simp [Cpus.onCpu, hf, hp]
  · simp [Cpus.onCpu, hc]

lemma onCpu_same {β : Type} (field : CpuContext → Level → β) (f : CpuContext → CpuContext)
    (hf : field (f (s.cpus c)) = field (s.cpus c)) :
    (fun i : K × Level => field ((s.onCpu c f).cpus i.1) i.2) = fun i => field (s.cpus i.1) i.2 := by
  funext ⟨c', p'⟩
  rcases eq_or_ne c' c with rfl | hc
  · simp [Cpus.onCpu, hf]
  · simp [Cpus.onCpu, update_of_ne hc]

@[simp] lemma headOf_setHead : headOf (s.setHead c p v) = update (headOf s) (c, p) v :=
  onCpu_apply s c p CpuContext.rqHead _ v rfl
@[simp] lemma tailOf_setHead : tailOf (s.setHead c p v) = tailOf s := onCpu_same s c CpuContext.rqTail _ rfl
@[simp] lemma countOf_setHead : countOf (s.setHead c p v) = countOf s := onCpu_same s c CpuContext.rqCount _ rfl

@[simp] lemma headOf_setTail : headOf (s.setTail c p v) = headOf s := onCpu_same s c CpuContext.rqHead _ rfl
@[simp] lemma tailOf_setTail : tailOf (s.setTail c p v) = update (tailOf s) (c, p) v :=
  onCpu_apply s c p CpuContext.rqTail _ v rfl
@[simp] lemma countOf_setTail : countOf (s.setTail c p v) = countOf s := onCpu_same s c CpuContext.rqCount _ rfl

@[simp] lemma headOf_onCount : headOf (s.onCount c p f) = headOf s := onCpu_same s c CpuContext.rqHead _ rfl
@[simp] lemma tailOf_onCount : tailOf (s.onCount c p f) = tailOf s := onCpu_same s c CpuContext.rqTail _ rfl
@[simp] lemma countOf_onCount : countOf (s.onCount c p f) = update (countOf s) (c, p) (f (countOf s (c, p))) :=
  onCpu_apply s c p CpuContext.rqCount _ _ rfl

@[simp] lemma headOf_onQuanta : headOf (s.onQuanta c p f) = headOf s := onCpu_same s c CpuContext.rqHead _ rfl
@[simp] lemma tailOf_onQuanta : tailOf (s.onQuanta c p f) = tailOf s := onCpu_same s c CpuContext.rqTail _ rfl
@[simp] lemma countOf_onQuanta : countOf (s.onQuanta c p f) = countOf s := onCpu_same s c CpuContext.rqCount _ rfl

omit [DecidableEq K] in
@[simp] lemma headOf_setNext : headOf (s.setNext t v) = headOf s := rfl
omit [DecidableEq K] in
@[simp] lemma tailOf_setNext : tailOf (s.setNext t v) = tailOf s := rfl
omit [DecidableEq K] in
@[simp] lemma countOf_setNext : countOf (s.setNext t v) = countOf s := rfl

omit [DecidableEq K] in
lemma nextOf_onTask {g : Task → Task} (hg : ∀ x, (g x).schedNext = x.schedNext) : nextOf (s.onTask t g) = nextOf s := by
  funext u
  rcases eq_or_ne u t with rfl | hu
  · simp [nextOf, Cpus.onTask, hg]
  · simp [nextOf, Cpus.onTask, update_of_ne hu]

omit [DecidableEq K] in
@[simp] lemma nextOf_setPriority (n : ℕ) : nextOf (s.setPriority t n) = nextOf s := nextOf_onTask s t fun _ => rfl
omit [DecidableEq K] in
@[simp] lemma nextOf_setCpuId (n : Word) : nextOf (s.setCpuId t n) = nextOf s := nextOf_onTask s t fun _ => rfl
@[simp] lemma nextOf_setHead : nextOf (s.setHead c p v) = nextOf s := rfl
@[simp] lemma nextOf_setTail : nextOf (s.setTail c p v) = nextOf s := rfl
@[simp] lemma nextOf_onCount : nextOf (s.onCount c p f) = nextOf s := rfl
@[simp] lemma nextOf_onQuanta : nextOf (s.onQuanta c p f) = nextOf s := rfl

end setters

structure Queues {J : Type} (others : J → Option Word) (s : Cpus K) (ls : (K × Level) ⊕ J → List Word) : Prop where
  lists : Lists (nextOf s) (Sum.elim (headOf s) others) ls
  tail : ∀ i, tailOf s i = (ls (.inl i)).getLast?
  count : ∀ i, countOf s i = BitVec.ofNat 32 (ls (.inl i)).length

section functions

variable {J : Type} [DecidableEq J] {others : J → Option Word} {s s' : Cpus K} {ls : (K × Level) ⊕ J → List Word} {c : K}
  {p : Level} {t : Word} {l l₁ l₂ : List Word}

omit [DecidableEq K] [DecidableEq J] in
lemma Queues.of_eq (h : Queues others s ls) (hnext : nextOf s' = nextOf s) (hhead : headOf s' = headOf s)
    (htail : tailOf s' = tailOf s) (hcount : countOf s' = countOf s) : Queues others s' ls := by
  refine ⟨?_, fun i => ?_, fun i => ?_⟩
  · rw [hnext, hhead]
    exact h.lists
  · rw [htail]
    exact h.tail i
  · rw [hcount]
    exact h.count i

lemma Queues.update {head : Option Word} (h : Queues others s ls) (next : Word → Option Word)
    (hlists : Lists next (update (Sum.elim (headOf s) others) (.inl (c, p)) head) (update ls (.inl (c, p)) l))
    (hnext : nextOf s' = next) (hhead : headOf s' = Function.update (headOf s) (c, p) head)
    (htail : tailOf s' = Function.update (tailOf s) (c, p) l.getLast?)
    (hcount : countOf s' = Function.update (countOf s) (c, p) (BitVec.ofNat 32 l.length)) :
    Queues others s' (Function.update ls (.inl (c, p)) l) := by
  refine ⟨?_, fun i => ?_, fun i => ?_⟩
  · rwa [hnext, hhead, ← Sum.update_elim_inl]
  · rw [htail]
    by_cases hi : i = (c, p)
    · rw [hi, update_self, update_self]
    · rw [update_of_ne hi, update_of_ne (by simpa using hi)]
      exact h.tail i
  · rw [hcount]
    by_cases hi : i = (c, p)
    · rw [hi, update_self, update_self]
    · rw [update_of_ne hi, update_of_ne (by simpa using hi)]
      exact h.count i

lemma Queues.other (h : Queues others s ls) {j : J} {head : Option Word}
    (hlists : Lists (nextOf s') (Function.update (Sum.elim (headOf s) others) (.inr j) head) (Function.update ls (.inr j) l))
    (hhead : headOf s' = headOf s) (htail : tailOf s' = tailOf s) (hcount : countOf s' = countOf s) :
    Queues (Function.update others j head) s' (Function.update ls (.inr j) l) := by
  refine ⟨?_, fun i => ?_, fun i => ?_⟩
  · rwa [hhead, ← Sum.update_elim_inr]
  · rw [htail, update_of_ne (by simp)]
    exact h.tail i
  · rw [hcount, update_of_ne (by simp)]
    exact h.count i

lemma Queues.insert (h : Queues others s ls) {j : J} (ht : ∀ i, t ∉ ls i) (hl : ls (.inr j) = l₁ ++ l₂)
    (hnext : nextOf s' = splice (Function.update (nextOf s) t l₂.head?) l₁ (some t))
    (hhead : headOf s' = headOf s) (htail : tailOf s' = tailOf s) (hcount : countOf s' = countOf s) :
    Queues (Function.update others j (relink l₁ (others j) (some t))) s' (Function.update ls (.inr j) (l₁ ++ t :: l₂)) := by
  refine h.other ?_ hhead htail hcount
  rw [hnext]
  exact h.lists.insert ht hl

lemma Queues.pop (h : Queues others s ls) {j : J} (ht : others j = some t) :
    ∃ l, ls (.inr j) = t :: l ∧ Queues (Function.update others j (nextOf s t)) s (Function.update ls (.inr j) l) := by
  have hfirst : Sum.elim (headOf s) others (.inr j) = some t := ht
  obtain ⟨l, hl, hlists⟩ := h.lists.pop hfirst
  exact ⟨l, hl, h.other hlists rfl rfl rfl⟩

lemma nextOf_linkFrom (l : List Word) (v : Option Word) : nextOf (s.linkFrom c p l.getLast? v) = splice (nextOf s) l v := by
  rw [splice]
  cases l.getLast? with
  | none => rfl
  | some b => exact nextOf_setNext s b v

lemma headOf_linkFrom (l : List Word) (v : Option Word) :
    headOf (s.linkFrom c p l.getLast? v) = update (headOf s) (c, p) (relink l (headOf s (c, p)) v) := by
  rw [relink]
  induction l using List.reverseRecOn with
  | nil => exact headOf_setHead s c p v
  | append_singleton => simp [Cpus.linkFrom]

@[simp] lemma tailOf_linkFrom (prev v : Option Word) : tailOf (s.linkFrom c p prev v) = tailOf s := by
  cases prev with
  | none => exact tailOf_setHead s c p v
  | some => rfl

@[simp] lemma countOf_linkFrom (prev v : Option Word) : countOf (s.linkFrom c p prev v) = countOf s := by
  cases prev with
  | none => exact countOf_setHead s c p v
  | some => rfl

omit [DecidableEq K] [DecidableEq J] in
lemma Queues.setCpuId (h : Queues others s ls) (t n : Word) : Queues others (s.setCpuId t n) ls :=
  h.of_eq (nextOf_setCpuId s t n) rfl rfl rfl

lemma Queues.attach {next : Word → Option Word} {v w : Option Word} {f : BitVec 32 → BitVec 32} (h : Queues others s ls)
    (hlists : Lists (splice next (ls (.inl (c, p))) v)
      (Function.update (Sum.elim (headOf s) others) (.inl (c, p)) (relink (ls (.inl (c, p))) (headOf s (c, p)) v))
      (Function.update ls (.inl (c, p)) l))
    (hnext : nextOf s' = next) (hhead : headOf s' = headOf s) (htail : tailOf s' = tailOf s) (hcount : countOf s' = countOf s)
    (hw : w = l.getLast?) (hf : f (countOf s (c, p)) = BitVec.ofNat 32 l.length) :
    Queues others (((s'.linkFrom c p ((s'.cpus c).rqTail p) v).setTail c p w).onCount c p f)
      (Function.update ls (.inl (c, p)) l) := by
  have hlast : (s'.cpus c).rqTail p = (ls (.inl (c, p))).getLast? := (congrFun htail (c, p)).trans (h.tail (c, p))
  rw [hlast]
  refine h.update _ hlists ?_ ?_ ?_ ?_
  · rw [nextOf_onCount, nextOf_setTail, nextOf_linkFrom, hnext]
  · rw [headOf_onCount, headOf_setTail, headOf_linkFrom, hhead]
  · rw [tailOf_onCount, tailOf_setTail, tailOf_linkFrom, htail, hw]
  · rw [countOf_onCount, countOf_setTail, countOf_linkFrom, hcount, hf]

lemma Queues.enqueueTask (h : Queues others s ls) (ht : ∀ i, t ∉ ls i) (hp : p = levelOf (s.tasks t).basePriority) :
    Queues others (enqueueTask s c t) (Function.update ls (.inl (c, p)) (ls (.inl (c, p)) ++ [t])) := by
  have hlevel : levelOf ((s.setPriority t (s.tasks t).basePriority).tasks t).priority = p := by
    simp [Cpus.setPriority, Cpus.onTask, hp]
  have hnext : nextOf (((s.setPriority t (s.tasks t).basePriority).onQuanta c p fun _ => 0).setNext t none) =
      Function.update (nextOf s) t none := by
    rw [nextOf_setNext, nextOf_onQuanta, nextOf_setPriority]
  have happend := h.attach (h.lists.insert ht (append_nil (ls (.inl (c, p)))).symm) hnext (f := (· + 1))
    ((headOf_setNext _ t none).trans (headOf_onQuanta (s.setPriority t _) c p _))
    ((tailOf_setNext _ t none).trans (tailOf_onQuanta (s.setPriority t _) c p _))
    ((countOf_setNext _ t none).trans (countOf_onQuanta (s.setPriority t _) c p _)) List.getLast?_concat.symm (by
      rw [h.count, length_append, length_singleton, ofNat_add]
      rfl)
  rw [Sched.enqueueTask]
  simp only [hlevel]
  split
  · exact happend.setCpuId t _
  · exact happend

omit [DecidableEq J] in
lemma headOf_takeFirst (s : Cpus K) (c : K) (p : Level) (t : Word) :
    headOf (takeFirst s c p t) = update (headOf s) (c, p) (nextOf s t) := by
  rw [takeFirst]
  simp only [headOf_onQuanta, headOf_onCount]
  split
  · rw [headOf_setTail, headOf_setHead]
    rfl
  · rw [headOf_setHead]
    rfl

lemma tailOf_takeFirst (s : Cpus K) (c : K) (p : Level) (t : Word) :
    tailOf (takeFirst s c p t) = update (tailOf s) (c, p) (if nextOf s t = none then none else tailOf s (c, p)) := by
  have hhead : ((s.setHead c p (s.tasks t).schedNext).cpus c).rqHead p = nextOf s t := by
    simp [Cpus.setHead, Cpus.onCpu, nextOf]
  rw [takeFirst]
  simp only [tailOf_onQuanta, tailOf_onCount, hhead]
  split
  · rw [tailOf_setTail, tailOf_setHead]
  · rw [tailOf_setHead, update_eq_self]

lemma countOf_takeFirst (s : Cpus K) (c : K) (p : Level) (t : Word) :
    countOf (takeFirst s c p t) = update (countOf s) (c, p) (countOf s (c, p) - 1) := by
  rw [takeFirst]
  simp only [countOf_onQuanta]
  split
  · simp
  · simp

lemma Queues.takeFirst (h : Queues others s ls) (ht : headOf s (c, p) = some t) :
    ∃ l, ls (.inl (c, p)) = t :: l ∧ Queues others (takeFirst s c p t) (Function.update ls (.inl (c, p)) l) := by
  have hhead : Sum.elim (headOf s) others (.inl (c, p)) = some t := ht
  obtain ⟨l, hl, hlists⟩ := h.lists.pop hhead
  refine ⟨l, hl, ?_⟩
  have hrest : nextOf s t = none ↔ l = [] := by
    have hchain := hlists.chain (.inl (c, p))
    rw [update_self, update_self] at hchain
    exact hchain.eq_nil_iff.symm
  refine h.update _ hlists ?_ (headOf_takeFirst s c p t) ?_ ?_
  · rw [Sched.takeFirst]
    simp only [nextOf_onQuanta]
    split
    · rfl
    · rfl
  · rw [tailOf_takeFirst, h.tail, hl]
    cases l with
    | nil => rw [if_pos (hrest.mpr rfl), List.getLast?_nil]
    | cons u l => rw [if_neg (fun hnone => cons_ne_nil u l (hrest.mp hnone)), List.getLast?_cons_cons]
  · rw [countOf_takeFirst, h.count, hl, length_cons, ofNat_add]
    congr 1
    exact BitVec.add_sub_cancel _ _

omit [DecidableEq K] [DecidableEq J] in
lemma headOf_eq_none (h : Queues others s ls) (i : K × Level) : headOf s i = none ↔ ls (.inl i) = [] :=
  (h.lists.chain (.inl i)).eq_nil_iff.symm

inductive Dequeues (ls : (K × Level) ⊕ J → List Word) (c : K) : Option Word → ((K × Level) ⊕ J → List Word) → Prop
  | empty (hempty : ∀ p ∈ levels, ls (.inl (c, p)) = []) : Dequeues ls c none ls
  | first (p : Level) (t : Word) (l : List Word) (hp : p ∈ levels) (hl : ls (.inl (c, p)) = t :: l) :
      Dequeues ls c (some t) (Function.update ls (.inl (c, p)) l)

omit [DecidableEq K] [DecidableEq J] in
lemma workBelow_iff (h : Queues others s ls) : workBelow (s.cpus c) p = true ↔ ∃ low ∈ levels, p < low ∧
    ls (.inl (c, low)) ≠ [] := by
  rw [workBelow, any_eq_true]
  simp only [Bool.and_eq_true, decide_eq_true_eq]
  refine exists_congr fun low => and_congr_right fun _ => and_congr_right fun _ => ?_
  rw [Option.isSome_iff_ne_none, ne_eq, ne_eq, ← headOf_eq_none h]
  rfl

lemma mem_of_below {ps : List Level} {low : Level} (hps : p :: ps <:+ levels) (hlow : low ∈ levels) (hlt : p < low) :
    low ∈ ps := by
  obtain ⟨pre, hpre⟩ := hps
  have hsorted : (pre ++ p :: ps).Pairwise (· < ·) := by
    rw [hpre]
    decide
  rw [← hpre, mem_append, mem_cons] at hlow
  rcases hlow with hin | rfl | hin
  · exact absurd ((pairwise_append.mp hsorted).2.2 low hin p mem_cons_self) (not_lt.mpr hlt.le)
  · exact absurd hlt (lt_irrefl _)
  · exact hin

lemma dequeueLoop_cases {ps : List Level} (h : Queues others s ls) (hps : ps <:+ levels) :
    (∃ s', dequeueLoop c ps s = (none, s') ∧ Queues others s' ls ∧ ∀ p ∈ ps, ls (.inl (c, p)) = []) ∨
    ∃ p ∈ ps, ∃ t l s', dequeueLoop c ps s = (some t, s') ∧ ls (.inl (c, p)) = t :: l ∧
      Queues others s' (Function.update ls (.inl (c, p)) l) := by
  induction ps generalizing s with
  | nil => exact .inl ⟨s, rfl, h, forall_mem_nil _⟩
  | cons p ps ih =>
    have hreset : Queues others (s.onQuanta c p fun _ => 0) ls :=
      h.of_eq rfl (headOf_onQuanta s c p _) (tailOf_onQuanta s c p _) (countOf_onQuanta s c p _)
    have hskip := ih hreset ((suffix_cons p ps).trans hps)
    have htake : ∀ {u : Cpus K} {t : Word}, Queues others u ls → headOf u (c, p) = some t →
        ∃ p' ∈ p :: ps, ∃ t' l s', (some t, takeFirst u c p t) = (some t', s') ∧ ls (.inl (c, p')) = t' :: l ∧
          Queues others s' (Function.update ls (.inl (c, p')) l) := by
      intro u t hu ht
      obtain ⟨l, hl, hrest⟩ := hu.takeFirst ht
      exact ⟨p, mem_cons_self, t, l, _, rfl, hl, hrest⟩
    rw [dequeueLoop]
    split
    · rename_i hnone
      rcases hskip with ⟨s', hs', hq, hempty⟩ | ⟨p', hp', hrest⟩
      · exact .inl ⟨s', hs', hq, forall_mem_cons.mpr ⟨(headOf_eq_none h (c, p)).mp hnone, hempty⟩⟩
      · exact .inr ⟨p', mem_cons_of_mem p hp', hrest⟩
    · rename_i t ht
      split
      · split_ifs with hbelow
        · -- some level further down is not empty, so the walk does not end with nothing
          obtain ⟨low, hlow, hlt, hwork⟩ := (workBelow_iff h).mp hbelow
          rcases hskip with ⟨_, -, -, hempty⟩ | ⟨p', hp', hrest⟩
          · exact absurd (hempty low (mem_of_below hps hlow hlt)) hwork
          · exact .inr ⟨p', mem_cons_of_mem p hp', hrest⟩
        · exact .inr (htake hreset (by rw [headOf_onQuanta]; exact ht))
      · exact .inr (htake h ht)

lemma Queues.dequeueTask (h : Queues others s ls) : ∃ r s' ls', dequeueTask s c = (r, s') ∧ Dequeues ls c r ls' ∧
    Queues others s' ls' := by
  rcases dequeueLoop_cases h (suffix_refl levels) with ⟨s', hs', hq, hempty⟩ | ⟨p, hp, t, l, s', hs', hl, hq⟩
  · exact ⟨none, s', ls, hs', .empty hempty, hq⟩
  · exact ⟨some t, s', _, hs', .first p t l hp hl, hq⟩

omit [DecidableEq K] in
lemma findMigratable_cases {fuel : ℕ} {link : Option Word} (prev : Option Word) (h : Chain (nextOf s) link l none)
    (hfuel : l.length < fuel) :
    findMigratable s.tasks fuel prev link = some none ∧ (∀ u ∈ l, ¬ (s.tasks u).tid ≥ 10) ∨
    ∃ l₁ t l₂, l = l₁ ++ t :: l₂ ∧ (∀ u ∈ l₁, ¬ (s.tasks u).tid ≥ 10) ∧ (s.tasks t).tid ≥ 10 ∧
      findMigratable s.tasks fuel prev link = some (some (l₁.getLast?.or prev, t)) := by
  induction l generalizing fuel prev link with
  | nil =>
    obtain rfl : link = none := h
    cases fuel with
    | zero => cases hfuel
    | succ => exact .inl ⟨rfl, forall_mem_nil _⟩
  | cons a l ih =>
    obtain ⟨rfl, hrest⟩ := h
    cases fuel with
    | zero => cases hfuel
    | succ =>
      rw [findMigratable]
      split_ifs with hbig
      · exact .inr ⟨[], a, l, rfl, forall_mem_nil _, hbig, rfl⟩
      · rcases ih (some a) hrest (Nat.lt_of_succ_lt_succ hfuel) with ⟨hfind, hl⟩ | ⟨l₁, t, l₂, rfl, hl₁, ht, hfind⟩
        · exact .inl ⟨hfind, forall_mem_cons.mpr ⟨hbig, hl⟩⟩
        · refine .inr ⟨a :: l₁, t, l₂, rfl, forall_mem_cons.mpr ⟨hbig, hl₁⟩, ht, hfind.trans ?_⟩
          rw [List.getLast?_cons]
          cases l₁.getLast? with
          | none => rfl
          | some => rfl

lemma getLast?_without (hnodup : (l₁ ++ t :: l₂).Nodup) :
    (if (l₁ ++ t :: l₂).getLast? = some t then l₁.getLast? else (l₁ ++ t :: l₂).getLast?) = (l₁ ++ l₂).getLast? := by
  induction l₂ using List.reverseRecOn with
  | nil => rw [List.getLast?_concat, if_pos rfl, append_nil]
  | append_singleton l₂ b =>
    have hne : b ≠ t := by
      rintro rfl
      rw [nodup_middle, nodup_cons] at hnodup
      exact hnodup.1 (by simp)
    rw [← List.cons_append, ← List.append_assoc, ← List.append_assoc, List.getLast?_concat, List.getLast?_concat,
      if_neg (by simpa using hne)]

lemma Queues.takeOut (h : Queues others s ls) (hl : ls (.inl (c, p)) = l₁ ++ t :: l₂) :
    Queues others (takeOut s c p l₁.getLast? t) (Function.update ls (.inl (c, p)) (l₁ ++ l₂)) := by
  have hnodup := hl ▸ h.lists.nodup (.inl (c, p))
  have hgone : ∀ i, t ∉ Function.update ls (.inl (c, p)) (l₁ ++ l₂) i := by
    intro i hi
    by_cases hip : i = .inl (c, p)
    · rw [hip, update_self] at hi
      rw [nodup_middle, nodup_cons] at hnodup
      exact hnodup.1 hi
    · rw [update_of_ne hip] at hi
      exact hip (h.lists.apart i (.inl (c, p)) t hi (by rw [hl]; exact mem_append_right l₁ mem_cons_self))
  have htail : ((s.linkFrom c p l₁.getLast? (s.tasks t).schedNext).cpus c).rqTail p = (l₁ ++ t :: l₂).getLast? := by
    rw [← hl, ← h.tail]
    exact congrFun (tailOf_linkFrom l₁.getLast? (s.tasks t).schedNext) (c, p)
  rw [Sched.takeOut]
  simp only [htail]
  refine h.update _ ((h.lists.remove hl).loose hgone none) ?_ ?_ ?_ ?_
  · rw [nextOf_setNext, nextOf_onCount]
    split
    · rw [nextOf_setTail, nextOf_linkFrom]
      rfl
    · rw [nextOf_linkFrom]
      rfl
  · rw [headOf_setNext, headOf_onCount]
    split
    · rw [headOf_setTail, headOf_linkFrom]
      rfl
    · rw [headOf_linkFrom]
      rfl
  · rw [tailOf_setNext, tailOf_onCount, ← getLast?_without hnodup]
    split
    · rw [tailOf_setTail, tailOf_linkFrom]
    · rw [tailOf_linkFrom, ← hl, ← h.tail, update_eq_self]
  · have hcount : countOf s (c, p) - 1 = BitVec.ofNat 32 (l₁ ++ l₂).length := by
      rw [h.count, hl, length_append, length_cons, ← Nat.add_assoc, ofNat_add, ← length_append]
      exact BitVec.add_sub_cancel _ _
    rw [countOf_setNext, countOf_onCount, ← hcount]
    split
    · rw [countOf_setTail, countOf_linkFrom]
    · rw [countOf_linkFrom]

inductive Steals (tid : Word → Word) (ls : (K × Level) ⊕ J → List Word) (c : K) :
    Option Word → ((K × Level) ⊕ J → List Word) → Prop
  | nothing (hnone : ∀ p ∈ levels, ∀ u ∈ ls (.inl (c, p)), ¬ tid u ≥ 10) : Steals tid ls c none ls
  | middle (p : Level) (t : Word) (l₁ l₂ : List Word) (hp : p ∈ levels) (hl : ls (.inl (c, p)) = l₁ ++ t :: l₂)
      (ht : tid t ≥ 10) (hbefore : ∀ u ∈ l₁, ¬ tid u ≥ 10) :
      Steals tid ls c (some t) (Function.update ls (.inl (c, p)) (l₁ ++ l₂))

omit [DecidableEq J] in
lemma stealLoop_cases (h : Queues others s ls) (ps : List Level) :
    (stealLoop s c ps = some (none, s) ∧ ∀ p ∈ ps, ∀ u ∈ ls (.inl (c, p)), ¬ (s.tasks u).tid ≥ 10) ∨
    ∃ p ∈ ps, ∃ l₁ t l₂, ls (.inl (c, p)) = l₁ ++ t :: l₂ ∧ (s.tasks t).tid ≥ 10 ∧ (∀ u ∈ l₁, ¬ (s.tasks u).tid ≥ 10) ∧
      stealLoop s c ps = some (some t, takeOut s c p l₁.getLast? t) := by
  induction ps with
  | nil => exact .inl ⟨rfl, forall_mem_nil _⟩
  | cons p ps ih =>
    have hfuel := Nat.lt_succ_of_le (Word.length_le_of_nodup (h.lists.nodup (.inl (c, p))))
    rw [stealLoop]
    rcases findMigratable_cases none (h.lists.chain (.inl (c, p))) hfuel with ⟨hfind, hnone⟩ | ⟨l₁, t, l₂, hl, hl₁, ht, hfind⟩
    · rw [show findMigratable s.tasks walkFuel none ((s.cpus c).rqHead p) = some none from hfind]
      rcases ih with ⟨hloop, hrest⟩ | ⟨p', hp', hrest⟩
      · exact .inl ⟨hloop, forall_mem_cons.mpr ⟨hnone, hrest⟩⟩
      · exact .inr ⟨p', mem_cons_of_mem p hp', hrest⟩
    · rw [show findMigratable s.tasks walkFuel none ((s.cpus c).rqHead p) = some (some (l₁.getLast?.or none, t)) from hfind,
        Option.or_none]
      exact .inr ⟨p, mem_cons_self, l₁, t, l₂, hl, ht, hl₁, rfl⟩

lemma Queues.stealLoop (h : Queues others s ls) : ∃ r s' ls', stealLoop s c levels = some (r, s') ∧
    Steals (fun u => (s.tasks u).tid) ls c r ls' ∧ Queues others s' ls' := by
  rcases stealLoop_cases h levels with ⟨hloop, hnone⟩ | ⟨p, hp, l₁, t, l₂, hl, ht, hbefore, hloop⟩
  · exact ⟨none, s, ls, hloop, .nothing hnone, h⟩
  · exact ⟨some t, _, _, hloop, .middle p t l₁ l₂ hp hl ht hbefore, h.takeOut hl⟩

def moveUp (ls : (K × Level) ⊕ J → List Word) (c : K) (p below : Level) : (K × Level) ⊕ J → List Word :=
  Function.update (Function.update ls (.inl (c, below)) []) (.inl (c, p)) (ls (.inl (c, p)) ++ ls (.inl (c, below)))

lemma moveUp_empty {below : Level} (h : ls (.inl (c, below)) = []) : moveUp ls c p below = ls := by
  rw [moveUp, h, append_nil]
  nth_rewrite 1 [← h]
  rw [update_eq_self, update_eq_self]

lemma moved_field {β : Type} {g : K × Level → β} {F : List Word → β} {below : Level} {x : β} (hne : p ≠ below)
    (hg : ∀ i, g i = F (ls (.inl i))) (hx : x = F (ls (.inl (c, p)) ++ ls (.inl (c, below)))) (i : K × Level) :
    Function.update (Function.update g (c, p) x) (c, below) (F []) i = F (moveUp ls c p below (.inl i)) := by
  rw [moveUp]
  by_cases hbelow : i = (c, below)
  · rw [hbelow, update_self, update_of_ne (by simpa using hne.symm), update_self]
  rw [update_of_ne hbelow]
  by_cases hp : i = (c, p)
  · rw [hp, update_self, update_self, hx]
  · rw [update_of_ne hp, update_of_ne (by simpa using hp), update_of_ne (by simpa using hbelow), hg]

lemma Queues.boostLevel {below : Level} (h : Queues others s ls) (hne : p ≠ below) :
    Queues others (boostLevel s c p below) (moveUp ls c p below) := by
  rw [Sched.boostLevel]
  split
  · rename_i hnone
    rwa [moveUp_empty ((headOf_eq_none h (c, below)).mp hnone)]
  rename_i hsome
  have hij : (Sum.inl (c, p) : (K × Level) ⊕ J) ≠ .inl (c, below) := by simpa using hne
  have hlast : (s.cpus c).rqTail p = (ls (.inl (c, p))).getLast? := h.tail (c, p)
  have hwork : ls (.inl (c, below)) ≠ [] := fun hempty => hsome ((headOf_eq_none h (c, below)).mpr hempty)
  refine ⟨?_, ?_, ?_⟩
  · simp only [hlast, nextOf_onCount, nextOf_setTail, nextOf_setHead, nextOf_linkFrom, headOf_onCount, headOf_setTail,
      headOf_setHead, headOf_linkFrom]
    rw [← Sum.update_elim_inl, ← Sum.update_elim_inl, update_comm hij]
    exact h.lists.join hij
  · simp only [tailOf_onCount, tailOf_setTail, tailOf_setHead, tailOf_linkFrom]
    refine moved_field hne h.tail ?_
    rw [List.getLast?_append_of_ne_nil _ hwork, ← h.tail]
    exact congrFun (tailOf_linkFrom ((s.cpus c).rqTail p) ((s.cpus c).rqHead below)) (c, below)
  · simp only [countOf_onCount, countOf_setTail, countOf_setHead, countOf_linkFrom]
    refine moved_field (F := fun l => BitVec.ofNat 32 l.length) hne h.count ?_
    rw [length_append, ofNat_add, ← h.count, ← h.count]
    exact congrArg (countOf s (c, p) + ·)
      (congrFun (countOf_linkFrom ((s.cpus c).rqTail p) ((s.cpus c).rqHead below)) (c, below))

lemma Queues.prioBoost (h : Queues others s ls) : Queues others (prioBoost s c) (moveUp (moveUp ls c 0 1) c 1 2) :=
  (h.boostLevel (by decide)).boostLevel (by decide)

end functions

end KernelSmp.Sched
