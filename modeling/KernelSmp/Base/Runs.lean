import Mathlib.Tactic

/-! Finite runs of a partial step function, with properties required of every visited state
and of every action taken. -/

namespace KernelSmp.Base.Runs

variable {S A : Type}

def run (step : S → A → Option S) : S → List A → Option S
  | s, [] => some s
  | s, a :: as => (step s a).bind fun t => run step t as

def Always (step : S → A → Option S) (P : S → Prop) : S → List A → Prop
  | s, [] => P s
  | s, a :: as => P s ∧ ∀ t, step s a = some t → Always step P t as

def Guarded (step : S → A → Option S) (g : S → A → Prop) : S → List A → Prop
  | _, [] => True
  | s, a :: as => g s a ∧ ∀ t, step s a = some t → Guarded step g t as

instance instDecidableGuarded (step : S → A → Option S) (g : S → A → Prop) [∀ s a, Decidable (g s a)] (s : S) (as : List A) :
    Decidable (Guarded step g s as) :=
  match as with
  | [] => .isTrue trivial
  | a :: as =>
    have (t : S) : Decidable (Guarded step g t as) := instDecidableGuarded step g t as
    inferInstanceAs (Decidable (g s a ∧ ∀ t ∈ step s a, Guarded step g t as))

instance decidableExistsSome (o : Option S) (P : S → Prop) [DecidablePred P] : Decidable (∃ s, o = some s ∧ P s) :=
  inferInstanceAs (Decidable (∃ s ∈ o, P s))

/-- A result is evaluated once, for the facts `P` that an argument about it needs. -/
lemma exists_of_check {o : Option S} {Q : S → Prop} (P : S → Prop) (hcheck : ∃ s, o = some s ∧ P s)
    (h : ∀ s, o = some s → P s → Q s) : ∃ s, o = some s ∧ Q s :=
  hcheck.imp fun s hs => ⟨hs.1, h s hs.1 hs.2⟩

variable {step : S → A → Option S} {I P : S → Prop} {g : S → A → Prop}

variable {s : S} {as : List A}

lemma run_cons {u : S} {a : A} (h : run step s (a :: as) = some u) : ∃ t, step s a = some t ∧ run step t as = some u := by
  simpa only [run, Option.bind_eq_some_iff] using h

lemma run_append (s : S) (as bs : List A) : run step s (as ++ bs) = (run step s as).bind fun t => run step t bs := by
  induction as generalizing s with
  | nil => rfl
  | cons a as ih =>
    cases h : step s a with
    | none => simp [run, h]
    | some => simp [run, h, ih]

lemma Always.head (h : Always step P s as) : P s := by
  cases as with
  | nil => exact h
  | cons => exact h.1

lemma Always.mono {Q : S → Prop} (hpq : ∀ s, P s → Q s) (h : Always step P s as) : Always step Q s as := by
  induction as generalizing s with
  | nil => exact hpq s h
  | cons a as ih => exact ⟨hpq s h.1, fun t ht => ih (h.2 t ht)⟩

theorem invariant (hstep : ∀ s a t, I s → g s a → step s a = some t → I t)
    (hs : I s) (hg : Guarded step g s as) : Always step I s as := by
  induction as generalizing s with
  | nil => exact hs
  | cons a as ih => exact ⟨hs, fun t ht => ih (hstep s a t hs hg.1 ht) (hg.2 t ht)⟩

theorem progress (hstep : ∀ s a, I s → g s a → ∃ t, step s a = some t ∧ I t) (hs : I s)
    (hg : Guarded step g s as) : ∃ t, run step s as = some t := by
  induction as generalizing s with
  | nil => exact ⟨s, rfl⟩
  | cons a as ih =>
    obtain ⟨t, ht, hI⟩ := hstep s a hs hg.1
    obtain ⟨u, hu⟩ := ih hI (hg.2 t ht)
    exact ⟨u, by rw [run, ht, Option.bind_some, hu]⟩

theorem progress_invariant (hstep : ∀ s a, I s → g s a → ∃ t, step s a = some t ∧ I t) (hs : I s)
    (hg : Guarded step g s as) : Always step I s as := by
  refine invariant (fun s a t hI ha ht => ?_) hs hg
  obtain ⟨_, hu, hI'⟩ := hstep s a hI ha
  rw [ht] at hu
  cases hu
  exact hI'

variable {g' : S → A → Prop}

lemma Guarded.and (h : Guarded step g s as) (h' : Guarded step g' s as) : Guarded step (fun s a => g s a ∧ g' s a) s as := by
  induction as generalizing s with
  | nil => trivial
  | cons a as ih => exact ⟨⟨h.1, h'.1⟩, fun t ht => ih (h.2 t ht) (h'.2 t ht)⟩

lemma Guarded.mono (hg : ∀ s a, g s a → g' s a) (h : Guarded step g s as) : Guarded step g' s as := by
  induction as generalizing s with
  | nil => trivial
  | cons a as ih => exact ⟨hg s a h.1, fun t ht => ih (h.2 t ht)⟩

lemma Always.guarded (hg : ∀ s a, I s → g s a → g' s a) (hI : Always step I s as)
    (h : Guarded step g s as) : Guarded step g' s as := by
  induction as generalizing s with
  | nil => trivial
  | cons a as ih => exact ⟨hg s a hI.1 h.1, fun t ht => ih (hI.2 t ht) (h.2 t ht)⟩

lemma guarded_of_forall {p : A → Prop} (h : ∀ a ∈ as, p a) (s : S) : Guarded step (fun _ a => p a) s as := by
  induction as generalizing s with
  | nil => trivial
  | cons a as ih => exact ⟨h a List.mem_cons_self, fun t _ => ih (fun b hb => h b (List.mem_cons_of_mem a hb)) t⟩

lemma unguarded (s : S) (as : List A) : Guarded step (fun _ _ => True) s as := by
  induction as generalizing s with
  | nil => trivial
  | cons a as ih => exact ⟨trivial, fun t _ => ih t⟩

theorem Always.last {t : S} (h : Always step P s as) (hr : run step s as = some t) : P t := by
  induction as generalizing s with
  | nil => cases hr; exact h
  | cons a as ih =>
    obtain ⟨u, hu, hr⟩ := run_cons hr
    exact ih (h.2 u hu) hr

lemma Guarded.last {t : S} {a : A} (h : Guarded step g s (as ++ [a])) (hr : run step s as = some t) : g t a := by
  induction as generalizing s with
  | nil =>
    cases hr
    exact h.1
  | cons b as ih =>
    obtain ⟨u, hu, hr⟩ := run_cons hr
    exact ih (h.2 u hu) hr

end KernelSmp.Base.Runs
