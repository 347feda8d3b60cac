import Mathlib.Tactic

/-! Trees of tables. A store maps each table and index to an entry, and an entry may name another
table. A path lists the indices taken from a root, the last one first. -/

namespace KernelSmp.Base.Radix

open Function List Option

variable {F I E R : Type} [DecidableEq F] [DecidableEq I] (next : E → Option F)

def walk (T : F → I → E) (root : F) : List I → Option F
  | [] => some root
  | i :: p => (walk T root p).bind fun f => next (T f i)

def set (T : F → I → E) (f : F) (i : I) (e : E) : F → I → E := update T f (update (T f) i e)

def setRow (T : F → I → E) (f : F) (row : I → E) : F → I → E := update T f row

omit [DecidableEq F] [DecidableEq I] in
@[simp] lemma walk_nil (T : F → I → E) (root : F) : walk next T root [] = some root := rfl

omit [DecidableEq F] [DecidableEq I] in
lemma walk_cons (T : F → I → E) (root : F) (i : I) (p : List I) :
    walk next T root (i :: p) = (walk next T root p).bind fun f => next (T f i) := rfl

@[simp] lemma set_self (T : F → I → E) (f : F) (i : I) (e : E) : set T f i e f i = e := by simp [set]

@[simp] lemma set_eq_self (T : F → I → E) (f : F) (i : I) : set T f i (T f i) = T := by simp [set]

variable {f : F}

lemma set_of_ne (T : F → I → E) {g : F} {i j : I} (e : E) (h : ¬ (g = f ∧ j = i)) : set T f i e g j = T g j := by
  by_cases hg : g = f
  · subst hg
    simp [set, update_of_ne (fun hj => h ⟨rfl, hj⟩)]
  · simp [set, update_of_ne hg]

omit [DecidableEq I] in
lemma setRow_of_ne (T : F → I → E) {g : F} (row : I → E) (h : g ≠ f) : setRow T f row g = T g := by
  simp [setRow, update_of_ne h]

omit [DecidableEq F] [DecidableEq I] in
variable {T : F → I → E} {root : F} {q : List I}

lemma walk_none_of_suffix {p : List I} (hs : p <:+ q) (hp : walk next T root p = none) : walk next T root q = none := by
  obtain ⟨r, rfl⟩ := hs
  induction r with
  | nil => exact hp
  | cons i r ih => rw [cons_append, walk_cons, ih, bind_none]

omit [DecidableEq F] [DecidableEq I] in
lemma walk_congr {T' : F → I → E} (h : ∀ i p f, (i :: p) <:+ q → walk next T root p = some f → next (T' f i) = next (T f i)) :
    walk next T' root q = walk next T root q := by
  induction q with
  | nil => rfl
  | cons j q ih =>
    have hq := ih fun i p f hs hw => h i p f (hs.trans (suffix_cons j q)) hw
    rw [walk_cons, walk_cons, hq]
    cases hw : walk next T root q with
    | none => rfl
    | some f => exact h j q f (suffix_refl _) hw

omit [DecidableEq I] in
lemma walk_setRow (row : I → E)
    (h : ∀ i p, (i :: p) <:+ q → walk next T root p ≠ some f) :
    walk next (setRow T f row) root q = walk next T root q := by
  apply walk_congr
  intro i p g hs hw
  rw [setRow_of_ne]
  rintro rfl
  exact h i p hs hw

lemma walk_set {i : I} (e : E)
    (h : ∀ p, (i :: p) <:+ q → walk next T root p ≠ some f) :
    walk next (set T f i e) root q = walk next T root q := by
  apply walk_congr
  intro j p g hs hw
  rw [set_of_ne]
  rintro ⟨rfl, rfl⟩
  exact h p hs hw

section forest

variable (roots : R → Option F) (valid : List I → Prop)

def look (T : F → I → E) (r : R) (p : List I) : Option F := (roots r).bind fun f => walk next T f p

omit [DecidableEq F] [DecidableEq I] in
lemma look_nil (T : F → I → E) (r : R) : look next roots T r [] = roots r := by
  cases h : roots r <;> simp [look, h]

omit [DecidableEq F] [DecidableEq I] in
lemma look_cons (T : F → I → E) (r : R) (i : I) (p : List I) :
    look next roots T r (i :: p) = (look next roots T r p).bind fun f => next (T f i) := by
  cases h : roots r <;> simp [look, h, walk_cons]

omit [DecidableEq F] [DecidableEq I] in
variable {T : F → I → E} {r : R} {p q : List I}

lemma look_none_of_suffix {T : F → I → E} {r : R} {p q : List I} (hs : p <:+ q)
    (hp : look next roots T r p = none) : look next roots T r q = none := by
  cases h : roots r with
  | none => simp [look, h]
  | some =>
    simp only [look, h] at hp ⊢
    exact walk_none_of_suffix next hs hp

def Separate (T : F → I → E) : Prop :=
  ∀ r p r' p' f, valid p → valid p' → look next roots T r p = some f → look next roots T r' p' = some f →
    r = r' ∧ p = p'

variable {next roots valid}

omit [DecidableEq F] [DecidableEq I] in
lemma valid_of_suffix (hv : ∀ i p, valid (i :: p) → valid p) (hs : p <:+ q) (hq : valid q) : valid p := by
  obtain ⟨t, rfl⟩ := hs
  induction t with
  | nil => exact hq
  | cons i t ih => exact ih (hv i _ hq)

omit [DecidableEq I] in
variable {f : F}

lemma look_setRow (hv : ∀ i p, valid (i :: p) → valid p) (row : I → E) (hq : valid q)
    (h : ∀ p, valid p → look next roots T r p ≠ some f) : look next roots (setRow T f row) r q = look next roots T r q := by
  cases hr : roots r with
  | none => simp [look, hr]
  | some =>
    simp only [look, hr] at h ⊢
    apply walk_setRow
    intro i p hs
    exact h p (hv i p (valid_of_suffix hv hs hq))

lemma look_set_unread (hv : ∀ i p, valid (i :: p) → valid p) {i : I} (e : E) (hq : valid q)
    (h : ∀ p, valid (i :: p) → look next roots T r p ≠ some f) : look next roots (set T f i e) r q = look next roots T r q := by
  cases hr : roots r with
  | none => simp [look, hr]
  | some =>
    simp only [look, hr] at h ⊢
    apply walk_set
    intro p hs
    exact h p (valid_of_suffix hv hs hq)

lemma look_set [DecidableEq R] (hv : ∀ i p, valid (i :: p) → valid p)
    {i : I} {e : E}
    (hsep : Separate next roots valid T) (hp : look next roots T r p = some f) (hip : valid (i :: p))
    (hold : ∀ j, valid (j :: i :: p) → look next roots T r (j :: i :: p) = none)
    (hnew : ∀ g j, next e = some g → valid (j :: i :: p) → g ≠ f ∧ next (T g j) = none)
    (r' : R) (hq : valid q) :
    look next roots (set T f i e) r' q = if r' = r ∧ q = i :: p then next e else look next roots T r' q := by
  induction q with
  | nil => simp [look_nil]
  | cons j q ih =>
    have hq' := hv j q hq
    rw [look_cons, look_cons, ih hq']
    by_cases hat : r' = r ∧ q = i :: p
    · obtain ⟨rfl, rfl⟩ := hat
      rw [if_pos ⟨rfl, rfl⟩, if_neg (by simp), ← look_cons, hold j hq]
      cases hg : next e with
      | none => rfl
      | some g =>
        obtain ⟨hne, hrow⟩ := hnew g j hg hq
        rw [bind_some, set_of_ne _ _ (by rintro ⟨hh, _⟩; exact hne hh), hrow]
    · rw [if_neg hat]
      cases hw : look next roots T r' q with
      | none =>
        rw [if_neg]
        · rfl
        · rintro ⟨rfl, hcons⟩
          obtain ⟨rfl, rfl⟩ := List.cons.inj hcons
          simp [hp] at hw
      | some g =>
        rw [bind_some]
        by_cases hgj : g = f ∧ j = i
        · obtain ⟨rfl, rfl⟩ := hgj
          obtain ⟨rfl, rfl⟩ := hsep r' q r p g hq' (hv j p hip) hw hp
          rw [set_self, if_pos ⟨rfl, rfl⟩]
        · rw [set_of_ne _ _ hgj, bind_some, if_neg]
          rintro ⟨rfl, hcons⟩
          obtain ⟨rfl, rfl⟩ := List.cons.inj hcons
          rw [hp] at hw
          exact hgj ⟨(Option.some.inj hw).symm, rfl⟩

end forest

end KernelSmp.Base.Radix
