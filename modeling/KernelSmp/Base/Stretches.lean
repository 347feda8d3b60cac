import Mathlib.Data.List.Chain
import Mathlib.Tactic

/-! Lists of intervals of numbers, `(first, stop)`, and the maximal stretches in which each interval
begins where the one before it ends. -/

namespace KernelSmp.Base.Stretches

open List

variable {i j a b : ℕ × ℕ} {l l₁ l₂ gs : List (ℕ × ℕ)}

def points (i : ℕ × ℕ) : List ℕ := List.range' i.1 (i.2 - i.1)

def glue (i : ℕ × ℕ) : List (ℕ × ℕ) → List (ℕ × ℕ)
  | [] => [i]
  | j :: gs => if i.2 = j.1 then (i.1, j.2) :: gs else i :: j :: gs

def stretches (l : List (ℕ × ℕ)) : List (ℕ × ℕ) := l.foldr glue []

lemma glue_glue (h : i.2 = j.1) : glue i (glue j gs) = glue (i.1, j.2) gs := by
  cases gs with
  | nil => simp [glue, h]
  | cons g =>
    by_cases hj : j.2 = g.1
    · simp [glue, h, hj]
    · simp [glue, h, hj]

lemma glue_points (first n : ℕ) :
    ((List.range' first (n + 1)).map fun x => (x, x + 1)).foldr glue gs = glue (first, first + n + 1) gs := by
  induction n generalizing first with
  | zero => rfl
  | succ n ih =>
    rw [range'_succ, map_cons, foldr_cons, ih (first + 1), glue_glue rfl]
    congr 2
    omega

lemma stretches_eq_points (h : ∀ i ∈ l, i.1 < i.2) :
    stretches l = ((l.flatMap points).map fun x => (x, x + 1)).foldr glue [] := by
  induction l with
  | nil => rfl
  | cons i l ih =>
    obtain ⟨_, hl⟩ := forall_mem_cons.mp h
    have hlength : i.2 - i.1 = i.2 - i.1 - 1 + 1 := by omega
    have hstop : i.1 + (i.2 - i.1 - 1) + 1 = i.2 := by omega
    rw [flatMap_cons, map_append, foldr_append, ← ih hl, points, hlength, glue_points, hstop]
    rfl

lemma stretches_congr (h₁ : ∀ i ∈ l₁, i.1 < i.2) (h₂ : ∀ i ∈ l₂, i.1 < i.2) (h : l₁.flatMap points = l₂.flatMap points) :
    stretches l₁ = stretches l₂ := by
  rw [stretches_eq_points h₁, stretches_eq_points h₂, h]

lemma mem_glue (hi : i.1 < i.2) (hgs : ∀ g ∈ gs, g.1 < g.2) : ∀ g ∈ glue i gs, g.1 < g.2 := by
  cases gs with
  | nil => simpa [glue] using hi
  | cons j =>
    obtain ⟨_, hgs'⟩ := forall_mem_cons.mp hgs
    rw [glue]
    split
    · refine forall_mem_cons.mpr ⟨?_, hgs'⟩
      omega
    · exact forall_mem_cons.mpr ⟨hi, hgs⟩

lemma mem_stretches (h : ∀ i ∈ l, i.1 < i.2) : ∀ g ∈ stretches l, g.1 < g.2 := by
  induction l with
  | nil => exact fun g hg => nomatch hg
  | cons i l ih =>
    obtain ⟨hi, hl⟩ := forall_mem_cons.mp h
    exact mem_glue hi (ih hl)

lemma flatMap_glue (hi : i.1 < i.2) (hgs : ∀ g ∈ gs, g.1 < g.2) : (glue i gs).flatMap points =
    points i ++ gs.flatMap points := by
  cases gs with
  | nil => rfl
  | cons j gs =>
    rw [glue]
    split_ifs with htouch
    · have hj := hgs j mem_cons_self
      have hsplit := @range'_append_1 i.1 (i.2 - i.1) (j.2 - j.1)
      have hfirst : i.1 + (i.2 - i.1) = j.1 := by omega
      have hlength : i.2 - i.1 + (j.2 - j.1) = j.2 - i.1 := by omega
      rw [hfirst, hlength] at hsplit
      rw [flatMap_cons, flatMap_cons, ← append_assoc]
      exact congrArg (· ++ gs.flatMap points) hsplit.symm
    · rfl

lemma flatMap_stretches (h : ∀ i ∈ l, i.1 < i.2) : (stretches l).flatMap points = l.flatMap points := by
  induction l with
  | nil => rfl
  | cons i l ih =>
    obtain ⟨hi, hl⟩ := forall_mem_cons.mp h
    change (glue i (stretches l)).flatMap points = _
    rw [flatMap_glue hi (mem_stretches hl), ih hl, flatMap_cons]

lemma foldr_glue_cons (h : ∀ i ∈ l, i.1 < i.2) (first stop : ℕ) (gs : List (ℕ × ℕ)) :
    ∃ before low, l.foldr glue ((first, stop) :: gs) = before ++ (low, stop) :: gs ∧ low ≤ first := by
  induction l with
  | nil => exact ⟨[], first, rfl, le_rfl⟩
  | cons i l ih =>
    obtain ⟨_, hl⟩ := forall_mem_cons.mp h
    obtain ⟨before, low, heq, hlow⟩ := ih hl
    rw [foldr_cons, heq]
    cases before with
    | nil =>
      rw [nil_append, glue]
      split_ifs with htouch
      · exact ⟨[], i.1, rfl, by change i.2 = low at htouch; omega⟩
      · exact ⟨[i], low, rfl, hlow⟩
    | cons g before =>
      rw [cons_append, glue]
      split
      · exact ⟨(i.1, g.2) :: before, low, rfl, hlow⟩
      · exact ⟨i :: g :: before, low, rfl, hlow⟩

lemma glue_head (hgs : ∀ g ∈ gs, g.1 < g.2) (b : ℕ × ℕ) : ∃ stop gs', glue b gs = (b.1, stop) :: gs' ∧ b.2 ≤ stop := by
  cases gs with
  | nil => exact ⟨b.2, [], rfl, le_rfl⟩
  | cons j gs =>
    have hj := hgs j mem_cons_self
    rw [glue]
    split
    · exact ⟨j.2, gs, rfl, by omega⟩
    · exact ⟨b.2, j :: gs, rfl, le_rfl⟩

lemma stretches_break (h : ∀ i ∈ l₁ ++ a :: b :: l₂, i.1 < i.2) (hbreak : a.2 ≠ b.1) :
    ∃ before low stop behind, stretches (l₁ ++ a :: b :: l₂) = before ++ (low, a.2) :: (b.1, stop) :: behind ∧
      low ≤ a.1 ∧ b.2 ≤ stop := by
  obtain ⟨h₁, hrest⟩ := forall_mem_append.mp h
  have hl₂ : ∀ i ∈ l₂, i.1 < i.2 := fun i hi => hrest i (by simp [hi])
  obtain ⟨stop, behind, hhead, hstop⟩ := glue_head (mem_stretches hl₂) b
  have hab : stretches (a :: b :: l₂) = a :: (b.1, stop) :: behind := by
    change glue a (glue b (stretches l₂)) = _
    rw [hhead, glue, if_neg hbreak]
  obtain ⟨before, low, heq, hlow⟩ := foldr_glue_cons h₁ a.1 a.2 ((b.1, stop) :: behind)
  refine ⟨before, low, stop, behind, ?_, hlow, hstop⟩
  rw [← heq, ← hab, stretches, foldr_append]
  rfl

theorem chain_of_stretches (h : ∀ i ∈ l, i.1 < i.2) (hnodup : (l.flatMap points).Nodup)
    (hchain : (stretches l).IsChain fun g g' => g'.2 ≠ g.1) : l.IsChain fun a b => b.2 ≠ a.1 := by
  rw [isChain_iff_forall_rel_of_append_cons_cons]
  rintro a b l₁ l₂ rfl hback
  have ha := h a (by simp)
  have hb := h b (by simp)
  obtain ⟨before, low, stop, _, heq, _, _⟩ := stretches_break h (by omega)
  have hne := isChain_iff_forall_rel_of_append_cons_cons.mp hchain heq
  rw [← flatMap_stretches h, heq, flatMap_append, flatMap_cons, flatMap_cons] at hnodup
  have hdisjoint := (nodup_append.mp (nodup_append.mp hnodup).2.1).2.2
  -- the two stretches share the point before `a`, unless one ends where the other begins
  rcases Nat.lt_or_ge low stop with hlt | hge
  · have hcommon : max low b.1 ∈ points (low, a.2) ∧ max low b.1 ∈ points (b.1, stop) := by
      simp only [points, mem_range'_1]
      omega
    exact hdisjoint _ hcommon.1 _ (mem_append_left _ hcommon.2) rfl
  · omega

end KernelSmp.Base.Stretches
