import Mathlib.Data.List.Chain
import Mathlib.Tactic

/-! Lists in which neighbours that touch are glued together, and the list in which no two touch. -/

namespace KernelSmp.Base

open List

structure Gluing (α : Type) where
  touch : α → α → Bool
  join : α → α → α
  Ok : α → Prop
  ok_join {x y : α} : Ok x → Ok y → touch x y → Ok (join x y)
  touch_join {x y : α} (z : α) : Ok x → Ok y → touch x y → touch (join x y) z = touch y z
  join_touch {y z : α} (x : α) : Ok y → Ok z → touch y z → touch x (join y z) = touch x y
  join_assoc {x y z : α} : touch x y → touch y z → join (join x y) z = join x (join y z)

namespace Gluing

variable {α : Type} (g : Gluing α)

def cons (x : α) : List α → List α
  | [] => [x]
  | y :: l => if g.touch x y then g.join x y :: l else x :: y :: l

def norm (l : List α) : List α := l.foldr g.cons []

def Apart (l : List α) : Prop := l.IsChain fun x y => g.touch x y = false

variable {g} {x y : α} {l l₁ l₂ s : List α}

lemma ok_cons (hx : g.Ok x) (hl : ∀ z ∈ l, g.Ok z) : ∀ z ∈ g.cons x l, g.Ok z := by
  cases l with
  | nil => simpa [cons] using hx
  | cons =>
    obtain ⟨hy, hl'⟩ := forall_mem_cons.mp hl
    rw [cons]
    split
    next htouch => exact forall_mem_cons.mpr ⟨g.ok_join hx hy htouch, hl'⟩
    next => exact forall_mem_cons.mpr ⟨hx, hl⟩

lemma ok_foldr (hs : ∀ z ∈ s, g.Ok z) (hl : ∀ z ∈ l, g.Ok z) : ∀ z ∈ l.foldr g.cons s, g.Ok z := by
  induction l with
  | nil => exact hs
  | cons x l ih =>
    obtain ⟨hx, hl'⟩ := forall_mem_cons.mp hl
    exact ok_cons hx (ih hl')

lemma ok_norm (hl : ∀ z ∈ l, g.Ok z) : ∀ z ∈ g.norm l, g.Ok z := ok_foldr (fun _ hz => absurd hz not_mem_nil) hl

lemma cons_join (hx : g.Ok x) (hy : g.Ok y) (hl : ∀ z ∈ l, g.Ok z) (htouch : g.touch x y) :
    g.cons (g.join x y) l = g.cons x (g.cons y l) := by
  cases l with
  | nil => simp [cons, htouch]
  | cons z =>
    have hz := hl z mem_cons_self
    by_cases hyz : g.touch y z
    · have hleft : g.touch (g.join x y) z := by rw [g.touch_join z hx hy htouch, hyz]
      have hright : g.touch x (g.join y z) := by rw [g.join_touch x hy hz hyz, htouch]
      simp only [cons, hyz, hleft, hright, if_true, g.join_assoc htouch hyz]
    · have hleft : ¬ g.touch (g.join x y) z := by rwa [g.touch_join z hx hy htouch]
      simp [cons, hyz, hleft, htouch]

lemma norm_cons (x : α) (l : List α) : g.norm (x :: l) = g.cons x (g.norm l) := rfl

lemma norm_append (l₁ l₂ : List α) : g.norm (l₁ ++ l₂) = l₁.foldr g.cons (g.norm l₂) := foldr_append

lemma norm_of_apart (h : g.Apart l) : g.norm l = l := by
  induction l with
  | nil => rfl
  | cons x l ih =>
    rw [norm_cons, ih (List.IsChain.tail h)]
    cases l with
    | nil => rfl
    | cons y =>
      have hxy := (isChain_cons_cons.mp h).1
      rw [cons, hxy, if_neg (by decide)]

lemma foldr_of_apart (h : g.Apart (l ++ [y])) : l.foldr g.cons (y :: s) = l ++ y :: s := by
  induction l with
  | nil => rfl
  | cons x l ih =>
    rw [foldr_cons, ih (List.IsChain.tail h)]
    cases l with
    | nil =>
      have hxy := (isChain_cons_cons.mp h).1
      rw [nil_append, cons, hxy, if_neg (by decide)]
      rfl
    | cons z =>
      have hxz := (isChain_cons_cons.mp h).1
      rw [cons_append, cons, hxz, if_neg (by decide)]
      rfl

lemma norm_join (hl : ∀ z ∈ l₂, g.Ok z) (hx : g.Ok x) (hy : g.Ok y) (htouch : g.touch x y) :
    g.norm (l₁ ++ x :: y :: l₂) = g.norm (l₁ ++ g.join x y :: l₂) := by
  rw [norm_append, norm_append, norm_cons, norm_cons, norm_cons, cons_join hx hy (ok_norm hl) htouch]

lemma norm_map_norm {f : α → α} (hok : ∀ z, g.Ok z → g.Ok (f z)) (hf : ∀ x y, g.touch x y → f x = x ∧ f y = y ∧
    f (g.join x y) = g.join x y) (hl : ∀ z ∈ l, g.Ok z) : g.norm ((g.norm l).map f) = g.norm (l.map f) := by
  induction l with
  | nil => rfl
  | cons x l ih =>
    obtain ⟨hx, hl'⟩ := forall_mem_cons.mp hl
    rw [map_cons, norm_cons, norm_cons, ← ih hl']
    have hnorm := ok_norm hl'
    generalize g.norm l = t at hnorm
    cases t with
    | nil => rfl
    | cons y t =>
      obtain ⟨hy, ht⟩ := forall_mem_cons.mp hnorm
      have hmap := forall_mem_map.mpr fun z hz => hok z (ht z hz)
      rw [cons]
      split
      next htouch =>
        obtain ⟨hfx, hfy, hfjoin⟩ := hf x y htouch
        rw [map_cons, map_cons, hfx, hfy, hfjoin, norm_cons, norm_cons, cons_join hx hy (ok_norm hmap) htouch]
      next => rfl

end Gluing

end KernelSmp.Base
