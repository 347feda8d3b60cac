import Mathlib.Data.Fin.Basic
import Mathlib.Logic.Function.Basic
import Mathlib.Data.ZMod.Defs
import Mathlib.Tactic.Abel

/-! A queue in a circular buffer of which one cell is kept free, so that it is full when the next `head` is `tail`. -/

namespace KernelSmp.Base.Ring

open Function List

variable {α : Type} {n : ℕ} {buf : Fin (n + 1) → α} {head tail : Fin (n + 1)}

def contents (buf : Fin (n + 1) → α) (head tail : Fin (n + 1)) : List α :=
  (List.range (head - tail : Fin (n + 1))).map fun i => buf (tail + Fin.ofNat (n + 1) i)

lemma length_contents : (contents buf head tail).length = (head - tail : Fin (n + 1)) := by
  rw [contents, length_map, length_range]

lemma contents_self : contents buf head head = [] := by
  rw [← length_eq_zero_iff, length_contents, sub_self, Fin.val_zero]

lemma empty_iff : head = tail ↔ contents buf head tail = [] := by
  rw [← length_eq_zero_iff, length_contents, Fin.val_eq_zero_iff, sub_eq_zero]

lemma full_iff : head + 1 = tail ↔ (contents buf head tail).length = n := by
  have hlast : head + 1 = tail ↔ head - tail = Fin.last n := by
    rw [sub_eq_iff_eq_add, ← add_right_cancel_iff (b := head), add_right_comm, Fin.last_add_one, zero_add]
  rw [hlast, length_contents, ← Fin.val_inj, Fin.val_last]

lemma length_le : (contents buf head tail).length ≤ n := by
  rw [length_contents]
  exact Nat.le_of_lt_succ (head - tail).isLt

lemma sub_succ (h : head + 1 ≠ tail) : ((head + 1 - tail : Fin (n + 1)) : ℕ) = (head - tail : Fin (n + 1)) + 1 := by
  have hlt : head - tail < Fin.last n := by
    refine lt_of_le_of_ne (Fin.le_last _) fun heq => h ?_
    have hfull : head + 1 = tail ↔ (contents (fun _ => ()) head tail).length = n := full_iff
    rw [hfull, length_contents, heq, Fin.val_last]
  rw [add_sub_right_comm, Fin.val_add_one_of_lt hlt]

lemma contents_push (h : head + 1 ≠ tail) (c : α) :
    contents (update buf head c) (head + 1) tail = contents buf head tail ++ [c] := by
  have hat : tail + Fin.ofNat (n + 1) (head - tail : Fin (n + 1)) = head := by
    rw [Fin.ofNat_val_eq_self]
    abel
  rw [contents, sub_succ h, range_succ, map_append, map_singleton, hat, update_self]
  refine congrArg (· ++ [c]) (map_congr_left fun i hi => update_of_ne (fun heq => ?_) _ _)
  -- an earlier cell is not that of `head`
  have hlt := mem_range.mp hi
  rw [← hat, add_left_cancel_iff, Fin.ofNat_val_eq_self] at heq
  have hval := congrArg Fin.val heq
  rw [Fin.val_ofNat, Nat.mod_eq_of_lt (by omega)] at hval
  omega

lemma contents_pop (h : head ≠ tail) : contents buf head tail = buf tail :: contents buf head (tail + 1) := by
  have hpos := Nat.pos_of_ne_zero fun hzero => h (sub_eq_zero.mp (Fin.ext hzero))
  have hlen : ((head - tail : Fin (n + 1)) : ℕ) = (head - (tail + 1) : Fin (n + 1)) + 1 := by
    rw [sub_add_eq_sub_sub, Fin.val_sub_one_of_ne_zero (sub_ne_zero.mpr h)]
    omega
  rw [contents, hlen, range_succ_eq_map, map_cons, map_map, Fin.ofNat_zero, add_zero]
  refine congrArg (buf tail :: ·) (map_congr_left fun i _ => congrArg buf (Fin.ext ?_))
  simp only [Fin.val_add, Fin.val_ofNat, Fin.val_one', Nat.add_mod_mod, Nat.mod_add_mod]
  rw [Nat.add_right_comm, Nat.add_assoc]

lemma contents_overwrite (hn : n ≠ 0) (h : head + 1 = tail) (c : α) :
    contents (update buf head c) (head + 1) (tail + 1) = (contents buf head tail).tail ++ [c] := by
  have hne : head ≠ tail := by
    have hempty : head = tail ↔ contents buf head tail = [] := empty_iff
    rwa [Ne, hempty, ← length_eq_zero_iff, full_iff.mp h]
  rw [contents_pop hne, tail_cons, contents_push]
  exact fun heq => hne (add_right_cancel heq)

end KernelSmp.Base.Ring
