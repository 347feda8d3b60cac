import KernelSmp.Base.ByteMemory

/-! Byte strings in memory, the comparisons of C on them, and numbers written in octal. -/

namespace KernelSmp.Base.Mem

open List

def Stored (m : Mem) : ℕ → List Byte → Prop
  | _, [] => True
  | a, b :: l => m a = b ∧ Stored m (a + 1) l

variable {m : Mem} {a : ℕ} {l l' : List Byte}

lemma stored_append : Stored m a (l ++ l') ↔ Stored m a l ∧ Stored m (a + l.length) l' := by
  induction l generalizing a with
  | nil => simp [Stored]
  | cons b l ih => rw [cons_append, Stored, Stored, ih, length_cons, and_assoc, Nat.add_right_comm, Nat.add_assoc]

lemma Stored.get (h : Stored m a l) {i : ℕ} (hi : i < l.length) : m (a + i) = l[i] := by
  induction l generalizing a i with
  | nil => cases hi
  | cons b l ih =>
    cases i with
    | zero => exact h.1
    | succ =>
      have hnext := ih h.2 (Nat.lt_of_succ_lt_succ hi)
      rw [getElem_cons_succ, ← hnext, Nat.add_right_comm, Nat.add_assoc]

def place (m : Mem) (a : ℕ) (l : List Byte) : Mem := fun x => if x < a then m x else (l[x - a]?).getD (m x)

lemma Stored.of_get (h : ∀ i (hi : i < l.length), m (a + i) = l[i]) : Stored m a l := by
  induction l generalizing a with
  | nil => trivial
  | cons b l ih =>
    refine ⟨h 0 (Nat.zero_lt_succ _), ih fun i hi => ?_⟩
    rw [Nat.add_right_comm, Nat.add_assoc]
    exact h (i + 1) (Nat.succ_lt_succ hi)

lemma stored_place (m : Mem) (a : ℕ) (l : List Byte) : Stored (place m a l) a l := by
  refine .of_get fun i hi => ?_
  rw [place, if_neg (Nat.not_lt.mpr (Nat.le_add_right a i)), Nat.add_sub_cancel_left, List.getElem?_eq_getElem hi,
    Option.getD_some]

lemma Stored.place {b : ℕ} (h : Stored m b l') (hbelow : b + l'.length ≤ a) : Stored (place m a l) b l' := by
  refine .of_get fun i hi => ?_
  rw [Mem.place, if_pos (by omega)]
  exact h.get hi

def memcmp (m : Mem) : ℕ → List Byte → Int
  | _, [] => 0
  | a, b :: l => if m a ≠ b then if m a < b then -1 else 1 else memcmp m (a + 1) l

lemma memcmp_stored (h : Stored m a l) : memcmp m a l = 0 := by
  induction l generalizing a with
  | nil => rfl
  | cons b l ih =>
    rw [memcmp, if_neg (not_not.mpr h.1)]
    exact ih h.2

def strcmp (m : Mem) : ℕ → ℕ → ℕ → Option Int
  | 0, _, _ => none
  | fuel + 1, a, b => if m a ≠ 0 ∧ m a = m b then strcmp m fuel (a + 1) (b + 1) else some ((m a).toNat - (m b).toNat)

lemma strcmp_eq_zero_iff {b fuel : ℕ} (h : Stored m a (l ++ [0])) (h' : Stored m b (l' ++ [0]))
    (hl : 0 ∉ l) (hl' : 0 ∉ l') (hfuel : l.length < fuel) : ∃ r, strcmp m fuel a b = some r ∧ (r = 0 ↔ l = l') := by
  induction l generalizing a b l' fuel with
  | nil =>
    obtain ⟨fuel, rfl⟩ := Nat.exists_eq_succ_of_ne_zero (Nat.ne_zero_of_lt hfuel)
    have ha := h.1
    refine ⟨_, if_neg fun hne => hne.1 ha, ?_⟩
    rw [ha]
    cases l' with
    | nil =>
      have hb := h'.1
      rw [hb]
      simp
    | cons y =>
      have hb := h'.1
      have hy : y ≠ 0 := fun h0 => hl' (h0 ▸ mem_cons_self)
      have hpos : y.toNat ≠ 0 := fun h0 => hy (BitVec.eq_of_toNat_eq h0)
      rw [hb]
      simpa using hpos
  | cons x l ih =>
    obtain ⟨_, rfl⟩ := Nat.exists_eq_succ_of_ne_zero (Nat.ne_zero_of_lt hfuel)
    have ha := h.1
    have hx : x ≠ 0 := fun h0 => hl (h0 ▸ mem_cons_self)
    cases l' with
    | nil =>
      have hb := h'.1
      have hpos : x.toNat ≠ 0 := fun h0 => hx (BitVec.eq_of_toNat_eq h0)
      refine ⟨_, if_neg ?_, ?_⟩
      · rw [ha, hb]
        exact fun hne => hx hne.2
      · rw [ha, hb]
        simpa using hpos
    | cons y =>
      have hb := h'.1
      rcases eq_or_ne x y with rfl | hxy
      · obtain ⟨r, _, hiff⟩ := ih h.2 h'.2 (fun hmem => hl (mem_cons_of_mem x hmem))
          (fun hmem => hl' (mem_cons_of_mem x hmem))
          (Nat.lt_of_succ_lt_succ hfuel)
        refine ⟨r, ?_, ?_⟩
        · rwa [strcmp, if_pos ⟨ha ▸ hx, ha.trans hb.symm⟩]
        · rw [hiff, List.cons.injEq, and_iff_right rfl]
      · refine ⟨_, if_neg ?_, ?_⟩
        · rw [ha, hb]
          exact fun hne => hxy hne.2
        · have hne : x.toNat ≠ y.toNat := fun heq => hxy (BitVec.eq_of_toNat_eq heq)
          rw [ha, hb]
          simp only [List.cons.injEq, hxy, false_and, iff_false]
          omega

def octal : ℕ → ℕ → List Byte
  | 0, _ => []
  | width + 1, v => octal width (v / 8) ++ [BitVec.ofNat 8 (48 + v % 8)]

@[simp] lemma length_octal (width v : ℕ) : (octal width v).length = width := by
  induction width generalizing v with
  | zero => rfl
  | succ width ih => rw [octal, length_append, ih, length_singleton]

end KernelSmp.Base.Mem
