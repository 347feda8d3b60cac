import Mathlib.Data.FinEnum
import Mathlib.Tactic

/-! Arithmetic of 64-bit machine words. -/

namespace KernelSmp.Base

abbrev Word := BitVec 64
abbrev Byte := BitVec 8

namespace Word

variable {a : Word}

lemma toNat_add_ofNat {n : ℕ} (h : a.toNat + n < 2 ^ 64) : (a + BitVec.ofNat 64 n).toNat = a.toNat + n := by
  rw [BitVec.toNat_add, BitVec.toNat_ofNat, Nat.mod_eq_of_lt (a := n) (by omega), Nat.mod_eq_of_lt h]

lemma getLsbD_bit {w i k : ℕ} (hi : i < w) : (1#w <<< k).getLsbD i = decide (i = k) := by
  rw [BitVec.getLsbD_shiftLeft, BitVec.getLsbD_one, Bool.eq_iff_iff]
  simp
  omega

lemma and_bit_ne_zero {w k : ℕ} (x : BitVec w) (hk : k < w) : ((x &&& 1#w <<< k) != 0) = x.getLsbD k := by
  rw [Bool.eq_iff_iff, bne_iff_ne, ne_eq, ← not_iff_not, not_not, Bool.not_eq_true]
  constructor
  · intro h
    have hb := congrArg (fun y => BitVec.getLsbD y k) h
    simpa [getLsbD_bit hk] using hb
  · intro h
    apply BitVec.eq_of_getLsbD_eq
    intro i hi
    rw [BitVec.getLsbD_and, getLsbD_bit hi]
    by_cases hik : i = k
    · subst hik; simp [h]
    · simp [hik]

lemma length_le_of_nodup {l : List Word} (h : l.Nodup) : l.length ≤ 2 ^ 64 :=
  calc l.length ≤ Fintype.card Word := h.length_le_card
    _ = 2 ^ 64 := (FinEnum.card_eq_fintypeCard).symm

lemma toNat_and_field (x : Word) (lo len : ℕ) (h : lo + len ≤ 64) :
    (x &&& BitVec.ofNat 64 ((2 ^ len - 1) * 2 ^ lo)).toNat = x.toNat / 2 ^ lo % 2 ^ len * 2 ^ lo := by
  have hlt : (2 ^ len - 1) * 2 ^ lo < 2 ^ 64 := by
    have hp : (2 : ℕ) ^ (lo + len) ≤ 2 ^ 64 := Nat.pow_le_pow_right (by omega) h
    have hl : 0 < (2 : ℕ) ^ lo := by positivity
    rw [pow_add, mul_comm] at hp
    have hm : (2 ^ len - 1) * 2 ^ lo < 2 ^ len * 2 ^ lo :=
      Nat.mul_lt_mul_of_pos_right (by have : 0 < (2 : ℕ) ^ len := by positivity
                                      omega) hl
    omega
  rw [BitVec.toNat_and, BitVec.toNat_ofNat, Nat.mod_eq_of_lt hlt]
  apply Nat.eq_of_testBit_eq
  intro i
  rw [Nat.testBit_and, Nat.testBit_mul_two_pow, Nat.testBit_mul_two_pow, Nat.testBit_two_pow_sub_one,
    Nat.testBit_mod_two_pow, Nat.testBit_div_two_pow]
  by_cases hi : lo ≤ i
  · simp [hi, Bool.and_comm]
  · simp [hi]

/-- `for (a = start; a < stop; a += stride)`. The result is `none` when the fuel runs out; a loop
variable that is still below `stop` after `2 ^ 64` rounds has repeated, so that much fuel tells
exactly whether the loop ends. -/
def forBelow {σ : Type} (stride stop : Word) (body : σ → Word → σ) : ℕ → Word → σ → Option σ
  | 0, _, _ => none
  | fuel + 1, a, s => if a < stop then forBelow stride stop body fuel (a + stride) (body s a) else some s

variable {σ : Type} {stride stop : Word} {fuel : ℕ}

lemma forBelow_invariant {body : σ → Word → σ} {I : σ → Prop} {Q : Word → Prop}
    (hnext : ∀ a, a < stop → Q a → Q (a + stride)) (hbody : ∀ s a, a < stop → Q a → I s → I (body s a))
    {s t : σ} (ha : Q a) (hs : I s) (h : forBelow stride stop body fuel a s = some t) : I t := by
  induction fuel generalizing a s with
  | zero => cases h
  | succ fuel ih =>
    rw [forBelow] at h
    split at h
    next hlt => exact ih (hnext a hlt ha) (hbody s a hlt ha hs) h
    next => cases h; exact hs

lemma forBelow_some (body : σ → Word → σ) (hstride : stride ≠ 0) (hwrap : stop.toNat + stride.toNat ≤ 2 ^ 64) {s : σ}
    (hfuel : stop.toNat - a.toNat < fuel) : ∃ t, forBelow stride stop body fuel a s = some t := by
  have hpos : stride.toNat ≠ 0 := fun hzero => hstride (BitVec.eq_of_toNat_eq hzero)
  induction fuel generalizing a s with
  | zero => cases hfuel
  | succ fuel ih =>
    rw [forBelow]
    split_ifs with hlt
    · rw [BitVec.lt_def] at hlt
      have hnext : (a + stride).toNat = a.toNat + stride.toNat := BitVec.toNat_add_of_lt (by omega)
      exact ih (by omega)
    · exact ⟨s, rfl⟩

lemma forBelow_reaches {b : Word} {body : σ → Word → σ} {I X : σ → Prop}
    (hI : ∀ s a, a < stop → I s → I (body s a)) (hX : ∀ s a, a < stop → I s → X s → X (body s a))
    (hb : ∀ s, I s → X (body s b)) {k : ℕ} {s t : σ} (hs : I s) (hstop : b < stop)
    (hab : b.toNat = a.toNat + k * stride.toNat) (h : forBelow stride stop body fuel a s = some t) : X t := by
  induction k generalizing fuel a s with
  | zero =>
    obtain rfl : b = a := BitVec.eq_of_toNat_eq (by omega)
    cases fuel with
    | zero => cases h
    | succ =>
      rw [forBelow, if_pos hstop] at h
      refine (forBelow_invariant (Q := fun _ => True) (I := fun s => I s ∧ X s) (fun _ _ _ => trivial) ?_ trivial
        ⟨hI s b hstop hs, hb s hs⟩ h).2
      exact fun s a ha _ hs => ⟨hI s a ha hs.1, hX s a ha hs.1 hs.2⟩
  | succ k ih =>
    rw [add_mul, one_mul] at hab
    have hnext : (a + stride).toNat = a.toNat + stride.toNat := BitVec.toNat_add_of_lt (by omega)
    have hbelow := BitVec.lt_def.mp hstop
    have ha : a < stop := BitVec.lt_def.mpr (by omega)
    cases fuel with
    | zero => cases h
    | succ =>
      rw [forBelow, if_pos ha] at h
      exact ih (hI s a ha hs) (by omega) h

def below (stride stop : Word) : ℕ → Word → Option (List Word)
  | 0, _ => none
  | fuel + 1, a => if a < stop then (below stride stop fuel (a + stride)).map (a :: ·) else some []

lemma forBelow_eq_foldl (stride stop : Word) (body : σ → Word → σ) (fuel : ℕ) (a : Word) (s : σ) :
    forBelow stride stop body fuel a s = (below stride stop fuel a).map (·.foldl body s) := by
  induction fuel generalizing a s with
  | zero => rfl
  | succ fuel ih =>
    rw [forBelow, below]
    split
    · rw [ih, Option.map_map]
      rfl
    · rfl

lemma below_spec (hstride : stride ≠ 0) (hwrap : stop.toNat + stride.toNat ≤ 2 ^ 64) (hfuel : stop.toNat - a.toNat < fuel) :
    ∃ l, below stride stop fuel a = some l ∧ ∀ b, b ∈ l ↔ ∃ k, b.toNat = a.toNat + k * stride.toNat ∧ b.toNat < stop.toNat := by
  have hpos : stride.toNat ≠ 0 := fun hzero => hstride (BitVec.eq_of_toNat_eq hzero)
  induction fuel generalizing a with
  | zero => cases hfuel
  | succ fuel ih =>
    rw [below]
    split
    next hlt =>
      rw [BitVec.lt_def] at hlt
      have hnext : (a + stride).toNat = a.toNat + stride.toNat := BitVec.toNat_add_of_lt (by omega)
      obtain ⟨l, hl, hmem⟩ := ih (a := a + stride) (by omega)
      refine ⟨a :: l, by rw [hl]; rfl, fun b => ?_⟩
      rw [List.mem_cons, hmem, hnext]
      constructor
      · rintro (rfl | ⟨k, hk, hb⟩)
        · exact ⟨0, by omega, hlt⟩
        · exact ⟨k + 1, by rw [add_mul, one_mul]; omega, hb⟩
      · rintro ⟨k, hk, hb⟩
        cases k with
        | zero => exact .inl (BitVec.eq_of_toNat_eq (by omega))
        | succ k => exact .inr ⟨k, by rw [add_mul, one_mul] at hk; omega, hb⟩
    next hge =>
      rw [BitVec.lt_def] at hge
      refine ⟨[], rfl, fun b => ⟨fun hb => absurd hb List.not_mem_nil, ?_⟩⟩
      rintro ⟨_, _, _⟩
      omega

lemma and_low_eq_zero {x : Word} (k : ℕ) (hk : k ≤ 64) : x &&& BitVec.ofNat 64 (2 ^ k - 1) = 0 ↔ x.toNat % 2 ^ k = 0 := by
  have hlow := toNat_and_field x 0 k (by omega)
  simp only [pow_zero, mul_one, Nat.div_one] at hlow
  constructor
  · intro h
    rw [← hlow, h]
    rfl
  · intro h
    apply BitVec.eq_of_toNat_eq
    rw [hlow, h]
    rfl

end Word

end KernelSmp.Base
