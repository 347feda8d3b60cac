import KernelSmp.Base.Words

/-! Waiting for an interrupt to be sent. The loop of `lapic_wait_for_delivery` does not look at the time-out that it counts
down, so that it ends only with the pending bit. -/

namespace KernelSmp.Smp.Lapic

open Base BitVec

variable (icr : ℕ → BitVec 32)

def Pending (i : ℕ) : Prop := icr i &&& 0x1000 ≠ 0

instance (i : ℕ) : Decidable (Pending icr i) := inferInstanceAs (Decidable (_ ≠ _))

def pollLoop : ℕ → ℕ → Word → Option (ℕ × Word)
  | 0, _, _ => none
  | fuel + 1, i, timeout => if Pending icr i then pollLoop fuel (i + 1) (timeout - 1) else some (i, timeout)

inductive Ended
  | returned
  | panicked
deriving DecidableEq, Repr

def lapicWaitForDelivery (fuel : ℕ) : Option (ℕ × Ended) :=
  (pollLoop icr fuel 0 1000000).map fun (reads, timeout) => (reads, if timeout = 0 then .panicked else .returned)

variable {icr} {fuel i k : ℕ}

lemma pollLoop_of_pending (timeout : Word) (h : ∀ j, i ≤ j → j < i + fuel → Pending icr j) :
    pollLoop icr fuel i timeout = none := by
  induction fuel generalizing i timeout with
  | zero => rfl
  | succ fuel ih =>
    rw [pollLoop, if_pos (h i le_rfl (by omega))]
    exact ih (timeout - 1) fun j hj hlt => h j (by omega) (by omega)

lemma pollLoop_add (timeout : Word) (h : ∀ j, i ≤ j → j < i + k → Pending icr j) (hclear : ¬ Pending icr (i + k)) :
    pollLoop icr (k + fuel + 1) i timeout = some (i + k, timeout - BitVec.ofNat 64 k) := by
  induction k generalizing i timeout with
  | zero =>
    rw [Nat.add_zero] at hclear
    rw [pollLoop, if_neg hclear]
    exact congrArg some (Prod.ext rfl (BitVec.sub_zero timeout).symm)
  | succ k ih =>
    have hstep := ih (timeout - 1) (fun j hj hlt => h j (by omega) (by omega))
      (show ¬ Pending icr (i + 1 + k) by rwa [show i + 1 + k = i + (k + 1) by omega])
    rw [show k + 1 + fuel + 1 = k + fuel + 1 + 1 by omega, pollLoop, if_pos (h i le_rfl (by omega)), hstep]
    refine congrArg some (Prod.ext (by omega) ?_)
    rw [ofNat_add]
    bv_omega

lemma lapicWaitForDelivery_of_clear (h : ∀ j < k, Pending icr j) (hclear : ¬ Pending icr k) (hfuel : k < fuel) :
    lapicWaitForDelivery icr fuel = some (k, if k % 2 ^ 64 = 1000000 then .panicked else .returned) := by
  obtain ⟨rest, rfl⟩ := Nat.exists_eq_add_of_lt hfuel
  have hrun : pollLoop icr (k + rest + 1) 0 1000000 = _ := pollLoop_add 1000000 (fun j _ hlt => h j (by omega))
    (show ¬ Pending icr (0 + k) by rwa [Nat.zero_add])
  have hzero : (1000000 : Word) - BitVec.ofNat 64 k = 0 ↔ k % 2 ^ 64 = 1000000 := by
    rw [← toNat_inj, toNat_sub, toNat_ofNat]
    change (2 ^ 64 - k % 2 ^ 64 + 1000000) % 2 ^ 64 = 0 ↔ _
    omega
  rw [lapicWaitForDelivery, hrun, Option.map_some, Nat.zero_add]
  simp only [hzero]

lemma lapicWaitForDelivery_of_pending (h : ∀ j, Pending icr j) (fuel : ℕ) : lapicWaitForDelivery icr fuel = none := by
  rw [lapicWaitForDelivery, pollLoop_of_pending 1000000 fun j _ _ => h j]
  rfl

variable (icr) in
def Bounded : Prop :=
  ∃ fuel n ended, lapicWaitForDelivery icr fuel = some (n, ended) ∧ n ≤ 1000000 ∧
    (ended = .panicked ↔ ∀ i < 1000000, Pending icr i) ∧ (ended = .returned ↔ ∃ i < 1000000, ¬ Pending icr i)

lemma lapicWaitForDelivery_first (h : ∃ i, ¬ Pending icr i) : ∃ k, (∀ j < k, Pending icr j) ∧ ¬ Pending icr k ∧
    ∀ fuel, k < fuel → lapicWaitForDelivery icr fuel = some (k, if k % 2 ^ 64 = 1000000 then .panicked else .returned) := by
  have hbefore : ∀ j < Nat.find h, Pending icr j := fun j hj => not_not.mp (Nat.find_min h hj)
  exact ⟨Nat.find h, hbefore, Nat.find_spec h, fun fuel => lapicWaitForDelivery_of_clear hbefore (Nat.find_spec h)⟩

theorem bounded_iff (icr : ℕ → BitVec 32) : Bounded icr ↔ ∃ i ≤ 1000000, ¬ Pending icr i := by
  constructor
  · rintro ⟨fuel, n, ended, hrun, hn, -⟩
    by_cases hall : ∀ j, Pending icr j
    · rw [lapicWaitForDelivery_of_pending hall] at hrun
      cases hrun
    · obtain ⟨k, hbefore, hclear, hends⟩ := lapicWaitForDelivery_first (not_forall.mp hall)
      by_cases hfuel : k < fuel
      · rw [hends fuel hfuel] at hrun
        cases hrun
        exact ⟨_, hn, hclear⟩
      · rw [lapicWaitForDelivery, pollLoop_of_pending 1000000 fun j _ hlt => hbefore j (by omega)] at hrun
        cases hrun
  · rintro ⟨i, hi, hnot⟩
    obtain ⟨k, hbefore, hclear, hends⟩ := lapicWaitForDelivery_first ⟨i, hnot⟩
    have hk : k ≤ 1000000 := by
      by_contra hlt
      exact hnot (hbefore i (by omega))
    refine ⟨k + 1, k, _, hends _ (Nat.lt_succ_self k), hk, ?_⟩
    rw [Nat.mod_eq_of_lt (by omega)]
    rcases hk.lt_or_eq with hlt | rfl
    · rw [if_neg hlt.ne]
      exact ⟨⟨Ended.noConfusion, fun hall => absurd (hall k hlt) hclear⟩, ⟨fun _ => ⟨k, hlt, hclear⟩, fun _ => rfl⟩⟩
    · rw [if_pos rfl]
      exact ⟨⟨fun _ => hbefore, fun _ => rfl⟩, ⟨Ended.noConfusion, fun ⟨i, hlt, hi⟩ => absurd (hbefore i hlt) hi⟩⟩

theorem unbounded : (∀ fuel, lapicWaitForDelivery (fun _ => 0x1000) fuel = none) ∧
    lapicWaitForDelivery (fun i => if i < 1000001 then 0x1000 else 0) 1000002 = some (1000001, .returned) := by
  refine ⟨lapicWaitForDelivery_of_pending fun _ => ?_, lapicWaitForDelivery_of_clear (k := 1000001) (fun j hj => ?_) ?_
    (by decide)⟩
  · change ¬ (0x1000 : BitVec 32) &&& 0x1000 = 0
    decide
  · rw [Pending, if_pos hj]
    decide
  · rw [Pending, if_neg (lt_irrefl _)]
    decide

end KernelSmp.Smp.Lapic
