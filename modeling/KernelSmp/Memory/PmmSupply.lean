import KernelSmp.Memory.UserSpaces

/-! With enough free frames `pmm_alloc_frame` refuses none, and pages are mapped to the end of their range. -/

namespace KernelSmp.Memory

open Base

section supply

variable {p : Pmm} {n : ℕ} {s : Paging Pmm} {pml4 table virt phys flags : Word}

lemma searchByte_some {bitmap : Mem} {fuel i j : ℕ} (hi : i ≤ j) (hj : j < i + fuel) (hpos : 0 < j) (hfree : bitmap j ≠ 0xFF)
    (hsmall : (i + fuel) * 8 ≤ 2 ^ 28) : ∃ r, searchByte bitmap fuel i = some r := by
  induction fuel generalizing i with
  | zero => omega
  | succ fuel ih =>
    have hnext : i ≠ j → ∃ r, searchByte bitmap fuel (i + 1) = some r := fun hne => ih (by omega) (by omega) (by omega)
    rw [searchByte]
    split
    · rename_i hfull
      exact hnext fun heq => hfree (heq ▸ hfull)
    · rename_i hbyte
      dsimp only
      split_ifs with hskip
      · exact ⟨_, rfl⟩
      · -- only frame 0 is passed over
        refine hnext ?_
        rintro rfl
        have hbits : ~~~(bitmap i) ≠ 0 := by
          intro hzero
          have hfull := congrArg (~~~ ·) hzero
          rw [BitVec.not_not] at hfull
          exact hbyte hfull
        refine hskip ⟨hbits, ctz_lt hbits, frameAddr_ne_zero ?_ (by omega)⟩
        have hlt := ctz_lt hbits
        rw [pageSize]
        omega

structure Available (n : ℕ) (p : Pmm) : Prop where
  placed : p.bitmapPtr ≠ 0
  small : p.Small
  free : ∃ S : Finset ℕ, n ≤ S.card ∧ ∀ k ∈ S, 8 ≤ k ∧ k < p.bitmapSize * 8 ∧ p.isSet k = false

lemma Available.alloc (h : Available (n + 1) p) : (pmmAllocFrame p none).1 ≠ 0 ∧ Available n (pmmAllocFrame p none).2 := by
  obtain ⟨S, _, hS⟩ := h.free
  obtain ⟨k, hk⟩ : S.Nonempty := Finset.card_pos.mp (by omega)
  obtain ⟨hlow, hhigh, hclear⟩ := hS k hk
  have hsmall := h.small
  rw [Pmm.Small] at hsmall
  have hbyte : p.bitmap (k / 8) ≠ 0xFF := by
    intro hfull
    rw [Pmm.isSet_eq, hfull] at hclear
    have hall : ∀ b < 8, (0xFF : Byte).getLsbD b = true := by decide
    rw [hall _ (Nat.mod_lt k (by decide))] at hclear
    cases hclear
  obtain ⟨⟨i, b⟩, hfound⟩ : ∃ r, searchByte p.bitmap (p.bitmapSize - 0) 0 = some r :=
    searchByte_some (Nat.zero_le _) (by omega) (by omega) hbyte (by omega)
  have hres : (pmmAllocFrame p none).1 ≠ 0 := by
    simp only [pmmAllocFrame, if_neg h.placed, Option.elim_none, hfound]
    exact (searchByte_spec hfound).2.2.2.2
  rcases pmmAllocFrame_spec p none with hnone | ⟨g, q, halloc, -, -, -, hsize, hptr, hbits⟩
  · rw [hnone] at hres
    exact absurd rfl hres
  refine ⟨hres, ?_⟩
  rw [halloc]
  refine ⟨hptr ▸ h.placed, by rw [Pmm.Small, hsize]; exact hsmall, S.erase g, ?_, fun j hj => ?_⟩
  · have herase := Finset.pred_card_le_card_erase (s := S) (a := g)
    omega
  · obtain ⟨hne, hj⟩ := Finset.mem_erase.mp hj
    obtain ⟨hlow, hhigh, hclear⟩ := hS j hj
    refine ⟨hlow, hsize ▸ hhigh, ?_⟩
    rw [hbits, hclear, decide_eq_false hne]
    rfl

lemma Available.mono {m : ℕ} (h : Available m p) (hle : n ≤ m) : Available n p := by
  obtain ⟨S, hcard, hS⟩ := h.free
  exact ⟨h.placed, h.small, S, hle.trans hcard, hS⟩

variable (flags table) in
lemma Available.mapTables (rest : List Index) (h : Available (n + rest.length) s.frames) :
    ∃ t, (mapTables (fun p => pmmAllocFrame p none) flags s table rest).1 = some t ∧
      Available n (Memory.mapTables (fun p => pmmAllocFrame p none) flags s table rest).2.frames := by
  induction rest generalizing s table with
  | nil => exact ⟨table, rfl, h⟩
  | cons i rest ih =>
    obtain ⟨hres, hnext⟩ := h.alloc
    simp only [Memory.mapTables]
    split
    · exact ih _ hnext
    · exact ih _ (h.mono (Nat.le_succ _))

variable (pml4 virt phys flags) in
lemma Available.map (h : Available (n + 3) s.frames) :
    (vmmMapUnlocked (fun p => pmmAllocFrame p none) s pml4 virt phys flags).1 = true ∧
      Available n (vmmMapUnlocked (fun p => pmmAllocFrame p none) s pml4 virt phys flags).2.frames := by
  obtain ⟨_, ht, hnext⟩ := h.mapTables pml4 flags [pml4Idx virt, pdptIdx virt, pdIdx virt]
  simp only [vmmMapUnlocked]
  split
  · rename_i hnone
    simp [hnone] at ht
  · rename_i hsome
    rw [hsome] at hnext
    exact ⟨rfl, hnext⟩

variable (pml4 virt phys flags) in
lemma Available.mapPages (count i : ℕ) (h : Available (n + 3 * count) s.frames) :
    (mapPages (fun p => pmmAllocFrame p none) pml4 virt phys flags s count i).1 = true ∧
      Available n (Memory.mapPages (fun p => pmmAllocFrame p none) pml4 virt phys flags s count i).2.frames := by
  induction count generalizing s i with
  | zero => exact ⟨rfl, h⟩
  | succ count ih =>
    have hone := h.map pml4 (virt + pageOffset i) (phys + pageOffset i) flags
    simp only [Memory.mapPages]
    split
    · rename_i heq
      rw [heq] at hone
      exact ih (i + 1) hone.2
    · rename_i heq
      rw [heq] at hone
      cases hone.1

end supply

end KernelSmp.Memory
