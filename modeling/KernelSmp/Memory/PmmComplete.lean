import KernelSmp.Memory.PmmBoot

/-! Which free frames `pmm_alloc_frame` and `pmm_alloc_frames` find. -/

namespace KernelSmp.Memory.PmmComplete

open Base Base.Runs Function Option

section single

variable {p : Pmm} {cpu : Option ℕ}

inductive Call
  | allocFrame (cpu : Option ℕ)
  | allocFrames (count : ℕ)
  | freeFrame (cpu : Option ℕ) (frame : Word)

def step (p : Pmm) : Call → Option Pmm
  | .allocFrame cpu => some (pmmAllocFrame p cpu).2
  | .allocFrames count => some (pmmAllocFrames p count).2
  | .freeFrame cpu frame => some (pmmFreeFrame p cpu frame)

def Full (p : Pmm) : Prop := ∀ k < p.bitmapSize * 8, p.isSet k = true

def Complete (p : Pmm) : Prop := ∀ cpu, (pmmAllocFrame p cpu).1 = 0 → Full p

def Seen (p : Pmm) : Call → Prop
  | .allocFrame _ | .allocFrames _ => True
  | .freeFrame cpu frame =>
    frame = 0 ∨ frameIndex frame ≠ 0 ∧ ∀ c, cpu ≠ some c → p.pmmLastIndex c ≤ frameIndex frame / 8

structure Behind (p : Pmm) : Prop where
  placed : p.bitmapPtr ≠ 0
  fits : p.Fits
  zero : p.isSet 0 = true
  used : ∀ c, ∀ k < p.pmmLastIndex c * 8, p.isSet k = true

lemma isSet_of_full {k : ℕ} (h : p.bitmap (k / 8) = 0xFF) : p.isSet k = true := by
  have hall : ∀ b < 8, (0xFF : Byte).getLsbD b = true := by decide
  rw [Pmm.isSet_eq, h]
  exact hall _ (Nat.mod_lt k (by decide))

lemma searchByte_passed {bitmap : Mem} (hzero : (bitmap 0).getLsbD 0 = true) (fuel i : ℕ)
    (hfits : (i + fuel) * 8 * pageSize ≤ 2 ^ 64) :
    ∀ j, i ≤ j → j < (searchByte bitmap fuel i).elim (i + fuel) Prod.fst → bitmap j = 0xFF := by
  induction fuel generalizing i with
  | zero =>
    intro j hij hj
    rw [searchByte, elim_none] at hj
    omega
  | succ fuel ih =>
    have hnext : bitmap i = 0xFF →
        ∀ j, i ≤ j → j < (searchByte bitmap fuel (i + 1)).elim (i + 1 + fuel) Prod.fst → bitmap j = 0xFF := by
      intro hfull j hij hj
      rcases eq_or_lt_of_le hij with rfl | hlt
      · exact hfull
      · exact ih (i + 1) (by rwa [show i + 1 + fuel = i + (fuel + 1) by omega]) j hlt hj
    rw [show i + (fuel + 1) = i + 1 + fuel by omega, searchByte]
    split
    next hfull => exact hnext hfull
    next hfree =>
      dsimp only
      split
      next =>
        intro j hij hj
        rw [elim_some] at hj
        omega
      next hskip =>
        exfalso
        have hbits : ~~~(bitmap i) ≠ 0 := by
          intro hz
          have hfull := congrArg (~~~ ·) hz
          rw [BitVec.not_not] at hfull
          exact hfree hfull
        have hlt := ctz_lt hbits
        have hclear := ctz_spec hlt
        -- the only frame with address 0 is frame 0, and that one is in use
        refine hskip ⟨hbits, hlt, frameAddr_ne_zero ?_ ?_⟩
        · rw [pageSize] at hfits ⊢
          omega
        · intro hz
          obtain ⟨rfl, hctz⟩ : i = 0 ∧ ctz (~~~(bitmap i)) = 0 := by omega
          rw [hctz, BitVec.getLsbD_not, hzero] at hclear
          cases hclear

lemma Behind.hint_used (h : Behind p) (cpu : Option ℕ) : ∀ k < cpu.elim 0 p.pmmLastIndex * 8, p.isSet k = true := by
  intro k hk
  cases cpu with
  | none =>
    rw [elim_none] at hk
    omega
  | some c => exact h.used c k hk

lemma Behind.searched (h : Behind p) (cpu : Option ℕ) {start : ℕ} (hstart : start = cpu.elim 0 p.pmmLastIndex)
    (hle : start ≤ p.bitmapSize) :
    ∀ k < (searchByte p.bitmap (p.bitmapSize - start) start).elim p.bitmapSize Prod.fst * 8, p.isSet k = true := by
  intro k hk
  rcases Nat.lt_or_ge k (start * 8) with hlow | hhigh
  · exact h.hint_used cpu k (hstart ▸ hlow)
  · have hzero := h.zero
    rw [Pmm.isSet_eq] at hzero
    have hfits := h.fits
    refine isSet_of_full (searchByte_passed hzero (p.bitmapSize - start) start ?_ (k / 8) (by omega) ?_)
    · rwa [Nat.add_sub_cancel' hle]
    · rw [Nat.add_sub_cancel' hle]
      omega

lemma Behind.complete (h : Behind p) : Complete p := by
  intro cpu hnull
  rw [pmmAllocFrame, if_neg h.placed] at hnull
  dsimp only at hnull
  generalize hstart : cpu.elim 0 p.pmmLastIndex = start at hnull
  split at hnull
  next hnone =>
    intro k hk
    rcases Nat.lt_or_ge p.bitmapSize start with hpast | hle
    · exact h.hint_used cpu k (by rw [hstart]; omega)
    · apply h.searched cpu hstart.symm hle k
      rwa [hnone, elim_none]
  next i b hsome => exact absurd hnull (searchByte_spec hsome).2.2.2.2

lemma Behind.allocFrame (h : Behind p) (cpu : Option ℕ) : Behind (pmmAllocFrame p cpu).2 := by
  rw [pmmAllocFrame, if_neg h.placed]
  dsimp only
  generalize hstart : cpu.elim 0 p.pmmLastIndex = start
  split
  next => exact h
  next i b hsome =>
    have hkept : ∀ k, p.isSet k = true → (p.setBit (i * 8 + b)).isSet k = true := by
      intro k hk
      rw [Pmm.isSet_setBit, hk, Bool.true_or]
    obtain ⟨_, _, -⟩ := searchByte_spec hsome
    have hpassed := h.searched cpu hstart.symm (by omega)
    rw [hsome, elim_some] at hpassed
    refine ⟨h.placed, h.fits, hkept 0 h.zero, fun c k hk => hkept k ?_⟩
    cases cpu with
    | none => exact h.used c k hk
    | some d =>
      change k < update p.pmmLastIndex d i c * 8 at hk
      by_cases hcd : c = d
      · rw [hcd, update_self] at hk
        exact hpassed k hk
      · rw [update_of_ne hcd] at hk
        exact h.used c k hk

lemma markRun_hints (p : Pmm) (start n : ℕ) : (markRun p start n).pmmLastIndex = p.pmmLastIndex := by
  induction n with
  | zero => rfl
  | succ n ih => exact ih

lemma pmmAllocFrames_hints (p : Pmm) (count : ℕ) : (pmmAllocFrames p count).2.pmmLastIndex = p.pmmLastIndex := by
  rw [pmmAllocFrames]
  split
  · rfl
  · split
    · rfl
    · exact markRun_hints p _ count

lemma pmmAllocFrame_hint {c : ℕ} (hc : cpu ≠ some c) : (pmmAllocFrame p cpu).2.pmmLastIndex c = p.pmmLastIndex c := by
  rw [pmmAllocFrame]
  split
  · rfl
  · dsimp only
    split
    · rfl
    · cases cpu with
      | none => rfl
      | some => exact update_of_ne (fun he => hc (congrArg some he.symm)) _ _

lemma Behind.allocFrames (h : Behind p) (count : ℕ) : Behind (pmmAllocFrames p count).2 := by
  have hhints := pmmAllocFrames_hints p count
  obtain he | ⟨start, q, he, -, -, hsize, hptr, hbits⟩ := pmmAllocFrames_spec p count
  · rwa [he]
  · rw [he] at hhints ⊢
    have hkept : ∀ k, p.isSet k = true → q.isSet k = true := by
      intro k hk
      rw [hbits, hk, Bool.true_or]
    refine ⟨hptr ▸ h.placed, ?_, hkept 0 h.zero, fun c k hk => hkept k (h.used c k ?_)⟩
    · rw [Pmm.Fits, hsize]
      exact h.fits
    · rwa [← hhints]

lemma Behind.freeFrame (h : Behind p) {frame : Word} (hseen : Seen p (.freeFrame cpu frame)) :
    Behind (pmmFreeFrame p cpu frame) := by
  rw [pmmFreeFrame]
  split
  next => exact h
  next hframe =>
    obtain ⟨hpage, hothers⟩ := hseen.resolve_left hframe
    have hkept : ∀ k, k ≠ frameIndex frame → p.isSet k = true → (pmmUnsetFrame p frame).isSet k = true := by
      intro k hne hk
      rw [pmmUnsetFrame, Pmm.isSet_clearBit, hk, decide_eq_true hne, Bool.and_true]
    -- whoever frees, no hint is above the byte of the freed frame afterwards, and none has risen
    have hlow : ∀ c, (cpu.elim p.pmmLastIndex fun d => if frameIndex frame / 8 < p.pmmLastIndex d
        then update p.pmmLastIndex d (frameIndex frame / 8) else p.pmmLastIndex) c
          ≤ min (p.pmmLastIndex c) (frameIndex frame / 8) := by
      intro c
      cases cpu with
      | none =>
        have := hothers c (by simp)
        simp only [elim_none]
        omega
      | some d =>
        simp only [elim_some]
        rcases eq_or_ne c d with rfl | hcd
        · split
          · rw [update_self]
            omega
          · omega
        · have := hothers c fun he => hcd (Option.some.inj he).symm
          split
          · rw [update_of_ne hcd]
            omega
          · omega
    refine ⟨h.placed, h.fits, hkept 0 hpage.symm h.zero, fun c k hk => ?_⟩
    have hle := hlow c
    change k < (cpu.elim p.pmmLastIndex fun d => if frameIndex frame / 8 < p.pmmLastIndex d
      then update p.pmmLastIndex d (frameIndex frame / 8) else p.pmmLastIndex) c * 8 at hk
    exact hkept k (by omega) (h.used c k (by omega))

lemma Behind.step {q : Pmm} {a : Call} (h : Behind p) (hseen : Seen p a) (hstep : step p a = some q) : Behind q := by
  cases a with
  | allocFrame cpu =>
    cases hstep
    exact h.allocFrame cpu
  | allocFrames count =>
    cases hstep
    exact h.allocFrames count
  | freeFrame =>
    cases hstep
    exact h.freeFrame hseen

theorem alloc_complete (phys : Mem) (bi : BootInfo) (p : Pmm) (hinit : pmmInit phys (fun _ => 0) bi = some p)
    (hplaced : p.bitmapPtr ≠ 0) (calls : List Call) (hseen : Guarded step Seen p calls) :
    Always step Complete p calls := by
  obtain ⟨hzero, hfits⟩ := PmmRuns.pmmInit_spec hinit
  obtain ⟨-, -, hhints⟩ := PmmBoot.pmmInit_keeps hinit
  have hbehind : Behind p := by
    refine ⟨hplaced, hfits, hzero, fun c k hk => ?_⟩
    rw [hhints] at hk
    exact absurd hk (by simp)
  refine Always.mono (fun q hq => hq.complete) (invariant ?_ hbehind hseen)
  exact fun q a r hq ha hr => hq.step ha hr

def tightBoot : BootInfo := ⟨[⟨7, 0x1000, 1⟩, ⟨7, 0x100000, 16⟩], 0x100000, 0x1000⟩

theorem alloc_complete_tightBoot :
    ∃ p, pmmInit (fun _ => 0) (fun _ => 0) tightBoot = some p ∧
      Always step Complete p [.allocFrame (some 0), .allocFrames 2, .freeFrame (some 0) (frameAddr 258)] := by
  obtain ⟨p, hinit, hplaced⟩ : ∃ p, pmmInit (fun _ => 0) (fun _ => 0) tightBoot = some p ∧ p.bitmapPtr ≠ 0 :=
    ⟨_, rfl, by decide⟩
  obtain ⟨-, -, hhints⟩ := PmmBoot.pmmInit_keeps hinit
  refine ⟨p, hinit, alloc_complete (fun _ => 0) tightBoot p hinit hplaced _ ?_⟩
  refine ⟨trivial, fun q hq => ⟨trivial, fun r hr => ⟨.inr ⟨by decide, fun c hc => ?_⟩, fun _ _ => trivial⟩⟩⟩
  cases hq
  cases hr
  rw [pmmAllocFrames_hints, pmmAllocFrame_hint hc, hhints]
  exact Nat.zero_le _

theorem alloc_incomplete :
    ∃ p q, pmmInit (fun _ => 0) (fun _ => 0) tightBoot = some p ∧ p.bitmapPtr ≠ 0 ∧
      run step p (List.replicate 14 (.allocFrame (some 0)) ++ [.freeFrame (some 1) (frameAddr 258)]) = some q ∧
      (pmmAllocFrame q (some 0)).1 = 0 ∧ 258 < q.bitmapSize * 8 ∧ q.isSet 258 = false :=
  ⟨_, _, rfl, by decide, rfl, by decide +kernel, by decide +kernel, by decide +kernel⟩

end single

section contiguous

variable {p : Pmm} {count : ℕ}

def IsRun (p : Pmm) (count start : ℕ) : Prop := ∀ j < count, start + j < p.bitmapSize * 8 ∧ p.isSet (start + j) = false

instance (p : Pmm) (count start : ℕ) : Decidable (IsRun p count start) :=
  inferInstanceAs (Decidable (∀ j < count, start + j < p.bitmapSize * 8 ∧ p.isSet (start + j) = false))

def firstRun (p : Pmm) (count : ℕ) : Option ℕ := (List.range (p.bitmapSize * 8)).find? fun start => IsRun p count start

lemma firstRun_eq_some {start : ℕ} (hcount : 1 ≤ count) (hrun : IsRun p count start) (hfirst : ∀ s < start, ¬ IsRun p count s) :
    firstRun p count = some start := by
  have hlt := (hrun 0 hcount).1
  rw [firstRun, List.find?_range_eq_some]
  refine ⟨decide_eq_true hrun, List.mem_range.mpr hlt, fun s hs => ?_⟩
  rw [decide_eq_false (hfirst s hs)]
  rfl

lemma firstRun_eq_none (hnone : ∀ s, ¬ IsRun p count s) : firstRun p count = none := by
  rw [firstRun, List.find?_eq_none]
  intro s _ hs
  exact hnone s (of_decide_eq_true hs)

lemma full_qword {i : ℕ} (h : p.bitmap.load64 (8 * i) = 0xFFFFFFFFFFFFFFFF) {k : ℕ} (hlow : i * 64 ≤ k)
    (hhigh : k < i * 64 + 64) : p.isSet k = true := by
  have hones : p.bitmap.readLE (8 * i) 8 = Mem.readLE (fun _ => 0xFF) (8 * i) 8 := by
    have hlt : p.bitmap.readLE (8 * i) 8 < 2 ^ 64 := (p.bitmap.readLE_lt (8 * i) 8).trans_eq (by norm_num)
    have hval := congrArg BitVec.toNat h
    rw [Mem.load64, BitVec.toNat_ofNat, Nat.mod_eq_of_lt hlt] at hval
    rw [hval]
    simp [Mem.readLE]
  have hbyte := Mem.readLE_inj hones (k / 8 - 8 * i) (by omega)
  rw [Nat.add_sub_cancel' (by omega)] at hbyte
  exact isSet_of_full hbyte

lemma searchQword_passed (p : Pmm) (count i fuel b : ℕ) :
    ∀ s, i * 64 + b ≤ s → s < (searchQword p count i fuel b).elim (i * 64 + b + fuel) id → ¬ IsRun p count s := by
  induction fuel generalizing b with
  | zero =>
    intro s hlow hhigh
    rw [searchQword, elim_none] at hhigh
    omega
  | succ fuel ih =>
    rw [searchQword]
    split
    next =>
      intro s hlow hhigh
      rw [elim_some, id] at hhigh
      omega
    next hne =>
      intro s hlow hhigh
      rcases eq_or_lt_of_le hlow with rfl | hlt
      · exact fun hrun => hne ((freeFound_eq_iff p count _).mpr hrun)
      · apply ih (b + 1) s (by omega)
        rwa [show i * 64 + (b + 1) + fuel = i * 64 + b + (fuel + 1) by omega]

lemma searchRun_passed (p : Pmm) (hcount : 1 ≤ count) (fuel i : ℕ) :
    ∀ s, i * 64 ≤ s → s < (searchRun p count fuel i).elim ((i + fuel) * 64) id → ¬ IsRun p count s := by
  induction fuel generalizing i with
  | zero =>
    intro s hlow hhigh
    rw [searchRun, elim_none] at hhigh
    omega
  | succ fuel ih =>
    -- no run starts in a qword that the loop leaves behind
    have hnext : (∀ s, i * 64 ≤ s → s < i * 64 + 64 → ¬ IsRun p count s) →
        ∀ s, i * 64 ≤ s → s < (searchRun p count fuel (i + 1)).elim ((i + (fuel + 1)) * 64) id → ¬ IsRun p count s := by
      intro hqword s hlow hhigh
      rcases Nat.lt_or_ge s (i * 64 + 64) with hin | hout
      · exact hqword s hlow hin
      · apply ih (i + 1) s (by omega)
        rwa [show i + 1 + fuel = i + (fuel + 1) by omega]
    rw [searchRun]
    split
    next hfull =>
      refine hnext fun s hlow hhigh hrun => ?_
      have hset := full_qword hfull hlow hhigh
      have hfree := (hrun 0 hcount).2
      simp [hset] at hfree
    next =>
      have hqword := searchQword_passed p count i 64 0
      split
      next start hsome =>
        rwa [hsome] at hqword
      next hnone =>
        rw [hnone] at hqword
        exact hnext hqword

def oneQword : Pmm := ⟨0x1000, fun j => if j = 0 then 0b10001001 else 0xFF, 8, fun _ => 0⟩

end contiguous

end KernelSmp.Memory.PmmComplete
