import KernelSmp.Syscall.Handler

/-! The dispatcher stays inside the table and inside user memory exactly when the number is below
the table's length and a printed string ends, or exceeds the length limit, before the user half does. -/

namespace KernelSmp.Syscall

open Base List BitVec

variable {κ : Type}

structure Safe (ptr : Word) (frame : InterruptFrame) (k : κ) (o : Outcome κ) : Prop where
  table : ∀ i, .table i ∈ o.accesses → i.toNat < sysTableLen
  dispatch : (∃ i h, initSysTable i = some h ∧ o.dispatched = some (.handler h)) ∨
    (o.dispatched = none ∧ o.frame = { frame with rax := -1 } ∧ o.kernel = k ∧ o.ret = ptr)
  user : ∀ a, .user a ∈ o.accesses → a ≤ userSpaceEnd

def KprintInBounds (user : Word → Byte) (str : Word) : Prop :=
  str = 0 ∨ str ≥ kernelSpaceStart ∨
    ∃ n ≤ 4096, str.toNat + n ≤ userSpaceEnd.toNat ∧ (n = 4096 ∨ user (str + BitVec.ofNat 64 n) = 0)

section scan

variable (user : Word → Byte) (str : Word)

lemma mem_strScan (fuel len : ℕ) (a : Word) :
    a ∈ (strScan user str fuel len).1 ↔
      ∃ j < fuel, a = str + BitVec.ofNat 64 (len + j) ∧
        ∀ i < j, user (str + BitVec.ofNat 64 (len + i)) ≠ 0 := by
  induction fuel generalizing len with
  | zero => simp [strScan]
  | succ fuel ih =>
    by_cases h : user (str + BitVec.ofNat 64 len) = 0
    · simp only [strScan, h, if_true, mem_singleton]
      constructor
      · rintro rfl
        exact ⟨0, by omega, rfl, by simp⟩
      · rintro ⟨j, _, rfl, hj⟩
        cases j with
        | zero => rfl
        | succ => exact (hj 0 (by omega) h).elim
    · simp only [strScan, h, if_false, mem_cons, ih]
      constructor
      · rintro (rfl | ⟨j, hj, rfl, hn⟩)
        · exact ⟨0, by omega, rfl, by simp⟩
        · refine ⟨j + 1, by omega, by rw [Nat.add_right_comm, Nat.add_assoc], ?_⟩
          intro i hi
          cases i with
          | zero => exact h
          | succ i =>
            have hh := hn i (by omega)
            rwa [Nat.add_right_comm, Nat.add_assoc] at hh
      · rintro ⟨j, _, rfl, hn⟩
        cases j with
        | zero => exact .inl rfl
        | succ j =>
          refine .inr ⟨j, by omega, by rw [Nat.add_right_comm, Nat.add_assoc], ?_⟩
          intro i hi
          have hh := hn (i + 1) (by omega)
          rwa [← Nat.add_assoc, Nat.add_right_comm] at hh

lemma strScan_some {fuel len l : ℕ} (h : (strScan user str fuel len).2 = some l) :
    len ≤ l ∧ l < len + fuel ∧ ∀ i < l - len, user (str + BitVec.ofNat 64 (len + i)) ≠ 0 := by
  induction fuel generalizing len with
  | zero => simp [strScan] at h
  | succ fuel ih =>
    by_cases hu : user (str + BitVec.ofNat 64 len) = 0
    · simp only [strScan, hu, if_true, Option.some.injEq] at h
      subst h
      exact ⟨le_rfl, by omega, by simp⟩
    · simp only [strScan, hu] at h
      obtain ⟨_, _, hn⟩ := ih h
      refine ⟨by omega, by omega, ?_⟩
      intro i hi
      cases i with
      | zero => exact hu
      | succ i =>
        have hh := hn i (by omega)
        rwa [Nat.add_right_comm, Nat.add_assoc] at hh

lemma kprintReads_scanned {fuel l : ℕ} (h : (strScan user str fuel 0).2 = some l) {a : Word}
    (ha : a ∈ kprintReads str l) : a ∈ (strScan user str fuel 0).1 := by
  obtain ⟨_, _, hn⟩ := strScan_some user str h
  simp only [kprintReads, mem_map, mem_range] at ha
  obtain ⟨j, _, rfl⟩ := ha
  apply (mem_strScan user str fuel 0 _).mpr
  exact ⟨j, by omega, by simp, fun i hi => hn i (by omega)⟩

lemma scan_toNat {str : Word} (hs : ¬ str ≥ kernelSpaceStart) {n : ℕ} (hn : n ≤ 4096) :
    (str + BitVec.ofNat 64 n).toNat = str.toNat + n := by
  apply Word.toNat_add_ofNat
  have hlt : str.toNat < 0xFFFF800000000000 := by
    simpa [kernelSpaceStart, le_def] using hs
  omega

lemma scan_bounds_iff (hz : str ≠ 0) (hs : ¬ str ≥ kernelSpaceStart) :
    (∀ a ∈ (strScan user str 4097 0).1, a ≤ userSpaceEnd) ↔ KprintInBounds user str := by
  simp only [KprintInBounds, hz, hs, false_or]
  constructor
  · intro h
    by_cases hnul : ∃ j, j ≤ 4096 ∧ user (str + BitVec.ofNat 64 j) = 0
    · classical
      let n := Nat.find hnul
      have hn := Nat.find_spec hnul
      have hmem : str + BitVec.ofNat 64 n ∈ (strScan user str 4097 0).1 := by
        apply (mem_strScan user str 4097 0 _).mpr
        refine ⟨n, by omega, by simp, ?_⟩
        intro i hi hu
        rw [Nat.zero_add] at hu
        exact Nat.find_min hnul hi ⟨by omega, hu⟩
      have hle := h _ hmem
      rw [le_def, scan_toNat hs hn.1] at hle
      exact ⟨n, hn.1, hle, .inr hn.2⟩
    · have hmem : str + BitVec.ofNat 64 4096 ∈ (strScan user str 4097 0).1 := by
        apply (mem_strScan user str 4097 0 _).mpr
        refine ⟨4096, by omega, rfl, ?_⟩
        intro i hi hu
        rw [Nat.zero_add] at hu
        exact hnul ⟨i, by omega, hu⟩
      have hle := h _ hmem
      rw [le_def, scan_toNat hs le_rfl] at hle
      exact ⟨4096, le_rfl, hle, .inl rfl⟩
  · rintro ⟨n, _, _, hstop⟩ a ha
    obtain ⟨j, _, rfl, hnz⟩ := (mem_strScan user str 4097 0 a).mp ha
    have hjn : j ≤ n := by
      rcases hstop with rfl | hu
      · omega
      · by_contra hlt
        have hne := hnz n (by omega)
        rw [Nat.zero_add] at hne
        exact hne hu
    rw [Nat.zero_add, le_def, scan_toNat hs (by omega)]
    omega

end scan

lemma sysKprint_bounds_iff (user : Word → Byte) (str : Word) :
    (∀ a ∈ (sysKprint user str).reads, a ≤ userSpaceEnd) ↔ KprintInBounds user str := by
  by_cases hz : str = 0
  · simp [sysKprint, KprintInBounds, hz]
  by_cases hs : str ≥ kernelSpaceStart
  · rw [sysKprint, if_neg hz, if_pos hs]
    simp [KprintInBounds, hs]
  rw [← scan_bounds_iff user str hz hs]
  have hreads : ∀ a, a ∈ (sysKprint user str).reads ↔ a ∈ (strScan user str 4097 0).1 := by
    intro a
    simp only [sysKprint, hz, hs, if_false]
    cases hr : strScan user str 4097 0 with
    | mk reads res =>
      cases res with
      | none => rfl
      | some =>
        dsimp only
        split
        · rw [mem_append, or_iff_left_of_imp]
          intro ha
          have hk := kprintReads_scanned user str (by rw [hr]) ha
          rwa [hr] at hk
        · rfl
  simp only [hreads]

lemma kprint_entry {num : Word} (h : num.toNat < sysTableLen) :
    initSysTable ⟨num.toNat, h⟩ = some .sysKprintHandler ↔ num = BitVec.ofNat 64 sysKprintNum := by
  have key : ∀ i : Fin sysTableLen, initSysTable i = some .sysKprintHandler ↔ i.val = sysKprintNum := by
    decide
  rw [key]
  constructor
  · intro hn
    exact eq_of_toNat_eq (by rw [show num.toNat = sysKprintNum from hn]; rfl)
  · rintro rfl
    rfl

lemma handler_reads (m : Machine κ) (frame : InterruptFrame) (k : κ) {h : Handler}
    (hk : h ≠ .sysKprintHandler) : (Target.call m frame k (.handler h)).reads = [] := by
  cases h <;> first | rfl | exact (hk rfl).elim

lemma safe_of_lt (m : Machine κ) (ptr : Word) (frame : InterruptFrame) (k : κ) (hlt : frame.rax.toNat < sysTableLen) :
    Safe ptr frame k (syscallHandler m ptr frame k) ↔
    (frame.rax = BitVec.ofNat 64 sysKprintNum → KprintInBounds m.user frame.rdi) := by
  rw [← kprint_entry hlt, ← sysKprint_bounds_iff]
  cases he : initSysTable ⟨frame.rax.toNat, hlt⟩ with
  | none =>
    have hread : sysTableRead m frame.rax = none := by rw [sysTableRead, dif_pos hlt, he]; rfl
    refine ⟨fun _ h => (by cases h), fun _ => ?_⟩
    simp only [syscallHandler, hread]
    exact ⟨by simpa using hlt, .inr ⟨rfl, rfl, rfl, rfl⟩, by simp⟩
  | some h =>
    have hread : sysTableRead m frame.rax = some (.handler h) := by
      rw [sysTableRead, dif_pos hlt, he]; rfl
    have haccess : (syscallHandler m ptr frame k).accesses = [.table frame.rax, .table frame.rax] ++
        (Target.call m frame k (.handler h)).reads.map .user := by simp only [syscallHandler, hread]
    have htarget : (syscallHandler m ptr frame k).dispatched = some (.handler h) := by
      simp only [syscallHandler, hread]
    have huser : (∀ a, .user a ∈ (syscallHandler m ptr frame k).accesses → a ≤ userSpaceEnd) ↔
        (some h = some .sysKprintHandler → ∀ a ∈ (sysKprint m.user frame.rdi).reads, a ≤ userSpaceEnd) := by
      by_cases hk : h = .sysKprintHandler
      · subst hk
        simp [haccess, Target.call]
      · simp [haccess, handler_reads m frame k hk, hk]
    rw [← huser]
    refine ⟨fun hs => hs.user, fun hs => ⟨?_, .inl ⟨_, _, he, htarget⟩, hs⟩⟩
    intro i hi
    have hi : i = frame.rax := by simpa [haccess] using hi
    exact hi ▸ hlt

lemma table_access (m : Machine κ) (ptr : Word) (frame : InterruptFrame) (k : κ) :
    Access.table frame.rax ∈ (syscallHandler m ptr frame k).accesses := by
  cases hr : sysTableRead m frame.rax <;> simp [syscallHandler, hr]

theorem syscallHandler_safe_iff (m : Machine κ) (ptr : Word) (frame : InterruptFrame) (k : κ) :
    Safe ptr frame k (syscallHandler m ptr frame k) ↔
      frame.rax.toNat < sysTableLen ∧
        (frame.rax = BitVec.ofNat 64 sysKprintNum → KprintInBounds m.user frame.rdi) := by
  constructor
  · intro h
    have hlt := h.table _ (table_access m ptr frame k)
    exact ⟨hlt, (safe_of_lt m ptr frame k hlt).mp h⟩
  · rintro ⟨hlt, hb⟩
    exact (safe_of_lt m ptr frame k hlt).mpr hb

def zeroFrame : InterruptFrame :=
  ⟨0, 0, 0, 0, 0, 0, 0, 0, 0, 0, 0, 0, 0, 0, 0, 0, 0, 0, 0, 0, 0, 0⟩

theorem syscallHandler_reads_past_table :
    ¬ Safe 0 { zeroFrame with rax := 20 } ()
      (syscallHandler ⟨fun _ => 0, fun _ => 0, fun _ _ _ => (0, ()), fun _ _ _ => (0, ())⟩ 0
        { zeroFrame with rax := 20 } ()) := by
  intro h
  have hlt := h.table 20 (by decide)
  exact absurd hlt (by decide)

end KernelSmp.Syscall
