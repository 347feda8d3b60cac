import KernelSmp.Memory.Kernel

/-! The pages of a range that is mapped to its end. -/

namespace KernelSmp.Memory

open Base Base.Radix

variable {σ R : Type} {S : FrameSource σ} {roots : R → Option ℕ} {valid : List Index → Prop} {r : R} {f : ℕ} {virt phys : Word}

section pages

variable [DecidableEq R] {flags : Word} {s : Paging σ}

lemma vmmMapUnlocked_leaf (phys flags : Word) (hdeep : ∀ q, valid q → q.length ≤ 4) (hok : S.ok s.frames)
    (h : Wired roots valid (tables s.mem) (S.used s.frames)) (hroot : roots r = some f) (hv : valid (leafPath virt))
    (hres : (vmmMapUnlocked S.alloc s (frameAddr f) virt phys flags).1 = true) :
    leafOf roots (tables (vmmMapUnlocked S.alloc s (frameAddr f) virt phys flags).2.mem) r virt =
      some (leafEntry phys flags) := by
  have hup := h.closed _ _ hv
  obtain ⟨-, _, hT, -, ⟨hfalse, -⟩ | ⟨-, pt, hpt, hmem⟩⟩ := vmmMapUnlocked_spec phys flags hok h hroot hup
  · simp [hres] at hfalse
  · rw [hmem, leafOf_setLeaf hT hdeep hpt hup r hup, if_pos ⟨rfl, rfl⟩, leafEntry_present]

lemma vmmMapUnlocked_rows (phys flags : Word) (hok : S.ok s.frames)
    (h : Wired roots valid (tables s.mem) (S.used s.frames)) (hroot : roots r = some f)
    (hv : valid (leafPath virt)) {g : ℕ} (hg : g ∈ S.used s.frames) (hleaf : OnlyLeaf roots valid (tables s.mem) g) :
    tables (vmmMapUnlocked S.alloc s (frameAddr f) virt phys flags).2.mem g = tables s.mem g := by
  have hup := h.closed _ _ hv
  obtain ⟨-, T, _, hgrown, hres⟩ := vmmMapUnlocked_spec phys flags hok h hroot hup
  have hrow : T g = tables s.mem g := by
    funext j
    refine hgrown.rows g j hg fun r' p hr hlen hjp => ?_
    have hdeep := hleaf r' p (h.closed _ _ hjp) hr
    omega
  rcases hres with ⟨-, hmem⟩ | ⟨-, pt, hpt, hmem⟩
  · rw [hmem, hrow]
  · rw [hmem, ← hrow]
    funext j
    apply set_of_ne
    rintro ⟨rfl, -⟩
    have hdeep := (hgrown.evolves h.closed).onlyLeaf hg hleaf r _ hup hpt
    cases hdeep

lemma mapPages_leaves (hdeep : ∀ q, valid q → q.length ≤ 4) (hroot : roots r = some f) {start : ℕ} (n : ℕ)
    {i : ℕ} (hok : S.ok s.frames) (h : Wired roots valid (tables s.mem) (S.used s.frames))
    (hv : ∀ j < i + n, valid (leafPath (virt + pageOffset j)))
    (hinj : ∀ j < i + n, ∀ k < i + n, leafPath (virt + pageOffset j) = leafPath (virt + pageOffset k) → j = k)
    (htarget : ∀ j < i + n, target (leafEntry (phys + pageOffset j) flags) = some (start + j))
    (hused : ∀ j < i + n, start + j ∈ S.used s.frames)
    (hfree : ∀ j < i + n, i ≤ j → Unlinked roots valid (tables s.mem) (start + j))
    (hres : (mapPages S.alloc (frameAddr f) virt phys flags s n i).1 = true) :
    let t := (mapPages S.alloc (frameAddr f) virt phys flags s n i).2
    (∀ j < i + n, i ≤ j → leafOf roots (tables t.mem) r (virt + pageOffset j) = some (leafEntry (phys + pageOffset j) flags)) ∧
    (∀ w, valid (leafPath w) → (∀ j < i + n, i ≤ j → leafPath w ≠ leafPath (virt + pageOffset j)) →
      leafOf roots (tables t.mem) r w = leafOf roots (tables s.mem) r w) ∧
    ∀ g ∈ S.used s.frames, OnlyLeaf roots valid (tables s.mem) g → tables t.mem g = tables s.mem g := by
  induction n generalizing s i with
  | zero =>
    refine ⟨fun j hj hij => ?_, fun _ _ _ => rfl, fun _ _ _ => rfl⟩
    omega
  | succ n ih =>
    obtain ⟨hmapped, hrest⟩ : Remapped S roots valid ∅ r (fun q _ => q = leafPath (virt + pageOffset i)) s
        (vmmMapUnlocked S.alloc s (frameAddr f) (virt + pageOffset i) (phys + pageOffset i) flags).2 ∧ _ :=
          vmmMapUnlocked_wired hdeep hok h
      (Set.empty_subset _) hroot (hv i (by omega)) (htarget i (by omega)) (hused i (by omega)) (Set.notMem_empty _)
      (hfree i (by omega) le_rfl) rfl
    have hleaf := vmmMapUnlocked_leaf (phys + pageOffset i) flags hdeep hok h hroot (hv i (by omega))
    have hrow := fun g => vmmMapUnlocked_rows (phys + pageOffset i) flags (g := g) hok h hroot (hv i (by omega))
    simp only [mapPages] at hres ⊢
    split at hres
    · rename_i t heq
      rw [heq] at hmapped hrest hleaf hrow
      obtain ⟨hset, hkept, hrows⟩ := ih hmapped.ok hmapped.wired (fun j hj => hv j (by omega))
        (fun j hj k hk => hinj j (by omega) k (by omega)) (fun j hj => htarget j (by omega))
        (fun j hj => hmapped.used (hused j (by omega)))
        (fun j hj hij => hrest (start + j) (hused j (by omega)) (by omega) (hfree j (by omega) (by omega))) hres
      refine ⟨fun j hj hij => ?_, fun w hw hout => ?_, fun g hg honly => ?_⟩
      · rcases Nat.eq_or_lt_of_le hij with rfl | hlt
        · -- the pages after this one leave it alone
          rw [hkept _ (hv i (by omega)) fun k hk hik heq' => absurd (hinj i (by omega) k (by omega) heq') (by omega)]
          exact hleaf rfl
        · exact hset j (by omega) hlt
      · rw [hkept w hw fun j hj hij => hout j (by omega) (by omega)]
        exact (hmapped.leaves r w hw).resolve_right fun hchange => hout i (by omega) le_rfl hchange.2
      · rw [hrows g (hmapped.used hg) (hmapped.onlyLeaf g hg honly)]
        exact hrow g hg honly
    · cases hres

end pages

variable {cpu : Option ℕ} {addr size : Word} {s' : Vm}

section back

variable [DecidableEq R] {flags : BitVec 32} {s : Vm}

lemma MapsRun.leaves (hrun : MapsRun s cpu addr size flags s') (hrange : addr.toNat + size.toNat ≤ 2 ^ 47)
    (h : Spaces roots s.mem s.pmm) (hroot : roots r = some f) (hcr3 : s.task.cr3 = frameAddr f)
    (hsupplied : VmaRanges.Supplied s cpu addr size flags) :
    ∃ start, 0 < start ∧ start + (roundUp size).toNat / 4096 ≤ 2 ^ 28 ∧
      (∀ j < (roundUp size).toNat / 4096, start + j ∉ usedFrames s.pmm ∧
        leafOf roots (tables s'.mem) r (addr + pageOffset j) =
          some (leafEntry (frameAddr (start + j)) ((vmmOpts flags).setWidth 64)) ∧
        ∀ x < 4096, s'.mem (4096 * (start + j) + x) = 0) ∧
      (∀ w, UserPath (leafPath w) → (∀ j < (roundUp size).toNat / 4096, leafPath w ≠ leafPath (addr + pageOffset j)) →
        leafOf roots (tables s'.mem) r w = leafOf roots (tables s.mem) r w) ∧
      ∀ g ∈ usedFrames s.pmm, OnlyLeaf roots UserPath (tables s.mem) g → tables s'.mem g = tables s.mem g := by
  obtain ⟨haligned, _, pmm, s₁, halloc, hphys, hback, hpages⟩ := hrun
  obtain ⟨hsize, _⟩ := roundUp_range haligned hrange
  rw [(Vm.pages_eq.mp hpages).1]
  rw [VmaRanges.Supplied, halloc] at hsupplied
  obtain ⟨-, hres⟩ := hsupplied
  obtain ⟨hspaces, hmono, start, hpos, rfl, hstart, -, hdata⟩ := allocFrames_data h halloc hphys
  have hrange' : addr.toNat + (roundUp size).toNat / 4096 * pageSize ≤ 2 ^ 47 := by omega
  obtain ⟨hrun, -, -, -, hfill, hrows⟩ :=
    backRange_remapped (s := { s with pmm }) hspaces hroot hcr3 hsize hrange' hstart hmono hdata hback
  rw [vmmMapRangeUnlocked, hcr3, numPages_of_toNat hsize (by omega)] at hres
  obtain ⟨hset, hkept, hcontents⟩ := mapPages_leaves (S := pmmSource cpu) (fun q hq => UserPath.length_le hq) hroot
    (s := ⟨s.mem, pmm⟩) ((roundUp size).toNat / 4096) hspaces.small hspaces.wired
    (fun j hj => userPath_pageOffset hrange' (by omega))
    (fun j hj k hk => leafPath_pageOffset_inj hrange' (by omega) (by omega))
    (fun j hj => target_backing_offset flags (by omega)) (fun j hj => (hdata j (by omega)).1)
    (fun j hj _ => (hdata j (by omega)).2.2) hres
  have hsame : ∀ w, UserPath (leafPath w) → leafOf roots (tables s₁.mem) r w =
      leafOf roots (tables (mapPages (pmmSource cpu).alloc (frameAddr f) addr (frameAddr start)
        ((vmmOpts flags).setWidth 64) ⟨s.mem, pmm⟩ ((roundUp size).toNat / 4096) 0).2.mem) r w :=
    fun w hw => leafOf_congr hrun.wired.closed hrows hw
  refine ⟨start, hpos, hstart, fun j hj => ⟨(hdata j hj).2.1, ?_, fun x hx => ?_⟩, fun w hw hout => ?_, fun g hg honly => ?_⟩
  · rw [hsame _ (userPath_pageOffset hrange' hj), hset j (by omega) (by omega), frameAddr_add]
  · obtain ⟨_, -, hs₁⟩ := Option.bind_eq_some_iff.mp hback
    cases hs₁
    refine if_pos ?_
    rw [frameAddr_toNat (by omega), pageSize]
    omega
  · rw [hsame w hw]
    exact hkept w hw fun j hj _ => hout j (by omega)
  · rw [← hcontents g (hmono hg) honly]
    funext j
    apply hfill
    by_contra hin
    have hfree := (hdata (g - start) (by omega)).2.1
    rw [show start + (g - start) = g by omega] at hfree
    exact hfree hg

end back

end KernelSmp.Memory
