import KernelSmp.Memory.VmmInit

/-! Mapping a range for which the page tables cannot all be allocated, and mapping a device. -/

namespace KernelSmp.Memory.RangeRollback

open Base Base.Radix VmmRefinement Option BitVec

section rollback

variable {σ : Type}

/-- The 4 KiB operations of `vmm.c`; `none` is the panic of a mapping in the kernel half. -/
def pageOp (alloc : σ → Word × σ) (root : Word) (s : Paging σ) : PageOp → Option (Paging σ)
  | .map virt phys flags => vmmMap alloc s root virt phys flags
  | .mapRange virt phys size flags => vmmMapRange alloc s root virt phys size flags
  | .unmap virt => some ⟨vmmUnmap s.mem root virt, s.frames⟩
  | .unmapRange virt size => some ⟨vmmUnmapRange s.mem root virt size, s.frames⟩

abbrev TableOn (r : ℕ) (m : Mem) (p : List Index) (g : ℕ) : Prop := role (fun _ : Unit => some r) (tables m) () p = some g

structure Planted (S : FrameSource σ) (r : ℕ) (s : Paging σ) : Prop where
  ok : S.ok s.frames
  tree : TableTree r (tables s.mem) (S.used s.frames)

structure Adds (S : FrameSource σ) (r : ℕ) (s t : Paging σ) : Prop where
  planted : Planted S r t
  used : S.used s.frames ⊆ S.used t.frames
  kept : ∀ p g, TablePath p → TableOn r s.mem p g → TableOn r t.mem p g
  linked : ∀ g ∈ S.used t.frames, g ∈ S.used s.frames ∨ ∃ p, TablePath p ∧ TableOn r t.mem p g

variable {S : FrameSource σ} {r : ℕ} {s t u : Paging σ} {virt phys flags size : Word}

lemma Adds.refl (h : Planted S r s) : Adds S r s s := ⟨h, subset_rfl, fun _ _ _ hp => hp, fun _ hg => Or.inl hg⟩

lemma Adds.trans (h : Adds S r s t) (h' : Adds S r t u) : Adds S r s u where
  planted := h'.planted
  used := h.used.trans h'.used
  kept p g hp hg := h'.kept p g hp (h.kept p g hp hg)
  linked g hg := by
    rcases h'.linked g hg with hold | hnew
    · rcases h.linked g hold with hfirst | ⟨p, hp, hrole⟩
      · exact Or.inl hfirst
      · exact Or.inr ⟨p, hp, h'.kept p g hp hrole⟩
    · exact Or.inr hnew

lemma leafAt_page {T : ℕ → Index → Word} {v w : Word} (h : pageOf v = pageOf w) : leafAt r T v = leafAt r T w := by
  obtain ⟨hup, hpt⟩ := pageOf_eq_iff.mp h
  rw [leafAt_eq, leafAt_eq, tableAt, tableAt, hup, hpt]

lemma Planted.setLeaf (h : Planted S r s) {g : ℕ} (hg : tableAt r (tables s.mem) virt = some g) {e : Word} {m : Mem}
    (hm : tables m = set (tables s.mem) g (ptIdx virt) e) : Adds S r s ⟨m, s.frames⟩ where
  planted := ⟨h.ok, by rw [hm]; exact TableTree.setLeaf h.tree hg⟩
  used := subset_rfl
  kept p f hp hf := by rwa [TableOn, hm, role_setTableLeaf h.tree hg e hp]
  linked f hf := Or.inl hf

variable (virt phys flags) in
lemma Planted.map (h : Planted S r s) :
    let res := vmmMapUnlocked S.alloc s (frameAddr r) virt phys flags
    Adds S r s res.2 ∧ ∀ w, leafAt r (tables res.2.mem) w =
      if res.1 = true ∧ pageOf w = pageOf virt then some (leafEntry phys flags) else leafAt r (tables s.mem) w := by
  intro res
  obtain ⟨hok, T, hT, hgrown, hres⟩ := vmmMapUnlocked_spec phys flags h.ok h.tree rfl
    (le_refl 3)
  have hkept := fun p f (hp : TablePath p) => hgrown.kept () p f hp
  have hplaced : ∀ g ∈ S.used res.2.frames, g ∈ S.used s.frames ∨ ∃ p, TablePath p ∧
      role (fun _ : Unit => some r) T () p = some g := by
    intro g hg
    rcases hgrown.placed g hg with hold | ⟨_, p, hp, hrole⟩
    · exact Or.inl hold
    · exact Or.inr ⟨p, hp, hrole⟩
  rcases hres with ⟨hfail, hmem⟩ | ⟨hdone, pt, hpt, hmem⟩
  · rw [← hmem] at hT hgrown hkept hplaced
    refine ⟨⟨⟨hok, hT⟩, hgrown.used, hkept, hplaced⟩, fun w => ?_⟩
    rw [if_neg fun hand => absurd (hfail.symm.trans hand.1) (by decide)]
    exact leafAt_grown h.tree hgrown w
  · have hrole : ∀ {p}, TablePath p → role (fun _ : Unit => some r) (tables res.2.mem) () p =
        role (fun _ : Unit => some r) T () p := by
      intro p hp
      rw [hmem, role_setTableLeaf hT hpt _ hp]
    refine ⟨⟨⟨hok, by rw [hmem]; exact TableTree.setLeaf hT hpt⟩, hgrown.used, fun p f hp hf => ?_, fun g hg => ?_⟩,
      fun w => ?_⟩
    · exact (hrole hp).trans (hkept p f hp hf)
    · refine (hplaced g hg).imp id fun ⟨p, hp, hr⟩ => ⟨p, hp, (hrole hp).trans hr⟩
    · rw [hmem, leafAt_setLeaf hT hpt, leafEntry_present, leafAt_grown h.tree hgrown]
      simp only [show res.1 = true from hdone, true_and]

variable (virt) in
lemma Planted.unmap (h : Planted S r s) :
    Adds S r s ⟨vmmUnmapUnlocked s.mem (frameAddr r) virt, s.frames⟩ ∧
    ∀ w, leafAt r (tables (vmmUnmapUnlocked s.mem (frameAddr r) virt)) w =
      if pageOf w = pageOf virt then none else leafAt r (tables s.mem) w := by
  have hspec := vmmUnmapUnlocked_spec h.tree.small (m := s.mem) (r := ()) rfl virt
  rw [← tableAt] at hspec
  cases hg : tableAt r (tables s.mem) virt with
  | none =>
    rw [hg] at hspec
    dsimp only at hspec
    refine ⟨⟨⟨h.ok, hspec.symm ▸ h.tree⟩, subset_rfl, fun p g _ hp => ?_, fun g hg => .inl hg⟩, fun w => ?_⟩
    · rwa [TableOn, hspec]
    · rw [hspec]
      split
      next hw => rw [leafAt_eq, tableAt, (pageOf_eq_iff.mp hw).1, ← tableAt, hg, bind_none]
      next => rfl
  | some =>
    rw [hg] at hspec
    refine ⟨h.setLeaf hg hspec, fun w => ?_⟩
    rw [hspec, leafAt_setLeaf h.tree hg]
    rfl

def OnPages (virt : Word) (n : ℕ) (w : Word) : Prop := ∃ j < n, pageOf w = pageOf (virt + pageOffset j)

open Classical in
lemma Planted.unmapPages (h : Planted S r s) (virt : Word) (n : ℕ) :
    Adds S r s ⟨unmapPages s.mem (frameAddr r) virt n, s.frames⟩ ∧
    ∀ w, leafAt r (tables (Memory.unmapPages s.mem (frameAddr r) virt n)) w =
      if OnPages virt n w then none else leafAt r (tables s.mem) w := by
  induction n with
  | zero =>
    refine ⟨.refl h, fun w => (if_neg ?_).symm⟩
    rintro ⟨j, hj, -⟩
    exact absurd hj (Nat.not_lt_zero j)
  | succ n ih =>
    obtain ⟨hadds, hleaf⟩ := ih
    obtain ⟨hadds', hleaf'⟩ := hadds.planted.unmap (virt + pageOffset n)
    refine ⟨hadds.trans hadds', fun w => (hleaf' w).trans ?_⟩
    rw [hleaf w]
    by_cases hlast : pageOf w = pageOf (virt + pageOffset n)
    · rw [if_pos hlast, if_pos ⟨n, Nat.lt_succ_self n, hlast⟩]
    · rw [if_neg hlast]
      refine if_congr ⟨?_, ?_⟩ rfl rfl
      · rintro ⟨j, hj, hw⟩
        exact ⟨j, Nat.lt_succ_of_lt hj, hw⟩
      · rintro ⟨j, hj, hw⟩
        rcases Nat.lt_succ_iff_lt_or_eq.mp hj with hlt | rfl
        · exact ⟨j, hlt, hw⟩
        · exact absurd hw hlast

lemma numPages_lt (size : Word) : numPages size < 2 ^ 52 := by
  rw [numPages, pageSize]
  omega

open Classical in
lemma Planted.mapPages (n : ℕ) {i : ℕ} (h : Planted S r s) (hn : i + n < 2 ^ 52) :
    let res := mapPages S.alloc (frameAddr r) virt phys flags s n i
    Adds S r s res.2 ∧ (res.1 = false → ∃ k < i + n, i ≤ k ∧
      ∀ w, leafAt r (tables res.2.mem) w = if OnPages virt k w then none else leafAt r (tables s.mem) w) := by
  induction n generalizing s i with
  | zero => exact ⟨.refl h, fun hfail => by cases hfail⟩
  | succ n ih =>
    obtain ⟨hadds, hleaf⟩ := h.map (virt + pageOffset i) (phys + pageOffset i) flags
    simp only [Memory.mapPages]
    rcases hres : vmmMapUnlocked S.alloc s (frameAddr r) (virt + pageOffset i) (phys + pageOffset i) flags with ⟨b, t⟩
    rw [hres] at hadds hleaf
    cases b with
    | true =>
      obtain ⟨hrest, hfail⟩ := ih hadds.planted (show i + 1 + n < 2 ^ 52 by omega)
      refine ⟨hadds.trans hrest, fun hfalse => ?_⟩
      obtain ⟨k, _, _, hrolled⟩ := hfail hfalse
      refine ⟨k, by omega, by omega, fun w => (hrolled w).trans ?_⟩
      split
      next => rfl
      next hout => exact (hleaf w).trans (if_neg fun hand => hout ⟨i, by omega, hand.2⟩)
    | false =>
      have hsame := fun w => (hleaf w).trans (if_neg fun hand => absurd hand.1 Bool.false_ne_true)
      obtain ⟨hback, hrolled⟩ := hadds.planted.unmapPages virt i
      dsimp only
      by_cases hi : i > 0
      · rw [if_pos hi, vmmUnmapRangeUnlocked, numPages_pageOffset (by omega)]
        refine ⟨hadds.trans hback, fun _ => ⟨i, by omega, le_refl i, fun w => ?_⟩⟩
        rw [hrolled w, hsame w]
      · rw [if_neg hi]
        refine ⟨hadds, fun _ => ⟨i, by omega, le_refl i, fun w => ?_⟩⟩
        rw [hsame w, if_neg]
        rintro ⟨_, _, -⟩
        omega

lemma Planted.step (h : Planted S r s) {op : PageOp} (hstep : pageOp S.alloc (frameAddr r) s op = some t) : Planted S r t := by
  cases op with
  | map virt phys flags =>
    rw [← checkMapped_eq hstep]
    exact (h.map virt phys flags).1.planted
  | mapRange virt phys size =>
    rw [← checkMapped_eq hstep]
    exact (h.mapPages (numPages size) (by have := numPages_lt size; omega)).1.planted
  | unmap virt =>
    cases hstep
    exact (h.unmap virt).1.planted
  | unmapRange virt size =>
    cases hstep
    exact (h.unmapPages virt (numPages size)).1.planted

lemma Planted.run (h : Planted S r s) {ops : List PageOp} (hrun : Runs.run (pageOp S.alloc (frameAddr r)) s ops = some t) :
    Planted S r t :=
  (Runs.invariant (fun _ _ _ h _ hstep => Planted.step h hstep) h (Runs.unguarded s ops)).last hrun

lemma Planted.translate (h : Planted S r s) (h' : Planted S r t) {w : Word}
    (hleaf : leafAt r (tables t.mem) w = leafAt r (tables s.mem) w) :
    vmmVirtualToPhysical t.mem (frameAddr r) w = vmmVirtualToPhysical s.mem (frameAddr r) w := by
  rw [leafAt, leafAt] at hleaf
  rcases h.tree.walk_cases (r := ()) rfl (le_refl 3) with ⟨hnone, hphys, -⟩
    | ⟨e, hsome, hphys, -⟩ <;>
    rcases h'.tree.walk_cases (r := ()) rfl (show TablePath (upperPath w) from le_refl 3) with
      ⟨hnone', hphys', -⟩ | ⟨e', hsome', hphys', -⟩
  · rw [hphys, hphys']
  · simp [hnone, hsome'] at hleaf
  · simp [hsome, hnone'] at hleaf
  · rw [hsome, hsome'] at hleaf
    rw [hphys, hphys', Option.some.inj hleaf]

lemma Planted.unmapped (h : Planted S r s) {w : Word} (hw : walkEntries s.mem (frameAddr r) w = none) :
    leafAt r (tables s.mem) w = none := by
  rcases h.tree.walk_cases rfl (le_refl 3) with
    ⟨hnone, -⟩ | ⟨e, -, -, g₁, g₂, g₃, hwalk⟩
  · exact hnone
  · simp [hw] at hwalk

end rollback

section device

open VmmInit

variable {f : ℕ} {s t : Paging Pmm} {cpu : Option ℕ} {phys size : Word}

lemma pageAlignDown_toNat (a : Word) : (pageAlignDown a).toNat = a.toNat / 4096 * 4096 := by
  have hmask : a &&& ~~~0xFFF = a &&& BitVec.ofNat 64 ((2 ^ 52 - 1) * 2 ^ 12) := rfl
  rw [pageAlignDown, hmask, Word.toNat_and_field _ 12 52 (by decide)]
  omega

lemma translate_toNat (h : KernelTree f s) (w : Word) :
    (vmmVirtualToPhysical s.mem (frameAddr f) w).toNat =
      ((leafAt f (tables s.mem) w).map fun e => frameOf e * 4096 + w.toNat % 4096).getD 0 := by
  rcases h.wired.walk_cases rfl (le_refl 3) with ⟨hnone, hphys, -⟩
    | ⟨e, hsome, hphys, -⟩
  · rw [hphys, leafAt, hnone]
    rfl
  · have hframe := frameOf_lt e
    rw [hphys, leafAt, hsome, and_addrMask, translate_some hframe, toNat_ofNat, pageSize, map_some,
      getD_some]
    omega

lemma vmmMapDevice_cases (h : KernelTree f s) (hphys : phys.toNat < 2 ^ 40) {r : Word}
    (hmap : vmmMapDevice (fun p => pmmAllocFrame p cpu) s (frameAddr f) (physToVirt phys) phys size = some (r, t)) :
    r = physToVirt phys + (phys - pageAlignDown phys) ∧ KernelTree f t ∧
      Written f (physToVirt phys) (pageAlignDown phys) (framebufferCall phys size).flags 0
        (framebufferCall phys size).count s t := by
  obtain ⟨_, hu, heq⟩ := map_eq_some_iff.mp hmap
  obtain ⟨rfl, rfl⟩ := Prod.mk.inj heq
  have hhigh : physToVirt phys ≥ hhdmOffset := by
    rw [ge_iff_le, le_def, physToVirt, BitVec.toNat_add, show hhdmOffset.toNat = 2 ^ 64 - 2 ^ 47 from rfl]
    omega
  obtain ⟨hdone, hresult⟩ := checkMapped_some hhigh hu
  have hwritten := MapCall.run_written (c := framebufferCall phys size) h hdone
  change KernelTree f (vmmMapRangeUnlocked _ s _ _ _ _ _).2 ∧
    Written f _ _ _ 0 _ s (vmmMapRangeUnlocked _ s _ _ _ _ _).2 at hwritten
  rw [hresult] at hwritten
  exact ⟨rfl, hwritten⟩

lemma deviceFlags : (framebufferCall phys size).flags &&& vmmAddrMask = 0 := by
  rw [framebufferCall, MapCall.flags]
  decide

lemma device_leaf (halign : phys.toNat % 4096 = 0) (hend : phys.toNat + size.toNat ≤ 2 ^ 40)
    (hwritten : Written f (physToVirt phys) phys (framebufferCall phys size).flags 0 (framebufferCall phys size).count s t)
    {k : Word} (hk : k.toNat < size.toNat) :
    (leafAt f (tables t.mem) (physToVirt phys + k)).map frameOf = some ((phys.toNat + k.toNat) / 4096) := by
  have hdown : pageAlignDown phys = phys := by
    apply eq_of_toNat_eq
    rw [pageAlignDown_toNat]
    omega
  have hcount : (framebufferCall phys size).count = (size.toNat + 4095) / 4096 := by
    have hup : (pageAlignUp size).toNat = (size.toNat + 4095) / 4096 * 4096 := by
      rw [pageAlignUp, ← pageAlignDown, pageAlignDown_toNat, BitVec.toNat_add, show (0xFFF : Word).toNat = 4095 from rfl]
      omega
    rw [framebufferCall, MapCall.count, hdown, BitVec.sub_self, BitVec.add_zero, numPages, pageSize, toNat_sub,
      BitVec.toNat_add, hup, show (BitVec.ofNat 64 4096).toNat = 4096 from rfl, show (1 : Word).toNat = 1 from rfl]
    omega
  have hpage := physToVirt_page phys
  have hpageK : pageOf (physToVirt phys + k) = (phys.toNat + k.toNat) / 4096 + 2 ^ 35 := by
    have hsum : physToVirt phys + k = physToVirt (phys + k) := by
      rw [physToVirt, physToVirt, BitVec.add_assoc, BitVec.add_comm hhdmOffset k, ← BitVec.add_assoc]
    have hnat : (phys + k).toNat = phys.toNat + k.toNat := by
      rw [BitVec.toNat_add]
      omega
    rw [hsum, pageOf_physToVirt (by omega), hnat]
  have hpages : ∀ j, pageOf (physToVirt phys + pageOffset j) = ((physToVirt phys).toNat / 4096 + j) % 2 ^ 36 := pageOf_add _
  rcases hwritten (physToVirt phys + k) with ⟨hout, -⟩ | ⟨j, -, hj, heq, hleaf⟩
  · refine absurd ?_ (hout (k.toNat / 4096) (Nat.zero_le _) (by omega))
    rw [hpageK, hpages]
    omega
  · rw [hpageK, hpages] at heq
    rw [hleaf, map_some, frameOf_leafEntry' _ deviceFlags, frame_add, pageSize]
    congr 1
    omega

end device

lemma emptyMemory_tree : KernelTree 1 VmmInit.emptyMemory := by
  refine ⟨VmmInit.emptyMemory_available.small, (tableTree_empty (by decide) (fun i => ?_) ?_).1⟩
  · rw [← entry_frameAddr _ (by decide)]
    simp [VmmInit.emptyMemory, entry, Mem.load64, Mem.readLE]
  · change VmmInit.emptyMemory.frames.isSet 1 = true
    decide +kernel

end KernelSmp.Memory.RangeRollback
