import KernelSmp.Memory.UserBytes
import KernelSmp.Memory.VmaLookup

/-! One call of `vma_map` or `vma_unmap` and the pages of the task: what is mapped, what is covered by an area, and
which frames are taken or given back. -/

namespace KernelSmp.Memory.VmaRanges

open Base Base.Radix Base.LinkedTree Function List Option BitVec

variable {f : ℕ} {s s' : Vm} {cpu : Option ℕ} {kmalloc : Option Word} {addr size : Word} {pmm : Pmm} {flags : BitVec 32}
  {code : Int}

structure Untouched (s s' : Vm) : Prop where
  task : s'.task = s.task
  areas : ∀ a ∈ vmas s, s'.areas a = s.areas a
  translations : ∀ v, vmmVirtualToPhysical s'.mem s'.task.cr3 v = vmmVirtualToPhysical s.mem s.task.cr3 v
  frames : usedFrames s'.pmm = usedFrames s.pmm

def FreshlyBacked (s s' : Vm) (addr size : Word) : Prop :=
  ∃ frame : ℕ → ℕ, (∀ j < size.toNat / 4096, ∀ k < size.toNat / 4096, frame j = frame k → j = k) ∧
    ∀ j < size.toNat / 4096, frame j ∉ usedFrames s.pmm ∧ frame j ∈ usedFrames s'.pmm ∧ frameAddr (frame j) ≠ 0 ∧
      vmmVirtualToPhysical s'.mem s'.task.cr3 (addr + pageOffset j) = frameAddr (frame j) ∧
      ∀ x < 4096, s'.mem (4096 * frame j + x) = 0

def CoveredBy (s : Vm) (addr size : Word) (flags : BitVec 32) : Prop :=
  ∃ a ∈ vmas s, (s.areas a).vmFlags = flags ∧ (s.areas a).vmStart ≤ addr ∧ addr.toNat + size.toNat ≤ (s.areas a).vmEnd.toNat

lemma usedFrames_of_refusal {p : Pmm} {count : ℕ} (hsmall : p.Small) (hreserved : 0 ∈ usedFrames p)
    (halloc : pmmAllocFrames p count = (0, pmm)) : usedFrames pmm = usedFrames p := by
  obtain ⟨-, ⟨-, hsame⟩ | ⟨start, hphys, hstart, hpos, hfree, -⟩⟩ := pmmAllocFrames_frames hsmall halloc
  · exact hsame
  · have hzero : start = 0 := by
      by_contra hne
      exact frameAddr_ne_zero (by rw [pageSize]; omega) hne hphys.symm
    have hfirst := hfree 0 hpos
    rw [hzero] at hfirst
    exact absurd hreserved hfirst

lemma untouched_of_failure (h : Paged f s) (hreserved : 0 ∈ usedFrames s.pmm) (hfresh : ∀ new ∈ kmalloc, new ∉ vmas s)
    (hmap : vmaMap s cpu kmalloc addr size flags = some (code, s')) (hcode : code ≠ 0) : Untouched s s' := by
  cases vmaMap_cases hmap with
  | refused => exact ⟨rfl, fun _ _ => rfl, fun _ => rfl, rfl⟩
  | expandFailed _ halloc =>
    exact ⟨rfl, fun _ _ => rfl, fun _ => rfl, usedFrames_of_refusal h.spaces.small hreserved halloc⟩
  | expanded => exact absurd rfl hcode
  | insertFailed hnew halloc =>
    refine ⟨rfl, fun a ha => update_of_ne ?_ _ _, fun _ => rfl, usedFrames_of_refusal h.spaces.small hreserved halloc⟩
    rintro rfl
    exact hfresh a hnew ha
  | inserted => exact absurd rfl hcode

lemma Paged.run_fresh (h : Paged f s) (hrange : addr.toNat + size.toNat ≤ 2 ^ 47) (hsupplied : Supplied s cpu addr size flags)
    (hrun : MapsRun s cpu addr size flags s') : FreshlyBacked s s' addr (roundUp size) := by
  obtain ⟨hpaged, -⟩ := h.run hrange hrun
  obtain ⟨hsize, _⟩ := roundUp_range hrun.aligned hrange
  have haddr := aligned_iff.mp hrun.aligned
  obtain ⟨start, _, _, hleaves, -⟩ := hrun.leaves hrange h.spaces rfl h.cr3 hsupplied
  refine ⟨fun j => start + j, fun j _ k _ => Nat.add_left_cancel, fun j hj => ?_⟩
  dsimp only
  obtain ⟨hfree, hleaf, hzero⟩ := hleaves j hj
  have hoffset : (addr + pageOffset j).toNat = addr.toNat + j * 4096 := pageOffset_toNat (by rw [pageSize]; omega)
  have hframe := frameOf_leafEntry (show start + j < 2 ^ 28 by omega) (vmmOpts_and_mask flags)
  have hused := (hpaged.frame (by omega) hleaf).1
  have hphysical := hpaged.virtualToPhysical (by omega) (by omega) hleaf
  rw [hframe] at hused hphysical
  exact ⟨hfree, hused, frameAddr_ne_zero (by rw [pageSize]; omega) (by omega), hphysical, hzero⟩

def lastFrame : Vm := { blankVm with pmm := { blankVm.pmm with bitmap := fun i => if i = 32 then 0xFE else 0xFF } }

variable {s₁ u : Vm} {stop a v : Word}

def framesBetween (s : Vm) (lo hi : ℕ) : Set ℕ :=
  {g | ∃ v e, lo ≤ v.toNat ∧ v.toNat < hi ∧ leafEntryOf s v = some e ∧ frameOf e = g}

structure Emptied (f : ℕ) (s : Vm) (lo hi : ℕ) (u : Vm) : Prop where
  paged : Paged f u
  leaves : ∀ v : Word, v.toNat < 2 ^ 47 → leaf f u.mem v = leaf f s.mem v ∨ leaf f u.mem v = none ∧ lo ≤ v.toNat ∧ v.toNat < hi
  frames : usedFrames u.pmm = usedFrames s.pmm \
    {g | ∃ v e, v.toNat < 2 ^ 47 ∧ leaf f s.mem v = some e ∧ leaf f u.mem v = none ∧ frameOf e = g}

lemma Emptied.refl (h : Paged f s) (lo hi : ℕ) : Emptied f s lo hi s := by
  refine ⟨h, fun v _ => .inl rfl, ?_⟩
  rw [eq_comm, sdiff_eq_left, Set.disjoint_right]
  rintro g ⟨v, e, -, hsome, hnone, -⟩
  simp [hsome] at hnone

lemma Emptied.unmapPage {lo hi : ℕ} (h : Emptied f s lo hi u)
    (hframe : ∀ v e, v.toNat < 2 ^ 47 → leaf f s.mem v = some e → frameOf e ≠ 0) (huser : a.toNat < 2 ^ 47)
    (hlo : lo ≤ a.toNat / 4096 * 4096) (hhi : a.toNat / 4096 * 4096 + 4096 ≤ hi) : Emptied f s lo hi (unmapPage u cpu a) := by
  rcases unmapPage_cases cpu h.paged.spaces rfl h.paged.cr3 huser with ⟨-, hsame⟩ | ⟨e, hleaf, -, -, -, -, hused⟩
  · rwa [hsame]
  obtain ⟨hspaces, -, -, hchange, -, htask⟩ : Spaces (oneRoot f) (Memory.unmapPage u cpu a).mem
    (Memory.unmapPage u cpu a).pmm ∧ _ :=
    unmapPage_spaces h.paged.spaces rfl h.paged.cr3 huser
  have hold : leaf f s.mem a = some e := by
    rcases h.leaves a huser with hsame | ⟨hnone, -⟩
    · exact hsame.symm.trans hleaf
    · cases hnone.symm.trans hleaf
  have hgone : leaf f (Memory.unmapPage u cpu a).mem a = none := by
    refine unmapPage_leaf h.paged.spaces rfl h.paged.cr3 huser fun e' he' => ?_
    cases hleaf.symm.trans he'
    exact hframe a e huser hold
  have hleaves : ∀ v : Word, v.toNat < 2 ^ 47 → leaf f (Memory.unmapPage u cpu a).mem v = leaf f u.mem v ∨
      leaf f (Memory.unmapPage u cpu a).mem v = none ∧ v.toNat / 4096 = a.toNat / 4096 := by
    intro v hv
    exact (hchange () v (userPath_of_lt hv)).imp id fun hpage => ⟨hpage.2.2, (leafPath_eq hv huser).mp hpage.2.1⟩
  refine ⟨⟨by rw [htask, h.paged.cr3], hspaces⟩, fun v hv => ?_, ?_⟩
  · rcases hleaves v hv with hsame | ⟨hnone, hpage⟩
    · rw [hsame]
      exact h.leaves v hv
    · exact .inr ⟨hnone, by omega, by omega⟩
  · rw [hused, h.frames]
    ext g
    constructor
    · rintro ⟨⟨hg, hkept⟩, hne⟩
      refine ⟨hg, ?_⟩
      rintro ⟨v, e', hv, hsome, hnone, rfl⟩
      rcases hleaves v hv with hsame | ⟨-, hpage⟩
      · exact hkept ⟨v, e', hv, hsome, hsame.symm.trans hnone, rfl⟩
      · rw [leaf_congr_page s.mem hv huser hpage, hold] at hsome
        exact hne (congrArg frameOf (Option.some.inj hsome).symm)
    · rintro ⟨hg, hkept⟩
      refine ⟨⟨hg, ?_⟩, ?_⟩
      · rintro ⟨v, e', hv, hsome, hnone, rfl⟩
        refine hkept ⟨v, e', hv, hsome, ?_, rfl⟩
        rcases hleaves v hv with hsame | ⟨hnone', -⟩
        · exact hsame.trans hnone
        · exact hnone'
      · rintro rfl
        exact hkept ⟨a, e, huser, hold, hgone, rfl⟩

lemma Paged.unmap_exact (h : Paged f s) (hframe : ∀ v e, v.toNat < 2 ^ 47 → leaf f s.mem v = some e → frameOf e ≠ 0)
    (haddr : addr.toNat % 4096 = 0) (hstop : stop.toNat % 4096 = 0) (huser : stop.toNat ≤ 2 ^ 47) {fuel : ℕ}
    (hpages : Word.forBelow (BitVec.ofNat 64 pageSize) stop (fun s vaddr => unmapPage s cpu vaddr) fuel addr s = some s₁) :
    Paged f s₁ ∧ (∀ v : Word, v.toNat < 2 ^ 47 →
      leaf f s₁.mem v = if addr.toNat ≤ v.toNat ∧ v.toNat < stop.toNat then none else leaf f s.mem v) ∧
    usedFrames s₁.pmm = usedFrames s.pmm \ framesBetween s addr.toNat stop.toNat := by
  have hemptied : Emptied f s addr.toNat stop.toNat s₁ := by
    refine Word.forBelow_invariant (Q := fun a => addr.toNat ≤ a.toNat ∧ a.toNat % 4096 = 0)
     
      (fun a ha hq => ?_) (fun w a ha hq hw => ?_) ⟨le_rfl, haddr⟩ (.refl h _ _) hpages
    · have hlt := lt_def.mp ha
      have hnext : (a + BitVec.ofNat 64 pageSize).toNat = a.toNat + 4096 := Word.toNat_add_ofNat (by rw [pageSize]; omega)
      omega
    · have hlt := lt_def.mp ha
      exact hw.unmapPage hframe (by omega) (by omega) (by omega)
  obtain ⟨-, hgone⟩ := h.unmap hframe huser hpages
  have hleaves : ∀ v : Word, v.toNat < 2 ^ 47 →
      leaf f s₁.mem v = if addr.toNat ≤ v.toNat ∧ v.toNat < stop.toNat then none else leaf f s.mem v := by
    intro v hv
    split_ifs with hin
    · exact hgone v (by omega) (by omega)
    · exact (hemptied.leaves v hv).resolve_right fun hnone => hin hnone.2
  refine ⟨hemptied.paged, hleaves, ?_⟩
  rw [hemptied.frames]
  congr 1
  ext g
  constructor
  · rintro ⟨v, e, hv, hsome, hnone, rfl⟩
    rcases hemptied.leaves v hv with hsame | ⟨-, hlow, hhigh⟩
    · simp [hsame, hsome] at hnone
    · exact ⟨v, e, hlow, hhigh, (h.leafEntryOf_eq hv).trans hsome, rfl⟩
  · rintro ⟨v, e, hlow, hhigh, hentry, rfl⟩
    have hv := hhigh.trans_le huser
    refine ⟨v, e, hv, (h.leafEntryOf_eq hv).symm.trans hentry, ?_, rfl⟩
    rw [hleaves v hv, if_pos ⟨hlow, hhigh⟩]

def coveredAddrs (s : Vm) : Set ℕ := {x | ∃ a ∈ vmas s, x ∈ covered (s.areas a)}

structure Exact (f : ℕ) (s : Vm) : Prop where
  paged : Paged f s
  linked : Linked s (vmas s)
  disjoint : ∀ a ∈ vmas s, ∀ b ∈ vmas s, a ≠ b → Disjoint (covered (s.areas a)) (covered (s.areas b))
  inside : ∀ a ∈ vmas s, (s.areas a).vmEnd.toNat ≤ 2 ^ 47
  frames : ∀ v e, v.toNat < 2 ^ 47 → leaf f s.mem v = some e → frameOf e ≠ 0
  mapped : ∀ v : Word, v.toNat < 2 ^ 47 → ((leafEntryOf s v).isSome ↔ v.toNat ∈ coveredAddrs s)

def ReachesEnd (s : Vm) (addr size : Word) : Prop :=
  ∀ a ∈ vmas s, overlaps addr size (s.areas a) → Contains addr (s.areas a) ∧ (s.areas a).vmEnd ≤ addr + size

instance (s : Vm) (addr size : Word) : Decidable (ReachesEnd s addr size) := List.decidableBAll _ (vmas s)

lemma mem_coveredAddrs_iff {l : List Word} {r : Word → Word × Word × BitVec 32} (hvmas : vmas s = l)
    (hr : ∀ a ∈ l, rangeOf s a = r a) {x : ℕ} : x ∈ coveredAddrs s ↔ ∃ a ∈ l, (r a).1.toNat ≤ x ∧ x < (r a).2.1.toNat := by
  change (∃ a ∈ vmas s, x ∈ covered (s.areas a)) ↔ _
  rw [hvmas]
  refine exists_congr fun a => and_congr_right fun ha => ?_
  rw [← hr a ha]
  rfl

lemma coveredAddrs_unmap (h : Exact f s) (hsize : size ≠ 0) (hrange : addr.toNat + size.toNat ≤ 2 ^ 47)
    (hcut : ReachesEnd s addr size)
    (hunmap : vmaUnmap s cpu addr size = some (0, s')) :
    coveredAddrs s' = coveredAddrs s \ Set.Ico addr.toNat (addr.toNat + size.toNat) := by
  have hstop : (addr + size).toNat = addr.toNat + size.toNat := toNat_add_of_lt (by omega)
  have hpos : size.toNat ≠ 0 := fun hzero => hsize (eq_of_toNat_eq hzero)
  -- the area that is found is the only one that meets the range
  have hapart : ∀ vma ∈ vmas s, (s.areas vma).vmStart ≤ addr → addr < (s.areas vma).vmEnd →
      (s.areas vma).vmEnd.toNat ≤ addr.toNat + size.toNat ∧
      ∀ a ∈ vmas s, a ≠ vma → ∀ x, x ∈ covered (s.areas a) → ¬ (addr.toNat ≤ x ∧ x < addr.toNat + size.toNat) := by
    intro vma hvma hfrom hto
    have hover : overlaps addr size (s.areas vma) := by
      rw [overlaps, decide_eq_true_eq]
      refine ⟨hto, lt_def.mpr ?_⟩
      have hle := le_def.mp hfrom
      omega
    have hend := le_def.mp (hcut vma hvma hover).2
    rw [hstop] at hend
    refine ⟨hend, fun a ha hne x hx hin => ?_⟩
    have hover' : overlaps addr size (s.areas a) := by
      rw [overlaps, decide_eq_true_eq]
      refine ⟨lt_def.mpr (hin.1.trans_lt hx.2), lt_def.mpr ?_⟩
      have hle := hx.1
      omega
    have hcontains := (hcut a ha hover').1
    exact Set.disjoint_left.mp (h.disjoint a ha vma hvma hne) ⟨hcontains.1, lt_def.mp hcontains.2⟩
      ⟨hfrom, lt_def.mp hto⟩
  cases h.linked.unmap hunmap with
  | refused hrefused => exact absurd rfl (hrefused.resolve_left hsize)
  | kept vma hvma hfrom hto hshort =>
    have hend := (hapart vma hvma hfrom hto).1
    rw [lt_def, hstop] at hshort
    omega
  | trimmed vma hvma hfrom hto hend hlinked hsame hrangeOf =>
    obtain ⟨hend', hothers⟩ := hapart vma hvma (BitVec.le_of_lt hfrom) hto
    have hto' := lt_def.mp hto
    ext x
    rw [mem_coveredAddrs_iff hlinked.vmas_eq fun _ _ => rfl]
    constructor
    · rintro ⟨a, ha, hx⟩
      by_cases hne : a = vma
      · rw [hne, hrangeOf] at hx
        dsimp only at hx
        exact ⟨⟨vma, hvma, hx.1, by omega⟩, fun hin => absurd hin.1 (by omega)⟩
      · rw [hsame a ha hne] at hx
        exact ⟨⟨a, ha, hx⟩, hothers a ha hne x hx⟩
    · rintro ⟨⟨a, ha, hx⟩, hout⟩
      refine ⟨a, ha, ?_⟩
      by_cases hne : a = vma
      · rw [hne] at hx
        rw [hne, hrangeOf]
        exact ⟨hx.1, Nat.lt_of_not_le fun hle => hout ⟨hle, hx.2.trans_le hend'⟩⟩
      · rwa [hsame a ha hne]
  | removed vma l' hvma hstart hto hend hlinked hperm hsame =>
    obtain ⟨hend', hothers⟩ := hapart vma hvma (hstart ▸ BitVec.le_refl _) hto
    have hnotin := (nodup_cons.mp (hperm.nodup_iff.mpr h.linked.nodup)).1
    ext x
    rw [mem_coveredAddrs_iff hlinked.vmas_eq fun a _ => hsame a]
    constructor
    · rintro ⟨a, ha, hx⟩
      have hain := hperm.mem_iff.mp (mem_cons_of_mem vma ha)
      exact ⟨⟨a, hain, hx⟩, hothers a hain (fun heq => hnotin (heq ▸ ha)) x hx⟩
    · rintro ⟨⟨a, ha, hx⟩, hout⟩
      rcases mem_cons.mp (hperm.mem_iff.mpr ha) with rfl | hin
      · exact absurd ⟨hstart ▸ hx.1, hx.2.trans_le hend'⟩ hout
      · exact ⟨a, hin, hx⟩

lemma isSome_userByte (hv : v.toNat < 2 ^ 47) : (userByte s v).isSome = (leafEntryOf s v).isSome := by
  rw [userByte, if_pos hv, isSome_map]

lemma exact_first {t : TaskVm} {new : Word} (hspace : FreshSpace s) (hinit : s.task = vmaInitTask t)
    (hsize : size ≠ 0)
    (haddr : Aligned addr) (hrange : addr.toNat + size.toNat ≤ 2 ^ 47) (hsupplied : Supplied s cpu addr size flags) :
    ∃ f s', vmaMap s cpu (some new) addr size flags = some (0, s') ∧ Exact f s' ∧ vmas s' = [new] ∧
      rangeOf s' new = (addr, addr + roundUp size, flags) := by
  obtain ⟨f, hbacked⟩ := hspace.backed hinit
  have hlinked := linked_init hinit
  have hnone : ∀ v : Word, v.toNat < 2 ^ 47 → userByte s v = none := by
    intro v hv
    rw [hbacked.paged.userByte_eq hv, map_eq_none_iff, eq_none_iff_forall_ne_some]
    intro e he
    obtain ⟨_, r, hr, -⟩ := (hbacked.leaves v e hv he).whole.asks
    simp [hlinked.ranges_eq] at hr
  obtain ⟨s', hmap, hpaged, hlinked', hranged, -, hbytes, hleaves⟩ := vmaMap_supplied hbacked.paged hlinked
    ⟨by simp, by simp, by simp⟩ (blackRoot_init hinit) not_mem_nil hsize haddr hrange (forall_mem_nil _) hsupplied
  obtain ⟨hvmas, hrangeOf⟩ : vmas s' = [new] ∧ rangeOf s' new = (addr, addr + roundUp size, flags) := by
    cases hlinked.map (fun _ _ => not_mem_nil) hmap with
    | failed hcode => exact absurd rfl hcode
    | grown _ _ hcurr => cases hcurr
    | added _ _ hnew _ hadded _ hrangeOf =>
      cases hnew
      exact ⟨hadded.vmas_eq, hrangeOf⟩
  have hround : (roundUp size).toNat = (size.toNat + 4095) / 4096 * 4096 := roundUp_toNat (by omega)
  have hstop : (addr + roundUp size).toNat = addr.toNat + (roundUp size).toNat := toNat_add_of_lt (by omega)
  have haddr' := aligned_iff.mp haddr
  have hin : ∀ v : Word, v.toNat < 2 ^ 47 → ((leafEntryOf s' v).isSome ↔ addr.toNat ≤ v.toNat ∧
      v.toNat < addr.toNat + (roundUp size).toNat) := by
    intro v hv
    rw [← isSome_userByte hv, hbytes v hv, hnone v hv]
    split <;> simp_all
  refine ⟨f, s', hmap, ⟨hpaged, hlinked', hranged.disjoint, ?_, fun v e hv he => ?_, fun v hv => ?_⟩, hvmas, hrangeOf⟩
  · rw [hvmas, forall_mem_singleton, show (s'.areas new).vmEnd = addr + roundUp size from congrArg (·.2.1) hrangeOf, hstop]
    omega
  · have hsome : (leafEntryOf s' v).isSome := by
      rw [hpaged.leafEntryOf_eq hv, he]
      rfl
    obtain ⟨hlow, hhigh⟩ := (hin v hv).mp hsome
    obtain ⟨_, he', hframe⟩ := hleaves v hlow hhigh
    cases he'.symm.trans he
    exact hframe
  · rw [hin v hv, mem_coveredAddrs_iff (r := fun _ => (addr, addr + roundUp size, flags)) hvmas (by simp [hrangeOf])]
    simp [hstop]

lemma vmaUnmap_returns (h : Exact f s) (hsearch : InOrder s) (hnonempty : ∀ a ∈ vmas s, (s.areas a).vmStart < (s.areas a).vmEnd)
    (hin : ∃ a ∈ vmas s, Contains addr (s.areas a)) (hrange : addr.toNat + size.toNat ≤ 2 ^ 47) :
    ∃ s', vmaUnmap s cpu addr size = some (0, s') := by
  rw [vmaUnmap]
  split
  · exact ⟨s, rfl⟩
  obtain ⟨t, ht, hperm⟩ := h.linked.tree
  have hpairwise := h.linked.nodup.imp_of_mem fun {a b} ha hb hne => h.disjoint a ha b hb hne
  have hsorted := pairwise_precedes hperm hpairwise hnonempty (hsearch t ht)
  have hlength := length_lt_walkFuel hsorted fun a ha => hnonempty a (hperm.mem_iff.mp ha)
  have hfind : vmaFind s addr = _ := findFrom_eq addr ht.draws hsorted ((Shape.height_le_length t).trans_lt hlength)
  obtain ⟨vma, hvma⟩ : ∃ vma, t.inorder.find? (fun a => decide (Contains addr (s.areas a))) = some vma := by
    obtain ⟨a, ha, hcontains⟩ := hin
    rw [← isSome_iff_exists, List.find?_isSome]
    exact ⟨a, hperm.mem_iff.mpr ha, decide_eq_true hcontains⟩
  rw [hvma] at hfind
  have hstop : (addr + size).toNat = addr.toNat + size.toNat := toNat_add_of_lt (by omega)
  have hpage : (BitVec.ofNat 64 pageSize).toNat = 4096 := rfl
  obtain ⟨s₁, hpages⟩ : ∃ s₁, Word.forBelow (BitVec.ofNat 64 pageSize) (addr + size)
    (fun s vaddr => unmapPage s cpu vaddr) walkFuel addr s =
      some s₁ := Word.forBelow_some _ (by decide) (by omega) (by rw [walkFuel]; omega)
  obtain ⟨hareas, htask⟩ := unmapPages_areas hpages
  simp only [hfind, hpages, bind_eq_bind, bind_some]
  split
  · exact ⟨_, rfl⟩
  split
  · obtain ⟨t₁, ht₁, hperm₁⟩ := (h.linked.congr hareas htask).tree
    have hmem := hperm₁.mem_iff.mpr (hperm.mem_iff.mp (List.mem_of_find?_eq_some hvma))
    obtain ⟨c, sub, rfl⟩ := exists_plug hmem
    have hheight : (sub .left).height ≤ walkFuel := by
      have hsub := (Shape.height_le_length (sub .left)).trans (length_sub_le_plug c vma sub .left)
      have htotal := Word.length_le_of_nodup h.linked.nodup
      rw [← hperm₁.length_eq] at htotal
      exact hsub.trans htotal
    rw [← listRemove_treeOf s₁ vma] at ht₁
    obtain ⟨_, hremove⟩ := remove_some walkFuel ht₁ hheight
    rw [← treeOf_treeRemove] at hremove
    obtain ⟨_, hs₂, -⟩ := map_eq_some_iff.mp hremove
    rw [hs₂]
    exact ⟨_, rfl⟩
  · exact ⟨_, rfl⟩

lemma exact_twoPages : ∃ f s, vmaMap blankVm none (some 0x8000) 0x1000 0x2000 2 = some (0, s) ∧ Exact f s ∧ vmas s = [0x8000] ∧
    rangeOf s 0x8000 = (0x1000, 0x3000, 2) :=
  exact_first blankVm_freshSpace rfl (by decide) (by decide) (by decide) (by decide +kernel)

end KernelSmp.Memory.VmaRanges
