import KernelSmp.Memory.PageRanges
import KernelSmp.Memory.Vma

/-! The operations of `vmm.c` and `vma.c` on the user halves of a family of address spaces that
take their frames from one allocator. -/

namespace KernelSmp.Memory

open Base Base.Radix List Option

def UserPath (p : List Index) : Prop := p.length ≤ 4 ∧ ∀ i ∈ p.getLast?, (i : ℕ) < 256

lemma UserPath.tail (i : Index) (p : List Index) (h : UserPath (i :: p)) : UserPath p := by
  obtain ⟨hlen, hlast⟩ := h
  rw [length_cons] at hlen
  refine ⟨by omega, fun j hj => hlast j ?_⟩
  cases p with
  | nil => cases hj
  | cons => rwa [List.getLast?_cons_cons]

lemma UserPath.length_le {p : List Index} (h : UserPath p) : p.length ≤ 4 := h.1

lemma userPath_nil : UserPath [] := ⟨by decide, fun i hi => by cases hi⟩

lemma userPath_singleton {i : Index} : UserPath [i] ↔ (i : ℕ) < 256 := by
  simp [UserPath]

lemma userPath_append {q p : List Index} (hp : UserPath p) (hne : p ≠ []) (hlen : (q ++ p).length ≤ 4) : UserPath (q ++ p) := by
  refine ⟨hlen, fun i hi => hp.2 i ?_⟩
  rwa [List.getLast?_append_of_ne_nil _ hne] at hi

lemma userPath_leafPath {virt : Word} : UserPath (leafPath virt) ↔ (pml4Idx virt : ℕ) < 256 := by
  simp [UserPath, leafPath, upperPath]

lemma userPath_of_lt {virt : Word} (h : virt.toNat < 2 ^ 47) : UserPath (leafPath virt) := by
  rw [userPath_leafPath, pml4Idx, indexAt_val]
  omega

def usedFrames (p : Pmm) : Set ℕ := {f | p.isSet f = true}

def Pmm.Small (p : Pmm) : Prop := p.bitmapSize * 8 ≤ 2 ^ 28

def pmmSource (cpu : Option ℕ) : FrameSource Pmm where
  alloc p := pmmAllocFrame p cpu
  ok := Pmm.Small
  used := usedFrames
  alloc_ok p h := by
    obtain he | ⟨k, q, he, -, -, -, hsize, -, -⟩ := pmmAllocFrame_spec p cpu
    · rwa [he]
    · rw [he]
      rwa [Pmm.Small, hsize]
  alloc_spec p h := by
    obtain he | ⟨k, q, he, hne, hk, hfree, -, -, hbits⟩ := pmmAllocFrame_spec p cpu
    · rw [he]
      exact Or.inl ⟨rfl, rfl⟩
    · rw [he]
      have hlt : k < 2 ^ 28 := lt_of_lt_of_le hk h
      refine Or.inr ⟨k, Nat.pos_of_ne_zero fun hz => hne (by rw [hz]; rfl), hlt, rfl, ?_, ?_⟩
      · change ¬ p.isSet k = true
        rw [hfree]
        decide
      · ext j
        change q.isSet j = true ↔ j = k ∨ p.isSet j = true
        rw [hbits, Bool.or_eq_true, decide_eq_true_eq, or_comm]

lemma usedFrames_freeAt (p : Pmm) (cpu : Option ℕ) (addr : Word) :
    usedFrames (pmmFreeFrame p cpu addr) = usedFrames p \ {g | addr ≠ 0 ∧ g = frameIndex addr} := by
  ext g
  rw [pmmFreeFrame]
  split_ifs with hnull
  · exact ⟨fun hg => ⟨hg, fun h => h.1 hnull⟩, And.left⟩
  · change (p.clearBit (frameIndex addr)).isSet g = true ↔ _
    rw [Pmm.isSet_clearBit, Bool.and_eq_true, decide_eq_true_eq]
    exact ⟨fun h => ⟨h.1, fun h' => h.2 h'.2⟩, fun h => ⟨h.1, fun h' => h.2 ⟨hnull, h'⟩⟩⟩

variable {R : Type} {roots : R → Option ℕ} {r : R} {f start n : ℕ} {U : Set ℕ} {s s' : Vm} {cpu : Option ℕ}

section spaces

variable [DecidableEq R]

structure Spaces (roots : R → Option ℕ) (m : Mem) (p : Pmm) : Prop where
  small : p.Small
  wired : Wired roots UserPath (tables m) (usedFrames p)

lemma frameAddr_add (a b : ℕ) : frameAddr a + pageOffset b = frameAddr (a + b) := by
  apply BitVec.eq_of_toNat_eq
  simp only [frameAddr, pageOffset, BitVec.toNat_add, BitVec.toNat_ofNat, add_mul, Nat.add_mod_mod, Nat.mod_add_mod]

lemma vmmOpts_and_mask (flags : BitVec 32) : (vmmOpts flags).setWidth 64 &&& vmmAddrMask = 0 := by
  rw [vmmOpts]
  split_ifs <;> decide

lemma target_backing (flags : BitVec 32) {g : ℕ} (hg : g < 2 ^ 28) :
    target (leafEntry (frameAddr g) ((vmmOpts flags).setWidth 64)) = some g := by
  have hpres : isPresent (leafEntry (frameAddr g) ((vmmOpts flags).setWidth 64)) = true := by
    rw [isPresent_eq, leafEntry]
    simp [ptePresent]
  rw [target, if_pos hpres, frameOf_leafEntry hg (vmmOpts_and_mask flags)]

lemma numPages_of_toNat {size : Word} (h : size.toNat = n * pageSize) (hn : n < 2 ^ 51) : numPages size = n := by
  have hs : size = pageOffset n := by
    apply BitVec.eq_of_toNat_eq
    rw [h, pageOffset, BitVec.toNat_ofNat, pageSize]
    omega
  rw [hs, numPages_pageOffset (by omega)]

lemma pageOffset_toNat {virt : Word} {j : ℕ} (h : virt.toNat + j * pageSize < 2 ^ 64) :
    (virt + pageOffset j).toNat = virt.toNat + j * pageSize := by
  rw [pageOffset, BitVec.toNat_add, BitVec.toNat_ofNat]
  omega

lemma tables_fill_other (m : Mem) {g : ℕ} (hg : g < start ∨ start + n ≤ g) (j : Index) :
    tables (m.fill (pageSize * start) (n * pageSize) 0) g j = tables m g j := by
  rw [tables, tables, Mem.load64_fill_disjoint]
  rw [pageSize]
  omega

def Backing (addr : Word) (start n : ℕ) (flags : BitVec 32) (q : List Index) (l : Option Word) : Prop :=
  ∃ j < n, q = leafPath (addr + pageOffset j) ∧
    (l = none ∨ l = some (leafEntry (frameAddr (start + j)) ((vmmOpts flags).setWidth 64)))

section back

variable {addr size : Word} {flags : BitVec 32}

variable {j : ℕ}

lemma userPath_pageOffset (hrange : addr.toNat + n * pageSize ≤ 2 ^ 47) (hj : j < n) :
    UserPath (leafPath (addr + pageOffset j)) := by
  apply userPath_of_lt
  rw [pageSize] at hrange
  rw [pageOffset_toNat] <;> rw [pageSize] <;> omega

lemma target_backing_offset (flags : BitVec 32) (h : start + j < 2 ^ 28) :
    target (leafEntry (frameAddr start + pageOffset j) ((vmmOpts flags).setWidth 64)) = some (start + j) := by
  rw [frameAddr_add]
  exact target_backing flags h

lemma backRange_remapped (h : Spaces roots s.mem s.pmm) (hroot : roots r = some f)
    (hcr3 : s.task.cr3 = frameAddr f) (hsize : size.toNat = n * pageSize) (hrange : addr.toNat + n * pageSize ≤ 2 ^ 47)
    (hstart : start + n ≤ 2 ^ 28) (hU : U ⊆ usedFrames s.pmm)
    (hdata : ∀ j < n, start + j ∈ usedFrames s.pmm ∧ start + j ∉ U ∧ Unlinked roots UserPath (tables s.mem) (start + j))
    (hback : backRange s cpu addr (frameAddr start) size flags = some s') :
    let t := (mapPages (pmmSource cpu).alloc (frameAddr f) addr (frameAddr start) ((vmmOpts flags).setWidth 64)
      ⟨s.mem, s.pmm⟩ n 0).2
    Remapped (pmmSource cpu) roots UserPath U r (Backing addr start n flags) ⟨s.mem, s.pmm⟩ t ∧
    s'.pmm = t.frames ∧ s'.areas = s.areas ∧ s'.task = s.task ∧
    (∀ g j, (g < start ∨ start + n ≤ g) → tables s'.mem g j = tables t.mem g j) ∧
    ∀ r p g j, UserPath (j :: p) → role roots (tables t.mem) r p = some g → tables s'.mem g j = tables t.mem g j := by
  simp only [backRange, bind_eq_bind, bind_eq_some_iff] at hback
  obtain ⟨t, ht, hs'⟩ := hback
  have hmapped := checkMapped_eq ht
  rw [vmmMapRangeUnlocked, hcr3, numPages_of_toNat hsize (by omega)] at hmapped
  have hnew : ∀ j < 0 + n, Backing addr start n flags (leafPath (addr + pageOffset j)) none ∧
      Backing addr start n flags (leafPath (addr + pageOffset j))
        (some (leafEntry (frameAddr start + pageOffset j) ((vmmOpts flags).setWidth 64))) := by
    intro j hj
    rw [frameAddr_add]
    exact ⟨⟨j, by omega, rfl, Or.inl rfl⟩, ⟨j, by omega, rfl, Or.inr rfl⟩⟩
  have hrun := mapPages_wired (S := pmmSource cpu) (fun q hq => UserPath.length_le hq) hroot (s := ⟨s.mem, s.pmm⟩) n
    h.small h.wired hU (by omega) (fun j hj => userPath_pageOffset hrange (by omega))
    (fun j hj => target_backing_offset flags (by omega))
    (fun j hj => ⟨(hdata j (by omega)).1, (hdata j (by omega)).2.1⟩) (fun j hj _ => (hdata j (by omega)).2.2) hnew
  simp only [pmmSource, hmapped] at hrun ⊢
  obtain rfl := Option.some.inj hs'
  have hfill : ∀ g j, (g < start ∨ start + n ≤ g) →
      tables (t.mem.fill (frameAddr start).toNat size.toNat 0) g j = tables t.mem g j := by
    intro g j hg
    rw [frameAddr_toNat (by omega), hsize]
    exact tables_fill_other t.mem hg j
  refine ⟨hrun, rfl, rfl, rfl, hfill, ?_⟩
  intro r p g j hjp hr
  apply hfill
  by_contra hin
  have hd := hdata (g - start) (by omega)
  rw [show start + (g - start) = g by omega] at hd
  have hlen := hrun.onlyLeaf g hd.1 hd.2.2.onlyLeaf r p (UserPath.tail j p hjp) hr
  have hle := hjp.length_le
  rw [length_cons] at hle
  omega

lemma backRange_spaces (h : Spaces roots s.mem s.pmm) (hroot : roots r = some f)
    (hcr3 : s.task.cr3 = frameAddr f) (hsize : size.toNat = n * pageSize) (hrange : addr.toNat + n * pageSize ≤ 2 ^ 47)
    (hstart : start + n ≤ 2 ^ 28) (hU : U ⊆ usedFrames s.pmm)
    (hdata : ∀ j < n, start + j ∈ usedFrames s.pmm ∧ start + j ∉ U ∧ Unlinked roots UserPath (tables s.mem) (start + j))
    (hback : backRange s cpu addr (frameAddr start) size flags = some s') :
    Spaces roots s'.mem s'.pmm ∧ U ⊆ usedFrames s'.pmm ∧ Evolves roots UserPath U (tables s.mem) (tables s'.mem) ∧
    LeavesChange roots UserPath r (Backing addr start n flags) (tables s.mem) (tables s'.mem) ∧
    s'.areas = s.areas ∧ s'.task = s.task := by
  obtain ⟨hrun, hpmm, hareas, htask, hfill, hrows⟩ :=
    backRange_remapped h hroot hcr3 hsize hrange hstart hU hdata hback
  have hclosed := hrun.wired.closed
  rw [hpmm]
  refine ⟨⟨hrun.ok, hrun.wired.congr hrows⟩, hU.trans hrun.used, ⟨fun g j hg ho => ?_, fun r' p g hp hg hr => ?_⟩, ?_,
    hareas, htask⟩
  · rw [← hrun.evolves.kept g j hg ho]
    apply hfill
    by_contra hin
    have hd := (hdata (g - start) (by omega)).2.1
    rw [show start + (g - start) = g by omega] at hd
    exact hd hg
  · rw [role_congr hclosed hrows r' hp] at hr
    exact hrun.evolves.roles r' p g hp hg hr
  · apply hrun.leaves.trans
    intro r' w hw
    exact .inl (leafOf_congr hclosed hrows hw)

lemma leafPath_pageOffset_inj (hrange : addr.toNat + n * pageSize ≤ 2 ^ 47) {k : ℕ} (hj : j < n) (hk : k < n)
    (h : leafPath (addr + pageOffset j) = leafPath (addr + pageOffset k)) : j = k := by
  rw [pageSize] at hrange
  have hoffset : ∀ {i : ℕ}, i < n → (addr + pageOffset i).toNat = addr.toNat + i * 4096 := by
    intro i hi
    rw [pageOffset_toNat] <;> rw [pageSize]
    omega
  simp only [leafPath, upperPath, List.cons.injEq, and_true, pml4Idx, pdptIdx, pdIdx, ptIdx, Fin.ext_iff, indexAt_val,
    hoffset hj, hoffset hk] at h
  omega

lemma backRange_owned {V : Set ℕ} (h : Spaces roots s.mem s.pmm) (hroot : roots r = some f)
    (hcr3 : s.task.cr3 = frameAddr f) (hsize : size.toNat = n * pageSize) (hrange : addr.toNat + n * pageSize ≤ 2 ^ 47)
    (hpos : 0 < start) (hstart : start + n ≤ 2 ^ 28)
    (hdata : ∀ j < n, start + j ∈ usedFrames s.pmm ∧ Unlinked roots UserPath (tables s.mem) (start + j))
    (hnone : ∀ j < n, leafOf roots (tables s.mem) r (addr + pageOffset j) = none)
    (hres : (vmmMapRangeUnlocked (fun p => pmmAllocFrame p cpu) ⟨s.mem, s.pmm⟩ s.task.cr3 addr (frameAddr start) size
      ((vmmOpts flags).setWidth 64)).1 = true)
    (howned : Owned roots UserPath (tables s.mem) (usedFrames s.pmm) (V ∪ {g | start ≤ g ∧ g < start + n}))
    (hback : backRange s cpu addr (frameAddr start) size flags = some s') :
    Owned roots UserPath (tables s'.mem) (usedFrames s'.pmm) V := by
  obtain ⟨hrun, hpmm, -, -, -, hrows⟩ := backRange_remapped h hroot hcr3 hsize hrange hstart (Set.empty_subset _)
    (fun j hj => ⟨(hdata j hj).1, Set.notMem_empty _, (hdata j hj).2⟩) hback
  rw [vmmMapRangeUnlocked, hcr3, numPages_of_toNat hsize (by rw [pageSize] at hrange; omega)] at hres
  have hall := mapPages_owned (S := pmmSource cpu) (fun q hq => UserPath.length_le hq) hroot (s := ⟨s.mem, s.pmm⟩)
    n h.small h.wired (fun j hj => userPath_pageOffset hrange (by omega))
    (fun j hj k hk => leafPath_pageOffset_inj hrange (by omega) (by omega)) hpos
    (fun j hj => target_backing_offset flags (by omega)) (fun j hj => (hdata j (by omega)).1)
    (fun j hj _ => (hdata j (by omega)).2) (fun j hj _ => hnone j (by omega)) hres
    (by simpa only [Nat.zero_add, Nat.add_zero, pmmSource] using howned)
  rw [hpmm]
  exact hall.congr fun r' p hp => role_congr hrun.wired.closed hrows r' hp

end back

lemma frameIndex_add_low (f : ℕ) (hf : f < 2 ^ 28) (v : Word) : frameIndex (frameAddr f + (v &&& 0xFFF)) = f := by
  have hlow : (v &&& 0xFFF).toNat < 4096 := by
    rw [BitVec.toNat_and]
    exact lt_of_le_of_lt Nat.and_le_right (by decide)
  rw [frameIndex, BitVec.toNat_add, frameAddr_toNat (by omega), pageSize]
  omega

omit [DecidableEq R] in
variable {vaddr : Word}

lemma unmapPage_cases (cpu : Option ℕ) (h : Spaces roots s.mem s.pmm) (hroot : roots r = some f)
    (hcr3 : s.task.cr3 = frameAddr f) (huser : vaddr.toNat < 2 ^ 47) :
    vmmVirtualToPhysical s.mem s.task.cr3 vaddr = 0 ∧ unmapPage s cpu vaddr = s ∨
    ∃ e, leafOf roots (tables s.mem) r vaddr = some e ∧ vmmVirtualToPhysical s.mem s.task.cr3 vaddr ≠ 0 ∧
      frameIndex (vmmVirtualToPhysical s.mem s.task.cr3 vaddr) = frameOf e ∧
      (unmapPage s cpu vaddr).mem = vmmUnmapUnlocked s.mem (frameAddr f) vaddr ∧
      (unmapPage s cpu vaddr).pmm = pmmFreeFrame s.pmm cpu (vmmVirtualToPhysical s.mem s.task.cr3 vaddr) ∧
      usedFrames (unmapPage s cpu vaddr).pmm = usedFrames s.pmm \ {g | g = frameOf e} := by
  by_cases hzero : vmmVirtualToPhysical s.mem s.task.cr3 vaddr = 0
  · exact .inl ⟨hzero, if_neg (not_not.mpr hzero)⟩
  have hpage : unmapPage s cpu vaddr =
      { s with mem := vmmUnmap s.mem s.task.cr3 vaddr,
               pmm := pmmFreeFrame s.pmm cpu (vmmVirtualToPhysical s.mem s.task.cr3 vaddr) } := if_pos hzero
  rcases h.wired.walk_cases hroot (UserPath.tail _ _ (userPath_of_lt huser)) with ⟨-, hphys, -⟩ | ⟨e, hleaf, hphys, -⟩
  · rw [hcr3] at hzero
    exact absurd hphys hzero
  rw [and_addrMask, ← hcr3] at hphys
  have hindex : frameIndex (vmmVirtualToPhysical s.mem s.task.cr3 vaddr) = frameOf e := by
    rw [hphys]
    exact frameIndex_add_low _ (frameOf_lt e) vaddr
  refine .inr ⟨e, hleaf, hzero, hindex, ?_, ?_, ?_⟩
  · rw [hpage, hcr3, vmmUnmap]
  · rw [hpage]
  · rw [hpage, usedFrames_freeAt, hindex]
    simp only [hzero, ne_eq, not_false_eq_true, true_and]

lemma unmapPage_kept (s : Vm) (cpu : Option ℕ) (vaddr : Word) :
    (unmapPage s cpu vaddr).areas = s.areas ∧ (unmapPage s cpu vaddr).task = s.task := by
  rw [unmapPage]
  split
  · exact ⟨rfl, rfl⟩
  · exact ⟨rfl, rfl⟩

lemma unmapPage_spaces (h : Spaces roots s.mem s.pmm) (hroot : roots r = some f)
    (hcr3 : s.task.cr3 = frameAddr f) (huser : vaddr.toNat < 2 ^ 47) :
    Spaces roots (unmapPage s cpu vaddr).mem (unmapPage s cpu vaddr).pmm ∧
    Evolves roots UserPath Set.univ (tables s.mem) (tables (unmapPage s cpu vaddr).mem) ∧
    (∀ g ∈ usedFrames s.pmm, g ∉ usedFrames (unmapPage s cpu vaddr).pmm →
      role roots (tables s.mem) r (leafPath vaddr) = some g) ∧
    LeavesChange roots UserPath r (fun q l => q = leafPath vaddr ∧ l = none) (tables s.mem)
      (tables (unmapPage s cpu vaddr).mem) ∧
    (unmapPage s cpu vaddr).areas = s.areas ∧ (unmapPage s cpu vaddr).task = s.task := by
  have hpath := userPath_of_lt huser
  rcases unmapPage_cases cpu h hroot hcr3 huser with ⟨-, hsame⟩ | ⟨e, hleaf, -, -, hmem, hpmm, hused⟩
  · rw [hsame]
    exact ⟨h, Evolves.refl, fun g hg hn => absurd hg hn, LeavesChange.refl, rfl, rfl⟩
  have hrole : role roots (tables s.mem) r (leafPath vaddr) = some (frameOf e) := by
    rw [role_leafPath, hleaf, map_some]
  obtain ⟨hwired, hevolves, hgone, hleaves⟩ :=
    vmmUnmapUnlocked_wired (fun q hq => UserPath.length_le hq) h.wired hroot (UserPath.tail _ _ hpath)
  rw [hmem]
  refine ⟨⟨?_, hwired.mono fun r' p g hp hr => ?_⟩, hevolves, fun g hg hn => ?_, hleaves, unmapPage_kept s cpu vaddr⟩
  · rw [Pmm.Small, hpmm, pmmFreeFrame_size]
    exact h.small
  · rw [hused]
    refine ⟨hwired.used r' p g hp hr, ?_⟩
    rintro rfl
    have hold := hevolves.roles r' p _ hp (Set.mem_univ _) hr
    obtain ⟨rfl, rfl⟩ := h.wired.separate r' p r _ _ hp hpath hold hrole
    simp [role_leafPath, hgone] at hr
  · rw [hused] at hn
    by_contra hne
    refine hn ⟨hg, ?_⟩
    rintro rfl
    exact hne hrole

lemma unmapPage_owned {V : Set ℕ} (h : Spaces roots s.mem s.pmm) (hroot : roots r = some f) (hcr3 : s.task.cr3 = frameAddr f)
    (huser : vaddr.toNat < 2 ^ 47) (howned : Owned roots UserPath (tables s.mem) (usedFrames s.pmm) V) :
    Owned roots UserPath (tables (unmapPage s cpu vaddr).mem) (usedFrames (unmapPage s cpu vaddr).pmm) V := by
  have hpath := userPath_of_lt huser
  rcases unmapPage_cases cpu h hroot hcr3 huser with ⟨-, hsame⟩ | ⟨e, hleaf, -, -, hmem, hpmm, hused⟩
  · rwa [hsame]
  have hrole : ∀ r' {q}, UserPath q → role roots (tables (unmapPage s cpu vaddr).mem) r' q =
      if r' = r ∧ q = leafPath vaddr then none else role roots (tables s.mem) r' q := by
    intro r' q hq
    rw [hmem]
    exact role_vmmUnmapUnlocked (fun q hq => UserPath.length_le hq) h.wired hroot (UserPath.tail _ _ hpath) r' hq
  constructor
  · intro g hg
    rw [hused] at hg
    rcases howned.covered g hg.1 with hV | ⟨r', q, hq, hr⟩
    · exact .inl hV
    · refine .inr ⟨r', q, hq, ?_⟩
      rw [hrole r' hq, if_neg, hr]
      rintro ⟨rfl, rfl⟩
      rw [role_leafPath, hleaf, map_some, Option.some.injEq] at hr
      exact hg.2 hr.symm
  · intro r' q g hq hr
    rw [hrole r' hq] at hr
    split at hr
    · cases hr
    · exact howned.positive r' q g hq hr

lemma unmapPage_leaf (h : Spaces roots s.mem s.pmm) (hroot : roots r = some f) (hcr3 : s.task.cr3 = frameAddr f)
    (huser : vaddr.toNat < 2 ^ 47) (hframe : ∀ e ∈ leafOf roots (tables s.mem) r vaddr, frameOf e ≠ 0) :
    leafOf roots (tables (unmapPage s cpu vaddr).mem) r vaddr = none := by
  have hup := UserPath.tail _ _ (userPath_of_lt huser)
  rw [unmapPage, hcr3]
  rcases h.wired.walk_cases hroot hup with ⟨_, hphys, -⟩ | ⟨e, hleaf, hphys, -⟩
  · rwa [hphys, if_neg (by simp)]
  · have hindex := frameIndex_add_low _ (frameOf_lt e) vaddr
    rw [if_pos]
    · exact (vmmUnmapUnlocked_wired (fun q hq => UserPath.length_le hq) h.wired hroot hup).2.2.1
    · rw [hphys, and_addrMask]
      intro hzero
      rw [hzero] at hindex
      exact hframe e hleaf hindex.symm

section create

lemma tables_copyFold (m : Mem) {g k : ℕ} (hg : g < 2 ^ 52) (hk : k < 2 ^ 52) (hne : k ≠ g) (is : List (Fin 256)) :
    tables (is.foldl (fun m i => setEntry m (frameAddr g) (kernelIndex i) (entry m (frameAddr k) (kernelIndex i))) m) =
      fun f j => if f = g ∧ ∃ i ∈ is, j = kernelIndex i then tables m k j else tables m f j := by
  induction is generalizing m with
  | nil => simp
  | cons i is ih =>
    rw [foldl_cons, ih, tables_setEntry _ hg, entry_frameAddr _ hk]
    funext f j
    rw [set_of_ne _ _ fun h => hne h.1]
    by_cases hat : f = g ∧ j = kernelIndex i
    · obtain ⟨rfl, rfl⟩ := hat
      rw [set_self, ite_self, if_pos ⟨rfl, i, mem_cons_self, rfl⟩]
    · rw [set_of_ne _ _ hat]
      congr 1
      simp only [mem_cons, exists_eq_or_imp, eq_iff_iff]
      constructor
      · rintro ⟨hf, hj⟩
        exact ⟨hf, .inr hj⟩
      · rintro ⟨hf, hj | hj⟩
        · exact absurd ⟨hf, hj⟩ hat
        · exact ⟨hf, hj⟩

lemma tables_copyKernelHalf (m : Mem) {g k : ℕ} (hg : g < 2 ^ 52) (hk : k < 2 ^ 52) (hne : k ≠ g) (f : ℕ) (j : Index) :
    tables (copyKernelHalf m (frameAddr g) (frameAddr k)) f j =
      if f = g ∧ 256 ≤ (j : ℕ) then tables m k j else tables m f j := by
  rw [copyKernelHalf, tables_copyFold m hg hk hne]
  have hupper : (∃ i ∈ List.finRange 256, j = kernelIndex i) ↔ 256 ≤ (j : ℕ) := by
    constructor
    · rintro ⟨i, -, rfl⟩
      exact Nat.le_add_right 256 i
    · intro h
      exact ⟨⟨j - 256, by omega⟩, mem_finRange _, Fin.ext (by simp only [kernelIndex]; omega)⟩
  simp only [hupper]

lemma vmmCreateUserPml4_spec (m : Mem) (cpu : Option ℕ) {p : Pmm} {k : ℕ} (hsmall : p.Small) (hk : k < 2 ^ 52)
    (hkernel : k ∈ usedFrames p) :
    let res := vmmCreateUserPml4 m p cpu (frameAddr k)
    res.2.2.Small ∧
    (res.1 = 0 ∧ res.2.1 = m ∧ usedFrames res.2.2 = usedFrames p ∨
    ∃ g, 0 < g ∧ g < 2 ^ 28 ∧ res.1 = frameAddr g ∧ g ∉ usedFrames p ∧ usedFrames res.2.2 = insert g (usedFrames p) ∧
      (∀ f, f ≠ g → tables res.2.1 f = tables m f) ∧
      ∀ j : Index, tables res.2.1 g j = if 256 ≤ (j : ℕ) then tables m k j else 0) := by
  have hok := (pmmSource cpu).alloc_ok p hsmall
  have hspec := (pmmSource cpu).alloc_spec p hsmall
  simp only [pmmSource] at hok hspec
  rcases halloc : pmmAllocFrame p cpu with ⟨w, _⟩
  rw [halloc] at hok hspec
  simp only [vmmCreateUserPml4, halloc]
  rcases hspec with ⟨hnull, hsame⟩ | ⟨g, hpos, hg, haddr, hfresh, hused⟩
  · rw [if_pos hnull]
    exact ⟨hok, Or.inl ⟨rfl, rfl, hsame⟩⟩
  · change w = frameAddr g at haddr
    rw [haddr, if_neg (frameAddr_ne_zero (by rw [pageSize]; omega) (by omega))]
    have hne : k ≠ g := by
      rintro rfl
      exact hfresh hkernel
    have hzero := tables_zeroPage m (show g < 2 ^ 52 by omega)
    have hcopy := tables_copyKernelHalf (zeroPage m (frameAddr g)) (show g < 2 ^ 52 by omega) hk hne
    refine ⟨hok, Or.inr ⟨g, hpos, hg, rfl, hfresh, hused, fun f hf => ?_, fun j => ?_⟩⟩
    · funext j
      rw [hcopy, if_neg fun h => hf h.1, hzero, setRow_of_ne _ _ hf]
    · rw [hcopy, hzero, setRow_of_ne _ _ hne]
      simp [setRow]

end create

end spaces

end KernelSmp.Memory
