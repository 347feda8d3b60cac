import KernelSmp.Memory.PageBacking
import KernelSmp.Memory.VmaFixup
import KernelSmp.Memory.VmaLifetime

/-! What a task reads through its page tables, and how `vma_map` and a copy into its pages change it. -/

namespace KernelSmp.Memory.VmaRanges

open Base Base.Radix Base.LinkedList Base.LinkedTree Function List

def userByte (s : Vm) (v : Word) : Option Byte :=
  if v.toNat < 2 ^ 47 then (leafEntryOf s v).map fun e => s.mem ((e &&& vmmAddrMask).toNat + (v &&& 0xFFF).toNat) else none

variable {f : ℕ} {s s' : Vm} {cpu : Option ℕ} {addr size v w e : Word} {flags : BitVec 32} {m m' image : Mem}

lemma byte_of_tables {g x : ℕ} (h : tables m g = tables m' g) (hx : x < pageSize) : m (pageSize * g + x) =
    m' (pageSize * g + x) := by
  have hword := congrFun h ⟨x / 8, by rw [Nat.div_lt_iff_lt_mul (by decide)]; exact hx⟩
  simp only [tables, Mem.load64, pageSize] at hword
  have hread : m.readLE (4096 * g + 8 * (x / 8)) 8 = m'.readLE (4096 * g + 8 * (x / 8)) 8 := by
    have hlt := m.readLE_lt (4096 * g + 8 * (x / 8)) 8
    have hlt' := m'.readLE_lt (4096 * g + 8 * (x / 8)) 8
    have hmod := congrArg BitVec.toNat hword
    rw [BitVec.toNat_ofNat, BitVec.toNat_ofNat] at hmod
    omega
  have hbyte := Mem.readLE_inj hread (x % 8) (by omega)
  rwa [show 4096 * g + 8 * (x / 8) + x % 8 = 4096 * g + x by omega] at hbyte

lemma Paged.userByte_eq (h : Paged f s) (hv : v.toNat < 2 ^ 47) :
    userByte s v = (leaf f s.mem v).map fun e => s.mem (pageSize * frameOf e + v.toNat % pageSize) := by
  have hlow : (v &&& 0xFFF).toNat = v.toNat % 4096 := by
    rw [BitVec.toNat_and]
    exact Nat.and_two_pow_sub_one_eq_mod v.toNat 12
  rw [userByte, if_pos hv, h.leafEntryOf_eq hv, hlow]
  congr 1
  funext e
  rw [and_addrMask, frameAddr_toNat ((frameOf_lt e).trans (by decide))]
  rfl

lemma Paged.virtualToPhysical (h : Paged f s) (hv : v.toNat < 2 ^ 47) (haligned : v.toNat % 4096 = 0)
    (hleaf : leaf f s.mem v = some e) : vmmVirtualToPhysical s.mem s.task.cr3 v = frameAddr (frameOf e) := by
  have hlow : v &&& 0xFFF = 0#64 := (Word.and_low_eq_zero 12 (by decide)).mpr haligned
  rw [h.cr3]
  rcases h.spaces.wired.walk_cases rfl (UserPath.tail _ _ (userPath_of_lt hv)) with ⟨hnone, -⟩ | ⟨e', hsome, hphys, -⟩
  · cases hnone.symm.trans hleaf
  · cases hsome.symm.trans hleaf
    rw [hphys, hlow, BitVec.add_zero, and_addrMask]

lemma Paged.virtualToPhysical_none (h : Paged f s) (hv : v.toNat < 2 ^ 47) (hleaf : leaf f s.mem v = none) :
    vmmVirtualToPhysical s.mem s.task.cr3 v = 0 := by
  rw [h.cr3]
  rcases h.spaces.wired.walk_cases rfl (UserPath.tail _ _ (userPath_of_lt hv)) with ⟨-, hphys, -⟩ | ⟨e', hsome, -⟩
  · exact hphys
  · cases hsome.symm.trans hleaf

lemma role_of_leaf (hleaf : leaf f s.mem v = some e) : role (oneRoot f) (tables s.mem) () (leafPath v) = some (frameOf e) := by
  rw [role_leafPath, show leafOf (oneRoot f) (tables s.mem) () v = some e from hleaf, Option.map_some]

lemma Paged.frame (h : Paged f s) (hv : v.toNat < 2 ^ 47) (hleaf : leaf f s.mem v = some e) :
    frameOf e ∈ usedFrames s.pmm ∧ OnlyLeaf (oneRoot f) UserPath (tables s.mem) (frameOf e) := by
  have hrole := role_of_leaf hleaf
  refine ⟨h.spaces.wired.used () _ _ (userPath_of_lt hv) hrole, fun r p hp hr => ?_⟩
  obtain ⟨-, rfl⟩ := h.spaces.wired.separate r p () _ _ hp (userPath_of_lt hv) hr hrole
  rfl

lemma Paged.page_of_frame (h : Paged f s) (hv : v.toNat < 2 ^ 47) (hw : w.toNat < 2 ^ 47) {e' : Word}
    (hleaf : leaf f s.mem v = some e)
    (hleaf' : leaf f s.mem w = some e') (hframe : frameOf e = frameOf e') : v.toNat / 4096 = w.toNat / 4096 := by
  have hrole := role_of_leaf hleaf
  rw [hframe] at hrole
  obtain ⟨-, hpath⟩ := h.spaces.wired.separate () _ () _ _ (userPath_of_lt hv) (userPath_of_lt hw) hrole (role_of_leaf hleaf')
  exact (leafPath_eq hv hw).mp hpath

lemma Paged.run_leaves (h : Paged f s) (hrange : addr.toNat + size.toNat ≤ 2 ^ 47)
    (hsupplied : Supplied s cpu addr size flags) (hrun : MapsRun s cpu addr size flags s') :
    ∃ start, 0 < start ∧ start + (roundUp size).toNat / 4096 ≤ 2 ^ 28 ∧
      (∀ v : Word, addr.toNat ≤ v.toNat → v.toNat < addr.toNat + (roundUp size).toNat →
        ∃ e, leaf f s'.mem v = some e ∧ frameOf e = start + (v.toNat - addr.toNat) / 4096 ∧
          ∀ x < 4096, s'.mem (4096 * frameOf e + x) = 0) ∧
      (∀ v : Word, v.toNat < 2 ^ 47 → ¬ (addr.toNat ≤ v.toNat ∧ v.toNat < addr.toNat + (roundUp size).toNat) →
        leaf f s'.mem v = leaf f s.mem v) ∧
      ∀ g ∈ usedFrames s.pmm, OnlyLeaf (oneRoot f) UserPath (tables s.mem) g → tables s'.mem g = tables s.mem g := by
  obtain ⟨hsize, _⟩ := roundUp_range hrun.aligned hrange
  have haddr := aligned_iff.mp hrun.aligned
  obtain ⟨start, hpos, hstart, hleaves, hkept, hcontents⟩ :=
    hrun.leaves hrange h.spaces rfl h.cr3 hsupplied
  rw [pageSize] at hsize
  have hoffset : ∀ {j}, j < (roundUp size).toNat / 4096 → (addr + pageOffset j).toNat = addr.toNat + j * 4096 := by
    intro j hj
    exact pageOffset_toNat (by rw [pageSize]; omega)
  refine ⟨start, hpos, hstart, fun v hlow hhigh => ?_, fun v hv hout => ?_, hcontents⟩
  · have hj : (v.toNat - addr.toNat) / 4096 < (roundUp size).toNat / 4096 := by omega
    obtain ⟨-, hleaf, hzero⟩ := hleaves _ hj
    have hframe := frameOf_leafEntry (show start + (v.toNat - addr.toNat) / 4096 < 2 ^ 28 by omega) (vmmOpts_and_mask flags)
    refine ⟨_, ?_, hframe, by rw [hframe]; exact hzero⟩
    rw [← hleaf]
    exact leaf_congr_page s'.mem (by omega) (by rw [hoffset hj]; omega) (by rw [hoffset hj]; omega)
  · refine hkept v (userPath_of_lt hv) fun j hj hpath => hout ?_
    rw [leafPath_eq hv (by rw [hoffset hj]; omega), hoffset hj] at hpath
    omega

lemma Paged.copyFrames (image : Mem) (h : Paged f s) {a b n : ℕ}
    (hframes : ∀ g x, x < pageSize → a ≤ pageSize * g + x → pageSize * g + x < a + n →
      ∃ v e : Word, v.toNat < 2 ^ 47 ∧ leaf f s.mem v = some e ∧ frameOf e = g) :
    Paged f { s with mem := s.mem.copy a image b n } ∧
      ∀ w : Word, w.toNat < 2 ^ 47 → leaf f (s.mem.copy a image b n) w = leaf f s.mem w := by
  have hrows : ∀ r p g j, UserPath (j :: p) → role (oneRoot f) (tables s.mem) r p = some g →
      tables (s.mem.copy a image b n) g j = tables s.mem g j := by
    intro r p g j hjp hr
    rw [tables, tables, Mem.load64, Mem.load64, Mem.readLE_congr]
    intro x hx hx'
    rw [Mem.copy, if_neg]
    rintro ⟨_, _⟩
    -- the frame of a table would be that of a page
    obtain ⟨_, _, hv, hleaf, rfl⟩ := hframes g (x - pageSize * g) (by rw [pageSize] at *; omega) (by omega) (by omega)
    have hlen := (h.frame hv hleaf).2 r p (UserPath.tail j p hjp) hr
    have hle := hjp.length_le
    rw [length_cons] at hle
    omega
  exact ⟨⟨h.cr3, h.spaces.small, h.spaces.wired.congr hrows⟩,
    fun w hw => leafOf_congr h.spaces.wired.closed hrows (userPath_of_lt hw)⟩

lemma Paged.copy (image : Mem) (h : Paged f s) (hv : v.toNat < 2 ^ 47) (haligned : v.toNat % 4096 = 0)
    (hleaf : leaf f s.mem v = some e) {b n : ℕ}
    (hn : n ≤ pageSize) (hs' : s' = { s with mem := s.mem.copy (pageSize * frameOf e) image b n }) :
    Paged f s' ∧ (∀ w : Word, w.toNat < 2 ^ 47 → leaf f s'.mem w = leaf f s.mem w) ∧
    ∀ w : Word, w.toNat < 2 ^ 47 → userByte s' w = if v.toNat ≤ w.toNat ∧
      w.toNat < v.toNat + n then some (image (b + (w.toNat - v.toNat)))
      else userByte s w := by
  subst hs'
  obtain ⟨hpaged, hleaves⟩ := h.copyFrames image (a := pageSize * frameOf e) (n := n) fun g x hx hlow hhigh => by
    refine ⟨v, e, hv, hleaf, ?_⟩
    rw [pageSize] at *
    omega
  refine ⟨hpaged, hleaves, fun w hw => ?_⟩
  rw [hpaged.userByte_eq hw, hleaves w hw]
  rw [pageSize] at hn
  split
  · rename_i hin
    have hpage : leaf f s.mem w = some e := by
      rw [← hleaf]
      exact leaf_congr_page s.mem hw hv (by omega)
    simp only [hpage, Option.map_some, Mem.copy]
    rw [if_pos (by rw [pageSize]; omega)]
    rw [show b + (pageSize * frameOf e + w.toNat % pageSize - pageSize * frameOf e) =
      b + (w.toNat - v.toNat) by rw [pageSize]; omega]
  · rename_i hout
    rw [h.userByte_eq hw]
    cases hleaf' : leaf f s.mem w with
    | none => rfl
    | some e' =>
      simp only [Option.map_some, Mem.copy]
      rw [if_neg]
      by_cases hframe : frameOf e = frameOf e'
      · have hpage := h.page_of_frame hv hw hleaf hleaf' hframe
        rw [hframe, pageSize]
        omega
      · rw [pageSize]
        omega

variable {l : List Word} {new : Word}

lemma backRange_some {phys : Word} (flags : BitVec 32)
    (hres : (vmmMapRangeUnlocked (fun p => pmmAllocFrame p cpu) ⟨s.mem, s.pmm⟩ s.task.cr3 addr phys size
    ((vmmOpts flags).setWidth 64)).1 = true) : ∃ s', backRange s cpu addr phys size flags = some s' := by
  simp only [backRange, vmmMapRange, checkMapped, hres]
  exact ⟨_, rfl⟩

lemma length_lt_of_notMem (hnodup : l.Nodup) (hnew : new ∉ l) : l.length < walkFuel := by
  have hlength := Word.length_le_of_nodup (nodup_cons.mpr ⟨hnew, hnodup⟩)
  rwa [length_cons] at hlength

lemma vmaMap_some (h : Linked s l) (hblack : BlackRoot s) (hnew : new ∉ l) (hsize : size ≠ 0) (haligned : Aligned addr)
    (hfree : ∀ a ∈ l, ¬ overlaps addr (roundUp size) (s.areas a)) (hsupplied : Supplied s cpu addr size flags) :
    ∃ s', vmaMap s cpu (some new) addr size flags = some (0, s') := by
  rcases halloc : pmmAllocFrames s.pmm ((roundUp size).toNat / 4096) with ⟨_, pmm⟩
  simp only [Supplied, halloc] at hsupplied
  obtain ⟨hphys, hres⟩ := hsupplied
  have hfuel := length_lt_of_notMem h.nodup hnew
  obtain ⟨expand, hexpand⟩ := findArea_total (canExpand addr flags) h.listed hfuel
  have haligned' : ¬ addr &&& 0xFFF ≠ 0 := not_not.mpr haligned
  cases expand with
  | some =>
    obtain ⟨s₁, hback⟩ := backRange_some (s := { s with pmm }) flags hres
    simp only [vmaMap, if_neg hsize, if_neg haligned', hexpand, Option.bind_eq_bind, Option.bind_some, halloc,
      if_neg hphys, hback]
    exact ⟨_, rfl⟩
  | none =>
    obtain ⟨overlap, hoverlap⟩ := findArea_total (overlaps addr (roundUp size)) h.listed hfuel
    have hnone : overlap = none := by
      cases overlap with
      | none => rfl
      | some a =>
        obtain ⟨ha, hover⟩ := findArea_some h.listed hoverlap
        exact absurd hover (hfree a ha)
    subst hnone
    obtain ⟨s₁, hback⟩ := backRange_some (s := { s.setArea new (newArea addr (addr + roundUp size) flags) with pmm }) flags hres
    obtain ⟨hareas, htask⟩ := backRange_areas hback
    obtain ⟨_, ht, hperm⟩ := ((h.setArea hnew (newArea addr (addr + roundUp size) flags)).congr hareas htask).tree
    obtain ⟨s₂, hinsert⟩ := treeInsert_some (s := listInsert s₁ new) (by rw [listInsert_treeOf]; exact ht)
      (hperm.nodup_iff.mpr h.nodup) new
    have hcall : fixupCall s (.map cpu (some new) addr size flags) = some (s₂, new) := by
      simp only [fixupCall, if_neg (not_or.mpr ⟨hsize, haligned'⟩), hexpand, hoverlap, Option.bind_eq_bind,
        Option.bind_some, Vm.setArea,
        halloc, if_neg hphys, Option.isSome_none, Bool.false_eq_true, or_self, if_false]
      exact Option.bind_eq_some_iff.mpr ⟨s₁, hback, Option.bind_eq_some_iff.mpr ⟨s₂, hinsert, rfl⟩⟩
    have hfresh : (Call.map cpu (some new) addr size flags).Fresh s := by
      rintro _ ⟨⟩
      rwa [h.vmas_eq]
    obtain ⟨-, hfixup⟩ := fixupSafe_of_blackRoot h hblack _ _ _ hfresh hcall
    obtain ⟨_, hs₃⟩ := Option.isSome_iff_exists.mp hfixup
    obtain ⟨_, _, _, _, _, _, _, hmap, -, -, -, heq⟩ := fixupCall_cases hcall
    cases hmap
    rw [heq, hs₃]
    exact ⟨_, rfl⟩

lemma vmaMap_returns {kmalloc : Option Word} (h : Linked s l) (hblack : BlackRoot s) (hfuel : l.length < walkFuel)
    (hfresh : ∀ new ∈ kmalloc, new ∉ l)
    (hsupplied : Supplied s cpu addr size flags) : ∃ r, vmaMap s cpu kmalloc addr size flags = some r := by
  by_cases hsize : size = 0
  · exact ⟨_, if_pos hsize⟩
  by_cases haligned : addr &&& 0xFFF ≠ 0
  · rw [vmaMap, if_neg hsize]
    exact ⟨_, if_pos haligned⟩
  obtain ⟨expand, hexpand⟩ := findArea_total (canExpand addr flags) h.listed hfuel
  obtain ⟨overlap, hoverlap⟩ := findArea_total (overlaps addr (roundUp size)) h.listed hfuel
  cases expand with
  | some =>
    obtain ⟨_, hback⟩ := backRange_some (s := { s with pmm := (pmmAllocFrames s.pmm ((roundUp size).toNat / 4096)).2 })
      flags hsupplied.2
    simp only [vmaMap, if_neg hsize, if_neg haligned, hexpand, if_neg hsupplied.1, hback]
    exact ⟨_, rfl⟩
  | none =>
    cases overlap with
    | some =>
      simp only [vmaMap, if_neg hsize, if_neg haligned, hexpand, hoverlap]
      exact ⟨_, rfl⟩
    | none =>
      cases kmalloc with
      | none =>
        simp only [vmaMap, if_neg hsize, if_neg haligned, hexpand, hoverlap]
        exact ⟨_, rfl⟩
      | some new =>
        obtain ⟨_, hmap⟩ := vmaMap_some h hblack (hfresh new rfl) hsize (not_not.mp haligned)
          (findArea_none h.listed hoverlap) hsupplied
        exact ⟨_, hmap⟩

lemma Paged.map {kmalloc : Option Word} (h : Paged f s) (hrange : addr.toNat + size.toNat ≤ 2 ^ 47)
    (hsupplied : Supplied s cpu addr size flags) (hmap : vmaMap s cpu kmalloc addr size flags = some (0, s')) :
    Paged f s' ∧
    (∀ v : Word, v.toNat < 2 ^ 47 → userByte s' v = if addr.toNat ≤ v.toNat ∧
      v.toNat < addr.toNat + (roundUp size).toNat then some 0
      else userByte s v) ∧
    ∃ start, 0 < start ∧ start + (roundUp size).toNat / 4096 ≤ 2 ^ 28 ∧ ∀ v : Word, addr.toNat ≤ v.toNat →
      v.toNat < addr.toNat + (roundUp size).toNat → ∃ e, leaf f s'.mem v = some e ∧
        frameOf e = start + (v.toNat - addr.toNat) / 4096 := by
  have hrun := vmaMap_run hmap
  have hpaged := (h.run hrange hrun).1
  obtain ⟨start, hpos, hstart, hnew, hsame, hcontents⟩ := h.run_leaves hrange hsupplied hrun
  refine ⟨hpaged, fun v hv => ?_, start, hpos, hstart, fun v hlow hhigh => ?_⟩
  · rw [hpaged.userByte_eq hv]
    split_ifs with hin
    · obtain ⟨e, hleaf, -, hzero⟩ := hnew v hin.1 hin.2
      rw [hleaf, Option.map_some]
      exact congrArg some (hzero _ (Nat.mod_lt _ (by decide)))
    · rw [h.userByte_eq hv, hsame v hv hin]
      cases hleaf : leaf f s.mem v with
      | none => rfl
      | some =>
        obtain ⟨hused, honly⟩ := h.frame hv hleaf
        rw [Option.map_some, Option.map_some, byte_of_tables (hcontents _ hused honly) (Nat.mod_lt _ (by decide))]
  · obtain ⟨e, hleaf, hframe, -⟩ := hnew v hlow hhigh
    exact ⟨e, hleaf, hframe⟩

lemma vmaMap_supplied (h : Paged f s) (hl : Linked s l) (hr : Ranged s l) (hblack : BlackRoot s) (hnew : new ∉ l)
    (hsize : size ≠ 0)
    (haligned : Aligned addr) (hrange : addr.toNat + size.toNat ≤ 2 ^ 47)
    (hfree : ∀ a ∈ l, ¬ overlaps addr (roundUp size) (s.areas a)) (hsupplied : Supplied s cpu addr size flags) :
    ∃ s', vmaMap s cpu (some new) addr size flags = some (0, s') ∧ Paged f s' ∧ Linked s' (vmas s') ∧
      Ranged s' (vmas s') ∧ BlackRoot s' ∧
      (∀ v : Word, v.toNat < 2 ^ 47 → userByte s' v = if addr.toNat ≤ v.toNat ∧
        v.toNat < addr.toNat + (roundUp size).toNat then some 0
        else userByte s v) ∧
      ∀ v : Word, addr.toNat ≤ v.toNat → v.toNat < addr.toNat + (roundUp size).toNat → ∃ e, leaf f s'.mem v = some e ∧
        frameOf e ≠ 0 := by
  obtain ⟨s', hmap⟩ := vmaMap_some hl hblack hnew hsize haligned hfree hsupplied
  have hfresh : (Call.map cpu (some new) addr size flags).Fresh s := by
    rintro _ ⟨⟩
    rwa [hl.vmas_eq]
  have hfits : (Call.map cpu (some new) addr size flags).Fits s := by
    intro _
    rw [roundUp_toNat (by omega), hl.vmas_eq]
    exact ⟨by omega, hfree⟩
  obtain ⟨_, hl', hr', -⟩ := map_keeps hl hr hfresh hfits hmap
  have hblack' := step_blackRoot hl hblack hfresh trivial (Option.map_eq_some_iff.mpr ⟨_, hmap, rfl⟩)
  obtain rfl := hl'.vmas_eq
  obtain ⟨hpaged, hbytes, _, _, -, hleaves⟩ := h.map hrange hsupplied hmap
  refine ⟨s', hmap, hpaged, hl', hr', hblack', hbytes, fun v hlow hhigh => ?_⟩
  obtain ⟨e, hleaf, _⟩ := hleaves v hlow hhigh
  exact ⟨e, hleaf, by omega⟩

end KernelSmp.Memory.VmaRanges
