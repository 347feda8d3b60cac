import KernelSmp.Memory.Kernel
import KernelSmp.Memory.VmaRanges

/-! The access that the page tables grant to the pages of a task's areas. -/

namespace KernelSmp.Memory.VmaRanges

open Base Base.Radix Function List Option BitVec

def leafEntryOf (s : Vm) (v : Word) : Option Word := (walkEntries s.mem s.task.cr3 v).bind List.getLast?

structure Carries (e : Word) (flags : BitVec 32) : Prop where
  present : hasFlag e ptePresent = true
  user : hasFlag e pteUser = true
  writable : hasFlag e pteWritable = true ↔ flags &&& vmaWrite ≠ 0
  noExec : hasFlag e pteNx = true ↔ flags &&& vmaExec = 0

def PagesCarry (s : Vm) (a : Word) : Prop :=
  ∀ v : Word, v.toNat ∈ covered (s.areas a) → ∀ e ∈ leafEntryOf s v, Carries e (s.areas a).vmFlags

structure FreshSpace (s : Vm) : Prop where
  small : s.pmm.bitmapSize * 8 ≤ 2 ^ 28
  root : ∃ f, f < 2 ^ 52 ∧ s.task.cr3 = frameAddr f ∧ s.pmm.isSet f = true
  empty : ∀ i, entry s.mem s.task.cr3 (userIndex i) = 0

def Call.InUserHalf : Call → Prop
  | .map _ _ addr size _ => addr.toNat + size.toNat ≤ 2 ^ 47
  | .unmap _ addr size => addr.toNat + size.toNat ≤ 2 ^ 47

def Call.Agrees (s : Vm) : Call → Prop
  | .map _ kmalloc addr size flags => Grows s kmalloc addr size flags →
      ∀ a ∈ vmas s, overlaps addr (roundUp size) (s.areas a) → (s.areas a).vmFlags &&& vmaWrite = flags &&& vmaWrite
  | .unmap _ _ _ => True

instance : (c : Call) → Decidable c.InUserHalf
  | .map _ _ _ _ _ => inferInstanceAs (Decidable (_ ≤ _))
  | .unmap _ _ _ => inferInstanceAs (Decidable (_ ≤ _))

instance (s : Vm) : (c : Call) → Decidable (c.Agrees s)
  | .map _ kmalloc addr size flags =>
    have : Decidable (∀ a ∈ vmas s, overlaps addr (roundUp size) (s.areas a) →
        (s.areas a).vmFlags &&& vmaWrite = flags &&& vmaWrite) := List.decidableBAll _ (vmas s)
    inferInstanceAs (Decidable (Grows s kmalloc addr size flags → _))
  | .unmap _ _ _ => .isTrue trivial

variable {f : ℕ} {s s' s₁ : Vm} {cpu : Option ℕ} {addr size v : Word} {flags : BitVec 32}

section pages

variable {w : Word}

abbrev oneRoot (f : ℕ) : Unit → Option ℕ := fun _ => some f

def leaf (f : ℕ) (m : Mem) (v : Word) : Option Word := leafOf (oneRoot f) (tables m) () v

structure Paged (f : ℕ) (s : Vm) : Prop where
  cr3 : s.task.cr3 = frameAddr f
  spaces : Spaces (oneRoot f) s.mem s.pmm

lemma Paged.of_pages (h : Paged f s) (hpages : s'.pages = s.pages) : Paged f s' := by
  obtain ⟨hmem, hpmm, hcr3⟩ := Vm.pages_eq.mp hpages
  refine ⟨hcr3.trans h.cr3, ?_⟩
  rw [hmem, hpmm]
  exact h.spaces

lemma Paged.mapFailed {kmalloc : Option Word} {code : Int} (h : Paged f s)
    (hmap : vmaMap s cpu kmalloc addr size flags = some (code, s')) (hcode : code ≠ 0) : Paged f s' ∧ s'.mem = s.mem := by
  obtain ⟨-, hsame | ⟨pmm, halloc, hpages⟩⟩ | ⟨hzero, -⟩ := vmaMap_pages hmap
  · exact ⟨h.of_pages hsame, congrArg Prod.fst hsame⟩
  · obtain ⟨hsmall, hq⟩ := pmmAllocFrames_frames h.spaces.small halloc
    have hmono : usedFrames s.pmm ⊆ usedFrames pmm := by
      rcases hq with ⟨-, hsame⟩ | ⟨start, -, -, -, -, hrun⟩
      · exact hsame.ge
      · rw [hrun]
        exact Set.subset_union_left
    exact ⟨Paged.of_pages (s := { s with pmm }) ⟨h.cr3, h.spaces.more hsmall hmono⟩ hpages, congrArg Prod.fst hpages⟩
  · exact absurd hzero hcode

lemma leafPath_eq (hv : v.toNat < 2 ^ 47) (hw : w.toNat < 2 ^ 47) :
    leafPath v = leafPath w ↔ v.toNat / 4096 = w.toNat / 4096 := by
  simp only [leafPath, upperPath, List.cons.injEq, and_true, pml4Idx, pdptIdx, pdIdx, ptIdx, Fin.ext_iff, indexAt_val]
  omega

lemma leaf_congr_page (m : Mem) (hv : v.toNat < 2 ^ 47) (hw : w.toNat < 2 ^ 47) (h : v.toNat / 4096 = w.toNat / 4096) :
    leaf f m v = leaf f m w := by
  obtain ⟨hup, hpt⟩ := leafPath_inj.mp ((leafPath_eq hv hw).mpr h)
  rw [leaf, leaf, leafOf, leafOf, hup, hpt]

lemma Paged.run (h : Paged f s) (hrange : addr.toNat + size.toNat ≤ 2 ^ 47) (hrun : MapsRun s cpu addr size flags s') :
    Paged f s' ∧ ∀ v : Word, v.toNat < 2 ^ 47 → leaf f s'.mem v = leaf f s.mem v ∨
      (addr.toNat ≤ v.toNat ∧ v.toNat < (addr + roundUp size).toNat) ∧ (leaf f s'.mem v = none ∨
        ∃ g, 0 < g ∧ g < 2 ^ 28 ∧ leaf f s'.mem v = some (leafEntry (frameAddr g) ((vmmOpts flags).setWidth 64))) := by
  obtain ⟨hsize, _⟩ := roundUp_range hrun.aligned hrange
  have haddr := aligned_iff.mp hrun.aligned
  have hsum : (addr + roundUp size).toNat = addr.toNat + (roundUp size).toNat := toNat_add_of_lt (by omega)
  obtain ⟨hspaces, -, -, ⟨start, _, _, hleaves⟩, hcr3⟩ := hrun.spaces hrange h.spaces rfl h.cr3
  refine ⟨⟨hcr3.trans h.cr3, hspaces⟩, fun v hv => ?_⟩
  rcases hleaves () v (userPath_of_lt hv) with hsame | ⟨-, j, hj, hpath, hleaf⟩
  · exact .inl hsame
  · have hoffset : (addr + pageOffset j).toNat = addr.toNat + j * pageSize := pageOffset_toNat (by rw [pageSize]; omega)
    rw [pageSize] at hoffset
    rw [leafPath_eq hv (by omega), hoffset] at hpath
    refine .inr ⟨⟨by omega, by omega⟩, hleaf.imp id fun hsome => ?_⟩
    exact ⟨start + j, by omega, by omega, hsome⟩

structure Lessened (f : ℕ) (m : Mem) (u : Vm) : Prop where
  paged : Paged f u
  leaves : ∀ v : Word, v.toNat < 2 ^ 47 → leaf f u.mem v = leaf f m v ∨ leaf f u.mem v = none

lemma Lessened.unmapPage {m : Mem} (h : Lessened f m s) (huser : addr.toNat < 2 ^ 47) : Lessened f m (unmapPage s cpu addr) ∧
    ∀ v : Word, v.toNat < 2 ^ 47 → leaf f s.mem v = none → leaf f (Memory.unmapPage s cpu addr).mem v = none := by
  obtain ⟨hspaces, -, -, hleaves, -, htask⟩ := unmapPage_spaces h.paged.spaces rfl h.paged.cr3 huser
  have hcases : ∀ v : Word, v.toNat < 2 ^ 47 → leaf f (Memory.unmapPage s cpu addr).mem v = leaf f s.mem v ∨
      leaf f (Memory.unmapPage s cpu addr).mem v = none :=
    fun v hv => (hleaves () v (userPath_of_lt hv)).imp id fun hgone => hgone.2.2
  refine ⟨⟨⟨by rw [htask, h.paged.cr3], hspaces⟩, fun v hv => ?_⟩, fun v hv hnone => ?_⟩
  · rcases hcases v hv with hsame | hnone
    · rw [hsame]
      exact h.leaves v hv
    · exact .inr hnone
  · exact (hcases v hv).elim (fun hsame => hsame.trans hnone) id

lemma Paged.unmap {stop : Word} {fuel : ℕ} (h : Paged f s)
    (hframe : ∀ v e, v.toNat < 2 ^ 47 → leaf f s.mem v = some e → frameOf e ≠ 0) (hstop : stop.toNat ≤ 2 ^ 47)
    (hpages : Word.forBelow (BitVec.ofNat 64 pageSize) stop
      (fun s vaddr => unmapPage s cpu vaddr) fuel addr s = some s₁) :
    Lessened f s.mem s₁ ∧ ∀ v : Word, addr.toNat ≤ v.toNat / 4096 * 4096 + 4095 →
      v.toNat / 4096 * 4096 + 4096 ≤ stop.toNat → leaf f s₁.mem v = none := by
  have huser : ∀ a : Word, a < stop → a.toNat < 2 ^ 47 := fun a ha => lt_of_lt_of_le (lt_def.mp ha) hstop
  have hstart : Lessened f s.mem s := ⟨h, fun _ _ => .inl rfl⟩
  have hbody : ∀ (u : Vm) (a : Word), a < stop → Lessened f s.mem u → Lessened f s.mem (unmapPage u cpu a) :=
    fun u a ha hu => (hu.unmapPage (huser a ha)).1
  refine ⟨?_, fun v hlow hhigh => ?_⟩
  · exact Word.forBelow_invariant (Q := fun _ => True) (fun _ _ _ => trivial)
      (fun u a ha _ => hbody u a ha) trivial hstart hpages
  -- the loop passes an address `b` inside the page of `v`
  obtain ⟨b, k, hb, hpage, hlt⟩ : ∃ (b : Word) (k : ℕ), b.toNat = addr.toNat + k * 4096 ∧
      b.toNat / 4096 = v.toNat / 4096 ∧ b.toNat < stop.toNat := by
    have hk : addr.toNat + (v.toNat / 4096 * 4096 + 4095 - addr.toNat) / 4096 * 4096 < 2 ^ 64 := by omega
    refine ⟨BitVec.ofNat 64 (addr.toNat + (v.toNat / 4096 * 4096 + 4095 - addr.toNat) / 4096 * 4096),
      (v.toNat / 4096 * 4096 + 4095 - addr.toNat) / 4096, ?_⟩
    rw [toNat_ofNat, Nat.mod_eq_of_lt hk]
    omega
  rw [leaf_congr_page s₁.mem (by omega) (by omega) hpage.symm]
  refine Word.forBelow_reaches (I := Lessened f s.mem) (X := fun u => leaf f u.mem b = none) hbody ?_ ?_ hstart
    (lt_def.mpr hlt) hb hpages
  · exact fun u a ha hu => (hu.unmapPage (huser a ha)).2 b (by omega)
  · intro u hu
    refine unmapPage_leaf hu.paged.spaces rfl hu.paged.cr3 (by omega) fun e he => ?_
    rcases hu.leaves b (by omega) with hold | hnone
    · exact hframe b e (by omega) (hold.symm.trans he)
    · cases hnone.symm.trans he

end pages

variable {l : List Word} {a stop e : Word} {xs xs' : List (Word × Word × BitVec 32)}

section regions

variable {w : BitVec 32}

def Whole (xs : List (Word × Word × BitVec 32)) (v : Word) : Prop :=
  ∃ x ∈ xs, x.1.toNat ≤ v.toNat / 4096 * 4096 ∧ v.toNat / 4096 * 4096 + 4096 ≤ x.2.1.toNat

def Asks (xs : List (Word × Word × BitVec 32)) (v : Word) (w : BitVec 32) : Prop :=
  ∃ x ∈ xs, x.1.toNat ≤ v.toNat ∧ v.toNat < x.2.1.toNat ∧ x.2.2 &&& vmaWrite = w

lemma Whole.asks (h : Whole xs v) : ∃ w, Asks xs v w := by
  obtain ⟨x, hx, _, _⟩ := h
  exact ⟨_, x, hx, by omega, by omega, rfl⟩

structure Described (xs : List (Word × Word × BitVec 32)) (v e : Word) : Prop where
  whole : Whole xs v
  entry : ∃ g flags, 0 < g ∧ g < 2 ^ 28 ∧ e = leafEntry (frameAddr g) ((vmmOpts flags).setWidth 64) ∧
    ∀ w, Asks xs v w → w = flags &&& vmaWrite

lemma Described.frame (h : Described xs v e) : frameOf e ≠ 0 := by
  obtain ⟨_, flags, _, hg, rfl, -⟩ := h.entry
  rw [frameOf_leafEntry hg (vmmOpts_and_mask flags)]
  omega

structure Backed (f : ℕ) (s : Vm) : Prop where
  linked : ∃ l, Linked s l
  paged : Paged f s
  inside : ∀ x ∈ ranges s, x.1.toNat ≤ x.2.1.toNat ∧ x.2.1.toNat ≤ 2 ^ 47
  leaves : ∀ v e, v.toNat < 2 ^ 47 → leaf f s.mem v = some e → Described (ranges s) v e

structure Regrown (xs xs' : List (Word × Word × BitVec 32)) (addr stop : Word) (flags : BitVec 32) : Prop where
  asks : ∀ v w, Asks xs' v w → Asks xs v w ∨ (addr.toNat ≤ v.toNat ∧ v.toNat < stop.toNat) ∧ w = flags &&& vmaWrite
  kept : ∀ v, Whole xs v → Whole xs' v
  whole : ∀ v : Word, addr.toNat ≤ v.toNat / 4096 * 4096 → v.toNat / 4096 * 4096 + 4096 ≤ stop.toNat → Whole xs' v
  inside : ∀ x ∈ xs', x ∈ xs ∨ x.1.toNat ≤ x.2.1.toNat ∧ x.2.1 = stop

structure Shrunk (xs xs' : List (Word × Word × BitVec 32)) (mapped : Word → Prop) : Prop where
  asks : ∀ v w, Asks xs' v w → Asks xs v w
  kept : ∀ v, mapped v → Whole xs v → Whole xs' v
  inside : ∀ x ∈ xs', x ∈ xs ∨ x.1.toNat ≤ x.2.1.toNat ∧ ∃ y ∈ xs, x.2.1.toNat ≤ y.2.1.toNat

lemma Described.grow (h : Described xs v e) (hgrown : Regrown xs xs' addr stop flags) (hagrees : ∀ w, addr.toNat ≤ v.toNat →
    v.toNat < stop.toNat → Asks xs v w → w = flags &&& vmaWrite) : Described xs' v e := by
  obtain ⟨g, flags₀, hpos, hg, he, hasks⟩ := h.entry
  refine ⟨hgrown.kept v h.whole, g, flags₀, hpos, hg, he, fun w hw => ?_⟩
  rcases hgrown.asks v w hw with hold | ⟨⟨hlow, hhigh⟩, rfl⟩
  · exact hasks w hold
  · obtain ⟨w, hw'⟩ := h.whole.asks
    rw [← hagrees w hlow hhigh hw', hasks w hw']

lemma Backed.grow (h : Backed f s) (hlinked : ∃ l, Linked s' l) (hpaged : Paged f s')
    (hgrown : Regrown (ranges s) (ranges s') addr stop flags) (haddr : Aligned addr) (hstop : Aligned stop)
    (hbelow : stop.toNat ≤ 2 ^ 47)
    (hagrees : ∀ v w, addr.toNat ≤ v.toNat → v.toNat < stop.toNat → Asks (ranges s) v w → w = flags &&& vmaWrite)
    (hleaves : ∀ v : Word, v.toNat < 2 ^ 47 → leaf f s'.mem v = leaf f s.mem v ∨
      (addr.toNat ≤ v.toNat ∧ v.toNat < stop.toNat) ∧ (leaf f s'.mem v = none ∨
        ∃ g, 0 < g ∧ g < 2 ^ 28 ∧ leaf f s'.mem v = some (leafEntry (frameAddr g) ((vmmOpts flags).setWidth 64)))) :
    Backed f s' := by
  rw [aligned_iff] at haddr hstop
  refine ⟨hlinked, hpaged, fun x hx => ?_, fun v e hv he => ?_⟩
  · rcases hgrown.inside x hx with hold | ⟨hle, hnew⟩
    · exact h.inside x hold
    · exact ⟨hle, hnew ▸ hbelow⟩
  · rcases hleaves v hv with hsame | ⟨⟨hlow, hhigh⟩, hnone | ⟨g, hpos, hg, hsome⟩⟩
    · rw [hsame] at he
      exact (h.leaves v e hv he).grow hgrown (hagrees v)
    · cases hnone.symm.trans he
    · cases hsome.symm.trans he
      refine ⟨hgrown.whole v (by omega) (by omega), g, flags, hpos, hg, rfl, fun w hw => ?_⟩
      rcases hgrown.asks v w hw with hold | ⟨-, rfl⟩
      · exact hagrees v w hlow hhigh hold
      · rfl

lemma Backed.shrink (h : Backed f s) (hlinked : ∃ l, Linked s' l) (hless : Lessened f s.mem s')
    (hshrunk : Shrunk (ranges s) (ranges s') fun v => v.toNat < 2 ^ 47 ∧ (leaf f s'.mem v).isSome) : Backed f s' := by
  refine ⟨hlinked, hless.paged, fun x hx => ?_, fun v e hv he => ?_⟩
  · rcases hshrunk.inside x hx with hold | ⟨hle, y, hy, hbelow⟩
    · exact h.inside x hold
    · exact ⟨hle, hbelow.trans (h.inside y hy).2⟩
  · have hold : leaf f s.mem v = some e := by
      rcases hless.leaves v hv with hsame | hnone
      · exact hsame.symm.trans he
      · cases hnone.symm.trans he
    obtain ⟨hwhole, g, flags, hpos, hg, he', hasks⟩ := h.leaves v e hv hold
    refine ⟨hshrunk.kept v ⟨hv, by rw [he]; rfl⟩ hwhole, g, flags, hpos, hg, he', fun w hw => ?_⟩
    exact hasks w (hshrunk.asks v w hw)

lemma Linked.ranges_eq (h : Linked s l) : ranges s = l.map (rangeOf s) := by
  rw [ranges, h.vmas_eq]

lemma Regrown.cons (haddr : addr.toNat ≤ stop.toNat) : Regrown xs ((addr, stop, flags) :: xs) addr stop flags where
  asks := by
    rintro v w ⟨x, hx, hlow, hhigh, hw⟩
    cases hx with
    | head => exact .inr ⟨⟨hlow, hhigh⟩, hw.symm⟩
    | tail _ hx => exact .inl ⟨x, hx, hlow, hhigh, hw⟩
  kept := by
    rintro v ⟨x, hx, hwhole⟩
    exact ⟨x, mem_cons_of_mem _ hx, hwhole⟩
  whole v hlow hhigh := ⟨_, mem_cons_self, hlow, hhigh⟩
  inside := by
    intro x hx
    cases hx with
    | head => exact .inr ⟨haddr, rfl⟩
    | tail _ hx => exact .inl hx

lemma Regrown.resize {r r' : Word → Word × Word × BitVec 32} {start : Word} (ha : a ∈ l) (hsame : ∀ b ∈ l, b ≠ a → r' b = r b)
    (hold : r a = (start, addr, flags)) (hnew : r' a = (start, stop, flags)) (hstart : start.toNat ≤ addr.toNat)
    (hstop : addr.toNat ≤ stop.toNat) : Regrown (l.map r) (l.map r') addr stop flags where
  asks := by
    rintro v w ⟨x, hx, hlow, hhigh, hw⟩
    obtain ⟨b, hb, rfl⟩ := List.mem_map.mp hx
    by_cases hba : b = a
    · rw [hba, hnew] at hlow hhigh hw
      by_cases hv : v.toNat < addr.toNat
      · exact .inl ⟨_, List.mem_map_of_mem ha, by rw [hold]; exact ⟨hlow, hv, hw⟩⟩
      · exact .inr ⟨⟨by omega, hhigh⟩, hw.symm⟩
    · rw [hsame b hb hba] at hlow hhigh hw
      exact .inl ⟨_, List.mem_map_of_mem hb, hlow, hhigh, hw⟩
  kept := by
    rintro v ⟨x, hx, hlow, hhigh⟩
    obtain ⟨b, hb, rfl⟩ := List.mem_map.mp hx
    refine ⟨_, List.mem_map_of_mem hb, ?_⟩
    by_cases hba : b = a
    · rw [hba, hold] at hlow hhigh
      rw [hba, hnew]
      exact ⟨hlow, hhigh.trans hstop⟩
    · rw [hsame b hb hba]
      exact ⟨hlow, hhigh⟩
  whole v hlow hhigh := by
    refine ⟨_, List.mem_map_of_mem ha, ?_⟩
    rw [hnew]
    exact ⟨hstart.trans hlow, hhigh⟩
  inside := by
    intro x hx
    obtain ⟨b, hb, rfl⟩ := List.mem_map.mp hx
    by_cases hba : b = a
    · rw [hba, hnew]
      exact .inr ⟨hstart.trans hstop, rfl⟩
    · rw [hsame b hb hba]
      exact .inl (List.mem_map_of_mem hb)

variable {mapped : Word → Prop}

lemma Shrunk.refl : Shrunk xs xs mapped := ⟨fun _ _ => id, fun _ _ => id, fun _ => Or.inl⟩

lemma Shrunk.remove {x : Word × Word × BitVec 32} (hperm : (x :: xs').Perm xs)
    (hgone : ∀ v, mapped v → ¬ (x.1.toNat ≤ v.toNat / 4096 * 4096 ∧ v.toNat / 4096 * 4096 + 4096 ≤ x.2.1.toNat)) :
    Shrunk xs xs' mapped where
  asks := by
    rintro v w ⟨y, hy, hasks⟩
    exact ⟨y, hperm.mem_iff.mp (mem_cons_of_mem x hy), hasks⟩
  kept := by
    rintro v hv ⟨y, hy, hwhole⟩
    rcases mem_cons.mp (hperm.mem_iff.mpr hy) with rfl | hy
    · exact absurd hwhole (hgone v hv)
    · exact ⟨y, hy, hwhole⟩
  inside y hy := .inl (hperm.mem_iff.mp (mem_cons_of_mem x hy))

lemma Shrunk.resize {r r' : Word → Word × Word × BitVec 32} {start : Word} (ha : a ∈ l)
    (hsame : ∀ b ∈ l, b ≠ a → r' b = r b) (hold : r a = (start, stop, flags)) (hnew : r' a = (start, addr, flags))
    (hstart : start.toNat ≤ addr.toNat) (hend : addr.toNat ≤ stop.toNat)
    (hgone : ∀ v, mapped v → ¬ (addr.toNat < v.toNat / 4096 * 4096 + 4096 ∧ v.toNat / 4096 * 4096 + 4096 ≤ stop.toNat)) :
    Shrunk (l.map r) (l.map r') mapped where
  asks := by
    rintro v w ⟨x, hx, hlow, hhigh, hw⟩
    obtain ⟨b, hb, rfl⟩ := List.mem_map.mp hx
    by_cases hba : b = a
    · rw [hba, hnew] at hlow hhigh hw
      exact ⟨_, List.mem_map_of_mem ha, by rw [hold]; exact ⟨hlow, hhigh.trans_le hend, hw⟩⟩
    · rw [hsame b hb hba] at hlow hhigh hw
      exact ⟨_, List.mem_map_of_mem hb, hlow, hhigh, hw⟩
  kept := by
    rintro v hv ⟨x, hx, hlow, hhigh⟩
    obtain ⟨b, hb, rfl⟩ := List.mem_map.mp hx
    refine ⟨_, List.mem_map_of_mem hb, ?_⟩
    by_cases hba : b = a
    · rw [hba, hold] at hlow hhigh
      rw [hba, hnew]
      refine ⟨hlow, ?_⟩
      by_contra hcut
      exact hgone v hv ⟨not_le.mp hcut, hhigh⟩
    · rw [hsame b hb hba]
      exact ⟨hlow, hhigh⟩
  inside := by
    intro x hx
    obtain ⟨b, hb, rfl⟩ := List.mem_map.mp hx
    by_cases hba : b = a
    · rw [hba, hnew]
      exact .inr ⟨hstart, _, List.mem_map_of_mem ha, by rw [hold]; exact hend⟩
    · rw [hsame b hb hba]
      exact .inl (List.mem_map_of_mem hb)

end regions

variable {kmalloc : Option Word} {code : Int}

lemma Backed.congr (h : Backed f s) (hlinked : ∃ l, Linked s' l) (hpaged : Paged f s') (hranges : ranges s' = ranges s)
    (hmem : s'.mem = s.mem) : Backed f s' := by
  refine ⟨hlinked, hpaged, ?_, ?_⟩
  · rw [hranges]
    exact h.inside
  · rw [hranges, hmem]
    exact h.leaves

lemma asks_agree (h : ∀ a ∈ vmas s, overlaps addr (roundUp size) (s.areas a) →
      (s.areas a).vmFlags &&& vmaWrite = flags &&& vmaWrite) (v : Word) (w : BitVec 32) (hlow : addr.toNat ≤ v.toNat)
    (hhigh : v.toNat < (addr + roundUp size).toNat) (hasks : Asks (ranges s) v w) : w = flags &&& vmaWrite := by
  obtain ⟨_, hx, hstart, hend, rfl⟩ := hasks
  obtain ⟨a, ha, rfl⟩ := List.mem_map.mp hx
  apply h a ha
  rw [overlaps, decide_eq_true_eq]
  exact ⟨lt_def.mpr (hlow.trans_lt hend), lt_def.mpr (hstart.trans_lt hhigh)⟩

lemma map_backed (h : Backed f s) (hfresh : (Call.map cpu kmalloc addr size flags).Fresh s)
    (huser : (Call.map cpu kmalloc addr size flags).InUserHalf) (hagrees : (Call.map cpu kmalloc addr size flags).Agrees s)
    (hmap : vmaMap s cpu kmalloc addr size flags = some (code, s')) : Backed f s' := by
  obtain ⟨l, hl⟩ := h.linked
  simp only [Call.Fresh, hl.vmas_eq] at hfresh
  have hgrow : code = 0 → (∃ l', Linked s' l') → (addr.toNat ≤ (addr + roundUp size).toNat →
      Regrown (ranges s) (ranges s') addr (addr + roundUp size) flags) → Backed f s' := by
    rintro rfl hlinked hgrown
    have hrun := vmaMap_run hmap
    obtain ⟨hpaged, hleaves⟩ := h.paged.run huser hrun
    obtain ⟨-, hend⟩ := roundUp_range hrun.aligned huser
    have hsum : (addr + roundUp size).toNat = addr.toNat + (roundUp size).toNat := toNat_add_of_lt (by omega)
    exact h.grow hlinked hpaged (hgrown (by omega)) hrun.aligned (Aligned.add hrun.aligned (roundUp_aligned size)) (by omega)
      (asks_agree (hagrees (hl.grows hfresh hmap))) hleaves
  cases hl.map hfresh hmap with
  | failed hcode hlinked hsame =>
    obtain ⟨hpaged, hmem⟩ := h.paged.mapFailed hmap hcode
    refine h.congr ⟨l, hlinked⟩ hpaged ?_ hmem
    rw [hlinked.ranges_eq, hl.ranges_eq]
    exact map_congr_left hsame
  | grown hcode curr hcurr hexpand hlinked hsame hrange =>
    obtain ⟨hend, hflags⟩ : (s.areas curr).vmEnd = addr ∧ (s.areas curr).vmFlags = flags := of_decide_eq_true hexpand
    have hinside := h.inside (rangeOf s curr) (by rw [hl.ranges_eq]; exact List.mem_map_of_mem hcurr)
    have hold : rangeOf s curr = ((s.areas curr).vmStart, addr, flags) := by rw [rangeOf, hend, hflags]
    rw [hold] at hinside
    refine hgrow hcode ⟨l, hlinked⟩ fun hle => ?_
    rw [hl.ranges_eq, hlinked.ranges_eq]
    exact Regrown.resize hcurr hsame hold hrange hinside.1 hle
  | added hcode new hnew hfree hlinked hsame hrange =>
    refine hgrow hcode ⟨new :: l, hlinked⟩ fun hle => ?_
    rw [hlinked.ranges_eq, map_cons, hrange, map_congr_left hsame, hl.ranges_eq]
    exact Regrown.cons hle

lemma Lessened.of_pages {m : Mem} (h : Lessened f m s) (hpages : s'.pages = s.pages) : Lessened f m s' := by
  refine ⟨h.paged.of_pages hpages, ?_⟩
  rw [(Vm.pages_eq.mp hpages).1]
  exact h.leaves

lemma unmap_backed (h : Backed f s) (huser : (Call.unmap cpu addr size).InUserHalf)
    (hunmap : vmaUnmap s cpu addr size = some (code, s')) : Backed f s' := by
  obtain ⟨l, hl⟩ := h.linked
  simp only [Call.InUserHalf] at huser
  have hstop : (addr + size).toNat ≤ 2 ^ 47 := by
    rw [BitVec.toNat_add]
    omega
  rcases vmaUnmap_pages hunmap with ⟨-, rfl⟩ | ⟨s₁, hpages, hsame₁⟩
  · exact h
  obtain ⟨hless, hgone⟩ := h.paged.unmap (fun v e hv he => (h.leaves v e hv he).frame) hstop hpages
  have hless' := hless.of_pages hsame₁
  rw [← (Vm.pages_eq.mp hsame₁).1] at hgone
  -- no page between `addr` and the end of the range is mapped any more
  have hunmapped : ∀ v : Word, v.toNat < 2 ^ 47 ∧ (leaf f s'.mem v).isSome →
      ¬ (addr.toNat < v.toNat / 4096 * 4096 + 4096 ∧ v.toNat / 4096 * 4096 + 4096 ≤ (addr + size).toNat) := by
    rintro v ⟨-, hmapped⟩ ⟨hlow, hhigh⟩
    simp [hgone v (by omega) hhigh] at hmapped
  cases hl.unmap hunmap with
  | refused _ hsame => exact hsame ▸ h
  | kept _ _ _ _ _ hlinked hsame =>
    apply h.shrink ⟨l, hlinked⟩ hless'
    rw [hlinked.ranges_eq, map_congr_left fun a _ => hsame a, ← hl.ranges_eq]
    exact Shrunk.refl
  | trimmed vma hvma hstart hbelow hend hlinked hsame hrange =>
    apply h.shrink ⟨l, hlinked⟩ hless'
    rw [hlinked.ranges_eq, hl.ranges_eq]
    refine Shrunk.resize hvma hsame rfl hrange (lt_def.mp hstart).le (lt_def.mp hbelow).le fun v hv hin => ?_
    exact hunmapped v hv ⟨hin.1, hin.2.trans (le_def.mp hend)⟩
  | removed vma l' hvma hstart hbelow hend hlinked hperm hsame =>
    apply h.shrink ⟨l', hlinked⟩ hless'
    rw [hlinked.ranges_eq, map_congr_left fun a _ => hsame a, hl.ranges_eq]
    refine Shrunk.remove (hperm.map (rangeOf s)) fun v hv hin => ?_
    simp only [rangeOf, hstart] at hin
    exact hunmapped v hv ⟨by omega, hin.2.trans (le_def.mp hend)⟩

lemma carries_leafEntry (g : ℕ) {flags' : BitVec 32} (hwrite : flags &&& vmaWrite = flags' &&& vmaWrite)
    (hexec : flags &&& vmaExec ≠ 0) : Carries (leafEntry (frameAddr g) ((vmmOpts flags').setWidth 64)) flags := by
  have hopts : hasFlag ((vmmOpts flags').setWidth 64) pteUser = true ∧
      (hasFlag ((vmmOpts flags').setWidth 64) pteWritable = true ↔ flags' &&& vmaWrite ≠ 0) ∧
      hasFlag ((vmmOpts flags').setWidth 64) pteNx = false := by
    rw [vmmOpts]
    by_cases hw : flags' &&& vmaWrite = 0
    · by_cases hx : flags' &&& vmaExec = 0
      · simp only [hw, hx]
        decide
      · simp only [hw, hx]
        decide
    · by_cases hx : flags' &&& vmaExec = 0
      · simp only [hw, hx, ne_eq]
        decide
      · simp only [hw, hx, ne_eq]
        decide
  obtain ⟨_, _, hnx⟩ := hopts
  constructor
  · rw [ptePresent, hasFlag_eq _ (by decide), leafEntry]
    simp [ptePresent]
  · rwa [pteUser, leafEntry_hasFlag _ _ (by decide) (by decide) (by decide)]
  · rwa [pteWritable, leafEntry_hasFlag _ _ (by decide) (by decide) (by decide), hwrite]
  · rw [pteNx, leafEntry_hasFlag _ _ (by decide) (by decide) (by decide)]
    exact iff_of_false (Bool.eq_false_iff.mp hnx) hexec

lemma Backed.pagesCarry (h : Backed f s) (ha : a ∈ vmas s) (hexec : (s.areas a).vmFlags &&& vmaExec ≠ 0) : PagesCarry s a := by
  rintro v ⟨hlow, hhigh⟩ e he
  have hmem : rangeOf s a ∈ ranges s := List.mem_map_of_mem ha
  have hv := hhigh.trans_le (h.inside _ hmem).2
  rw [leafEntryOf, h.paged.cr3] at he
  rcases h.paged.spaces.wired.walk_cases rfl (UserPath.tail _ _ (userPath_of_lt hv)) with
    ⟨-, -, hwalk⟩ | ⟨e', hleaf, -, g₁, g₂, g₃, hwalk⟩
  · simp [hwalk] at he
  · rw [hwalk] at he
    cases he
    obtain ⟨-, g, _, -, -, rfl, hasks⟩ := h.leaves v e' hv hleaf
    exact carries_leafEntry g (hasks _ ⟨_, hmem, hlow, hhigh, rfl⟩) hexec

lemma paged_of_emptyRow (hsmall : s.pmm.Small) (hf : f < 2 ^ 52) (hcr3 : s.task.cr3 = frameAddr f)
    (hused : f ∈ usedFrames s.pmm) (hrow : ∀ i, UserPath [i] → tables s.mem f i = 0) : Paged f s ∧ ∀ q g, UserPath q →
    role (oneRoot f) (tables s.mem) () q = some g → q = [] ∧ g = f := by
  have hroots : update (fun _ : Unit => (none : Option ℕ)) () (some f) = oneRoot f := funext fun _ => update_self () _ _
  have hwired : Wired (oneRoot f) UserPath (tables s.mem) (insert f (usedFrames s.pmm \ {f})) := by
    rw [← hroots]
    refine Wired.addRoot (wired_of_noRoots (fun _ => rfl) UserPath.tail) hf ?_ (fun _ _ => rfl) hrow ()
    exact fun hmem => hmem.2 rfl
  rw [Set.insert_sdiff_singleton, Set.insert_eq_of_mem hused] at hwired
  refine ⟨⟨hcr3, hsmall, hwired⟩, fun q g hq hr => ?_⟩
  rw [← hroots] at hr
  exact role_addRoot hrow UserPath.tail hq hr

lemma FreshSpace.backed {t : TaskVm} (h : FreshSpace s) (hinit : s.task = vmaInitTask t) : ∃ f, Backed f s := by
  obtain ⟨f, hf, hcr3, hused⟩ := h.root
  have hrow : ∀ i, UserPath [i] → tables s.mem f i = 0 := by
    intro i hi
    rw [userPath_singleton] at hi
    rw [← entry_frameAddr s.mem hf, ← hcr3]
    exact h.empty ⟨i, hi⟩
  obtain ⟨hpaged, honly⟩ := paged_of_emptyRow h.small hf hcr3 hused hrow
  refine ⟨f, ⟨[], linked_init hinit⟩, hpaged, ?_, fun v e hv he => ?_⟩
  · rw [(linked_init hinit).ranges_eq]
    exact forall_mem_nil _
  · obtain ⟨g, hr, -⟩ := bind_eq_some_iff.mp he
    cases (honly _ g (UserPath.tail _ _ (userPath_of_lt hv)) hr).1

theorem pages_carry {t : TaskVm} {calls : List Call} (hspace : FreshSpace s) (hinit : s.task = vmaInitTask t)
    (hfresh : Runs.Guarded step (fun s c => c.Fresh s) s calls) (huser : ∀ c ∈ calls, c.InUserHalf)
    (hagrees : Runs.Guarded step (fun s c => c.Agrees s) s calls) :
    Runs.Always step (fun s => ∀ a ∈ vmas s, (s.areas a).vmFlags &&& vmaExec ≠ 0 → PagesCarry s a) s calls := by
  obtain ⟨f, hbacked⟩ := hspace.backed hinit
  have hrun : Runs.Always step (Backed f) s calls := by
    refine Runs.invariant ?_ hbacked ((hfresh.and hagrees).and (Runs.guarded_of_forall huser s))
    rintro u c u' hu ⟨⟨hc, hc'⟩, hc''⟩ hstep
    cases c with
    | map cpu kmalloc addr size flags =>
      obtain ⟨⟨code, s₁⟩, hmap, rfl⟩ := map_eq_some_iff.mp hstep
      exact map_backed hu hc hc'' hc' hmap
    | unmap cpu addr size =>
      obtain ⟨⟨code, s₁⟩, hunmap, rfl⟩ := map_eq_some_iff.mp hstep
      exact unmap_backed hu hc'' hunmap
  apply hrun.mono
  intro u hu a ha hexec
  exact hu.pagesCarry ha hexec

def codeAndData : List Call :=
  [.map none (some 0x8000) 0x1000 0x1000 5, .map none (some 0x9000) 0x2000 0x2000 6, .map none none 0x4000 0x1000 6,
    .unmap none 0x2000 0x1000]

lemma blankVm_freshSpace : FreshSpace blankVm where
  small := by decide
  root := ⟨2, by decide, rfl, by decide⟩
  empty _ := by simp [entry, blankVm, Mem.load64, Mem.readLE]

theorem pages_carry_codeAndData : ∃ s, Runs.run step blankVm codeAndData = some s ∧
    leafEntryOf s 0x1000 = some 0x100005 ∧ leafEntryOf s 0x2000 = none ∧ leafEntryOf s 0x4000 = some 0x106007 ∧
    ∀ a ∈ vmas s, PagesCarry s a := by
  refine Runs.exists_of_check (fun s => (leafEntryOf s 0x1000 = some 0x100005 ∧ leafEntryOf s 0x2000 = none ∧
    leafEntryOf s 0x4000 = some 0x106007) ∧ ranges s = [(0x2000, 0x5000, 6), (0x1000, 0x2000, 5)]) (by decide +kernel) ?_
  rintro s hrun ⟨⟨hcode, hgone, hdata⟩, hranges⟩
  have hexec : ∀ x ∈ ranges s, x.2.2 &&& vmaExec ≠ 0 := by
    rw [hranges]
    simp [vmaExec]
  have hcarry := (pages_carry blankVm_freshSpace rfl (by decide +kernel) (by decide) (by decide +kernel)).last hrun
  exact ⟨hcode, hgone, hdata, fun a ha => hcarry a ha (hexec (rangeOf s a) (List.mem_map_of_mem ha))⟩

theorem data_executable : ∃ s, Runs.run step blankVm [.map none (some 0x8000) 0x1000 0x1000 2] = some s ∧
    ∃ a ∈ vmas s, ¬ PagesCarry s a := by
  refine Runs.exists_of_check (fun s => vmas s = [0x8000] ∧ leafEntryOf s 0x1000 = some 0x100007 ∧
    rangeOf s 0x8000 = (0x1000, 0x2000, 2)) (by decide +kernel) ?_
  rintro s hrun ⟨hvmas, hentry, hrange⟩
  simp only [Prod.mk.injEq, rangeOf] at hrange
  obtain ⟨hstart, hend, hflags⟩ := hrange
  refine ⟨0x8000, by rw [hvmas]; exact mem_cons_self, fun hcarry => ?_⟩
  have hcovered : (0x1000 : Word).toNat ∈ covered (s.areas 0x8000) := by
    rw [covered, hstart, hend]
    decide
  have hnx := (hcarry 0x1000 hcovered _ hentry).noExec.mpr (by rw [hflags]; decide)
  exact absurd hnx (by decide)

end KernelSmp.Memory.VmaRanges
