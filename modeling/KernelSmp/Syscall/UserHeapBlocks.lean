import KernelSmp.Fs.ElfImage
import KernelSmp.Syscall.UserHeap

/-! The blocks that `sys_malloc` hands out, the area of the heap and its pages. -/

namespace KernelSmp.Syscall

open Base Memory Memory.VmaRanges List Option BitVec

structure Heap where
  vm : Vm
  live : List (Word × Word)

def Heap.step (h : Heap) : HeapCall → Option Heap
  | .malloc cpu kmalloc frame => (sysMallocHandler h.vm cpu kmalloc frame).map fun r =>
      ⟨r.2, if r.1 = 0 then h.live else (r.1, frame.rdi) :: h.live⟩
  | .free cpu frame => (sysFreeHandler h.vm cpu frame).map fun r => ⟨r.2, h.live.erase (frame.rdi, frame.rsi)⟩

namespace HeapCall

def Proper (h : Heap) : HeapCall → Prop
  | malloc _ _ frame => frame.rdi.toNat < 2 ^ 46
  | free _ frame => (frame.rdi, frame.rsi) ∈ h.live

def Grows (s : Vm) (frame : InterruptFrame) : Prop :=
  s.task.heapCurr + alignSize frame.rdi > s.task.heapEnd ∧
    (pmmAllocFrames s.pmm ((roundUp (mallocGrowth s frame.rdi)).toNat / 4096)).1 ≠ 0

/-- No other area is in the way of the heap, and the frames for its page tables can be had. -/
def Clear (s : Vm) : HeapCall → Prop
  | malloc cpu _ frame => Grows s frame →
      (∀ a ∈ vmas s, ¬ overlaps s.task.heapEnd (roundUp (mallocGrowth s frame.rdi)) (s.areas a)) ∧
      let (phys, pmm) := pmmAllocFrames s.pmm ((roundUp (mallocGrowth s frame.rdi)).toNat / 4096)
      (vmmMapRangeUnlocked (fun p => pmmAllocFrame p cpu) ⟨s.mem, pmm⟩ s.task.cr3 s.task.heapEnd phys
        (roundUp (mallocGrowth s frame.rdi)) ((vmmOpts heapFlags).setWidth 64)).1 = true
  | free _ _ => True

instance (h : Heap) : (call : HeapCall) → Decidable (call.Proper h)
  | malloc _ _ _ => inferInstanceAs (Decidable (_ < _))
  | free _ _ => inferInstanceAs (Decidable (_ ∈ _))

instance (s : Vm) (frame : InterruptFrame) : Decidable (Grows s frame) := inferInstanceAs (Decidable (_ ∧ _))

instance (s : Vm) : (call : HeapCall) → Decidable (call.Clear s)
  | malloc cpu _ frame =>
    have : Decidable (∀ a ∈ vmas s, ¬ overlaps s.task.heapEnd (roundUp (mallocGrowth s frame.rdi)) (s.areas a)) :=
      List.decidableBAll _ (vmas s)
    inferInstanceAs (Decidable (Grows s frame → _ ∧ (vmmMapRangeUnlocked (fun p => pmmAllocFrame p cpu)
      ⟨s.mem, (pmmAllocFrames s.pmm ((roundUp (mallocGrowth s frame.rdi)).toNat / 4096)).2⟩ s.task.cr3 s.task.heapEnd
      (pmmAllocFrames s.pmm ((roundUp (mallocGrowth s frame.rdi)).toNat / 4096)).1
      (roundUp (mallocGrowth s frame.rdi)) ((vmmOpts heapFlags).setWidth 64)).1 = true))
  | free _ _ => .isTrue trivial

def InUserHalf (s : Vm) : HeapCall → Prop
  | malloc _ _ frame => Grows s frame → s.task.heapEnd.toNat + (mallocGrowth s frame.rdi).toNat ≤ 2 ^ 47
  | free _ _ => True

instance (s : Vm) : (call : HeapCall) → Decidable (call.InUserHalf s)
  | malloc _ _ frame => inferInstanceAs (Decidable (Grows s frame → _ ≤ _))
  | free _ _ => .isTrue trivial

/-- A failed `sys_malloc` changes no field of the heap, and `sys_free` no page below `heap_curr`. -/
def Careful (h : Heap) : HeapCall → Prop
  | malloc cpu kmalloc frame => ∀ s', sysMallocHandler h.vm cpu kmalloc frame = some (0, s') → heapOf s' = heapOf h.vm
  | free cpu frame => ∀ a s', sysFreeHandler h.vm cpu frame = some (a, s') →
      ∀ v : Word, v < s'.task.heapCurr → leafEntryOf s' v = leafEntryOf h.vm v

end HeapCall

structure BlocksSound (h : Heap) : Prop where
  disjoint : h.live.Pairwise fun b c => Disjoint (Set.Ico b.1.toNat (b.1.toNat + b.2.toNat))
    (Set.Ico c.1.toNat (c.1.toNat + c.2.toNat))
  aligned : ∀ b ∈ h.live, b.1.toNat % 16 = 0
  inside : ∀ b ∈ h.live, h.vm.task.heapStart ≤ b.1 ∧ b.1.toNat + b.2.toNat ≤ h.vm.task.heapCurr.toNat
  area : ∃ a ∈ vmas h.vm, rangeOf h.vm a = (h.vm.task.heapStart, h.vm.task.heapEnd, heapFlags)
  pages : Aligned h.vm.task.heapStart ∧ Aligned h.vm.task.heapEnd
  mapped : ∀ v : Word, h.vm.task.heapStart ≤ v → v < h.vm.task.heapEnd → v.toNat < 2 ^ 47 ∧ leafEntryOf h.vm v ≠ none

structure Loaded (s : Vm) : Prop where
  areas : ∃ l, Linked s l ∧ Ranged s l
  paged : ∃ f, Paged f s
  heap : ∃ a ∈ vmas s, rangeOf s a = (s.task.heapStart, s.task.heapEnd, heapFlags)
  curr : s.task.heapCurr = s.task.heapStart
  start : s.task.heapStart ≠ 0
  stop : Aligned s.task.heapEnd
  user : s.task.heapEnd.toNat ≤ 2 ^ 47
  mapped : ∀ v : Word, s.task.heapStart ≤ v → v < s.task.heapEnd → leafEntryOf s v ≠ none

section area

variable {f : ℕ} {l : List Word} {s s' : Vm} {cpu : Option ℕ} {kmalloc : Option Word} {addr size a v : Word} {flags : BitVec 32}
  {code : Int}

lemma eq_of_covered {b : Word} {x : ℕ} (hr : Ranged s l) (ha : a ∈ l) (hb : b ∈ l) (hxa : x ∈ covered (s.areas a))
    (hxb : x ∈ covered (s.areas b)) : a = b := by
  by_contra hne
  exact Set.disjoint_left.mp (hr.disjoint a ha b hb hne) hxa hxb

lemma vmaMap_grown (hl : Linked s l) (hr : Ranged s l) (ha : a ∈ l) (hend : (s.areas a).vmEnd = addr)
    (hflags : (s.areas a).vmFlags = flags)
    (hmap : vmaMap s cpu kmalloc addr size flags = some (code, s')) :
    code ≠ 0 ∧ s'.areas = s.areas ∧ s'.task = s.task ∨
    code = 0 ∧ Linked s' l ∧ (∀ b ∈ l, b ≠ a → rangeOf s' b = rangeOf s b) ∧
      rangeOf s' a = ((s.areas a).vmStart, addr + roundUp size, flags) := by
  rw [vmaMap] at hmap
  split at hmap
  · cases hmap
    exact .inl ⟨by decide, rfl, rfl⟩
  split at hmap
  · cases hmap
    exact .inl ⟨by decide, rfl, rfl⟩
  obtain ⟨expand, hexpand, hmap⟩ := bind_eq_some_iff.mp hmap
  cases expand with
  | none => exact absurd (decide_eq_true ⟨hend, hflags⟩) (findArea_none hl.listed hexpand a ha)
  | some curr =>
    obtain ⟨hcurr, hcan⟩ := findArea_some hl.listed hexpand
    obtain ⟨hcurrEnd, -⟩ : (s.areas curr).vmEnd = addr ∧ (s.areas curr).vmFlags = flags := of_decide_eq_true hcan
    -- both areas hold the last byte before the range
    have hlast : ∀ {b}, b ∈ l → (s.areas b).vmEnd = addr → addr.toNat - 1 ∈ covered (s.areas b) := by
      intro b hb hb'
      have hnonempty := lt_def.mp (hr.nonempty b hb)
      rw [hb'] at hnonempty
      rw [covered, hb']
      exact ⟨by omega, by omega⟩
    obtain rfl := eq_of_covered hr ha hcurr (hlast ha hend) (hlast hcurr hcurrEnd)
    dsimp only at hmap
    split at hmap
    · cases hmap
      exact .inl ⟨by decide, rfl, rfl⟩
    obtain ⟨_, hback, hmap⟩ := bind_eq_some_iff.mp hmap
    obtain ⟨hareas, htask⟩ := backRange_areas hback
    cases hmap
    refine .inr ⟨rfl, (hl.congr hareas htask).setEnd _ _, fun b _ hne => ?_, ?_⟩
    · rw [rangeOf_setEnd, if_neg hne, rangeOf, hareas, rangeOf]
    · rw [rangeOf_setEnd, if_pos rfl, hareas, hend, hflags]

lemma vmaUnmap_cut (hl : Linked s l) (hr : Ranged s l) (ha : a ∈ l) (hstart : (s.areas a).vmStart < addr)
    (hbelow : addr < (s.areas a).vmEnd) (hend : (s.areas a).vmEnd ≤ addr + size)
    (hunmap : vmaUnmap s cpu addr size = some (0, s')) :
    size ≠ 0 ∧ Linked s' l ∧ (∀ b ∈ l, b ≠ a → rangeOf s' b = rangeOf s b) ∧
      rangeOf s' a = ((s.areas a).vmStart, addr, (s.areas a).vmFlags) := by
  have hpos : size ≠ 0 := by
    rintro rfl
    exact absurd hbelow (BitVec.not_lt.mpr (by simpa using hend))
  have hfound : ∀ {vma}, vma ∈ l → (s.areas vma).vmStart ≤ addr → addr < (s.areas vma).vmEnd → vma = a :=
    fun hvma hfrom hto => eq_of_covered hr hvma ha ⟨le_def.mp hfrom, lt_def.mp hto⟩
      ⟨(lt_def.mp hstart).le, lt_def.mp hbelow⟩
  cases hl.unmap hunmap with
  | refused hcode => exact absurd rfl (hcode.resolve_left hpos)
  | kept vma hvma hfrom hto hshort =>
    rw [hfound hvma hfrom hto] at hshort
    exact absurd hend (BitVec.not_le.mpr hshort)
  | trimmed vma hvma hfrom hto _ hlinked hsame hrange =>
    rw [hfound hvma (BitVec.le_of_lt hfrom) hto] at hsame hrange
    exact ⟨hpos, hlinked, hsame, hrange⟩
  | removed vma l' hvma hfrom hto =>
    rw [hfound hvma (hfrom ▸ BitVec.le_refl _) hto] at hfrom
    exact absurd hfrom (BitVec.ne_of_lt hstart)

lemma roundUp_eq_self (haligned : Aligned size) (hsize : size.toNat + 4095 < 2 ^ 64) : roundUp size = size := by
  rw [aligned_iff] at haligned
  apply eq_of_toNat_eq
  rw [roundUp_toNat hsize]
  omega

lemma unmapPages_below {stop : Word} {s₁ : Vm} {fuel : ℕ} (h : Paged f s) (hstop : stop.toNat ≤ 2 ^ 47)
    (hpages : Word.forBelow (BitVec.ofNat 64 pageSize) stop (fun s vaddr => unmapPage s cpu vaddr) fuel addr s = some s₁)
    (hv : v.toNat / 4096 < addr.toNat / 4096) (huser : v.toNat < 2 ^ 47) : Paged f s₁ ∧ leaf f s₁.mem v = leaf f s.mem v := by
  refine Word.forBelow_invariant (I := fun u => Paged f u ∧ leaf f u.mem v = leaf f s.mem v)
    (Q := fun b => addr.toNat ≤ b.toNat) ?_ ?_
    le_rfl ⟨h, rfl⟩ hpages
  · intro b hb hfrom
    have hb' := lt_def.mp hb
    rw [pageSize, Word.toNat_add_ofNat (by omega)]
    omega
  · rintro u b hb hfrom ⟨hu, hsame⟩
    have hb' := lt_def.mp hb
    obtain ⟨hspaces, -, -, hleaves, -, htask⟩ := unmapPage_spaces (r := ()) hu.spaces rfl hu.cr3 (lt_of_lt_of_le hb' hstop)
    refine ⟨⟨by rw [htask, hu.cr3], hspaces⟩, ?_⟩
    rcases hleaves () v (userPath_of_lt huser) with hkept | ⟨-, hpath, -⟩
    · exact hkept.trans hsame
    · rw [leafPath_eq huser (by omega)] at hpath
      omega

end area

structure Ready (f : ℕ) (s : Vm) : Prop where
  bounded : Bounded s
  areas : ∃ l, Linked s l ∧ Ranged s l
  paged : Paged f s
  heap : ∃ a ∈ vmas s, rangeOf s a = (s.task.heapStart, s.task.heapEnd, heapFlags)
  start : s.task.heapStart ≠ 0
  user : s.task.heapEnd.toNat ≤ 2 ^ 47
  mapped : ∀ v : Word, s.task.heapStart ≤ v → v < s.task.heapEnd → leaf f s.mem v ≠ none

namespace Ready

variable {f : ℕ} {s s' : Vm} {cpu : Option ℕ} {kmalloc : Option Word} {frame : InterruptFrame} {size a : Word} {code : Int}

lemma map (h : Ready f s) (hsize : Aligned size) (hgrowth : s.task.heapEnd.toNat + size.toNat ≤ 2 ^ 47)
    (hfree : ∀ a ∈ vmas s, ¬ overlaps s.task.heapEnd (roundUp size) (s.areas a))
    (hsupplied : Supplied s cpu s.task.heapEnd size heapFlags)
    (hmap : vmaMap s cpu kmalloc s.task.heapEnd size heapFlags = some (0, s')) :
    (∃ l, Linked s' l ∧ Ranged s' l) ∧ Paged f s' ∧
      (∃ a ∈ vmas s', rangeOf s' a = (s.task.heapStart, s.task.heapEnd + size, heapFlags)) ∧
      ∀ v : Word, s.task.heapStart ≤ v → v < s.task.heapEnd + size → leaf f s'.mem v ≠ none := by
  obtain ⟨l, hl, hr⟩ := h.areas
  obtain ⟨a, ha, hrange⟩ := h.heap
  rw [hl.vmas_eq] at ha hfree
  have hstart : (s.areas a).vmStart = s.task.heapStart := congrArg Prod.fst hrange
  have hend : (s.areas a).vmEnd = s.task.heapEnd := congrArg (·.2.1) hrange
  obtain ⟨hcode, -⟩ | ⟨-, hlinked, hsame, hgrown⟩ := vmaMap_grown hl hr ha hend (congrArg (·.2.2) hrange) hmap
  · exact absurd rfl hcode
  obtain ⟨hpaged, hbytes, _, -, -, hleaves⟩ := h.paged.map hgrowth hsupplied hmap
  rw [roundUp_eq_self hsize (by omega)] at hfree hgrown hbytes hleaves
  have hsum : (s.task.heapEnd + size).toNat = s.task.heapEnd.toNat + size.toNat := toNat_add_of_lt (by omega)
  refine ⟨⟨l, hlinked, hr.grow ha hend hsame hgrown (by omega) hfree⟩, hpaged, ⟨a, ?_, ?_⟩, fun v hlow hhigh => ?_⟩
  · rwa [hlinked.vmas_eq]
  · rw [hgrown, hstart]
  · have hhigh' := lt_def.mp hhigh
    by_cases hold : v < s.task.heapEnd
    · -- a page that the heap had
      have hold' := lt_def.mp hold
      have hbyte := hbytes v (by omega)
      rw [if_neg (by omega), hpaged.userByte_eq (by omega), h.paged.userByte_eq (by omega)] at hbyte
      intro hnone
      rw [hnone, map_none] at hbyte
      exact h.mapped v hlow hold (map_eq_none_iff.mp hbyte.symm)
    · obtain ⟨e, hleaf, -⟩ := hleaves v (le_def.mp (BitVec.not_lt.mp hold)) (by omega)
      rw [hleaf]
      exact some_ne_none e

lemma mapFailed (h : Ready f s) (hcode : code ≠ 0)
    (hmap : vmaMap s cpu kmalloc s.task.heapEnd size heapFlags = some (code, s')) : Ready f s' := by
  obtain ⟨l, hl, hr⟩ := h.areas
  obtain ⟨a, ha, hrange⟩ := h.heap
  obtain ⟨hpaged, hmem⟩ := h.paged.mapFailed hmap hcode
  obtain ⟨-, hareas, htask⟩ | ⟨hzero, -⟩ :=
    vmaMap_grown hl hr (hl.vmas_eq ▸ ha) (congrArg (·.2.1) hrange) (congrArg (·.2.2) hrange) hmap
  · have hl' := hl.congr hareas htask
    have hsame : ∀ b, rangeOf s' b = rangeOf s b := fun b => by rw [rangeOf, hareas, rangeOf]
    refine ⟨h.bounded.congr (vmaMap_heapOf hmap), ⟨l, hl', hr.congr fun b _ => hsame b⟩, hpaged, ⟨a, ?_, ?_⟩, ?_, ?_, ?_⟩
    · rwa [hl'.vmas_eq, ← hl.vmas_eq]
    · rw [hsame, htask, hrange]
    · rw [htask]
      exact h.start
    · rw [htask]
      exact h.user
    · rw [htask, hmem]
      exact h.mapped
  · exact absurd hzero hcode

lemma malloc (h : Ready f s) (hsized : (HeapCall.malloc cpu kmalloc frame).Sized s)
    (hclear : (HeapCall.malloc cpu kmalloc frame).Clear s) (huser : (HeapCall.malloc cpu kmalloc frame).InUserHalf s)
    (hmalloc : sysMallocHandler s cpu kmalloc frame = some (a, s')) : Ready f s' := by
  have hbounded := (h.bounded.malloc hsized hmalloc).1
  cases sysMallocHandler_cases hmalloc with
  | nothing => exact h
  | within =>
    obtain ⟨l, hl, hr⟩ := h.areas
    exact ⟨hbounded, ⟨l, ⟨hl.listed, hl.nodup, hl.tree⟩, hr.congr fun _ _ => rfl⟩, h.paged.of_pages rfl, h.heap,
      h.start, h.user, h.mapped⟩
  | refused hpos hcode hmap => exact h.mapFailed hcode hmap
  | @grown s₁ hpos hfull hmap =>
    have hgrows : HeapCall.Grows s frame := ⟨BitVec.not_le.mp hfull, (vmaMap_run hmap).granted⟩
    obtain ⟨hfree, hres⟩ := hclear hgrows
    have hgrowth := huser hgrows
    obtain ⟨⟨l, hl, hr⟩, hpaged, _, hmapped⟩ := h.map (roundUp_aligned _) hgrowth hfree ⟨hgrows.2, hres⟩ hmap
    have hstart : s₁.task.heapStart = s.task.heapStart := congrArg Prod.fst (vmaMap_heapOf hmap)
    have hsum : (s.task.heapEnd + mallocGrowth s frame.rdi).toNat = s.task.heapEnd.toNat + (mallocGrowth s frame.rdi).toNat :=
      toNat_add_of_lt (by omega)
    refine ⟨hbounded, ⟨l, ⟨hl.listed, hl.nodup, hl.tree⟩, hr.congr fun _ _ => rfl⟩, hpaged.of_pages rfl, ?_, ?_,
      hsum.trans_le hgrowth, ?_⟩
    · show ∃ a ∈ vmas s₁, rangeOf s₁ a = (s₁.task.heapStart, s.task.heapEnd + mallocGrowth s frame.rdi, heapFlags)
      rwa [hstart]
    · exact fun hzero => h.start (hstart.symm.trans hzero)
    · intro v hlow hhigh
      exact hmapped v (hstart.symm.trans_le hlow) hhigh

lemma unmap (h : Ready f s) {addr : Word} (haddr : Aligned addr) (hlow : s.task.heapStart < addr)
    (hhigh : addr < s.task.heapEnd)
    (hstop : addr + size = s.task.heapEnd) (hunmap : vmaUnmap s cpu addr size = some (0, s')) :
    (∃ l, Linked s' l ∧ Ranged s' l) ∧ Paged f s' ∧
      (∃ a ∈ vmas s', rangeOf s' a = (s.task.heapStart, addr, heapFlags)) ∧
      ∀ v : Word, v < addr → leaf f s'.mem v = leaf f s.mem v := by
  obtain ⟨l, hl, hr⟩ := h.areas
  obtain ⟨a, ha, hrange⟩ := h.heap
  rw [hl.vmas_eq] at ha
  have hstart : (s.areas a).vmStart = s.task.heapStart := congrArg Prod.fst hrange
  have hend : (s.areas a).vmEnd = s.task.heapEnd := congrArg (·.2.1) hrange
  obtain ⟨hpos, hlinked, hsame, hcut⟩ := vmaUnmap_cut hl hr ha (hstart.trans_lt hlow) (hhigh.trans_eq hend.symm)
    (by rw [hend, hstop]; exact BitVec.le_refl _) hunmap
  obtain ⟨s₁, hpages, hsame₁⟩ := (vmaUnmap_pages hunmap).resolve_left fun hrefused => hrefused.1.elim hpos fun hcode =>
    hcode rfl
  have huser := h.user
  rw [hstop] at hpages
  have hhigh' := lt_def.mp hhigh
  have hbelow : ∀ v : Word, v < addr → Paged f s₁ ∧ leaf f s₁.mem v = leaf f s.mem v := by
    intro v hv
    have hv' := lt_def.mp hv
    rw [aligned_iff] at haddr
    exact unmapPages_below h.paged huser hpages (by omega) (by omega)
  refine ⟨⟨l, hlinked, hr.cut ha (hstart.trans_lt hlow) (hhigh.trans_eq hend.symm) hsame hcut⟩,
    (hbelow _ hlow).1.of_pages hsame₁, ⟨a, ?_, ?_⟩, fun v hv => ?_⟩
  · rwa [hlinked.vmas_eq]
  · rw [hcut, hstart, show (s.areas a).vmFlags = heapFlags from congrArg (·.2.2) hrange]
  · rw [(Vm.pages_eq.mp hsame₁).1]
    exact (hbelow v hv).2

lemma drop (h : Ready f s) (hb : Bounded (setHeapCurr s a)) : Ready f (setHeapCurr s a) := by
  obtain ⟨l, hl, hr⟩ := h.areas
  exact ⟨hb, ⟨l, ⟨hl.listed, hl.nodup, hl.tree⟩, hr.congr fun _ _ => rfl⟩, h.paged.of_pages rfl, h.heap, h.start,
    h.user, h.mapped⟩

lemma free (h : Ready f s) (hsized : (HeapCall.free cpu frame).Sized s) (hfree : sysFreeHandler s cpu frame = some (a, s')) :
    Ready f s' ∧ ∀ v : Word, v < s'.task.heapCurr → leaf f s'.mem v = leaf f s.mem v := by
  have hbounded := h.bounded.free hsized hfree
  cases sysFreeHandler_cases hfree with
  | nothing => exact ⟨h, fun _ _ => rfl⟩
  | dropped => exact ⟨h.drop hbounded, fun _ _ => rfl⟩
  | kept haddr hpos htop hgap hcode hunmap =>
    cases vmaUnmap_cases hunmap with
    | refused => exact ⟨h.drop hbounded, fun _ _ => rfl⟩
    | kept => exact absurd rfl hcode
    | trimmed => exact absurd rfl hcode
    | removed => exact absurd rfl hcode
  | @released s₁ haddr hpos htop hgap hunmap =>
    have hdropped := h.bounded.drop hsized haddr hpos htop
    have hready := h.drop hdropped
    obtain ⟨haligned, habove, hbelow, hsum⟩ := release_spec hdropped.curr_le hdropped.end_aligned hgap
    have hle := le_def.mp hdropped.start_le
    have hpages : 4 * 4096 ≤ (s.task.heapEnd - frame.rdi).toNat := le_def.mp hgap
    have hdiff : (s.task.heapEnd - frame.rdi).toNat = s.task.heapEnd.toNat - frame.rdi.toNat :=
      toNat_sub_of_le hdropped.curr_le
    simp only [setHeapCurr] at hle habove hbelow hsum
    have hlow : s.task.heapStart < freeStart (setHeapCurr s frame.rdi) := lt_def.mpr (by simp only [setHeapCurr]; omega)
    have hhigh : freeStart (setHeapCurr s frame.rdi) < s.task.heapEnd := lt_def.mpr (by simp only [setHeapCurr]; omega)
    have hstop : freeStart (setHeapCurr s frame.rdi) + freeRelease (setHeapCurr s frame.rdi) = s.task.heapEnd := by
      apply eq_of_toNat_eq
      rwa [toNat_add_of_lt (by simp only [setHeapCurr]; omega)]
    obtain ⟨⟨l, hl, hr⟩, hpaged, _, hkept⟩ := hready.unmap (aligned_iff.mpr haligned) hlow hhigh hstop hunmap
    have hheapOf := vmaUnmap_heapOf hunmap
    have hstart : s₁.task.heapStart = s.task.heapStart := congrArg Prod.fst hheapOf
    have hcurr : s₁.task.heapCurr = frame.rdi := congrArg (·.2.1) hheapOf
    refine ⟨⟨hbounded, ⟨l, ⟨hl.listed, hl.nodup, hl.tree⟩, hr.congr fun _ _ => rfl⟩, hpaged.of_pages rfl, ?_, ?_, ?_, ?_⟩, ?_⟩
    · show ∃ a ∈ vmas s₁, rangeOf s₁ a = (s₁.task.heapStart, freeStart (setHeapCurr s frame.rdi), heapFlags)
      rwa [hstart]
    · exact fun hzero => h.start (hstart.symm.trans hzero)
    · exact (lt_def.mp hhigh).le.trans h.user
    · intro v hfrom hto
      show leaf f s₁.mem v ≠ none
      rw [hkept v hto]
      exact h.mapped v (hstart.symm.trans_le hfrom) (BitVec.lt_trans hto hhigh)
    · intro v hv
      have hv' := lt_def.mp (hv.trans_eq hcurr)
      refine hkept v (lt_def.mpr ?_)
      simp only [setHeapCurr]
      omega

end Ready

section blocks

variable {f : ℕ} {h h' : Heap} {s s' : Vm} {cpu : Option ℕ} {kmalloc : Option Word} {frame : InterruptFrame} {a : Word}
  {b c : Word × Word} {live : List (Word × Word)}

structure Block (s : Vm) (b : Word × Word) : Prop where
  pos : b.2 ≠ 0
  small : b.2.toNat + 15 < 2 ^ 64
  aligned : b.1.toNat % 16 = 0
  start_le : s.task.heapStart ≤ b.1
  below : b.1.toNat + (alignSize b.2).toNat ≤ s.task.heapCurr.toNat

def Apart (b c : Word × Word) : Prop := b.1.toNat + (alignSize b.2).toNat ≤ c.1.toNat ∨
    c.1.toNat + (alignSize c.2).toNat ≤ b.1.toNat

instance : Std.Symm Apart := ⟨fun _ _ => Or.symm⟩

lemma Block.size (hb : Block s b) : b.2.toNat ≤ (alignSize b.2).toNat ∧ 0 < (alignSize b.2).toNat := by
  have hpos : b.2.toNat ≠ 0 := fun hzero => hb.pos (eq_of_toNat_eq hzero)
  rw [alignSize_toNat hb.small]
  omega

structure Inv (f : ℕ) (h : Heap) : Prop where
  ready : Ready f h.vm
  apart : h.live.Pairwise Apart
  block : ∀ b ∈ h.live, Block h.vm b

lemma Inv.nodup (hi : Inv f h) : h.live.Nodup := by
  refine hi.apart.imp_of_mem fun {b c} hb _ happart heq => ?_
  subst heq
  have hsize := (hi.block b hb).size
  rcases happart with hle | hle
  · omega
  · omega

lemma Inv.sized_malloc (hi : Inv f h) (hproper : (HeapCall.malloc cpu kmalloc frame).Proper h)
    (huser : (HeapCall.malloc cpu kmalloc frame).InUserHalf h.vm) : (HeapCall.malloc cpu kmalloc frame).Sized h.vm := by
  have hproper : frame.rdi.toNat < 2 ^ 46 := hproper
  have hcurr := le_def.mp hi.ready.bounded.curr_le
  have hend := hi.ready.user
  refine ⟨by omega, ?_, fun hfull s' hmap => ?_⟩
  · rw [alignSize_toNat (by omega)]
    omega
  · have hgrowth := huser ⟨hfull, (vmaMap_run hmap).granted⟩
    omega

lemma Inv.sized_free (hi : Inv f h) (hproper : (HeapCall.free cpu frame).Proper h) : (HeapCall.free cpu frame).Sized h.vm := by
  intro haddr hpos htop
  have hblock := hi.block _ hproper
  exact ⟨hblock.start_le, le_def.mpr ((Nat.le_add_right _ _).trans hblock.below)⟩

lemma Ready.malloc_failed (hr : Ready f s) (hmalloc : sysMallocHandler s cpu kmalloc frame = some (0, s')) : heapOf s' =
    heapOf s := by
  have hcurr : s.task.heapCurr ≠ 0 := by
    intro hzero
    have hle := hr.bounded.start_le
    rw [hzero] at hle
    exact hr.start (BitVec.le_zero_iff.mp hle)
  generalize hzero : (0 : Word) = z at hmalloc
  cases sysMallocHandler_cases hmalloc with
  | nothing => rfl
  | within => exact absurd hzero.symm hcurr
  | refused hpos hcode hmap => exact vmaMap_heapOf hmap
  | grown => exact absurd hzero.symm hcurr

lemma Inv.malloc (hi : Inv f h) (hproper : (HeapCall.malloc cpu kmalloc frame).Proper h)
    (hclear : (HeapCall.malloc cpu kmalloc frame).Clear h.vm)
    (huser : (HeapCall.malloc cpu kmalloc frame).InUserHalf h.vm) (hmalloc : sysMallocHandler h.vm cpu kmalloc frame =
    some (a, s')) :
    Inv f ⟨s', if a = 0 then h.live else (a, frame.rdi) :: h.live⟩ := by
  have hsized := hi.sized_malloc hproper huser
  have hready := hi.ready.malloc hsized hclear huser hmalloc
  obtain ⟨-, hstart, hnew⟩ := hi.ready.bounded.malloc hsized hmalloc
  split
  · rename_i hzero
    subst hzero
    have hheap := hi.ready.malloc_failed hmalloc
    refine ⟨hready, hi.apart, fun b hb => ?_⟩
    obtain ⟨hpos, hsmall, haligned, hle, hbelow⟩ := hi.block b hb
    refine ⟨hpos, hsmall, haligned, hstart.trans_le hle, hbelow.trans_eq ?_⟩
    exact congrArg BitVec.toNat (congrArg (·.2.1) hheap.symm)
  · rename_i haddr
    obtain ⟨rfl, htop⟩ := hnew haddr
    have hproper : frame.rdi.toNat < 2 ^ 46 := hproper
    have hpos : frame.rdi ≠ 0 := by
      intro hzero
      rw [sysMallocHandler, if_pos hzero] at hmalloc
      exact haddr (congrArg Prod.fst (Option.some.inj hmalloc)).symm
    refine ⟨hready, pairwise_cons.mpr ⟨fun b hb => .inr (hi.block b hb).below, hi.apart⟩, fun b hb => ?_⟩
    rcases mem_cons.mp hb with rfl | hb
    · exact ⟨hpos, by dsimp only; omega, hi.ready.bounded.curr_aligned, hstart.trans_le hi.ready.bounded.start_le, htop.le⟩
    · obtain ⟨hpos, hsmall, haligned, hle, _⟩ := hi.block b hb
      exact ⟨hpos, hsmall, haligned, hstart.trans_le hle, by dsimp only; omega⟩

lemma Inv.free (hi : Inv f h) (hproper : (HeapCall.free cpu frame).Proper h)
    (hfree : sysFreeHandler h.vm cpu frame = some (a, s')) : Inv f ⟨s', h.live.erase (frame.rdi, frame.rsi)⟩ := by
  have hready := (hi.ready.free (hi.sized_free hproper) hfree).1
  obtain ⟨hstart, hcurr⟩ := sysFreeHandler_curr hfree
  refine ⟨hready, hi.apart.sublist erase_sublist, fun b hb => ?_⟩
  obtain ⟨hne, hlive⟩ := (hi.nodup.mem_erase_iff).mp hb
  obtain ⟨hpos, hsmall, haligned, hle, hbelow⟩ := hi.block b hlive
  refine ⟨hpos, hsmall, haligned, hstart.trans_le hle, ?_⟩
  rcases hcurr with hcurr | ⟨htop, hcurr⟩
  · exact hbelow.trans_eq (congrArg BitVec.toNat hcurr.symm)
  · -- the freed block is the last one, so the others end where it starts
    have hfreed := hi.block _ hproper
    have hsum : frame.rdi.toNat + (alignSize frame.rsi).toNat = h.vm.task.heapCurr.toNat := by
      have hfit := hfreed.below
      rw [← toNat_add_of_lt (hfit.trans_lt h.vm.task.heapCurr.isLt), htop]
    have hsize := Block.size ⟨hpos, hsmall, haligned, hle, hbelow⟩
    rw [hcurr]
    rcases hi.apart.forall hlive hproper hne with hbefore | hafter
    · exact hbefore
    · have hafter : frame.rdi.toNat + (alignSize frame.rsi).toNat ≤ b.1.toNat := hafter
      omega

lemma Inv.step {call : HeapCall} (hi : Inv f h) (hproper : call.Proper h) (hclear : call.Clear h.vm)
    (huser : call.InUserHalf h.vm) (hstep : h.step call = some h') : Inv f h' := by
  cases call with
  | malloc =>
    obtain ⟨⟨a, s'⟩, hmalloc, rfl⟩ := map_eq_some_iff.mp hstep
    exact hi.malloc hproper hclear huser hmalloc
  | free =>
    obtain ⟨⟨_, _⟩, hfree, rfl⟩ := map_eq_some_iff.mp hstep
    exact hi.free hproper hfree

lemma Inv.careful {call : HeapCall} (hi : Inv f h) (hproper : call.Proper h) : call.Careful h := by
  cases call with
  | malloc => exact fun s' => hi.ready.malloc_failed
  | free =>
    intro a s' hfree v hv
    obtain ⟨hready, hkept⟩ := hi.ready.free (hi.sized_free hproper) hfree
    have hlt := lt_def.mp hv
    have hcurr := le_def.mp hready.bounded.curr_le
    have hend := hready.user
    rw [hready.paged.leafEntryOf_eq (by omega), hi.ready.paged.leafEntryOf_eq (by omega)]
    exact hkept v hv

lemma Inv.sound (hi : Inv f h) : BlocksSound h := by
  obtain ⟨_, hl, hr⟩ := hi.ready.areas
  obtain ⟨a, ha, hrange⟩ := hi.ready.heap
  refine ⟨?_, fun b hb => (hi.block b hb).aligned, fun b hb => ?_, ⟨a, ha, hrange⟩, ⟨?_, ?_⟩, fun v hlow hhigh => ?_⟩
  · refine hi.apart.imp_of_mem fun {b c} hb hc happart => Set.disjoint_left.mpr fun x hxb hxc => ?_
    have hb := (hi.block b hb).size
    have hc := (hi.block c hc).size
    rw [Set.mem_Ico] at hxb hxc
    rcases happart with hle | hle
    · omega
    · omega
  · have hblock := hi.block b hb
    have hsize := hblock.size
    have hbelow := hblock.below
    exact ⟨hblock.start_le, by omega⟩
  · rw [← show (h.vm.areas a).vmStart = h.vm.task.heapStart from congrArg Prod.fst hrange]
    exact hr.start a (hl.vmas_eq ▸ ha)
  · exact aligned_iff.mpr hi.ready.bounded.end_aligned
  · have huser := lt_of_lt_of_le (lt_def.mp hhigh) hi.ready.user
    rw [hi.ready.paged.leafEntryOf_eq huser]
    exact ⟨huser, hi.ready.mapped v hlow hhigh⟩

lemma Loaded.inv (hs : Loaded s) : ∃ f, Inv f ⟨s, []⟩ := by
  obtain ⟨⟨l, hl, hr⟩, ⟨f, hpaged⟩, ⟨a, ha, hrange⟩, hcurr, hstart, hend, huser, hmapped⟩ := hs
  have hlive := hl.vmas_eq ▸ ha
  have haligned := hr.start a hlive
  have hle := hr.nonempty a hlive
  rw [show (s.areas a).vmStart = s.task.heapStart from congrArg Prod.fst hrange] at haligned hle
  rw [show (s.areas a).vmEnd = s.task.heapEnd from congrArg (·.2.1) hrange] at hle
  rw [aligned_iff] at haligned hend
  refine ⟨f, ⟨⟨hcurr ▸ BitVec.le_refl _, ?_, ?_, hend⟩, ⟨l, hl, hr⟩, hpaged, ⟨a, ha, hrange⟩, hstart, huser,
    fun v hlow hhigh => ?_⟩, List.Pairwise.nil, ?_⟩
  · rw [hcurr]
    exact BitVec.le_of_lt hle
  · rw [hcurr]
    omega
  · rw [← hpaged.leafEntryOf_eq (lt_of_lt_of_le (lt_def.mp hhigh) huser)]
    exact hmapped v hlow hhigh
  · intro b hb
    cases hb

end blocks

section load

open Fs

lemma elfLoad_loaded {image : Mem} {cpu : Option ℕ} {kmalloc : ℕ → Option Word} {s : Vm} {t : TaskVm} (himage : Regular image)
    (hfits : HeapFits image) (hspace : FreshSpace s) (hinit : s.task = vmaInitTask t)
    (hdesc : Descriptors kmalloc (ehdr image).ePhnum)
    (hsupplied : SuppliedFrom image cpu kmalloc (ehdr image).ePhnum 0 s 0) :
    ∃ s', elfLoad image cpu kmalloc s = some ((ehdr image).eEntry, s') ∧ Loaded s' := by
  obtain ⟨f, s₁, last, s', hload, hheap, hlast, hbuilt, hpaged, hlinked, hranged, harea⟩ :=
    elfLoad_supplied himage hfits hspace hinit hdesc hsupplied
  obtain ⟨hstart, _⟩ := initHeap_toNat s₁ hlast
  have hstart' : s'.task.heapStart = (initHeap s₁ last).task.heapStart := congrArg Prod.fst hheap
  have hend' : s'.task.heapEnd = (initHeap s₁ last).task.heapEnd := congrArg (·.2.2) hheap
  rw [pageSize] at hlast
  refine ⟨s', hload, ⟨_, hlinked, hranged⟩, ⟨f, hpaged⟩, harea, ?_, fun hzero => ?_, hbuilt.pages.2.1, ?_,
    fun v hlow hhigh hnone => ?_⟩
  · rw [hstart']
    exact congrArg (·.2.1) hheap
  · rw [hstart'] at hzero
    rw [hzero] at hstart
    change 0 = _ at hstart
    omega
  · rw [hend']
    omega
  · have hbyte := hbuilt.heap v hlow hhigh
    rw [userByte, hnone] at hbyte
    split at hbyte
    · cases hbyte
    · cases hbyte

def growAndShrink : List HeapCall :=
  [.malloc none none (callFrame 24 0), .malloc none none (callFrame 0x5000 0), .free none (callFrame 0x402020 0x5000)]

def growOutside : List HeapCall := [.malloc none none (callFrame 0x4000 0), .malloc none none (callFrame 16 0)]

end load

end KernelSmp.Syscall
