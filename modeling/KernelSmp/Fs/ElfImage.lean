import KernelSmp.Fs.ElfRanges
import KernelSmp.Memory.UserBytes

/-! The memory of a task that `elf_load` has filled. -/

namespace KernelSmp.Fs

open Base Base.Radix Memory Memory.VmaRanges List Option BitVec

section copy

variable {f : ℕ} {s : Vm} {image : Mem} {v e vaddr src filesz : Word}

def Inside (f : ℕ) (m : Mem) (vaddr filesz : Word) (c : ℕ) : Prop :=
  vaddr.toNat + filesz.toNat ≤ 2 ^ 47 ∨ ∃ v : Word, vaddr.toNat + c ≤ v.toNat ∧ v.toNat < 2 ^ 47 ∧ leaf f m v = none

lemma Inside.lt {c : Word} (h : Inside f s.mem vaddr filesz c.toNat) (hlt : c.toNat < filesz.toNat) :
    (vaddr + c).toNat = vaddr.toNat + c.toNat ∧ vaddr.toNat + c.toNat < 2 ^ 47 := by
  have huser : vaddr.toNat + c.toNat < 2 ^ 47 := by
    rcases h with hfile | ⟨v, hlow, hhigh, -⟩ <;> omega
  exact ⟨toNat_add_of_lt (by omega), huser⟩

lemma elfCopySegment_pages (image : Mem) (src : Word) (haligned : vaddr.toNat % 4096 = 0) (h : Paged f s)
    (hinside : Inside f s.mem vaddr filesz 0) :
    ∃ s' c, elfCopySegment image vaddr src filesz walkFuel s 0 = some s' ∧ Paged f s' ∧ s'.areas = s.areas ∧
      s'.task = s.task ∧ (∀ v : Word, v.toNat < 2 ^ 47 → leaf f s'.mem v = leaf f s.mem v) ∧
      (src.toNat + filesz.toNat ≤ 2 ^ 64 → ∀ v : Word, v.toNat < 2 ^ 47 → userByte s' v =
        if vaddr.toNat ≤ v.toNat ∧ v.toNat < vaddr.toNat + c then some (image (src.toNat + (v.toNat - vaddr.toNat)))
        else userByte s v) ∧
      c ≤ filesz.toNat ∧ (c < filesz.toNat → ∃ v : Word, v.toNat = vaddr.toNat + c ∧
        ∀ e, leaf f s.mem v = some e → frameOf e = 0) := by
  have hrule := elfCopySegment_rule image src filesz haligned (I := fun s' c => (Paged f s' ∧ s'.areas = s.areas ∧
      s'.task = s.task ∧ (∀ v : Word, v.toNat < 2 ^ 47 → leaf f s'.mem v = leaf f s.mem v) ∧
      (src.toNat + filesz.toNat ≤ 2 ^ 64 → ∀ v : Word, v.toNat < 2 ^ 47 → userByte s' v =
        if vaddr.toNat ≤ v.toNat ∧ v.toNat < vaddr.toNat + c.toNat then some (image (src.toNat + (v.toNat - vaddr.toNat)))
        else userByte s v)) ∧ Inside f s.mem vaddr filesz c.toNat) ?_ ⟨⟨h, rfl, rfl, ?_, ?_⟩, hinside⟩
  · obtain ⟨s', c, hs', ⟨⟨hpaged, hareas, htask, hleaves, hbytes⟩, hinside⟩, hle, hstop⟩ := hrule
    refine ⟨s', c.toNat, hs', hpaged, hareas, htask, hleaves, hbytes, hle, fun hlt => ?_⟩
    obtain ⟨hsum, huser⟩ := hinside.lt hlt
    refine ⟨vaddr + c, hsum, fun e hleaf => ?_⟩
    obtain ⟨hpage, hzero⟩ := hstop hlt
    rw [hpaged.virtualToPhysical (by omega) hpage ((hleaves _ (by omega)).trans hleaf)] at hzero
    by_contra hframe
    exact frameAddr_ne_zero (by have := frameOf_lt e; rw [pageSize]; omega) hframe hzero
  · intro s' c n hinv hlt hpage hc hchunk hnext hphys
    obtain ⟨⟨hpaged, hareas, htask, hleaves, hbytes⟩, hinside⟩ := hinv
    obtain ⟨_, _⟩ := hinside.lt hlt
    rw [pageSize] at hchunk hpage hc
    obtain ⟨e, hleaf⟩ : ∃ e, leaf f s'.mem (vaddr + c) = some e := by
      rw [← ne_none_iff_exists']
      intro hnone
      exact hphys (hpaged.virtualToPhysical_none (by omega) hnone)
    rw [hpaged.virtualToPhysical (by omega) hpage hleaf,
      frameAddr_toNat ((frameOf_lt e).trans (show 2 ^ 28 < 2 ^ 52 by decide))]
    obtain ⟨h₁, hleaves₁, hbytes₁⟩ := hpaged.copy image (n := n.toNat) (by omega) hpage hleaf
      (by rw [pageSize]; omega) rfl
    refine ⟨⟨h₁, hareas, htask, fun v hv => (hleaves₁ v hv).trans (hleaves v hv), fun hfile v hv => ?_⟩, hinside.imp id ?_⟩
    · rw [hbytes₁ v hv, hbytes hfile v hv]
      have hsrc : (src + c).toNat = src.toNat + c.toNat := toNat_add_of_lt (by omega)
      by_cases hfirst : (vaddr + c).toNat ≤ v.toNat ∧ v.toNat < (vaddr + c).toNat + n.toNat
      · rw [if_pos hfirst, if_pos (by omega), show (src + c).toNat + (v.toNat - (vaddr + c).toNat) =
          src.toNat + (v.toNat - vaddr.toNat) by omega]
      · rw [if_neg hfirst]
        exact if_congr (by omega) rfl rfl
    · rintro ⟨v, _, hhigh, hnone⟩
      refine ⟨v, ?_, hhigh, hnone⟩
      -- the page that was just written is not the missing one
      by_contra hbelow
      have hsame := leaf_congr_page (f := f) s.mem (w := vaddr + c) hhigh (by omega) (by omega)
      cases hnone.symm.trans (hsame.trans ((hleaves _ (by omega)).symm.trans hleaf))
  · exact fun _ _ => rfl
  · exact fun _ v _ => (if_neg (by simp)).symm

end copy

def Elf64Phdr.pageEnd (ph : Elf64Phdr) : ℕ := ph.pVaddr.toNat + (roundUp ph.pMemsz).toNat

structure Elf64Phdr.Regular (ph : Elf64Phdr) : Prop where
  aligned : Aligned ph.pVaddr
  memsz : ph.pMemsz ≠ 0
  filesz : ph.pFilesz ≤ ph.pMemsz
  user : ph.segEnd ≤ 2 ^ 47
  file : ph.pOffset.toNat + ph.pFilesz.toNat ≤ 2 ^ 64

structure Regular (image : Mem) : Prop where
  magic : (ehdr image).eIdent = elfMagic
  entry : (ehdr image).eEntry ≠ 0
  segment : ∀ i < (ehdr image).ePhnum, (phdr image i).pType = ptLoad → (phdr image i).Regular
  ascending : ∀ i j, i < j → j < (ehdr image).ePhnum → (phdr image i).pType = ptLoad → (phdr image j).pType = ptLoad →
    (phdr image i).pageEnd ≤ (phdr image j).pVaddr.toNat

def HeapFits (image : Mem) : Prop :=
  ∀ i < (ehdr image).ePhnum, (phdr image i).pType = ptLoad → (phdr image i).segEnd < 2 ^ 47 - 4 * pageSize

def Elf64Phdr.byte (ph : Elf64Phdr) (image : Mem) (k : ℕ) : Byte :=
    if k < ph.pFilesz.toNat then image (ph.pOffset.toNat + k) else 0

structure Built (image : Mem) (s : Vm) : Prop where
  bytes : ∀ i < (ehdr image).ePhnum, (phdr image i).pType = ptLoad → ∀ k < (roundUp (phdr image i).pMemsz).toNat,
    userByte s ((phdr image i).pVaddr + BitVec.ofNat 64 k) = some ((phdr image i).byte image k)
  heap : ∀ v : Word, s.task.heapStart ≤ v → v < s.task.heapEnd → userByte s v = some 0
  pages : Aligned s.task.heapStart ∧ Aligned s.task.heapEnd ∧ s.task.heapStart < s.task.heapEnd
  above : ∀ i < (ehdr image).ePhnum, (phdr image i).pType = ptLoad → (phdr image i).segEnd ≤ s.task.heapStart.toNat

section load

variable (image : Mem) (cpu : Option ℕ) (kmalloc : ℕ → Option Word)

def SuppliedFrom : (fuel i : ℕ) → Vm → Word → Prop
  | 0, _, s, maxVaddr =>
    let s := initHeap s maxVaddr
    Supplied s cpu s.task.heapStart (4 * BitVec.ofNat 64 pageSize) (vmaRead ||| vmaWrite ||| vmaUser ||| vmaHeap)
  | fuel + 1, i, s, maxVaddr =>
    let ph := phdr image i
    if ph.pType = ptLoad then
      Supplied s cpu ph.pVaddr ph.pMemsz (segmentFlags ph.pFlags) ∧
      ∀ r ∈ vmaMap s cpu (kmalloc i) ph.pVaddr ph.pMemsz (segmentFlags ph.pFlags), r.1 = 0 →
        ∀ s₂ ∈ elfCopySegment image ph.pVaddr ph.pOffset ph.pFilesz walkFuel r.2 0,
        SuppliedFrom fuel (i + 1) s₂ (if ph.pVaddr + ph.pMemsz > maxVaddr then ph.pVaddr + ph.pMemsz else maxVaddr)
    else SuppliedFrom fuel (i + 1) s maxVaddr

instance instDecidableSuppliedFrom : (fuel i : ℕ) → (s : Vm) → (maxVaddr : Word) →
    Decidable (SuppliedFrom image cpu kmalloc fuel i s maxVaddr)
  | 0, _, s, maxVaddr => inferInstanceAs (Decidable (Supplied (initHeap s maxVaddr) ..))
  | fuel + 1, i, _, _ =>
    have (s₂ : Vm) (m : Word) : Decidable (SuppliedFrom image cpu kmalloc fuel (i + 1) s₂ m) :=
      instDecidableSuppliedFrom fuel (i + 1) s₂ m
    inferInstanceAs (Decidable (if (phdr image i).pType = ptLoad then
      Supplied .. ∧ ∀ r ∈ vmaMap .., r.1 = 0 → ∀ s₂ ∈ elfCopySegment .., SuppliedFrom .. else SuppliedFrom ..))

structure Descriptors (n : ℕ) : Prop where
  given : ∀ i ≤ n, kmalloc i ≠ none
  distinct : ∀ i ≤ n, ∀ j ≤ n, kmalloc i = kmalloc j → i = j

structure Loading (f i : ℕ) (s : Vm) (maxVaddr : Word) : Prop where
  paged : Paged f s
  linked : Linked s (vmas s)
  ranged : Ranged s (vmas s)
  black : BlackRoot s
  descriptors : ∀ a ∈ vmas s, ∃ j < i, kmalloc j = some a
  ends : ∀ a ∈ vmas s, ∃ j < i, (phdr image j).pType = ptLoad ∧ (s.areas a).vmEnd.toNat = (phdr image j).pageEnd ∧
    (s.areas a).vmFlags = segmentFlags (phdr image j).pFlags
  bytes : ∀ j < i, (phdr image j).pType = ptLoad → ∀ k < (roundUp (phdr image j).pMemsz).toNat,
    userByte s ((phdr image j).pVaddr + BitVec.ofNat 64 k) = some ((phdr image j).byte image k)
  below : ∀ j < i, (phdr image j).pType = ptLoad → (phdr image j).segEnd ≤ maxVaddr.toNat
  last : SegmentEnd image i maxVaddr

end load

section loading

variable {image : Mem} {cpu : Option ℕ} {kmalloc : ℕ → Option Word} {f i : ℕ} {s s' : Vm} {maxVaddr : Word}

lemma Loading.skip (h : Loading image kmalloc f i s maxVaddr) (htype : (phdr image i).pType ≠ ptLoad) :
    Loading image kmalloc f (i + 1) s maxVaddr := by
  have hbefore : ∀ {j}, j < i + 1 → (phdr image j).pType = ptLoad → j < i := by
    intro j hj hload
    rcases Nat.lt_succ_iff_lt_or_eq.mp hj with hj | rfl
    · exact hj
    · exact absurd hload htype
  refine ⟨h.paged, h.linked, h.ranged, h.black, fun a ha => ?_, fun a ha => ?_, fun j hj hload => h.bytes j
    (hbefore hj hload) hload,
    fun j hj hload => h.below j (hbefore hj hload) hload, h.last.succ⟩
  · obtain ⟨j, hj, hmalloc⟩ := h.descriptors a ha
    exact ⟨j, by omega, hmalloc⟩
  · obtain ⟨j, _, hend⟩ := h.ends a ha
    exact ⟨j, by omega, hend⟩

lemma Elf64Phdr.Regular.toNat_add {ph : Elf64Phdr} (h : ph.Regular) :
    (roundUp ph.pMemsz).toNat = (ph.pMemsz.toNat + 4095) / 4096 * 4096 ∧ (ph.pVaddr + roundUp ph.pMemsz).toNat = ph.pageEnd ∧
    (ph.pVaddr + ph.pMemsz).toNat = ph.segEnd ∧ ph.pageEnd ≤ 2 ^ 47 ∧
    ∀ k < (roundUp ph.pMemsz).toNat, (ph.pVaddr + BitVec.ofNat 64 k).toNat = ph.pVaddr.toNat + k := by
  have hsize := h.user
  have haligned := aligned_iff.mp h.aligned
  rw [Elf64Phdr.segEnd] at hsize ⊢
  have hround : (roundUp ph.pMemsz).toNat = (ph.pMemsz.toNat + 4095) / 4096 * 4096 := roundUp_toNat (by omega)
  refine ⟨hround, toNat_add_of_lt (by omega), toNat_add_of_lt (by omega), by rw [pageEnd]; omega, fun k hk => ?_⟩
  exact Word.toNat_add_ofNat (by omega)

lemma Elf64Phdr.Regular.byte_eq {ph : Elf64Phdr} (h : ph.Regular) (v : ℕ) (old : Option Byte) :
    (if ph.pVaddr.toNat ≤ v ∧ v < ph.pVaddr.toNat + ph.pFilesz.toNat then some
    (image (ph.pOffset.toNat + (v - ph.pVaddr.toNat)))
      else if ph.pVaddr.toNat ≤ v ∧ v < ph.pVaddr.toNat + (roundUp ph.pMemsz).toNat then some 0 else old) =
    if ph.pVaddr.toNat ≤ v ∧ v < ph.pageEnd then some (ph.byte image (v - ph.pVaddr.toNat)) else old := by
  obtain ⟨_, -⟩ := h.toNat_add
  have hfilesz := le_def.mp h.filesz
  rw [Elf64Phdr.byte, Elf64Phdr.pageEnd]
  by_cases hin : ph.pVaddr.toNat ≤ v ∧ v < ph.pVaddr.toNat + (roundUp ph.pMemsz).toNat
  · rw [if_pos hin, if_pos hin]
    by_cases hfile : v < ph.pVaddr.toNat + ph.pFilesz.toNat
    · rw [if_pos ⟨hin.1, hfile⟩, if_pos (by omega)]
    · rw [if_neg (fun hboth => hfile hboth.2), if_neg (by omega)]
  · rw [if_neg hin, if_neg hin, if_neg fun hboth => hin ⟨hboth.1, by omega⟩]

lemma Loading.next {s₂ : Vm} (himage : Regular image) (h : Loading image kmalloc f i s maxVaddr) (hi : i < (ehdr image).ePhnum)
    (htype : (phdr image i).pType = ptLoad) (hpaged : Paged f s₂) (hlinked : Linked s₂ (vmas s₂))
    (hranged : Ranged s₂ (vmas s₂))
    (hblack : BlackRoot s₂)
    (hareas : ∀ a ∈ vmas s₂, a ∈ vmas s ∧ rangeOf s₂ a = rangeOf s a ∨ (a ∈ vmas s ∨ kmalloc i = some a) ∧
      (s₂.areas a).vmEnd.toNat = (phdr image i).pageEnd ∧ (s₂.areas a).vmFlags = segmentFlags (phdr image i).pFlags)
    (hbytes : ∀ v : Word, v.toNat < 2 ^ 47 → userByte s₂ v =
      if (phdr image i).pVaddr.toNat ≤ v.toNat ∧ v.toNat < (phdr image i).pageEnd then
        some ((phdr image i).byte image (v.toNat - (phdr image i).pVaddr.toNat)) else userByte s v) :
    Loading image kmalloc f (i + 1) s₂ (if (phdr image i).pVaddr + (phdr image i).pMemsz > maxVaddr then
      (phdr image i).pVaddr + (phdr image i).pMemsz else maxVaddr) := by
  obtain ⟨-, -, hsegEnd, hend, haddr⟩ := (himage.segment i hi htype).toNat_add
  refine ⟨hpaged, hlinked, hranged, hblack, fun a ha => ?_, fun a ha => ?_, fun j hj hload k hk => ?_, fun j hj hload => ?_, ?_⟩
  · have hold : a ∈ vmas s → ∃ j < i + 1, kmalloc j = some a := by
      intro ha
      obtain ⟨j, hj, hmalloc⟩ := h.descriptors a ha
      exact ⟨j, by omega, hmalloc⟩
    rcases hareas a ha with ⟨ha, -⟩ | ⟨ha | hmalloc, -⟩
    · exact hold ha
    · exact hold ha
    · exact ⟨i, by omega, hmalloc⟩
  · rcases hareas a ha with ⟨ha, hrange⟩ | ⟨-, hstop, hflags⟩
    · obtain ⟨j, hj, hload, hstop, hflags⟩ := h.ends a ha
      refine ⟨j, by omega, hload, ?_, ?_⟩
      · rwa [show (s₂.areas a).vmEnd = (s.areas a).vmEnd from congrArg (·.2.1) hrange]
      · rwa [show (s₂.areas a).vmFlags = (s.areas a).vmFlags from congrArg (·.2.2) hrange]
    · exact ⟨i, by omega, htype, hstop, hflags⟩
  · rcases Nat.lt_succ_iff_lt_or_eq.mp hj with hj | rfl
    · -- an earlier segment lies before the pages of this one
      obtain ⟨-, -, -, hend', haddr'⟩ := (himage.segment j (by omega) hload).toNat_add
      have hbefore := himage.ascending j i hj hi hload htype
      have hv := haddr' k hk
      rw [Elf64Phdr.pageEnd] at hbefore hend'
      rw [hbytes _ (by omega), if_neg (by omega)]
      exact h.bytes j hj hload k hk
    · have hv := haddr k hk
      rw [Elf64Phdr.pageEnd] at hend
      rw [hbytes _ (by omega), if_pos (by rw [Elf64Phdr.pageEnd]; omega), hv, Nat.add_sub_cancel_left]
  · split_ifs with hgt
    · have hgt' := lt_def.mp hgt
      rcases Nat.lt_succ_iff_lt_or_eq.mp hj with hj | rfl
      · exact (h.below j hj hload).trans hgt'.le
      · exact hsegEnd.ge
    · rcases Nat.lt_succ_iff_lt_or_eq.mp hj with hj | rfl
      · exact h.below j hj hload
      · rw [← hsegEnd]
        exact le_def.mp (BitVec.not_lt.mp hgt)
  · split
    · exact .inr ⟨i, by omega, htype, rfl⟩
    · exact h.last.succ

lemma Loading.segment (himage : Regular image) (hdesc : Descriptors kmalloc (ehdr image).ePhnum)
    (h : Loading image kmalloc f i s maxVaddr)
    (hi : i < (ehdr image).ePhnum) (htype : (phdr image i).pType = ptLoad)
    (hsupplied : Supplied s cpu (phdr image i).pVaddr (phdr image i).pMemsz (segmentFlags (phdr image i).pFlags)) :
    ∃ s₁ s₂, vmaMap s cpu (kmalloc i) (phdr image i).pVaddr (phdr image i).pMemsz (segmentFlags (phdr image i).pFlags) =
      some (0, s₁) ∧
      elfCopySegment image (phdr image i).pVaddr (phdr image i).pOffset (phdr image i).pFilesz walkFuel s₁ 0 = some s₂ ∧
      Loading image kmalloc f (i + 1) s₂ (if (phdr image i).pVaddr + (phdr image i).pMemsz > maxVaddr then
        (phdr image i).pVaddr + (phdr image i).pMemsz else maxVaddr) := by
  have hreg := himage.segment i hi htype
  obtain ⟨_, hpageEnd, -, _, -⟩ := hreg.toNat_add
  have hsize := hreg.user
  have hfilesz := le_def.mp hreg.filesz
  rw [Elf64Phdr.segEnd] at hsize
  obtain ⟨new, hnew⟩ := ne_none_iff_exists'.mp (hdesc.given i hi.le)
  have hfresh : new ∉ vmas s := by
    intro hmem
    obtain ⟨j, hj, hmalloc⟩ := h.descriptors new hmem
    have heq := hdesc.distinct j (by omega) i hi.le (hmalloc.trans hnew.symm)
    omega
  have hfree : ∀ a ∈ vmas s, ¬ overlaps (phdr image i).pVaddr (roundUp (phdr image i).pMemsz) (s.areas a) := by
    intro a ha hover
    obtain ⟨j, hj, hload, hstop, -⟩ := h.ends a ha
    have hbefore := himage.ascending j i hj hi hload htype
    have hlt := lt_def.mp (of_decide_eq_true hover).1
    omega
  obtain ⟨s₁, hmap, hpaged₁, hlinked₁, hranged₁, hblack₁, hbytes₁, hleaves₁⟩ :=
    vmaMap_supplied h.paged h.linked h.ranged h.black hfresh hreg.memsz hreg.aligned hsize hfree hsupplied
  obtain ⟨s₂, c, hcopy, hpaged₂, hareas, htask, -, hbytes₂, _, hstop⟩ := elfCopySegment_pages image (phdr image i).pOffset
    (aligned_iff.mp hreg.aligned) hpaged₁ (.inl (show _ + (phdr image i).pFilesz.toNat ≤ _ by omega))
  obtain rfl : c = (phdr image i).pFilesz.toNat := by
    by_contra hne
    obtain ⟨v, hv, hzero⟩ := hstop (by omega)
    obtain ⟨e, hleaf, hframe⟩ := hleaves₁ v (by omega) (by omega)
    exact hframe (hzero e hleaf)
  have hbytes₂ := hbytes₂ hreg.file
  have hl₂ := hlinked₁.congr hareas htask
  have hvmas := hl₂.vmas_eq
  have hrange : ∀ a, rangeOf s₂ a = rangeOf s₁ a := fun a => by rw [rangeOf, hareas, rangeOf]
  refine ⟨s₁, s₂, by rw [hnew]; exact hmap, hcopy, h.next himage hi htype hpaged₂ (hvmas ▸ hl₂) ?_ (hblack₁.congr hareas htask) ?_ ?_⟩
  · rw [hvmas]
    exact hranged₁.congr fun a _ => hrange a
  · rw [hvmas]
    intro a ha
    rcases (h.linked.map (fun a ha => mem_some_iff.mp ha ▸ hfresh) hmap).mem ha with ⟨hold, hsame⟩ | ⟨hold, hstop, hflags⟩
    · exact .inl ⟨hold, (hrange a).trans hsame⟩
    · rw [hareas, hstop, hpageEnd, hnew]
      exact .inr ⟨hold, rfl, hflags⟩
  · intro v hv
    rw [hbytes₂ v hv, hbytes₁ v hv]
    exact hreg.byte_eq v.toNat _

lemma loadSegments_loading (himage : Regular image) (hdesc : Descriptors kmalloc (ehdr image).ePhnum) (fuel : ℕ)
    (hi : i + fuel = (ehdr image).ePhnum) (h : Loading image kmalloc f i s maxVaddr)
    (hsupplied : SuppliedFrom image cpu kmalloc fuel i s maxVaddr) :
    ∃ last s', loadSegments image cpu kmalloc fuel i s maxVaddr = some (some last, s') ∧
      Loading image kmalloc f (ehdr image).ePhnum s' last ∧ SuppliedFrom image cpu kmalloc 0 (ehdr image).ePhnum s' last := by
  induction fuel generalizing i s maxVaddr with
  | zero =>
    obtain rfl : i = (ehdr image).ePhnum := hi
    exact ⟨maxVaddr, s, rfl, h, hsupplied⟩
  | succ fuel ih =>
    simp only [SuppliedFrom] at hsupplied
    rw [loadSegments]
    split at hsupplied
    · rename_i htype
      obtain ⟨hpages, hrest⟩ := hsupplied
      obtain ⟨s₁, s₂, hmap, hcopy, hnext⟩ := h.segment himage hdesc (by omega) htype hpages
      obtain ⟨last, s', hload, hend⟩ := ih (by omega) hnext (hrest (0, s₁) hmap rfl s₂ hcopy)
      refine ⟨last, s', ?_, hend⟩
      simp only [if_pos htype, hmap, bind_eq_bind, bind_some, hcopy]
      exact hload
    · rename_i htype
      obtain ⟨last, s', hload, hend⟩ := ih (by omega) (h.skip htype) hsupplied
      refine ⟨last, s', ?_, hend⟩
      simp only [if_neg htype]
      exact hload

lemma segmentFlags_ne_heap (pFlags : BitVec 32) : segmentFlags pFlags ≠ vmaRead ||| vmaWrite ||| vmaUser ||| vmaHeap := by
  simp only [segmentFlags]
  split <;> split <;> split <;> decide

lemma initHeap_toNat (s : Vm) (hmax : maxVaddr.toNat < 2 ^ 47 - 4 * pageSize) :
    (initHeap s maxVaddr).task.heapStart.toNat = (maxVaddr.toNat + 4096) / 4096 * 4096 ∧
    (initHeap s maxVaddr).task.heapEnd.toNat = (initHeap s maxVaddr).task.heapStart.toNat + 4 * 4096 := by
  have hmask : (initHeap s maxVaddr).task.heapStart =
      (maxVaddr + BitVec.ofNat 64 pageSize) &&& BitVec.ofNat 64 ((2 ^ 52 - 1) * 2 ^ 12) := rfl
  have hstart : (initHeap s maxVaddr).task.heapStart.toNat = (maxVaddr.toNat + 4096) / 4096 * 4096 := by
    rw [hmask, Word.toNat_and_field _ 12 52 (by decide), BitVec.toNat_add, toNat_ofNat]
    rw [pageSize] at *
    omega
  refine ⟨hstart, toNat_add_of_lt ?_⟩
  change (initHeap s maxVaddr).task.heapStart.toNat + 4 * 4096 < _
  omega

lemma Loading.heapStart (himage : Regular image) (hfits : HeapFits image)
    (h : Loading image kmalloc f (ehdr image).ePhnum s maxVaddr) :
    maxVaddr.toNat < 2 ^ 47 - 4 * pageSize ∧ ∀ j < (ehdr image).ePhnum, (phdr image j).pType = ptLoad →
      (phdr image j).pageEnd ≤ (maxVaddr.toNat + 4096) / 4096 * 4096 := by
  refine ⟨?_, fun j hj hload => ?_⟩
  · rcases h.last with rfl | ⟨j, hj, hload, rfl⟩
    · decide
    · obtain ⟨-, -, hsegEnd, -⟩ := (himage.segment j hj hload).toNat_add
      rw [hsegEnd]
      exact hfits j hj hload
  · have hreg := himage.segment j hj hload
    obtain ⟨_, -⟩ := hreg.toNat_add
    have haligned := aligned_iff.mp hreg.aligned
    have hbelow := h.below j hj hload
    rw [Elf64Phdr.segEnd] at hbelow
    rw [Elf64Phdr.pageEnd]
    omega

lemma Loading.built (himage : Regular image) (hfits : HeapFits image) (hdesc : Descriptors kmalloc (ehdr image).ePhnum)
    (h : Loading image kmalloc f (ehdr image).ePhnum s maxVaddr)
    (hsupplied : SuppliedFrom image cpu kmalloc 0 (ehdr image).ePhnum s maxVaddr) :
    ∃ s', vmaMap (initHeap s maxVaddr) cpu (kmalloc (ehdr image).ePhnum) (initHeap s maxVaddr).task.heapStart
        (4 * BitVec.ofNat 64 pageSize) (vmaRead ||| vmaWrite ||| vmaUser ||| vmaHeap) = some (0, s') ∧
      heapOf s' = heapOf (initHeap s maxVaddr) ∧ Built image s' ∧ Paged f s' ∧ Linked s' (vmas s') ∧ Ranged s' (vmas s') ∧
      ∃ a ∈ vmas s', rangeOf s' a = (s'.task.heapStart, s'.task.heapEnd, vmaRead ||| vmaWrite ||| vmaUser ||| vmaHeap) := by
  obtain ⟨hmax, hends⟩ := h.heapStart himage hfits
  obtain ⟨hstart, hend⟩ := initHeap_toNat s hmax
  rw [pageSize] at hmax
  obtain ⟨new, hnew⟩ := ne_none_iff_exists'.mp (hdesc.given _ le_rfl)
  have hfresh : new ∉ vmas (initHeap s maxVaddr) := by
    intro hmem
    obtain ⟨j, hj, hmalloc⟩ := h.descriptors new hmem
    have heq := hdesc.distinct j hj.le _ le_rfl (hmalloc.trans hnew.symm)
    omega
  have hlinked : Linked (initHeap s maxVaddr) (vmas (initHeap s maxVaddr)) := ⟨h.linked.listed, h.linked.nodup, h.linked.tree⟩
  have hfree : ∀ a ∈ vmas (initHeap s maxVaddr), ¬ overlaps (initHeap s maxVaddr).task.heapStart
      (roundUp (4 * BitVec.ofNat 64 pageSize)) ((initHeap s maxVaddr).areas a) := by
    intro a ha hover
    obtain ⟨j, hj, hload, hstop, -⟩ := h.ends a ha
    have hlt := lt_def.mp (of_decide_eq_true hover).1
    have hbelow := hends j hj hload
    rw [hstart] at hlt
    exact absurd (hlt.trans_eq hstop) (not_lt.mpr hbelow)
  have haligned : Aligned (initHeap s maxVaddr).task.heapStart := aligned_iff.mpr (by omega)
  have hfour : (4 * BitVec.ofNat 64 pageSize).toNat = 4 * 4096 := rfl
  have hround : roundUp (4 * BitVec.ofNat 64 pageSize) = 4 * BitVec.ofNat 64 pageSize := by decide
  have hpaged₀ : Paged f (initHeap s maxVaddr) := h.paged.of_pages rfl
  obtain ⟨s', hmap, hpaged, hlinked', hranged, -, hbytes, -⟩ := vmaMap_supplied hpaged₀ hlinked (h.ranged.congr fun _ _ => rfl)
    h.black hfresh (by decide) haligned (by omega) hfree hsupplied
  have hheap := vmaMap_heapOf hmap
  have hstart' : s'.task.heapStart = (initHeap s maxVaddr).task.heapStart := congrArg Prod.fst hheap
  have hend' : s'.task.heapEnd = (initHeap s maxVaddr).task.heapEnd := congrArg (·.2.2) hheap
  refine ⟨s', by rw [hnew]; exact hmap, hheap, ⟨?_, ?_, ?_, ?_⟩, hpaged, hlinked', hranged, ?_⟩
  · intro i hi hload k hk
    obtain ⟨-, -, -, hlimit, haddr⟩ := (himage.segment i hi hload).toNat_add
    have hv := haddr k hk
    have hbelow := hends i hi hload
    rw [Elf64Phdr.pageEnd] at hbelow hlimit
    rw [hbytes _ (by omega), if_neg (by omega)]
    exact h.bytes i hi hload k hk
  · intro v hlow hhigh
    have hlow' := le_def.mp hlow
    have hhigh' := lt_def.mp hhigh
    rw [hstart'] at hlow'
    rw [hend', hend] at hhigh'
    rw [hbytes v (by omega), if_pos ⟨hlow', hhigh'⟩]
  · rw [hstart', hend']
    exact ⟨haligned, aligned_iff.mpr (by omega), lt_def.mpr (by omega)⟩
  · intro i hi hload
    have hbelow := hends i hi hload
    obtain ⟨_, -⟩ := (himage.segment i hi hload).toNat_add
    rw [Elf64Phdr.pageEnd] at hbelow
    rw [hstart', hstart, Elf64Phdr.segEnd]
    omega
  · -- no segment has the flags of the heap, so the heap is an area of its own
    cases hlinked.map (fun a ha => mem_some_iff.mp ha ▸ hfresh) hmap with
    | failed hcode => exact absurd rfl hcode
    | grown _ curr hcurr hexpand =>
      obtain ⟨_, -, -, -, hflags⟩ := h.ends curr hcurr
      exact absurd (hflags.symm.trans (of_decide_eq_true hexpand).2) (segmentFlags_ne_heap _)
    | added _ _ _ _ hadded _ hrange =>
      refine ⟨_, by rw [hadded.vmas_eq]; exact mem_cons_self, ?_⟩
      rw [hrange, hround, hstart', hend']
      rfl

lemma FreshSpace.loading (image : Mem) (kmalloc : ℕ → Option Word) {t : TaskVm} (hspace : FreshSpace s)
    (hinit : s.task = vmaInitTask t) : ∃ f, Loading image kmalloc f 0 s 0 := by
  obtain ⟨f, hbacked⟩ := hspace.backed hinit
  have hlinked := linked_init hinit
  have hnone := hlinked.vmas_eq
  refine ⟨f, hbacked.paged, hnone ▸ hlinked, ?_, ?_, ?_, ?_, fun j hj => ?_, fun j hj => ?_, .inl rfl⟩
  · rw [hnone]
    constructor <;> simp
  · intro r hr
    rw [hinit] at hr
    cases hr
  · rw [hnone]
    exact forall_mem_nil _
  · rw [hnone]
    exact forall_mem_nil _
  · exact absurd hj (Nat.not_lt_zero j)
  · exact absurd hj (Nat.not_lt_zero j)

lemma elfLoad_supplied {t : TaskVm} (himage : Regular image) (hfits : HeapFits image) (hspace : FreshSpace s)
    (hinit : s.task = vmaInitTask t) (hdesc : Descriptors kmalloc (ehdr image).ePhnum)
    (hsupplied : SuppliedFrom image cpu kmalloc (ehdr image).ePhnum 0 s 0) :
    ∃ f s₁ last s', elfLoad image cpu kmalloc s = some ((ehdr image).eEntry, s') ∧ heapOf s' = heapOf (initHeap s₁ last) ∧
      last.toNat < 2 ^ 47 - 4 * pageSize ∧ Built image s' ∧ Paged f s' ∧ Linked s' (vmas s') ∧ Ranged s' (vmas s') ∧
      ∃ a ∈ vmas s', rangeOf s' a = (s'.task.heapStart, s'.task.heapEnd, vmaRead ||| vmaWrite ||| vmaUser ||| vmaHeap) := by
  obtain ⟨f, hloading⟩ := FreshSpace.loading image kmalloc hspace hinit
  obtain ⟨last, s₁, hload, hloaded, hheap⟩ := loadSegments_loading himage hdesc _ (Nat.zero_add _) hloading hsupplied
  obtain ⟨s', hmap, hsame, hrest⟩ := hloaded.built himage hfits hdesc hheap
  refine ⟨f, s₁, last, s', ?_, hsame, (hloaded.heapStart himage hfits).1, hrest⟩
  rw [elfLoad, if_neg (not_not.mpr himage.magic), hload]
  simp only [bind_eq_bind, bind_some, hmap]
  rfl

def descriptorAt (i : ℕ) : Option Word := some (BitVec.ofNat 64 (0x8000 + 0x100 * i))

lemma one_phdr_regular (image : Mem) (hehdr : (ehdr image).ePhnum = 1 ∧ (ehdr image).eIdent = elfMagic ∧
    (ehdr image).eEntry ≠ 0) (hphdr : Aligned (phdr image 0).pVaddr ∧ (phdr image 0).pMemsz ≠ 0 ∧
    (phdr image 0).pFilesz ≤ (phdr image 0).pMemsz ∧ (phdr image 0).segEnd ≤ 2 ^ 47 ∧
    (phdr image 0).pOffset.toNat + (phdr image 0).pFilesz.toNat ≤ 2 ^ 64) : Regular image ∧
    Descriptors descriptorAt (ehdr image).ePhnum := by
  obtain ⟨hnum, hmagic, hentry⟩ := hehdr
  obtain ⟨haligned, hmemsz, hfilesz, huser, hfile⟩ := hphdr
  refine ⟨⟨hmagic, hentry, fun i hi _ => ?_, fun i j hij hj => ?_⟩, ?_⟩
  · obtain rfl : i = 0 := by omega
    exact ⟨haligned, hmemsz, hfilesz, huser, hfile⟩
  · omega
  · rw [hnum]
    exact ⟨fun i hi => some_ne_none _, by decide⟩

end loading

end KernelSmp.Fs
