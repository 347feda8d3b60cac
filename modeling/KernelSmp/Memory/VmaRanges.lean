import Mathlib
import KernelSmp.Base.Runs
import KernelSmp.Memory.PmmSpec
import KernelSmp.Memory.VmaLinks

/-! The ranges of a task's areas along runs of `vma_map` and `vma_unmap`. -/

namespace KernelSmp.Memory.VmaRanges

open Base LinkedList LinkedTree Function List Option BitVec

inductive Call
  | map (cpu : Option ℕ) (kmalloc : Option Word) (addr size : Word) (flags : BitVec 32)
  | unmap (cpu : Option ℕ) (addr size : Word)

def step (s : Vm) : Call → Option Vm
  | .map cpu kmalloc addr size flags => (vmaMap s cpu kmalloc addr size flags).map Prod.snd
  | .unmap cpu addr size => (vmaUnmap s cpu addr size).map Prod.snd

def follow (areas : Word → VmaArea) : ℕ → Option Word → List Word
  | fuel + 1, some a => a :: follow areas fuel (areas a).next
  | _, _ => []

def vmas (s : Vm) : List Word := follow s.areas walkFuel s.task.vmaListHead

def covered (a : VmaArea) : Set ℕ := Set.Ico a.vmStart.toNat a.vmEnd.toNat

def Aligned (x : Word) : Prop := x &&& 0xFFF = 0

structure Separate (s : Vm) : Prop where
  disjoint : (vmas s).Pairwise fun a b => Disjoint (covered (s.areas a)) (covered (s.areas b))
  start : ∀ a ∈ vmas s, Aligned (s.areas a).vmStart
  nonempty : ∀ a ∈ vmas s, (s.areas a).vmStart < (s.areas a).vmEnd

def EndsAligned (s : Vm) : Prop := ∀ a ∈ vmas s, Aligned (s.areas a).vmEnd

/-- The heap does not hand out a descriptor that is in use. -/
def Call.Fresh (s : Vm) : Call → Prop
  | .map _ kmalloc _ _ _ => ∀ new ∈ kmalloc, new ∉ vmas s
  | .unmap _ _ _ => True

def Grows (s : Vm) (kmalloc : Option Word) (addr size : Word) (flags : BitVec 32) : Prop :=
  Aligned addr ∧ (pmmAllocFrames s.pmm ((roundUp size).toNat / 4096)).1 ≠ 0 ∧
  ((∃ a ∈ vmas s, canExpand addr flags (s.areas a)) ∨
    kmalloc ≠ none ∧ ∀ a ∈ vmas s, ¬ overlaps addr (roundUp size) (s.areas a))

/-- The range ends below `2 ^ 64` and is free, which `vma_map` checks only before it makes a new area. -/
def Call.Fits (s : Vm) : Call → Prop
  | .map _ kmalloc addr size flags => Grows s kmalloc addr size flags →
      addr.toNat + (roundUp size).toNat < 2 ^ 64 ∧ ∀ a ∈ vmas s, ¬ overlaps addr (roundUp size) (s.areas a)
  | .unmap _ _ _ => True

def Call.Cuts (s : Vm) : Call → Prop
  | .map _ _ _ _ _ => True
  | .unmap _ addr size => ∀ a ∈ vmas s, (s.areas a).vmStart < addr → addr < (s.areas a).vmEnd →
      (s.areas a).vmEnd ≤ addr + size → Aligned addr

instance (x : Word) : Decidable (Aligned x) := inferInstanceAs (Decidable (x &&& 0xFFF = 0))

section fresh

local instance lawfulWord : LawfulBEq Word := inferInstance

-- The quantifiers run over the list, not over all words.
instance (s : Vm) : (c : Call) → Decidable (c.Fresh s)
  | .map _ kmalloc _ _ _ => Option.decidableForallMem kmalloc
  | .unmap _ _ _ => .isTrue trivial

end fresh

instance (s : Vm) (addr size : Word) : Decidable (∀ a ∈ vmas s, ¬ overlaps addr size (s.areas a)) :=
  List.decidableBAll _ (vmas s)

instance (s : Vm) (addr : Word) (flags : BitVec 32) : Decidable (∃ a ∈ vmas s, canExpand addr flags (s.areas a)) :=
  List.decidableBEx _ (vmas s)

instance (s : Vm) (kmalloc : Option Word) (addr size : Word) (flags : BitVec 32) :
    Decidable (Grows s kmalloc addr size flags) :=
  inferInstanceAs (Decidable (_ ∧ _ ∧ (_ ∨ _)))

instance (s : Vm) : (c : Call) → Decidable (c.Fits s)
  | .map _ _ _ _ _ => inferInstanceAs (Decidable (_ → _ ∧ _))
  | .unmap _ _ _ => .isTrue trivial

instance (s : Vm) : (c : Call) → Decidable (c.Cuts s)
  | .map _ _ _ _ _ => .isTrue trivial
  | .unmap _ _ _ => List.decidableBAll _ (vmas s)

variable {s s' : Vm} {l : List Word} {a new : Word}

structure Linked (s : Vm) (l : List Word) : Prop where
  listed : Listed s l
  nodup : l.Nodup
  tree : ∃ t, IsTree (treeOf s) t ∧ t.inorder.Perm l

variable {before link : Option Word}

lemma follow_eq {fuel : ℕ} (h : Seg (nextOf s) (prevOf s) before link l none) (hfuel : l.length ≤ fuel) :
    follow s.areas fuel link = l := by
  induction l generalizing fuel before link with
  | nil =>
    obtain rfl : link = none := h
    cases fuel <;> rfl
  | cons a l ih =>
    obtain ⟨rfl, -, hrest⟩ := h
    cases fuel with
    | zero => cases hfuel
    | succ =>
      rw [follow]
      exact congrArg (a :: ·) (ih hrest (Nat.le_of_succ_le_succ hfuel))

lemma Linked.vmas_eq (h : Linked s l) : vmas s = l := by
  apply follow_eq h.listed
  exact Word.length_le_of_nodup h.nodup

lemma Linked.congr (h : Linked s l) (hareas : s'.areas = s.areas) (htask : s'.task = s.task) : Linked s' l := by
  obtain ⟨areas, task, _, _⟩ := s
  obtain ⟨areas', task', _, _⟩ := s'
  subst hareas htask
  exact ⟨h.listed, h.nodup, h.tree⟩

lemma Linked.setArea (h : Linked s l) (ha : a ∉ l) (area : VmaArea) : Linked (s.setArea a area) l := by
  have hother : ∀ b ∈ l, (s.setArea a area).areas b = s.areas b := by
    intro b hb
    apply update_of_ne
    rintro rfl
    exact ha hb
  obtain ⟨t, ht, hperm⟩ := h.tree
  refine ⟨Seg.congr h.listed ?_ ?_, h.nodup, t, ⟨ht.root, Holds.congr ht.holds ?_ ?_⟩, hperm⟩
  · exact fun b hb => congrArg VmaArea.next (hother b hb)
  · exact fun b hb => congrArg VmaArea.prev (hother b hb)
  · exact fun b hb => congrArg VmaArea.child (hother b (hperm.mem_iff.mp hb))
  · exact fun b hb => congrArg VmaArea.parent (hother b (hperm.mem_iff.mp hb))

lemma Linked.setEnd (h : Linked s l) (a e : Word) : Linked (s.setEnd a e) l := by
  refine ⟨?_, h.nodup, ?_⟩
  · rw [Listed, nextOf_setEnd, prevOf_setEnd]
    exact h.listed
  · rw [treeOf_setEnd]
    exact h.tree

variable {s₂ : Vm}

lemma Linked.insert {s₃ : Vm} (h : Linked s l) (hnew : new ∉ l) (hchild : ∀ d, (s.areas new).child d = none)
    (hparent : (s.areas new).parent = none) (hprev : (s.areas new).prev = none)
    (hinsert : treeInsert (listInsert s new) new = some s₂) (hfixup : vmaInsertFixup s₂ new = some s₃) :
    Linked s₃ (new :: l) ∧ rangeOf s₃ = rangeOf s := by
  have hlist := (treeFree_listOf.vmaInsertFixup hfixup).trans (treeFree_listOf.treeInsert hinsert)
  have hrange := congrArg Prod.fst hlist
  obtain ⟨t, _, hperm⟩ := h.tree
  have ht₁ : IsTree (treeOf (listInsert s new)) t := by
    rwa [listInsert_treeOf]
  have hchild₁ : ∀ d, ((listInsert s new).areas new).child d = none := by
    intro d
    rw [← treeOf_child, listInsert_treeOf]
    exact hchild d
  have hparent₁ : ((listInsert s new).areas new).parent = none := by
    rwa [← treeOf_parent, listInsert_treeOf]
  have hnodup := hperm.nodup_iff.mpr h.nodup
  have hfresh : new ∉ t.inorder := fun hmem => hnew (hperm.mem_iff.mp hmem)
  obtain ⟨t₂, ht₂, hperm₂⟩ := treeInsert_tree ht₁ hnodup hfresh hchild₁ hparent₁ hinsert
  have hnodup₂ := hperm₂.nodup_iff.mpr (nodup_cons.mpr ⟨hfresh, hnodup⟩)
  obtain ⟨t₃, ht₃, heq⟩ := vmaInsertFixup_tree ht₂ hnodup₂ (hperm₂.mem_iff.mpr mem_cons_self) hfixup
  refine ⟨⟨?_, nodup_cons.mpr ⟨hnew, h.nodup⟩, t₃, ht₃, ?_⟩, hrange.trans listInsert_rangeOf⟩
  · exact (listInsert_listed h.listed h.nodup hnew hprev).congr hlist
  · rw [heq]
    exact hperm₂.trans (hperm.cons new)

lemma Linked.remove (h : Linked s l) (ha : a ∈ l) (hremove : treeRemove (listRemove s a) a = some s₂) :
    ∃ l', Linked s₂ l' ∧ (a :: l').Perm l ∧ rangeOf s₂ = rangeOf s := by
  have hlist := treeFree_listOf.treeRemove hremove
  have hrange := congrArg Prod.fst hlist
  obtain ⟨t, _, hperm⟩ := h.tree
  have ht₁ : IsTree (treeOf (listRemove s a)) t := by
    rwa [listRemove_treeOf]
  obtain ⟨t₂, ht₂, hperm₂⟩ :=
    treeRemove_tree ht₁ (hperm.nodup_iff.mpr h.nodup) (hperm.mem_iff.mpr ha) hremove
  obtain ⟨l₁, l₂, rfl⟩ := append_of_mem ha
  have hmiddle : (l₁ ++ a :: l₂).Perm (a :: (l₁ ++ l₂)) := perm_middle
  refine ⟨l₁ ++ l₂, ⟨?_, ?_, t₂, ht₂, ?_⟩, hmiddle.symm, hrange.trans (listRemove_rangeOf s a)⟩
  · exact (listRemove_listed h.listed h.nodup).congr hlist
  · exact (nodup_cons.mp (hmiddle.nodup_iff.mp h.nodup)).2
  · exact (hperm₂.trans (hperm.trans hmiddle)).cons_inv

variable {addr : Word} {fuel : ℕ} {test : VmaArea → Bool}

variable {c : Word}

lemma findArea_some (h : Seg (nextOf s) (prevOf s) before link l none)
    (hfind : findArea s.areas test fuel link = some (some c)) : c ∈ l ∧ test (s.areas c) := by
  induction l generalizing fuel before link with
  | nil =>
    obtain rfl : link = none := h
    cases fuel with
    | zero => cases hfind
    | succ => cases hfind
  | cons a l ih =>
    obtain ⟨rfl, -, hrest⟩ := h
    cases fuel with
    | zero => cases hfind
    | succ =>
      rw [findArea] at hfind
      split_ifs at hfind with htest
      · cases hfind
        exact ⟨mem_cons_self, htest⟩
      · obtain ⟨hc, htest⟩ := ih hrest hfind
        exact ⟨mem_cons_of_mem a hc, htest⟩

lemma findArea_none (h : Seg (nextOf s) (prevOf s) before link l none)
    (hfind : findArea s.areas test fuel link = some none) : ∀ a ∈ l, ¬ test (s.areas a) := by
  induction l generalizing fuel before link with
  | nil =>
    intro a ha
    cases ha
  | cons a l ih =>
    obtain ⟨rfl, -, hrest⟩ := h
    cases fuel with
    | zero => cases hfind
    | succ =>
      rw [findArea] at hfind
      split_ifs at hfind with htest
      · cases hfind
      · intro b hb
        rcases mem_cons.mp hb with rfl | hb
        · exact htest
        · exact ih hrest hfind b hb

lemma findArea_total (test : VmaArea → Bool) (h : Seg (nextOf s) (prevOf s) before link l none) (hfuel : l.length < fuel) :
    ∃ r, findArea s.areas test fuel link = some r := by
  induction l generalizing fuel before link with
  | nil =>
    obtain rfl : link = none := h
    cases fuel with
    | zero => cases hfuel
    | succ => exact ⟨none, rfl⟩
  | cons a l ih =>
    obtain ⟨rfl, -, hrest⟩ := h
    cases fuel with
    | zero => cases hfuel
    | succ =>
      rw [findArea]
      split
      · exact ⟨_, rfl⟩
      · exact ih hrest (Nat.lt_of_succ_lt_succ hfuel)

lemma findFrom_some {p : Option Word} {t : Shape Word} (h : Holds (treeOf s) p t)
    (hfind : findFrom s.areas addr fuel t.top = some (some c)) :
    c ∈ t.inorder ∧ (s.areas c).vmStart ≤ addr ∧ addr < (s.areas c).vmEnd := by
  induction t generalizing p fuel with
  | leaf =>
    cases fuel with
    | zero => cases hfind
    | succ => cases hfind
  | node a sub ih =>
    obtain ⟨-, hchild, hsub⟩ := h
    have hdown : ∀ d, findFrom s.areas addr (fuel - 1) ((s.areas a).child d) = some (some c) →
        c ∈ (Shape.node a sub).inorder ∧ (s.areas c).vmStart ≤ addr ∧ addr < (s.areas c).vmEnd := by
      intro d hd
      rw [← treeOf_child, hchild d] at hd
      obtain ⟨hc, hcontains⟩ := ih d (hsub d) hd
      exact ⟨Shape.mem_inorder_node.mpr (.inr ⟨d, hc⟩), hcontains⟩
    cases fuel with
    | zero => cases hfind
    | succ fuel =>
      rw [Shape.top_node, findFrom] at hfind
      split at hfind
      · rename_i hcontains
        cases hfind
        exact ⟨Shape.top_mem rfl, hcontains⟩
      · split at hfind
        · exact hdown .left hfind
        · exact hdown .right hfind

lemma Linked.vmaFind (h : Linked s l) (hfind : vmaFind s addr = some (some c)) :
    c ∈ l ∧ (s.areas c).vmStart ≤ addr ∧ addr < (s.areas c).vmEnd := by
  obtain ⟨t, ht, hperm⟩ := h.tree
  have hroot : s.task.vmaTreeRoot = t.top := ht.root
  rw [Memory.vmaFind, hroot] at hfind
  obtain ⟨hc, hcontains⟩ := findFrom_some ht.holds hfind
  exact ⟨hperm.mem_iff.mp hc, hcontains⟩

variable {l' : List Word} {size : Word}

section ranges

structure Ranged (s : Vm) (l : List Word) : Prop where
  disjoint : ∀ a ∈ l, ∀ b ∈ l, a ≠ b → Disjoint (covered (s.areas a)) (covered (s.areas b))
  start : ∀ a ∈ l, Aligned (s.areas a).vmStart
  nonempty : ∀ a ∈ l, (s.areas a).vmStart < (s.areas a).vmEnd

def EndsOn (s : Vm) (l : List Word) : Prop := ∀ a ∈ l, Aligned (s.areas a).vmEnd

lemma rangeOf_setArea (s : Vm) (hnew : new ∉ l) (area : VmaArea) : ∀ a ∈ l, rangeOf (s.setArea new area) a = rangeOf s a := by
  intro a ha
  have hne : a ≠ new := fun heq => hnew (heq ▸ ha)
  have hsame : (s.setArea new area).areas a = s.areas a := update_of_ne hne _ _
  rw [rangeOf, hsame, rangeOf]

lemma vmStart_congr (h : rangeOf s' a = rangeOf s a) : (s'.areas a).vmStart = (s.areas a).vmStart := congrArg Prod.fst h

lemma vmEnd_congr (h : rangeOf s' a = rangeOf s a) : (s'.areas a).vmEnd = (s.areas a).vmEnd :=
  congrArg (fun r => r.2.1) h

lemma covered_congr (h : rangeOf s' a = rangeOf s a) : covered (s'.areas a) = covered (s.areas a) :=
  congrArg (fun r : Word × Word × BitVec 32 => Set.Ico r.1.toNat r.2.1.toNat) h

lemma Ranged.congr (h : Ranged s l) (heq : ∀ a ∈ l, rangeOf s' a = rangeOf s a) : Ranged s' l := by
  refine ⟨fun a ha b hb hab => ?_, fun a ha => ?_, fun a ha => ?_⟩
  · rw [covered_congr (heq a ha), covered_congr (heq b hb)]
    exact h.disjoint a ha b hb hab
  · rw [vmStart_congr (heq a ha)]
    exact h.start a ha
  · rw [vmStart_congr (heq a ha), vmEnd_congr (heq a ha)]
    exact h.nonempty a ha

lemma EndsOn.congr (h : EndsOn s l) (heq : ∀ a ∈ l, rangeOf s' a = rangeOf s a) : EndsOn s' l := by
  intro a ha
  rw [vmEnd_congr (heq a ha)]
  exact h a ha

lemma Ranged.mono (h : Ranged s l) (hsub : l' ⊆ l) : Ranged s l' :=
  ⟨fun a ha b hb => h.disjoint a (hsub ha) b (hsub hb), fun a ha => h.start a (hsub ha),
    fun a ha => h.nonempty a (hsub ha)⟩

lemma Ranged.cons (h : Ranged s l) (hstart : Aligned (s.areas a).vmStart) (hnonempty : (s.areas a).vmStart < (s.areas a).vmEnd)
    (hdisj : ∀ b ∈ l, Disjoint (covered (s.areas a)) (covered (s.areas b))) : Ranged s (a :: l) := by
  refine ⟨fun b hb c hc hbc => ?_, forall_mem_cons.mpr ⟨hstart, h.start⟩,
    forall_mem_cons.mpr ⟨hnonempty, h.nonempty⟩⟩
  cases hb with
  | head =>
    cases hc with
    | head => exact absurd rfl hbc
    | tail _ hc => exact hdisj c hc
  | tail _ hb =>
    cases hc with
    | head => exact (hdisj b hb).symm
    | tail _ hc => exact h.disjoint b hb c hc hbc

lemma areas_setEnd (s : Vm) (a e : Word) : (s.setEnd a e).areas a = { s.areas a with vmEnd := e } :=
  update_self a _ s.areas

lemma areas_setEnd_of_ne {b : Word} (hb : b ≠ a) (e : Word) : (s.setEnd a e).areas b = s.areas b :=
  update_of_ne hb _ _

lemma rangeOf_setEnd (s : Vm) (a e b : Word) :
    rangeOf (s.setEnd a e) b = if b = a then ((s.areas a).vmStart, e, (s.areas a).vmFlags) else rangeOf s b := by
  split_ifs with hb
  · rw [hb, rangeOf, areas_setEnd]
  · rw [rangeOf, areas_setEnd_of_ne hb, rangeOf]

section resize

variable {e : Word} {w : BitVec 32} (ha : a ∈ l) (hsame : ∀ b ∈ l, b ≠ a → rangeOf s' b = rangeOf s b)
  (hrange : rangeOf s' a = ((s.areas a).vmStart, e, w))

include ha hsame hrange

lemma Ranged.resize (h : Ranged s l) (hstart : (s.areas a).vmStart < e)
    (hdisj : ∀ b ∈ l, b ≠ a → Disjoint (Set.Ico (s.areas a).vmStart.toNat e.toNat) (covered (s.areas b))) : Ranged s' l := by
  have hfrom : (s'.areas a).vmStart = (s.areas a).vmStart := congrArg Prod.fst hrange
  have hto : (s'.areas a).vmEnd = e := congrArg (·.2.1) hrange
  have hother : ∀ b ∈ l.filter (· ≠ a), b ∈ l ∧ b ≠ a := fun b hb => by simpa using hb
  have hothers := (h.mono (filter_subset_self l)).congr fun b hb => hsame b (hother b hb).1 (hother b hb).2
  have hall : Ranged s' (a :: l.filter (· ≠ a)) := by
    refine hothers.cons ?_ ?_ fun b hb => ?_
    · rw [hfrom]
      exact h.start a ha
    · rwa [hfrom, hto]
    · obtain ⟨hmem, hne⟩ := hother b hb
      rw [covered, hfrom, hto, covered_congr (hsame b hmem hne)]
      exact hdisj b hmem hne
  apply hall.mono
  intro b hb
  by_cases hba : b = a
  · exact hba ▸ mem_cons_self
  · exact mem_cons_of_mem a (mem_filter.mpr ⟨hb, by simpa using hba⟩)

omit ha in
lemma EndsOn.resize (h : EndsOn s l) (he : Aligned e) : EndsOn s' l := by
  intro b hb
  by_cases hba : b = a
  · rwa [hba, show (s'.areas a).vmEnd = e from congrArg (·.2.1) hrange]
  · rw [vmEnd_congr (hsame b hb hba)]
    exact h b hb

end resize

lemma disjoint_of_not_overlaps {area : VmaArea} (h : ¬ overlaps addr size area) :
    Disjoint (Set.Ico addr.toNat (addr + size).toNat) (covered area) := by
  rw [overlaps, decide_eq_true_eq, not_and_or] at h
  rw [Set.disjoint_left]
  rintro x ⟨hx, hx'⟩ ⟨hy, hy'⟩
  rcases h with h | h
  · apply h
    exact lt_def.mpr (hx.trans_lt hy')
  · apply h
    exact lt_def.mpr (hy.trans_lt hx')

lemma Ranged.grow {w : BitVec 32} (h : Ranged s l) (ha : a ∈ l) (hend : (s.areas a).vmEnd = addr)
    (hsame : ∀ b ∈ l, b ≠ a → rangeOf s' b = rangeOf s b) (hrange : rangeOf s' a = ((s.areas a).vmStart, addr + size, w))
    (hbound : addr.toNat + size.toNat < 2 ^ 64) (hfree : ∀ b ∈ l, ¬ overlaps addr size (s.areas b)) : Ranged s' l := by
  have hsum := toNat_add_of_lt hbound
  have hnonempty := lt_def.mp (h.nonempty a ha)
  rw [hend] at hnonempty
  refine h.resize ha hsame hrange (lt_def.mpr (by omega)) fun b hb hne => ?_
  have hold := h.disjoint a ha b hb hne.symm
  have hnew := disjoint_of_not_overlaps (hfree b hb)
  rw [covered, hend] at hold
  rw [← Set.Ico_union_Ico_eq_Ico hnonempty.le (by omega)]
  exact Set.disjoint_union_left.mpr ⟨hold, hnew⟩

lemma Ranged.cut {w : BitVec 32} (h : Ranged s l) (ha : a ∈ l) (hstart : (s.areas a).vmStart < addr)
    (hend : addr < (s.areas a).vmEnd) (hsame : ∀ b ∈ l, b ≠ a → rangeOf s' b = rangeOf s b)
    (hrange : rangeOf s' a = ((s.areas a).vmStart, addr, w)) : Ranged s' l := by
  refine h.resize ha hsame hrange hstart fun b hb hne => ?_
  refine (h.disjoint a ha b hb hne.symm).mono_left ?_
  exact Set.Ico_subset_Ico_right (lt_def.mp hend).le

lemma aligned_iff {x : Word} : Aligned x ↔ x.toNat % 4096 = 0 := Word.and_low_eq_zero 12 (by decide)

lemma roundUp_aligned (size : Word) : Aligned (roundUp size) := by
  have hmask : (~~~0xFFF : Word) = BitVec.ofNat 64 ((2 ^ 52 - 1) * 2 ^ 12) := by decide
  rw [aligned_iff, roundUp, hmask, Word.toNat_and_field _ 12 52 (by decide)]
  exact Nat.mul_mod_left _ _

lemma Aligned.add {x y : Word} (hx : Aligned x) (hy : Aligned y) : Aligned (x + y) := by
  rw [aligned_iff] at *
  rw [BitVec.toNat_add]
  omega

lemma roundUp_pos {p : Pmm} (h : (pmmAllocFrames p ((roundUp size).toNat / 4096)).1 ≠ 0) : 0 < (roundUp size).toNat := by
  rcases pmmAllocFrames_spec p ((roundUp size).toNat / 4096) with hnone | ⟨start, q, -, hcount, -⟩
  · rw [hnone] at h
    exact absurd rfl h
  · exact Nat.pos_of_ne_zero fun hzero => by simp [hzero] at hcount

end ranges

variable {s₁ : Vm} {cpu : Option ℕ} {kmalloc : Option Word} {phys : Word} {flags : BitVec 32} {code : Int}

lemma backRange_areas (h : backRange s cpu addr phys size flags = some s') : s'.areas = s.areas ∧ s'.task = s.task := by
  obtain ⟨_, -, h⟩ := bind_eq_some_iff.mp h
  cases h
  exact ⟨rfl, rfl⟩

variable {stop : Word}

lemma unmapPages_areas {vaddr : Word} (h : Word.forBelow (BitVec.ofNat 64 pageSize) stop (fun s vaddr => unmapPage s cpu vaddr)
    fuel vaddr s = some s') : s'.areas = s.areas ∧ s'.task = s.task := by
  apply Word.forBelow_invariant (Q := fun _ => True) ?_ ?_ trivial
    ⟨rfl, rfl⟩ h
  · exact fun _ _ _ => trivial
  · intro u vaddr _ _ hu
    rw [unmapPage]
    split
    · exact hu
    · exact hu

lemma backRange_newArea {pmm : Pmm}
    (hback : backRange { s.setArea new (newArea addr stop flags) with pmm } cpu addr phys size flags = some s₁) :
    s₁.areas new = newArea addr stop flags ∧ (∀ d, (s₁.areas new).child d = none) ∧ (s₁.areas new).parent = none ∧
    (s₁.areas new).prev = none := by
  have hnew : s₁.areas new = newArea addr stop flags := by
    rw [(backRange_areas hback).1]
    exact update_self new _ _
  refine ⟨hnew, fun d => ?_, ?_, ?_⟩
  · rw [hnew]
    cases d <;> rfl
  · rw [hnew]
    rfl
  · rw [hnew]
    rfl

lemma Linked.inserted {pmm : Pmm} {s₃ : Vm} (h : Linked s l) (hmem : new ∉ l)
    (hback : backRange { s.setArea new (newArea addr stop flags) with pmm } cpu addr phys size flags = some s₁)
    (hinsert : treeInsert (listInsert s₁ new) new = some s₂) (hfixup : vmaInsertFixup s₂ new = some s₃) :
    Linked { s₃ with task := { s₃.task with vmaCount := s₃.task.vmaCount + 1 } } (new :: l) ∧
    rangeOf s₃ new = (addr, stop, flags) ∧ ∀ a ∈ l, rangeOf s₃ a = rangeOf s a := by
  obtain ⟨hareas, htask⟩ := backRange_areas hback
  obtain ⟨hnew, hchild, hparent, hprev⟩ := backRange_newArea hback
  have hlinked := (h.setArea hmem (newArea addr stop flags)).congr hareas htask
  obtain ⟨hlinked₃, hrange⟩ := hlinked.insert hmem hchild hparent hprev hinsert hfixup
  refine ⟨⟨hlinked₃.listed, hlinked₃.nodup, hlinked₃.tree⟩, ?_, fun a ha => ?_⟩
  · rw [hrange, rangeOf, hnew]
    rfl
  · rw [hrange, rangeOf, hareas]
    exact rangeOf_setArea s hmem _ a ha

inductive MapEffect (s : Vm) (l : List Word) (kmalloc : Option Word) (addr size : Word) (flags : BitVec 32) (code : Int)
    (s' : Vm) : Prop
  | failed (hcode : code ≠ 0) (hlinked : Linked s' l) (hsame : ∀ a ∈ l, rangeOf s' a = rangeOf s a)
  | grown (hcode : code = 0) (curr : Word) (hcurr : curr ∈ l) (hexpand : canExpand addr flags (s.areas curr))
      (hlinked : Linked s' l) (hsame : ∀ a ∈ l, a ≠ curr → rangeOf s' a = rangeOf s a)
      (hrange : rangeOf s' curr = ((s.areas curr).vmStart, addr + roundUp size, flags))
  | added (hcode : code = 0) (new : Word) (hnew : new ∈ kmalloc)
      (hfree : ∀ a ∈ l, ¬ overlaps addr (roundUp size) (s.areas a)) (hlinked : Linked s' (new :: l))
      (hsame : ∀ a ∈ l, rangeOf s' a = rangeOf s a) (hrange : rangeOf s' new = (addr, addr + roundUp size, flags))

inductive UnmapEffect (s : Vm) (l : List Word) (addr size : Word) (code : Int) (s' : Vm) : Prop
  | refused (hcode : size = 0 ∨ code ≠ 0) (hsame : s' = s)
  | kept (vma : Word) (hvma : vma ∈ l) (hstart : (s.areas vma).vmStart ≤ addr) (hbelow : addr < (s.areas vma).vmEnd)
      (hshort : addr + size < (s.areas vma).vmEnd) (hlinked : Linked s' l) (hsame : ∀ a, rangeOf s' a = rangeOf s a)
  | trimmed (vma : Word) (hvma : vma ∈ l) (hstart : (s.areas vma).vmStart < addr) (hbelow : addr < (s.areas vma).vmEnd)
      (hend : (s.areas vma).vmEnd ≤ addr + size) (hlinked : Linked s' l)
      (hsame : ∀ a ∈ l, a ≠ vma → rangeOf s' a = rangeOf s a)
      (hrange : rangeOf s' vma = ((s.areas vma).vmStart, addr, (s.areas vma).vmFlags))
  | removed (vma : Word) (l' : List Word) (hvma : vma ∈ l) (hstart : (s.areas vma).vmStart = addr)
      (hbelow : addr < (s.areas vma).vmEnd) (hend : (s.areas vma).vmEnd ≤ addr + size) (hlinked : Linked s' l')
      (hperm : (vma :: l').Perm l) (hsame : ∀ a, rangeOf s' a = rangeOf s a)

lemma Linked.map (h : Linked s l) (hfresh : ∀ new ∈ kmalloc, new ∉ l)
    (hmap : vmaMap s cpu kmalloc addr size flags = some (code, s')) : MapEffect s l kmalloc addr size flags code s' := by
  cases vmaMap_cases hmap with
  | refused hcode => exact .failed hcode h fun _ _ => rfl
  | expandFailed => exact .failed (by decide) (h.congr rfl rfl) fun _ _ => rfl
  | @expanded curr phys pmm s₁ haligned hfind halloc hphys hback =>
    obtain ⟨hcurr, hexpand⟩ := findArea_some h.listed hfind
    obtain ⟨hend, hflags⟩ : (s.areas curr).vmEnd = addr ∧ (s.areas curr).vmFlags = flags := of_decide_eq_true hexpand
    obtain ⟨hareas, htask⟩ := backRange_areas hback
    refine .grown rfl curr hcurr hexpand ((h.congr hareas htask).setEnd _ _) (fun a _ hne => ?_) ?_
    · rw [rangeOf_setEnd, if_neg hne, rangeOf, hareas, rangeOf]
    · rw [rangeOf_setEnd, if_pos rfl, hareas, hend, hflags]
  | insertFailed hnew =>
    exact .failed (by decide) ((h.setArea (hfresh _ hnew) _).congr rfl rfl) (rangeOf_setArea s (hfresh _ hnew) _)
  | inserted _ hnew hfree _ _ hback hinsert hfixup =>
    obtain ⟨hlinked, hrange, hsame⟩ := h.inserted (hfresh _ hnew) hback hinsert hfixup
    exact .added rfl _ hnew (findArea_none h.listed hfree) hlinked hsame hrange

lemma Linked.unmap (h : Linked s l) (hunmap : vmaUnmap s cpu addr size = some (code, s')) :
    UnmapEffect s l addr size code s' := by
  cases vmaUnmap_cases hunmap with
  | refused hcode => exact .refused hcode rfl
  | @kept vma s₁ hfind hpages hshort =>
    obtain ⟨hareas, htask⟩ := unmapPages_areas hpages
    obtain ⟨hvma, hstart, hbelow⟩ := h.vmaFind hfind
    rw [hareas] at hshort
    exact .kept vma hvma hstart hbelow (BitVec.not_le.mp hshort) (h.congr hareas htask) fun a =>
      by rw [rangeOf, hareas, rangeOf]
  | @trimmed vma s₁ hfind hpages hstart hend =>
    obtain ⟨hareas, htask⟩ := unmapPages_areas hpages
    obtain ⟨hvma, -, hbelow⟩ := h.vmaFind hfind
    rw [hareas] at hstart hend
    refine .trimmed vma hvma hstart hbelow hend ((h.congr hareas htask).setEnd _ _) (fun a _ hne => ?_) ?_
    · rw [rangeOf_setEnd, if_neg hne, rangeOf, hareas, rangeOf]
    · rw [rangeOf_setEnd, if_pos rfl, hareas]
  | @removed vma s₁ s₂ hfind hpages hremove hwhole =>
    obtain ⟨hareas, htask⟩ := unmapPages_areas hpages
    obtain ⟨hvma, hstart, hbelow⟩ := h.vmaFind hfind
    obtain ⟨l', hl', hperm, hrange⟩ := (h.congr hareas htask).remove hvma hremove
    rw [hareas] at hwhole
    refine .removed vma l' hvma (BitVec.le_antisymm hstart hwhole.1) hbelow hwhole.2 ⟨hl'.listed, hl'.nodup, hl'.tree⟩ hperm
      fun a => ?_
    change rangeOf s₂ a = _
    rw [hrange, rangeOf, hareas, rangeOf]

lemma MapEffect.mem (h : MapEffect s l kmalloc addr size flags code s') (ha : a ∈ vmas s') :
    a ∈ l ∧ rangeOf s' a = rangeOf s a ∨
    (a ∈ l ∨ a ∈ kmalloc) ∧ (s'.areas a).vmEnd = addr + roundUp size ∧ (s'.areas a).vmFlags = flags := by
  cases h with
  | failed _ hlinked hsame =>
    rw [hlinked.vmas_eq] at ha
    exact .inl ⟨ha, hsame a ha⟩
  | grown _ curr _ _ hlinked hsame hrange =>
    rw [hlinked.vmas_eq] at ha
    rcases eq_or_ne a curr with rfl | heq
    · exact .inr ⟨.inl ha, congrArg (·.2.1) hrange, congrArg (·.2.2) hrange⟩
    · exact .inl ⟨ha, hsame a ha heq⟩
  | added _ new hnew _ hlinked hsame hrange =>
    rw [hlinked.vmas_eq] at ha
    rcases mem_cons.mp ha with rfl | ha
    · exact .inr ⟨.inr hnew, congrArg (·.2.1) hrange, congrArg (·.2.2) hrange⟩
    · exact .inl ⟨ha, hsame a ha⟩

lemma Linked.grows (h : Linked s l) (hfresh : ∀ new ∈ kmalloc, new ∉ l)
    (hmap : vmaMap s cpu kmalloc addr size flags = some (0, s')) : Grows s kmalloc addr size flags := by
  have hrun := vmaMap_run hmap
  refine ⟨hrun.aligned, hrun.granted, ?_⟩
  rw [h.vmas_eq]
  cases h.map hfresh hmap with
  | failed hcode => exact absurd rfl hcode
  | grown _ curr hcurr hexpand => exact .inl ⟨curr, hcurr, hexpand⟩
  | added _ new hnew hfree =>
    refine .inr ⟨?_, hfree⟩
    rw [mem_def.mp hnew]
    exact some_ne_none new

lemma map_keeps (h : Linked s l) (hr : Ranged s l) (hfresh : (Call.map cpu kmalloc addr size flags).Fresh s)
    (hfits : (Call.map cpu kmalloc addr size flags).Fits s) (hmap : vmaMap s cpu kmalloc addr size flags = some (code, s')) :
    ∃ l', Linked s' l' ∧ Ranged s' l' ∧ (EndsOn s l → EndsOn s' l') := by
  simp only [Call.Fresh, Call.Fits, h.vmas_eq] at hfresh hfits
  cases h.map hfresh hmap with
  | failed _ hlinked hsame => exact ⟨l, hlinked, hr.congr hsame, fun hends => hends.congr hsame⟩
  | grown hcode curr hcurr hexpand hlinked hsame hrange =>
    subst hcode
    obtain ⟨hend, -⟩ : (s.areas curr).vmEnd = addr ∧ (s.areas curr).vmFlags = flags := of_decide_eq_true hexpand
    obtain ⟨hbound, hfree⟩ := hfits (h.grows hfresh hmap)
    refine ⟨l, hlinked, hr.grow hcurr hend hsame hrange hbound hfree, fun hends => ?_⟩
    exact hends.resize hsame hrange (Aligned.add (vmaMap_run hmap).aligned (roundUp_aligned size))
  | added hcode new hnew hfree hlinked hsame hrange =>
    subst hcode
    obtain ⟨hbound, -⟩ := hfits (h.grows hfresh hmap)
    have hrun := vmaMap_run hmap
    have hstart : (s'.areas new).vmStart = addr := congrArg Prod.fst hrange
    have hend : (s'.areas new).vmEnd = addr + roundUp size := congrArg (fun x => x.2.1) hrange
    refine ⟨new :: l, hlinked, (hr.congr hsame).cons ?_ ?_ fun b hb => ?_, fun hends => ?_⟩
    · rw [hstart]
      exact hrun.aligned
    · have hpos := roundUp_pos hrun.granted
      have hsum := toNat_add_of_lt hbound
      rw [hstart, hend]
      exact lt_def.mpr (by omega)
    · rw [covered_congr (hsame b hb), covered, hstart, hend]
      exact disjoint_of_not_overlaps (hfree b hb)
    · refine forall_mem_cons.mpr ⟨?_, hends.congr hsame⟩
      rw [hend]
      exact Aligned.add hrun.aligned (roundUp_aligned size)

lemma unmap_keeps (h : Linked s l) (hr : Ranged s l) (hunmap : vmaUnmap s cpu addr size = some (code, s')) :
    ∃ l', Linked s' l' ∧ Ranged s' l' ∧ ((Call.unmap cpu addr size).Cuts s → EndsOn s l → EndsOn s' l') := by
  rw [Call.Cuts, h.vmas_eq]
  cases h.unmap hunmap with
  | refused _ hsame => exact ⟨l, hsame ▸ h, hsame ▸ hr, fun _ hends => hsame ▸ hends⟩
  | kept _ _ _ _ _ hlinked hsame =>
    exact ⟨l, hlinked, hr.congr fun a _ => hsame a, fun _ hends => hends.congr fun a _ => hsame a⟩
  | trimmed vma hvma hstart hbelow hend hlinked hsame hrange =>
    refine ⟨l, hlinked, hr.cut hvma hstart hbelow hsame hrange, fun hcut hends => ?_⟩
    exact hends.resize hsame hrange (hcut vma hvma hstart hbelow hend)
  | removed vma l' _ _ _ _ hlinked hperm hsame =>
    have hsub : l' ⊆ l := fun b hb => hperm.mem_iff.mp (mem_cons_of_mem vma hb)
    refine ⟨l', hlinked, (hr.mono hsub).congr fun a _ => hsame a, fun _ hends => ?_⟩
    exact EndsOn.congr (fun a ha => hends a (hsub ha)) fun a _ => hsame a

lemma step_keeps {c : Call} (h : Linked s l) (hr : Ranged s l) (hfresh : c.Fresh s) (hfits : c.Fits s)
    (hstep : step s c = some s') : ∃ l', Linked s' l' ∧ Ranged s' l' ∧ (c.Cuts s → EndsOn s l → EndsOn s' l') := by
  cases c with
  | map =>
    obtain ⟨⟨code, s₁⟩, hmap, rfl⟩ := map_eq_some_iff.mp hstep
    obtain ⟨l', hlinked, hranged, hends⟩ := map_keeps h hr hfresh hfits hmap
    exact ⟨l', hlinked, hranged, fun _ => hends⟩
  | unmap =>
    obtain ⟨⟨_, _⟩, hunmap, rfl⟩ := map_eq_some_iff.mp hstep
    exact unmap_keeps h hr hunmap

def heapOf (s : Vm) : Word × Word × Word := (s.task.heapStart, s.task.heapCurr, s.task.heapEnd)

lemma treeFree_heapOf : TreeFree heapOf :=
  ⟨fun _ _ d _ => by cases d <;> rfl, fun _ _ _ => rfl, fun _ _ _ => rfl, fun _ _ => rfl⟩

lemma listInsert_heapOf (s : Vm) (new : Word) : heapOf (listInsert s new) = heapOf s := by
  have hlink : ∀ (u : Vm) (l : Option Word), heapOf (u.onLink l fun u h => u.setPrev h (some new)) = heapOf u := by
    intro u l
    apply TreeFree.onLink heapOf
    exact fun _ _ => rfl
  exact hlink (s.setNext new s.task.vmaListHead) s.task.vmaListHead

lemma listRemove_heapOf (s : Vm) (vma : Word) : heapOf (listRemove s vma) = heapOf s := by
  have hbypass := bypass_view heapOf (fun _ _ _ => rfl) (fun _ _ _ => rfl) s vma
  rw [listRemove_eq]
  split
  · exact hbypass
  · exact hbypass

lemma vmaMap_heapOf (h : vmaMap s cpu kmalloc addr size flags = some (code, s')) : heapOf s' = heapOf s := by
  cases vmaMap_cases h with
  | refused => rfl
  | expandFailed => rfl
  | expanded _ _ _ _ hback =>
    have htask := (backRange_areas hback).2
    exact congrArg (fun t : TaskVm => (t.heapStart, t.heapCurr, t.heapEnd)) htask
  | insertFailed => rfl
  | inserted _ _ _ _ _ hback hinsert hfixup =>
    have htask := (backRange_areas hback).2
    refine (treeFree_heapOf.vmaInsertFixup hfixup).trans ((treeFree_heapOf.treeInsert hinsert).trans ?_)
    exact (listInsert_heapOf _ _).trans (congrArg (fun t : TaskVm => (t.heapStart, t.heapCurr, t.heapEnd)) htask)

lemma size_ne_zero_of_vmaMap (h : vmaMap s cpu kmalloc addr size flags = some (0, s')) : size ≠ 0 := by
  rintro rfl
  simp [vmaMap] at h

lemma vmaUnmap_heapOf (h : vmaUnmap s cpu addr size = some (code, s')) : heapOf s' = heapOf s := by
  have htask : ∀ {s₁}, Word.forBelow (BitVec.ofNat 64 pageSize) (addr + size) (fun s vaddr => unmapPage s cpu vaddr) walkFuel
      addr s = some s₁ → heapOf s₁ = heapOf s := by
    intro s₁ hpages
    exact congrArg (fun t : TaskVm => (t.heapStart, t.heapCurr, t.heapEnd)) (unmapPages_areas hpages).2
  cases vmaUnmap_cases h with
  | refused => rfl
  | kept _ hpages => exact htask hpages
  | trimmed _ hpages =>
    have hsame := htask hpages
    exact hsame
  | removed _ hpages hremove => exact (treeFree_heapOf.treeRemove hremove).trans ((listRemove_heapOf _ _).trans (htask hpages))

lemma linked_init {t : TaskVm} (h : s.task = vmaInitTask t) : Linked s [] :=
  ⟨congrArg TaskVm.vmaListHead h, nodup_nil, .leaf, ⟨congrArg TaskVm.vmaTreeRoot h, trivial⟩, List.Perm.refl _⟩

lemma separate_of_ranged (h : Linked s l) (hr : Ranged s l) : Separate s := by
  constructor
  · rw [h.vmas_eq]
    exact h.nodup.pairwise_of_forall_ne hr.disjoint
  · rw [h.vmas_eq]
    exact hr.start
  · rw [h.vmas_eq]
    exact hr.nonempty

theorem ranges_separate {t : TaskVm} {calls : List Call} (hinit : s.task = vmaInitTask t)
    (hfresh : Runs.Guarded step (fun s c => c.Fresh s) s calls) (hfits : Runs.Guarded step (fun s c => c.Fits s) s calls) :
    Runs.Always step Separate s calls ∧
    (Runs.Guarded step (fun s c => c.Cuts s) s calls → Runs.Always step EndsAligned s calls) := by
  have hlinked : Linked s [] := linked_init hinit
  have hranged : Ranged s [] := by constructor <;> simp
  constructor
  · have hrun : Runs.Always step (fun s => ∃ l, Linked s l ∧ Ranged s l) s calls := by
      refine Runs.invariant ?_ ⟨[], hlinked, hranged⟩ (hfresh.and hfits)
      rintro u c u' ⟨l, hl, hr⟩ ⟨hc, hc'⟩ hstep
      obtain ⟨l', hl', hr', -⟩ := step_keeps hl hr hc hc' hstep
      exact ⟨l', hl', hr'⟩
    exact hrun.mono fun u ⟨l, hl, hr⟩ => separate_of_ranged hl hr
  · intro hcuts
    have hrun : Runs.Always step (fun s => ∃ l, Linked s l ∧ Ranged s l ∧ EndsOn s l) s calls := by
      refine Runs.invariant ?_ ⟨[], hlinked, hranged, forall_mem_nil _⟩ ((hfresh.and hfits).and hcuts)
      rintro u c u' ⟨l, hl, hr, hends⟩ ⟨⟨hc, hc'⟩, hcut⟩ hstep
      obtain ⟨l', hl', hr', hends'⟩ := step_keeps hl hr hc hc' hstep
      exact ⟨l', hl', hr', hends' hcut hends⟩
    refine hrun.mono fun u ⟨l, hl, hr, hends⟩ => ?_
    rw [EndsAligned, hl.vmas_eq]
    exact hends

def blankVm : Vm where
  areas := fun _ => newArea 0 0 0
  task := vmaInitTask ⟨none, none, 0, frameAddr 2, 0, 0, 0⟩
  mem := fun _ => 0
  pmm := ⟨0x1000, fun i => if i < 32 then 0xFF else 0, 64, fun _ => 0⟩

def ranges (s : Vm) : List (Word × Word × BitVec 32) := (vmas s).map (rangeOf s)

theorem ranges_separate_grown : ∃ s', Runs.run step blankVm [.map none (some 0x8000) 0x1000 0x1800 2,
      .map none none 0x3000 0x1000 2, .unmap none 0x2000 0x2000, .map none (some 0x9000) 0x2000 0x1000 1] = some s' ∧
    ranges s' = [(0x2000, 0x3000, 1), (0x1000, 0x2000, 2)] ∧ Separate s' ∧ EndsAligned s' := by
  refine Runs.exists_of_check (ranges · = [(0x2000, 0x3000, 1), (0x1000, 0x2000, 2)]) (by decide +kernel) fun s' hrun hs' => ?_
  have hfresh : Runs.Guarded step (fun s c => c.Fresh s) blankVm [.map none (some 0x8000) 0x1000 0x1800 2,
      .map none none 0x3000 0x1000 2, .unmap none 0x2000 0x2000, .map none (some 0x9000) 0x2000 0x1000 1] := by
    decide +kernel
  obtain ⟨hseparate, hends⟩ := ranges_separate rfl hfresh (by decide +kernel)
  exact ⟨hs', hseparate.last hrun, (hends (by decide +kernel)).last hrun⟩

lemma Separate.ranges_disjoint (h : Separate s) : (ranges s).Pairwise fun r r' =>
    Disjoint (Set.Ico r.1.toNat r.2.1.toNat) (Set.Ico r'.1.toNat r'.2.1.toNat) :=
  pairwise_map.mpr h.disjoint

lemma Separate.ranges_nonempty (h : Separate s) : ∀ r ∈ ranges s, r.1 < r.2.1 := List.forall_mem_map.mpr h.nonempty

lemma EndsAligned.ranges (h : EndsAligned s) : ∀ r ∈ ranges s, Aligned r.2.1 := List.forall_mem_map.mpr h

theorem ranges_not_separate :
    (∃ s', Runs.run step blankVm [.map none (some 0x8000) 0x1000 0x1000 2, .map none (some 0x9000) 0x2000 0x1000 1,
      .map none none 0x2000 0x1000 2] = some s' ∧ ¬ Separate s') ∧
    (∃ s', Runs.run step blankVm [.map none (some 0x8000) 0xFFFFFFFFFFFFF000 0x1000 2] = some s' ∧ ¬ Separate s') ∧
    ∃ s', Runs.run step blankVm [.map none (some 0x8000) 0x1000 0x1000 2, .unmap none 0x1800 0x800] = some s' ∧
      ¬ EndsAligned s' := by
  refine ⟨?_, ?_, ?_⟩
  · refine Runs.exists_of_check (ranges · = [(0x2000, 0x3000, 1), (0x1000, 0x3000, 2)]) (by decide +kernel)
      fun s' hrun hs' hseparate => ?_
    have hpair := hseparate.ranges_disjoint
    rw [hs', pairwise_pair] at hpair
    have hleft : 0x2000 ∈ Set.Ico 0x2000 0x3000 := by simp
    have hright : 0x2000 ∈ Set.Ico 0x1000 0x3000 := by simp
    exact Set.disjoint_left.mp hpair hleft hright
  · refine Runs.exists_of_check (ranges · = [(0xFFFFFFFFFFFFF000, 0, 2)]) (by decide +kernel) fun s' hrun hs' hseparate => ?_
    have hempty := hseparate.ranges_nonempty
    rw [hs', forall_mem_singleton] at hempty
    exact absurd hempty (by decide)
  · refine Runs.exists_of_check (ranges · = [(0x1000, 0x1800, 2)]) (by decide +kernel) fun s' hrun hs' hends => ?_
    have hcut := hends.ranges
    rw [hs', forall_mem_singleton] at hcut
    exact absurd hcut (by decide)

end KernelSmp.Memory.VmaRanges
