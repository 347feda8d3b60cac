import KernelSmp.Memory.VmaRanges

/-! The list and the tree of a task's areas hold the same descriptors along runs of `vma_map` and
`vma_unmap`, and the tree is in the order of the start addresses. -/

namespace KernelSmp.Memory.VmaRanges

open Base LinkedList LinkedTree Function List Option

structure InStep (s : Vm) : Prop where
  tree : ∃ t, IsTree (treeOf s) t ∧ t.inorder.Perm (vmas s) ∧
    t.inorder.Pairwise fun a b => (s.areas a).vmStart ≤ (s.areas b).vmStart
  nodup : (vmas s).Nodup
  list : DList (nextOf s) (prevOf s) s.task.vmaListHead (vmas s)
  count : s.task.vmaCount = (vmas s).length

def StartsBefore (s : Vm) (a b : Word) : Prop := (s.areas a).vmStart ≤ (s.areas b).vmStart

instance (s : Vm) : IsTrans Word (StartsBefore s) := ⟨fun _ _ _ hab hbc => BitVec.le_trans hab hbc⟩

def InOrder (s : Vm) : Prop := ∀ t, IsTree (treeOf s) t → t.inorder.Pairwise (StartsBefore s)

variable {s s' : Vm} {a new : Word} {t : Shape Word}

lemma pairwise_congr (h : t.inorder.Pairwise (StartsBefore s)) (hrange : ∀ a ∈ t.inorder, rangeOf s' a = rangeOf s a) :
    t.inorder.Pairwise (StartsBefore s') := by
  refine h.imp_of_mem fun {a b} ha hb hab => ?_
  rwa [StartsBefore, vmStart_congr (hrange a ha), vmStart_congr (hrange b hb)]

lemma InOrder.of_tree (ht : IsTree (treeOf s) t) (h : t.inorder.Pairwise (StartsBefore s)) : InOrder s := by
  intro t' ht'
  rwa [ht'.unique ht]

lemma sideOf_agrees (s : Vm) (new node : Word) :
    match sideOf s.areas new node with
    | .left => StartsBefore s new node
    | .right => StartsBefore s node new := by
  by_cases hlt : (s.areas new).vmStart < (s.areas node).vmStart
  · simp only [sideOf, if_pos hlt]
    exact BitVec.le_of_lt hlt
  · simp only [sideOf, if_neg hlt]
    exact BitVec.not_lt.mp hlt

lemma treeInsert_inOrder (h : IsTree (treeOf s) t) (hsorted : t.inorder.Pairwise (StartsBefore s)) (hnodup : t.inorder.Nodup)
    (hnew : new ∉ t.inorder) (hchild : ∀ d, (s.areas new).child d = none) (hparent : (s.areas new).parent = none)
    (hinsert : treeInsert s new = some s') : ∃ t', IsTree (treeOf s') t' ∧ t'.inorder.Pairwise (StartsBefore s) := by
  obtain ⟨_, htree, rfl, hsides⟩ := treeInsert_plug h hnodup hnew hchild hparent hinsert
  refine ⟨_, htree, sorted_fill hsorted fun f hf => ?_⟩
  rw [hsides f hf]
  exact sideOf_agrees s new f.node

lemma treeRemove_inOrder {vma : Word} (h : IsTree (treeOf s) t) (hsorted : t.inorder.Pairwise (StartsBefore s))
    (hnodup : t.inorder.Nodup) (hvma : vma ∈ t.inorder) (hremove : treeRemove s vma = some s') :
    ∃ t', IsTree (treeOf s') t' ∧ t'.inorder.Pairwise (StartsBefore s) := by
  obtain ⟨_, sub, rfl⟩ := exists_plug hvma
  have hrem : remove walkFuel (treeOf s) vma = some (treeOf s') := by
    rw [← treeOf_treeRemove, hremove]
    rfl
  refine ⟨_, isTree_remove h hnodup hrem, hsorted.sublist ?_⟩
  rw [inorder_plug, inorder_plug, inorder_hang, Shape.inorder]
  have hmiddle : ((sub .left).inorder ++ (sub .right).inorder).Sublist ((sub .left).inorder ++ vma :: (sub .right).inorder) :=
    (sublist_cons_self vma _).append_left _
  exact (hmiddle.append_left _).append_right _

variable {l : List Word} {cpu : Option ℕ} {kmalloc : Option Word} {addr size : Word} {flags : BitVec 32} {code : Int}

lemma treeFree_count : TreeFree fun s => s.task.vmaCount :=
  ⟨fun _ _ d _ => by cases d <;> rfl, fun _ _ _ => rfl, fun _ _ _ => rfl, fun _ _ => rfl⟩

lemma listInsert_count : (listInsert s new).task.vmaCount = s.task.vmaCount := by
  have hlink := TreeFree.onLink (f := fun s h => Vm.setPrev s h (some new)) (fun s => s.task.vmaCount) (fun _ _ => rfl)
    s.task.vmaListHead (s := s.setNext new s.task.vmaListHead)
  exact hlink

lemma listRemove_count (s : Vm) (vma : Word) : (listRemove s vma).task.vmaCount = s.task.vmaCount := by
  have hbypass : (bypass s vma).task.vmaCount = s.task.vmaCount :=
    bypass_view (fun s => s.task.vmaCount) (fun _ _ _ => rfl) (fun _ _ _ => rfl) s vma
  rw [listRemove_eq]
  split
  · exact hbypass
  · exact hbypass

lemma InOrder.congr (h : InOrder s) (htree : treeOf s' = treeOf s) (hstart : ∀ a, (s'.areas a).vmStart = (s.areas a).vmStart) :
    InOrder s' := by
  intro t ht
  rw [htree] at ht
  refine (h t ht).imp fun {a b} hab => ?_
  rwa [StartsBefore, hstart, hstart]

lemma InOrder.setArea (h : InOrder s) (hl : Linked s l) (hnew : new ∉ l) (area : VmaArea) : InOrder (s.setArea new area) := by
  obtain ⟨t, ht, hperm⟩ := hl.tree
  have hother : ∀ a ∈ t.inorder, (s.setArea new area).areas a = s.areas a := by
    intro a ha
    apply update_of_ne
    rintro rfl
    exact hnew (hperm.mem_iff.mp ha)
  have ht' : IsTree (treeOf (s.setArea new area)) t := by
    refine ⟨ht.root, ht.holds.congr ?_ ?_⟩
    · exact fun a ha => congrArg VmaArea.child (hother a ha)
    · exact fun a ha => congrArg VmaArea.parent (hother a ha)
  apply InOrder.of_tree ht'
  refine pairwise_congr (h t ht) fun a ha => ?_
  rw [rangeOf, hother a ha, rangeOf]

lemma start_setEnd (s : Vm) (a e b : Word) : ((s.setEnd a e).areas b).vmStart = (s.areas b).vmStart := by
  by_cases hb : b = a
  · rw [hb, areas_setEnd]
  · rw [areas_setEnd_of_ne hb]

lemma InOrder.insert {s₂ s₃ : Vm} (h : InOrder s) (hl : Linked s l) (hnew : new ∉ l)
    (hchild : ∀ d, (s.areas new).child d = none) (hparent : (s.areas new).parent = none)
    (hinsert : treeInsert (listInsert s new) new = some s₂) (hfixup : vmaInsertFixup s₂ new = some s₃) : InOrder s₃ := by
  obtain ⟨t, ht, hperm⟩ := hl.tree
  have hrange : rangeOf s₃ = rangeOf (listInsert s new) :=
    congrArg Prod.fst ((treeFree_listOf.vmaInsertFixup hfixup).trans (treeFree_listOf.treeInsert hinsert))
  have ht₁ : IsTree (treeOf (listInsert s new)) t := by
    rwa [listInsert_treeOf]
  have hsorted : t.inorder.Pairwise (StartsBefore (listInsert s new)) :=
    pairwise_congr (h t ht) fun a _ => congrFun listInsert_rangeOf a
  have hnodup : t.inorder.Nodup := hperm.nodup_iff.mpr hl.nodup
  have hfresh : new ∉ t.inorder := fun hmem => hnew (hperm.mem_iff.mp hmem)
  have hchild₁ : ∀ d, ((listInsert s new).areas new).child d = none := by
    intro d
    rw [← treeOf_child, listInsert_treeOf]
    exact hchild d
  have hparent₁ : ((listInsert s new).areas new).parent = none := by
    rwa [← treeOf_parent, listInsert_treeOf]
  obtain ⟨t₂, ht₂, hsorted₂⟩ := treeInsert_inOrder ht₁ hsorted hnodup hfresh hchild₁ hparent₁ hinsert
  obtain ⟨_, ht₂', hperm₂⟩ := treeInsert_tree ht₁ hnodup hfresh hchild₁ hparent₁ hinsert
  rw [ht₂'.unique ht₂] at hperm₂
  have hnodup₂ : t₂.inorder.Nodup := hperm₂.nodup_iff.mpr (nodup_cons.mpr ⟨hfresh, hnodup⟩)
  obtain ⟨_, ht₃, heq⟩ := vmaInsertFixup_tree ht₂ hnodup₂ (hperm₂.mem_iff.mpr mem_cons_self) hfixup
  apply InOrder.of_tree ht₃
  rw [← heq] at hsorted₂
  exact pairwise_congr hsorted₂ fun a _ => congrFun hrange a

lemma InOrder.remove {s₂ : Vm} (h : InOrder s) (hl : Linked s l) (ha : a ∈ l)
    (hremove : treeRemove (listRemove s a) a = some s₂) : InOrder s₂ := by
  obtain ⟨t, ht, hperm⟩ := hl.tree
  have hrange : rangeOf s₂ = rangeOf (listRemove s a) := congrArg Prod.fst (treeFree_listOf.treeRemove hremove)
  have ht₁ : IsTree (treeOf (listRemove s a)) t := by
    rwa [listRemove_treeOf]
  have hsorted : t.inorder.Pairwise (StartsBefore (listRemove s a)) :=
    pairwise_congr (h t ht) fun b _ => congrFun (listRemove_rangeOf s a) b
  obtain ⟨_, ht₂, hsorted₂⟩ := treeRemove_inOrder ht₁ hsorted (hperm.nodup_iff.mpr hl.nodup) (hperm.mem_iff.mpr ha) hremove
  exact InOrder.of_tree ht₂ (pairwise_congr hsorted₂ fun b _ => congrFun hrange b)

structure Matches (s : Vm) (l : List Word) : Prop where
  linked : Linked s l
  inOrder : InOrder s
  count : s.task.vmaCount = l.length

lemma Matches.congr (h : Matches s l) (hareas : s'.areas = s.areas) (htask : s'.task = s.task) : Matches s' l := by
  refine ⟨h.linked.congr hareas htask, h.inOrder.congr ?_ fun a => by rw [hareas], htask ▸ h.count⟩
  rw [treeOf, hareas, htask]
  rfl

lemma Matches.setEnd (h : Matches s l) (a e : Word) : Matches (s.setEnd a e) l :=
  ⟨h.linked.setEnd a e, h.inOrder.congr treeOf_setEnd (start_setEnd s a e), h.count⟩

lemma Matches.setArea (h : Matches s l) (hnew : new ∉ l) (area : VmaArea) : Matches (s.setArea new area) l :=
  ⟨h.linked.setArea hnew area, h.inOrder.setArea h.linked hnew area, h.count⟩

lemma map_matches (h : Matches s l) (hfresh : (Call.map cpu kmalloc addr size flags).Fresh s)
    (hmap : vmaMap s cpu kmalloc addr size flags = some (code, s')) : ∃ l', Matches s' l' := by
  simp only [Call.Fresh, h.linked.vmas_eq] at hfresh
  cases vmaMap_cases hmap with
  | refused => exact ⟨l, h⟩
  | expandFailed => exact ⟨l, h.congr rfl rfl⟩
  | expanded _ _ _ _ hback =>
    obtain ⟨hareas, htask⟩ := backRange_areas hback
    exact ⟨l, (h.congr hareas htask).setEnd _ _⟩
  | insertFailed hnew => exact ⟨l, (h.setArea (hfresh _ hnew) _).congr rfl rfl⟩
  | @inserted new phys pmm s₁ s₂ s₃ haligned hnew hfree halloc hphys hback hinsert hfixup =>
    have hmem := hfresh new hnew
    obtain ⟨hareas, htask⟩ := backRange_areas hback
    have h₁ : Matches s₁ l := (h.setArea hmem (newArea addr (addr + roundUp size) flags)).congr hareas htask
    obtain ⟨-, hchild, hparent, hprev⟩ := backRange_newArea hback
    obtain ⟨hlinked, -⟩ := h₁.linked.insert hmem hchild hparent hprev hinsert hfixup
    have horder := h₁.inOrder.insert h₁.linked hmem hchild hparent hinsert hfixup
    have hcount : s₃.task.vmaCount = l.length := by
      rw [treeFree_count.vmaInsertFixup hfixup, treeFree_count.treeInsert hinsert, listInsert_count]
      exact h₁.count
    refine ⟨new :: l, ⟨hlinked.listed, hlinked.nodup, hlinked.tree⟩, horder.congr rfl fun _ => rfl, ?_⟩
    exact congrArg (· + 1) hcount

lemma unmap_matches (h : Matches s l) (hunmap : vmaUnmap s cpu addr size = some (code, s')) : ∃ l', Matches s' l' := by
  cases vmaUnmap_cases hunmap with
  | refused => exact ⟨l, h⟩
  | kept _ hpages =>
    obtain ⟨hareas, htask⟩ := unmapPages_areas hpages
    exact ⟨l, h.congr hareas htask⟩
  | trimmed _ hpages =>
    obtain ⟨hareas, htask⟩ := unmapPages_areas hpages
    exact ⟨l, (h.congr hareas htask).setEnd _ _⟩
  | @removed vma s₁ s₂ hfind hpages hremove =>
    obtain ⟨hareas, htask⟩ := unmapPages_areas hpages
    obtain ⟨hvma, -⟩ := h.linked.vmaFind hfind
    have h₁ : Matches s₁ l := h.congr hareas htask
    obtain ⟨l', hlinked, hperm, -⟩ := h₁.linked.remove hvma hremove
    have horder := h₁.inOrder.remove h₁.linked hvma hremove
    have hcount : s₂.task.vmaCount = l.length := by
      rw [treeFree_count.treeRemove hremove, listRemove_count]
      exact h₁.count
    refine ⟨l', ⟨hlinked.listed, hlinked.nodup, hlinked.tree⟩, horder.congr rfl fun _ => rfl, ?_⟩
    rw [hcount, ← hperm.length_eq, length_cons, Nat.add_sub_cancel]

lemma step_matches {c : Call} (h : Matches s l) (hfresh : c.Fresh s) (hstep : step s c = some s') : ∃ l', Matches s' l' := by
  cases c with
  | map =>
    obtain ⟨⟨code, s₁⟩, hmap, rfl⟩ := map_eq_some_iff.mp hstep
    exact map_matches h hfresh hmap
  | unmap =>
    obtain ⟨⟨_, _⟩, hunmap, rfl⟩ := map_eq_some_iff.mp hstep
    exact unmap_matches h hunmap

lemma Matches.inStep (h : Matches s l) : InStep s := by
  have hvmas := h.linked.vmas_eq
  obtain ⟨t, ht, hperm⟩ := h.linked.tree
  constructor
  · exact ⟨t, ht, hvmas.symm ▸ hperm, h.inOrder t ht⟩
  · exact hvmas.symm ▸ h.linked.nodup
  · exact hvmas.symm ▸ h.linked.listed
  · exact hvmas.symm ▸ h.count

lemma matches_init {t : TaskVm} (hinit : s.task = vmaInitTask t) : Matches s [] := by
  refine ⟨linked_init hinit, ?_, congrArg TaskVm.vmaCount hinit⟩
  obtain ⟨_, hu, hperm⟩ := (linked_init hinit).tree
  apply InOrder.of_tree hu
  rw [hperm.eq_nil]
  exact List.Pairwise.nil

def threeAreas : List Call :=
  [.map none (some 0x8000) 0x5000 0x1000 2, .map none (some 0x9000) 0x1000 0x1000 2, .map none (some 0xA000) 0x9000 0x1000 2,
    .map none none 0x2000 0x1000 2, .unmap none 0x5000 0x1000]

end KernelSmp.Memory.VmaRanges
