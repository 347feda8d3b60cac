import KernelSmp.Base.LinkedList
import KernelSmp.Memory.VmaPages

/-! The descriptors of a task hang in a doubly linked list and in a binary tree: what the operations of
`vma.c` do to each of the two. -/

namespace KernelSmp.Memory

open Base Function List Option

def treeOf (s : Vm) : LinkedTree.Store Word := ⟨s.task.vmaTreeRoot, fun a => (s.areas a).child, fun a => (s.areas a).parent⟩

def nextOf (s : Vm) (a : Word) : Option Word := (s.areas a).next
def prevOf (s : Vm) (a : Word) : Option Word := (s.areas a).prev
def rangeOf (s : Vm) (a : Word) : Word × Word × BitVec 32 := ((s.areas a).vmStart, (s.areas a).vmEnd, (s.areas a).vmFlags)

def listOf (s : Vm) : (Word → Word × Word × BitVec 32) × (Word → Option Word) × (Word → Option Word) × Option Word :=
  (rangeOf s, nextOf s, prevOf s, s.task.vmaListHead)

lemma field_setArea {β : Type*} (f : VmaArea → β) (s : Vm) (a : Word) (area : VmaArea) :
    (fun b => f ((s.setArea a area).areas b)) = update (fun b => f (s.areas b)) a (f area) := by
  funext b
  rcases eq_or_ne b a with rfl | hb
  · simp [Vm.setArea]
  · simp [Vm.setArea, update_of_ne hb]

lemma field_setArea_same {β : Type*} (f : VmaArea → β) {s : Vm} {a : Word} {area : VmaArea} (h : f area = f (s.areas a)) :
    (fun b => f ((s.setArea a area).areas b)) = fun b => f (s.areas b) := by
  rw [field_setArea, h]
  exact update_eq_self a _

section tree

open LinkedTree

variable {s s' : Vm} {a new : Word} {d : Side} {link p : Option Word} {t : Shape Word}

lemma treeOf_child : (treeOf s).child a = (s.areas a).child := rfl
lemma child_left (area : VmaArea) : area.child .left = area.left := rfl
lemma child_right (area : VmaArea) : area.child .right = area.right := rfl
lemma treeOf_parent : (treeOf s).parent a = (s.areas a).parent := rfl

lemma treeOf_setArea {area : VmaArea} : treeOf (s.setArea a area) =
    ⟨s.task.vmaTreeRoot, update (treeOf s).child a area.child, update (treeOf s).parent a area.parent⟩ := by
  rw [treeOf, field_setArea, field_setArea]
  rfl

lemma treeOf_setChild : treeOf (s.setChild a d link) = (treeOf s).setChild a d link := by
  have hparent : update (treeOf s).parent a (s.areas a).parent = (treeOf s).parent := update_eq_self a _
  cases d with
  | left =>
    have hchild : ({ s.areas a with left := link } : VmaArea).child = update (s.areas a).child .left link := by
      funext e
      cases e <;> simp [VmaArea.child]
    rw [Vm.setChild, treeOf_setArea, hchild, hparent]
    rfl
  | right =>
    have hchild : ({ s.areas a with right := link } : VmaArea).child = update (s.areas a).child .right link := by
      funext e
      cases e <;> simp [VmaArea.child]
    rw [Vm.setChild, treeOf_setArea, hchild, hparent]
    rfl

lemma treeOf_setParent : treeOf (s.setParent a p) = (treeOf s).setParent a p := by
  have hchild : update (treeOf s).child a (s.areas a).child = (treeOf s).child := update_eq_self a _
  rw [Vm.setParent, treeOf_setArea, show ({ s.areas a with parent := p } : VmaArea).child = (s.areas a).child from rfl, hchild]
  rfl

lemma treeOf_sameLinks {area : VmaArea} (hchild : area.child = (s.areas a).child) (hparent : area.parent = (s.areas a).parent) :
    treeOf (s.setArea a area) = treeOf s := by
  rw [treeOf, field_setArea_same VmaArea.child hchild, field_setArea_same VmaArea.parent hparent]
  rfl

lemma treeOf_setColor {c : Color} : treeOf (s.setColor a c) = treeOf s := treeOf_sameLinks rfl rfl
lemma treeOf_setNext : treeOf (s.setNext a link) = treeOf s := treeOf_sameLinks rfl rfl
lemma treeOf_setPrev : treeOf (s.setPrev a link) = treeOf s := treeOf_sameLinks rfl rfl
lemma treeOf_setEnd {e : Word} : treeOf (s.setEnd a e) = treeOf s := treeOf_sameLinks rfl rfl

lemma treeOf_onLink_setParent {q : Vm → Option Word} :
    treeOf (s.onLink link fun s a => s.setParent a (q s)) = (treeOf s).setParentOf link (q s) := by
  cases link with
  | none => rfl
  | some => exact treeOf_setParent

lemma treeOf_replaceAt : treeOf (replaceAt d s a link) = LinkedTree.replaceAt d (treeOf s) a link := by
  rw [replaceAt, LinkedTree.replaceAt, treeOf_parent]
  cases (s.areas a).parent with
  | none => rfl
  | some =>
    dsimp only
    rw [treeOf_child]
    split
    · exact treeOf_setChild
    · exact treeOf_setChild

lemma treeOf_rotate : (rotate d s a).map treeOf = LinkedTree.rotate d (treeOf s) a := by
  rw [rotate, LinkedTree.rotate, treeOf_child]
  cases (s.areas a).child d.other with
  | none => rfl
  | some =>
    simp only [bind_eq_bind, bind_some, Option.pure_def, map_some, treeOf_setParent, treeOf_setChild,
      treeOf_replaceAt, treeOf_onLink_setParent, ← treeOf_parent, ← treeOf_child]

lemma treeOf_rotateSide : (rotateSide d s a).map treeOf = LinkedTree.rotate d (treeOf s) a := by
  cases d <;> exact treeOf_rotate

lemma rotateSide_tree {x : Word} (h : IsTree (treeOf s) t) (hnodup : t.inorder.Nodup) (hx : x ∈ t.inorder)
    (hrot : rotateSide d s x = some s') : ∃ t', IsTree (treeOf s') t' ∧ t'.inorder = t.inorder := by
  apply rotate_inorder h hnodup hx
  rw [← treeOf_rotateSide, hrot]
  rfl

variable {z : Word}

lemma fixupSide_tree {p g z' : Word} (h : IsTree (treeOf s) t) (hnodup : t.inorder.Nodup) (hz : z ∈ t.inorder)
    (hp : p ∈ t.inorder) (hg : g ∈ t.inorder) (hfix : fixupSide d s z p g = some (z', s')) :
    z' ∈ t.inorder ∧ ∃ t', IsTree (treeOf s') t' ∧ t'.inorder = t.inorder := by
  simp only [fixupSide] at hfix
  split at hfix
  · cases hfix
    refine ⟨hg, t, ?_, rfl⟩
    rwa [treeOf_setColor, TreeFree.onLink treeOf (fun _ _ => treeOf_setColor), treeOf_setColor]
  · simp only [bind_eq_bind, bind_eq_some_iff, Option.pure_def, Option.some.injEq, Prod.exists] at hfix
    obtain ⟨z₁, s₁, hstr, p₁, hp₁, g₁, hg₁, _, hrot, heq⟩ := hfix
    obtain ⟨rfl, rfl⟩ := Prod.mk.inj heq
    obtain ⟨hz₁, t₁, h₁, heq₁⟩ : z₁ ∈ t.inorder ∧ ∃ t₁, IsTree (treeOf s₁) t₁ ∧ t₁.inorder = t.inorder := by
      rw [straighten] at hstr
      split at hstr
      · obtain ⟨_, hout, heq⟩ := map_eq_some_iff.mp hstr
        obtain ⟨rfl, rfl⟩ := Prod.mk.inj heq
        exact ⟨hp, rotateSide_tree h hnodup hp hout⟩
      · cases hstr
        exact ⟨hz, t, h, rfl⟩
    rw [← heq₁] at hz₁ hnodup ⊢
    have hp₁mem := parent_mem h₁ hz₁ hp₁
    have h₂ : IsTree (treeOf ((s₁.setColor p₁ .black).setColor g₁ .red)) t₁ := by
      rwa [treeOf_setColor, treeOf_setColor]
    rw [← treeOf_parent, treeOf_setColor] at hg₁
    exact ⟨hz₁, rotateSide_tree h₂ hnodup (parent_mem h₁ hp₁mem hg₁) hrot⟩

lemma fixupLoop_tree {fuel : ℕ} (h : IsTree (treeOf s) t) (hnodup : t.inorder.Nodup) (hz : z ∈ t.inorder)
    (hfix : fixupLoop fuel s z = some s') : ∃ t', IsTree (treeOf s') t' ∧ t'.inorder = t.inorder := by
  induction fuel generalizing s z t with
  | zero => cases hfix
  | succ fuel ih =>
    rw [fixupLoop] at hfix
    split at hfix
    · cases hfix
      exact ⟨t, h, rfl⟩
    · rename_i p hp
      split at hfix
      · simp only [bind_eq_bind, bind_eq_some_iff, Prod.exists] at hfix
        obtain ⟨_, hg, _, _, hside, hloop⟩ := hfix
        have hpmem := parent_mem h hz hp
        obtain ⟨hz', _, h₁, heq₁⟩ := fixupSide_tree h hnodup hz hpmem (parent_mem h hpmem hg) hside
        rw [← heq₁] at hz' hnodup ⊢
        exact ih h₁ hnodup hz' hloop
      · cases hfix
        exact ⟨t, h, rfl⟩

lemma vmaInsertFixup_tree (h : IsTree (treeOf s) t) (hnodup : t.inorder.Nodup) (hz : z ∈ t.inorder)
    (hfix : vmaInsertFixup s z = some s') : ∃ t', IsTree (treeOf s') t' ∧ t'.inorder = t.inorder := by
  simp only [vmaInsertFixup, bind_eq_bind, bind_eq_some_iff, Option.pure_def, Option.some.injEq] at hfix
  obtain ⟨_, hloop, _, -, rfl⟩ := hfix
  rw [treeOf_setColor]
  exact fixupLoop_tree h hnodup hz hloop

def sideOf (areas : Word → VmaArea) (new node : Word) : Side :=
  if (areas new).vmStart < (areas node).vmStart then .left else .right

lemma treeOf_insertFrom (fuel : ℕ) {node : Word} :
    (insertFrom new fuel s node).map treeOf = descend (sideOf s.areas new) new fuel (treeOf s) node := by
  induction fuel generalizing node with
  | zero => rfl
  | succ fuel ih =>
    rw [insertFrom, descend, treeOf_child, ← sideOf]
    cases (s.areas node).child (sideOf s.areas new node) with
    | none =>
      dsimp only
      rw [map_some, treeOf_setParent, treeOf_setChild]
    | some => exact ih

lemma treeInsert_plug (h : IsTree (treeOf s) t) (hnodup : t.inorder.Nodup) (hnew : new ∉ t.inorder)
    (hchild : ∀ d, (s.areas new).child d = none) (hparent : (s.areas new).parent = none)
    (hinsert : treeInsert s new = some s') :
    ∃ c, IsTree (treeOf s') (plug c (.node new fun _ => .leaf)) ∧ plug c .leaf = t ∧ ∀ f ∈ c, f.side =
      sideOf s.areas new f.node := by
  rw [treeInsert] at hinsert
  have hroot : s.task.vmaTreeRoot = t.top := h.root
  cases hr : s.task.vmaTreeRoot with
  | none =>
    rw [hr] at hinsert hroot
    cases hinsert
    cases t with
    | leaf => exact ⟨[], ⟨rfl, hparent, hchild, fun _ => trivial⟩, rfl, forall_mem_nil _⟩
    | node => cases hroot
  | some r =>
    rw [hr] at hinsert hroot
    have hdescend : descend (sideOf s.areas new) new walkFuel (treeOf s) r = some (treeOf s') := by
      rw [← treeOf_insertFrom, show insertFrom new walkFuel s r = some s' from hinsert]
      rfl
    obtain ⟨c, htree, hleaf, hsides⟩ := isTree_descend (c := []) walkFuel h hnodup hnew hchild hroot.symm hdescend
    rw [append_nil] at htree hleaf
    exact ⟨c, htree, hleaf, hsides⟩

lemma treeInsert_tree (h : IsTree (treeOf s) t) (hnodup : t.inorder.Nodup) (hnew : new ∉ t.inorder)
    (hchild : ∀ d, (s.areas new).child d = none) (hparent : (s.areas new).parent = none)
    (hinsert : treeInsert s new = some s') : ∃ t', IsTree (treeOf s') t' ∧ t'.inorder.Perm (new :: t.inorder) := by
  obtain ⟨_, htree, rfl, -⟩ := treeInsert_plug h hnodup hnew hchild hparent hinsert
  refine ⟨_, htree, ?_⟩
  rw [inorder_plug, inorder_plug]
  simp [Shape.inorder]

lemma treeInsert_some (h : IsTree (treeOf s) t) (hnodup : t.inorder.Nodup) (new : Word) : ∃ s', treeInsert s new = some s' := by
  have hroot : s.task.vmaTreeRoot = t.top := h.root
  rw [treeInsert]
  cases hr : s.task.vmaTreeRoot with
  | none => exact ⟨_, rfl⟩
  | some =>
    rw [hr] at hroot
    obtain ⟨_, hdescend⟩ := descend_some (sideOf s.areas new) new walkFuel h.holds hroot.symm (Word.length_le_of_nodup hnodup)
    rw [← treeOf_insertFrom] at hdescend
    obtain ⟨s', hs', -⟩ := map_eq_some_iff.mp hdescend
    exact ⟨s', hs'⟩

lemma treeOf_rightmost (fuel : ℕ) : rightmost s.areas fuel a = LinkedTree.rightmost (treeOf s) fuel a := by
  induction fuel generalizing a with
  | zero => rfl
  | succ fuel ih =>
    rw [rightmost, LinkedTree.rightmost, treeOf_child, child_right]
    cases (s.areas a).right with
    | none => rfl
    | some => exact ih

variable {vma : Word}

lemma treeOf_hangRight : (hangRight s vma).map treeOf = LinkedTree.hangRight walkFuel (treeOf s) vma := by
  rw [hangRight, LinkedTree.hangRight, treeOf_child, child_left, child_right]
  cases (s.areas vma).left with
  | none => rfl
  | some =>
    cases (s.areas vma).right with
    | none => rfl
    | some =>
      dsimp only
      rw [treeOf_rightmost, Option.map_map]
      congr 1
      funext m
      rw [Function.comp_apply, treeOf_setParent, treeOf_setChild]

lemma treeOf_treeRemove : (treeRemove s vma).map treeOf = LinkedTree.remove walkFuel (treeOf s) vma := by
  rw [treeRemove, LinkedTree.remove, ← treeOf_hangRight, treeOf_child, child_left, child_right]
  cases hangRight s vma with
  | none => rfl
  | some =>
    simp only [bind_eq_bind, bind_some, Option.pure_def, map_some]
    rw [treeOf_onLink_setParent, ← treeOf_parent, treeOf_replaceAt]

lemma treeRemove_tree (h : IsTree (treeOf s) t) (hnodup : t.inorder.Nodup) (hvma : vma ∈ t.inorder)
    (hremove : treeRemove s vma = some s') : ∃ t', IsTree (treeOf s') t' ∧ (vma :: t'.inorder).Perm t.inorder := by
  obtain ⟨c, sub, rfl⟩ := exists_plug hvma
  have hrem : remove walkFuel (treeOf s) vma = some (treeOf s') := by
    rw [← treeOf_treeRemove, hremove]
    rfl
  refine ⟨_, isTree_remove h hnodup hrem, ?_⟩
  have hmiddle := @perm_middle _ vma (before c ++ (sub .left).inorder) ((sub .right).inorder ++ after c)
  rw [inorder_plug, inorder_plug, inorder_hang, Shape.inorder]
  simpa only [append_assoc, cons_append] using hmiddle.symm

end tree

section list

open LinkedList

variable {s : Vm} {a new : Word} {link : Option Word} {l : List Word}

lemma treeFree_listOf : TreeFree listOf := by
  have hfields : ∀ (s : Vm) (a : Word) (area : VmaArea), area.vmStart = (s.areas a).vmStart → area.vmEnd = (s.areas a).vmEnd →
      area.vmFlags = (s.areas a).vmFlags → area.next = (s.areas a).next → area.prev = (s.areas a).prev →
      listOf (s.setArea a area) = listOf s := by
    intro s a area hstart hend hflags hnext hprev
    exact congrArg₂ Prod.mk
      (field_setArea_same (fun v => (v.vmStart, v.vmEnd, v.vmFlags)) (by simp only [hstart, hend, hflags]))
      (congrArg₂ Prod.mk (field_setArea_same VmaArea.next hnext)
        (congrArg₂ Prod.mk (field_setArea_same VmaArea.prev hprev) rfl))
  refine ⟨fun s a d c => ?_, fun s a p => ?_, fun s a c => ?_, fun s r => rfl⟩
  · cases d with
    | left => exact hfields s a _ rfl rfl rfl rfl rfl
    | right => exact hfields s a _ rfl rfl rfl rfl rfl
  · exact hfields s a _ rfl rfl rfl rfl rfl
  · exact hfields s a _ rfl rfl rfl rfl rfl

lemma nextOf_setNext : nextOf (s.setNext a link) = update (nextOf s) a link := field_setArea VmaArea.next ..
lemma prevOf_setNext : prevOf (s.setNext a link) = prevOf s := field_setArea_same VmaArea.prev rfl
lemma nextOf_setPrev : nextOf (s.setPrev a link) = nextOf s := field_setArea_same VmaArea.next rfl
lemma prevOf_setPrev : prevOf (s.setPrev a link) = update (prevOf s) a link := field_setArea VmaArea.prev ..
lemma nextOf_setEnd {e : Word} : nextOf (s.setEnd a e) = nextOf s := field_setArea_same VmaArea.next rfl
lemma prevOf_setEnd {e : Word} : prevOf (s.setEnd a e) = prevOf s := field_setArea_same VmaArea.prev rfl
lemma rangeOf_setNext : rangeOf (s.setNext a link) = rangeOf s :=
  field_setArea_same (fun v => (v.vmStart, v.vmEnd, v.vmFlags)) rfl
lemma rangeOf_setPrev : rangeOf (s.setPrev a link) = rangeOf s :=
  field_setArea_same (fun v => (v.vmStart, v.vmEnd, v.vmFlags)) rfl

lemma prevOf_onLink (s : Vm) (link : Option Word) (q : Vm → Option Word) : prevOf (s.onLink link fun s h => s.setPrev h (q s)) =
    link.elim (prevOf s) fun h => update (prevOf s) h (q s) := by
  cases link with
  | none => rfl
  | some => exact prevOf_setPrev

lemma nextOf_onLink (s : Vm) (link : Option Word) (q : Vm → Option Word) : nextOf (s.onLink link fun s p => s.setNext p (q s)) =
    link.elim (nextOf s) fun p => update (nextOf s) p (q s) := by
  cases link with
  | none => rfl
  | some => exact nextOf_setNext

def Listed (s : Vm) (l : List Word) : Prop := DList (nextOf s) (prevOf s) s.task.vmaListHead l

lemma Listed.congr {s' : Vm} (h : Listed s l) (hlist : listOf s' = listOf s) : Listed s' l := by
  change DList (listOf s').2.1 (listOf s').2.2.1 (listOf s').2.2.2 l
  rwa [hlist]

lemma listInsert_listed (h : Listed s l) (hnodup : l.Nodup) (hnew : new ∉ l) (hprev : prevOf s new = none) :
    Listed (listInsert s new) (new :: l) := by
  have hself : update (prevOf s) new none = prevOf s := by
    rw [← hprev]
    exact update_eq_self new _
  have hnexts : nextOf (listInsert s new) = update (nextOf s) new s.task.vmaListHead :=
    (TreeFree.onLink nextOf (fun _ _ => nextOf_setPrev) _).trans nextOf_setNext
  have hprevs : prevOf (listInsert s new) = s.task.vmaListHead.elim (update (prevOf s) new none) fun b =>
      update (update (prevOf s) new none) b (some new) := by
    have hlink := prevOf_onLink (s.setNext new s.task.vmaListHead) s.task.vmaListHead fun _ => some new
    rw [prevOf_setNext] at hlink
    rwa [hself]
  have hpush := DList.push h hnew hnodup
  rwa [← hnexts, ← hprevs] at hpush

lemma listInsert_treeOf : treeOf (listInsert s new) = treeOf s :=
  (TreeFree.onLink treeOf (fun _ _ => treeOf_setPrev) _).trans treeOf_setNext

lemma listInsert_rangeOf : rangeOf (listInsert s new) = rangeOf s :=
  (TreeFree.onLink rangeOf (fun _ _ => rangeOf_setPrev) _).trans rangeOf_setNext

def bypass (s : Vm) (vma : Word) : Vm :=
  let s := s.onLink (s.areas vma).prev fun s p => s.setNext p (s.areas vma).next
  s.onLink (s.areas vma).next fun s n => s.setPrev n (s.areas vma).prev

lemma listRemove_eq (s : Vm) (vma : Word) : listRemove s vma =
    if (bypass s vma).task.vmaListHead = some vma then (bypass s vma).setHead ((bypass s vma).areas vma).next
    else bypass s vma := rfl

lemma bypass_view {β : Type*} (view : Vm → β) (hnext : ∀ s a n, view (Vm.setNext s a n) = view s)
    (hprev : ∀ s a p, view (Vm.setPrev s a p) = view s) (s : Vm) (vma : Word) : view (bypass s vma) = view s := by
  rw [bypass, TreeFree.onLink view fun _ _ => hprev .., TreeFree.onLink view fun _ _ => hnext ..]

lemma listRemove_treeOf (s : Vm) (vma : Word) : treeOf (listRemove s vma) = treeOf s := by
  have hbypass : treeOf (bypass s vma) = treeOf s :=
    bypass_view treeOf (fun _ _ _ => treeOf_setNext) (fun _ _ _ => treeOf_setPrev) s vma
  rw [listRemove_eq]
  split
  · exact hbypass
  · exact hbypass

lemma listRemove_rangeOf (s : Vm) (vma : Word) : rangeOf (listRemove s vma) = rangeOf s := by
  have hbypass : rangeOf (bypass s vma) = rangeOf s :=
    bypass_view rangeOf (fun _ _ _ => rangeOf_setNext) (fun _ _ _ => rangeOf_setPrev) s vma
  rw [listRemove_eq]
  split
  · exact hbypass
  · exact hbypass

lemma listRemove_listed {l₁ l₂ : List Word} {vma : Word} (h : Listed s (l₁ ++ vma :: l₂)) (hnodup : (l₁ ++ vma :: l₂).Nodup) :
    Listed (listRemove s vma) (l₁ ++ l₂) := by
  have hremove := DList.remove h hnodup
  have hself : prevOf s vma ≠ some vma := by
    obtain ⟨_, -, -, hprev, -⟩ := seg_append.mp h
    rw [hprev]
    intro hlast
    exact (nodup_append'.mp hnodup).2.2 (mem_of_lastOr_none hlast) mem_cons_self
  obtain ⟨u, hu⟩ : ∃ u, u = s.onLink (prevOf s vma) fun s p => s.setNext p (nextOf s vma) := ⟨_, rfl⟩
  have hnext : nextOf u = unlinkNext (nextOf s) (prevOf s) vma := by
    rw [hu]
    exact nextOf_onLink s _ fun s => nextOf s vma
  have hvma : nextOf u vma = nextOf s vma := by
    rw [hnext, unlinkNext]
    cases hp : prevOf s vma with
    | none => rfl
    | some =>
      refine update_of_ne ?_ _ _
      rintro rfl
      exact hself hp
  have hprev : prevOf u = prevOf s := by
    rw [hu]
    exact TreeFree.onLink prevOf (fun _ _ => prevOf_setNext) _
  have hbypass : bypass s vma = u.onLink (nextOf u vma) fun s n => s.setPrev n (prevOf s vma) := by
    rw [hu]
    rfl
  have hnextB : nextOf (bypass s vma) = unlinkNext (nextOf s) (prevOf s) vma := by
    rw [hbypass, TreeFree.onLink nextOf (fun _ _ => nextOf_setPrev), hnext]
  have hprevB : prevOf (bypass s vma) = unlinkPrev (nextOf s) (prevOf s) vma := by
    rw [hbypass, prevOf_onLink u _ fun s => prevOf s vma, hvma, hprev]
    rfl
  have hheadB : (bypass s vma).task.vmaListHead = s.task.vmaListHead :=
    bypass_view (fun s => s.task.vmaListHead) (fun _ _ _ => rfl) (fun _ _ _ => rfl) s vma
  rw [← hnextB, ← hprevB] at hremove
  rw [listRemove_eq, hheadB]
  split_ifs with hhead
  · rw [if_pos hhead, ← hvma, hnext, ← hnextB] at hremove
    exact hremove
  · rw [if_neg hhead, ← hheadB] at hremove
    exact hremove

end list

end KernelSmp.Memory
