import Mathlib.Analysis.SpecialFunctions.Log.Base
import KernelSmp.Memory.VmaLookup

/-! `vma_insert_fixup` keeps the tree of areas a red-black tree. The removal in `vma_unmap` repairs nothing,
so the height stays logarithmic only as long as it takes out red areas without children. -/

namespace KernelSmp.Memory.VmaRanges

open Base LinkedTree Function List Option

def redOf (s : Vm) (a : Word) : Bool := colorOf s a = .red

variable {s s' : Vm} {c : Ctx Word} {z : Word} {n : ℕ} {sub : Side → Shape Word}

variable {a : Word}

lemma redOf_eq_true : redOf s a = true ↔ colorOf s a = .red := decide_eq_true_iff

lemma redOf_eq_false : redOf s a = false ↔ colorOf s a = .black := by
  rw [redOf, decide_eq_false_iff_not]
  exact not_red_iff

lemma redOf_congr {b : Word} (h : colorOf s' b = colorOf s a) : redOf s' b = redOf s a := by rw [redOf, redOf, h]

structure Climbing (s : Vm) (c : Ctx Word) (z : Word) (sub : Side → Shape Word) (n : ℕ) : Prop where
  tree : IsTree (treeOf s) (plug c (.node z sub))
  nodup : (plug c (.node z sub)).inorder.Nodup
  red : redOf s z = true
  balanced : Balanced (redOf s) (.node z sub) n
  fits : Fits (redOf s) c false n

lemma Climbing.rootBlack (h : Climbing s c z sub n) : RootBlack s z := by
  intro r hr hne
  have hroot : s.task.vmaTreeRoot = (plug c (.node z sub)).top := h.tree.root
  cases c with
  | nil =>
    rw [hr] at hroot
    exact absurd (Option.some.inj hroot) hne
  | cons =>
    have hblack := h.fits.topRed_plug (t := .node z sub)
    rw [topRed, ← hroot, hr] at hblack
    exact redOf_eq_false.mp hblack

lemma Climbing.recolored {f f' : Frame Word} {y : Word} (h : Climbing s (f :: f' :: c) z sub n) (hf : colorOf s f.node = .red)
    (huncle : f'.sibling.top = some y) (hy : colorOf s y = .red) (htree : treeOf s' = treeOf s)
    (hcolors : colorOf s' = update (update (update (colorOf s) f.node .black) y .black) f'.node .red) :
    Climbing s' c f'.node (f'.sub (f.plug (.node z sub))) (n + 1) := by
  obtain ⟨hnode, -⟩ := nodup_plug (c := c) h.nodup
  obtain ⟨hsubs, hdisj⟩ := Shape.nodup_node hnode
  have hside := hsubs f'.side
  have hother := hsubs f'.side.other
  have hcross := hdisj f'.side
  rw [Frame.sub_side] at hside hcross
  rw [Frame.sub_other] at hother hcross
  have hyin := Shape.top_mem huncle
  have hpin : f.node ∈ (f.plug (.node z sub)).inorder := Shape.mem_inorder_node.mpr (.inl rfl)
  have hpg : f.node ≠ f'.node := fun heq => hside.2 (heq ▸ hpin)
  have hyg : y ≠ f'.node := fun heq => hother.2 (heq ▸ hyin)
  have hpy : f.node ≠ y := fun heq => hcross _ hpin (heq ▸ hyin)
  have hg' := redOf_eq_true.mpr (by rw [hcolors, update_self])
  obtain ⟨hbalanced, hfits⟩ := LinkedTree.recolored h.balanced h.fits (redOf_eq_true.mpr hf) huncle
    (redOf_eq_true.mpr hy) h.nodup
    (redOf_eq_false.mpr (by rw [hcolors, update_of_ne hpg, update_of_ne hpy, update_self]))
    (redOf_eq_false.mpr (by rw [hcolors, update_of_ne hyg, update_self])) hg'
    fun a hap hay hag => redOf_congr (by rw [hcolors, update_of_ne hag, update_of_ne hay, update_of_ne hap])
  exact ⟨htree ▸ h.tree, h.nodup, hg', hbalanced, hfits⟩

lemma Climbing.turned {f f' : Frame Word} {p : Word} {subp : Side → Shape Word} (h : Climbing s (f :: f' :: c) z sub n)
    (hf : colorOf s f.node = .red) (huncle : isRed s f'.sibling.top = false) (hp : straightened f'.side f z sub = .node p subp)
    (hcolors : colorOf s' = update (update (colorOf s) p .black) f'.node .red) :
    let t := rotated f'.side.other f'.node (f'.sub (straightened f'.side f z sub)) p subp
    RedBlack (redOf s') (plug c t) ∧ (plug c t).inorder = (plug (f :: f' :: c) (.node z sub)).inorder := by
  obtain ⟨hsibling, hsiblingBlack, huncles, hrest⟩ := h.fits.below_red (redOf_eq_true.mpr hf)
  have huncleBlack : topRed (redOf s) f'.sibling = false := by
    rw [topRed]
    cases htop : f'.sibling.top with
    | none => rfl
    | some =>
      rw [htop] at huncle
      exact huncle
  obtain ⟨hsubp, hinner⟩ := balanced_straightened hp h.balanced h.red (redOf_eq_true.mpr hf) hsibling hsiblingBlack
  have hinorder : (f'.plug (straightened f'.side f z sub)).inorder = (f'.plug (f.plug (.node z sub))).inorder := by
    change (plug [f'] _).inorder = (plug [f'] _).inorder
    rw [inorder_plug, inorder_straightened, ← inorder_plug]
  obtain ⟨hnode, -, hout⟩ := nodup_plug (c := c) h.nodup
  have hnode' := hinorder ▸ hnode
  have hpside : f'.sub (straightened f'.side f z sub) f'.side = .node p subp := by rw [Frame.sub_side, hp]
  have hpin : p ∈ (f'.sub (straightened f'.side f z sub) f'.side).inorder := by
    rw [hpside]
    exact Shape.mem_inorder_node.mpr (Or.inl rfl)
  have hpg : p ≠ f'.node := by
    rintro rfl
    exact ((Shape.nodup_node hnode').1 f'.side).2 hpin
  have hothers : ∀ a, a ≠ p → a ≠ f'.node → redOf s' a = redOf s a :=
    fun a hap hag => redOf_congr (by rw [hcolors, update_of_ne hag, update_of_ne hap])
  have hp' := redOf_eq_false.mpr (by rw [hcolors, update_of_ne hpg, update_self])
  have hturned : Balanced (redOf s') (rotated f'.side.other f'.node (f'.sub (straightened f'.side f z sub)) p subp)
      (n + 1) := by
    apply balanced_turned hpside hsubp hinner _ _ hnode' hp' (redOf_eq_true.mpr (by rw [hcolors, update_self])) hothers
    · rw [Frame.sub_other]
      exact huncles
    · rw [Frame.sub_other]
      exact huncleBlack
  refine ⟨redBlack_plug hturned ?_, ?_⟩
  · change Fits (redOf s') c (redOf s' p) (n + 1)
    rw [hp']
    refine hrest.congr fun a ha => hothers a ?_ ?_
    · rintro rfl
      exact hout a (hinorder ▸ Shape.mem_inorder_node.mpr (Or.inr ⟨_, hpin⟩)) ha
    · rintro rfl
      exact hout _ (Shape.mem_inorder_node.mpr (Or.inl rfl)) ha
  · have hpside' : f'.sub (straightened f'.side f z sub) f'.side.other.other = .node p subp := by
      rw [Side.other_other, hpside]
    rw [inorder_plug, inorder_rotated _ _ hpside']
    change before c ++ (f'.plug (straightened f'.side f z sub)).inorder ++ after c = _
    rw [hinorder, ← inorder_plug]
    rfl

lemma fixupLoop_balanced {fuel : ℕ} (h : Climbing s c z sub n) (hfuel : c.length < fuel) :
    ∃ s' t' m, fixupLoop fuel s z = some s' ∧ IsTree (treeOf s') t' ∧ t'.inorder = (plug c (.node z sub)).inorder ∧
      Balanced (redOf s') t' m := by
  induction fuel generalizing s c z sub n with
  | zero => cases hfuel
  | succ fuel ih =>
    cases round_of_tree fuel h.tree h.nodup h.rootBlack with
    | root hexit => exact ⟨s, _, n, hexit, h.tree, rfl, h.balanced⟩
    | black hf hexit =>
      obtain ⟨m, hm⟩ := (redBlack_plug h.balanced (h.fits.below_black (redOf_eq_false.mpr hf))).balanced
      exact ⟨s, _, m, hexit, h.tree, rfl, hm⟩
    | @recolored f f' c y s' hf huncle hy htree hcolors hnext =>
      rw [hnext]
      exact ih (h.recolored hf huncle hy htree hcolors) (by simp only [length_cons] at hfuel; omega)
    | @turned f f' c p subp s' hf huncle hp htree hcolors hexit =>
      simp only [length_cons] at hfuel
      obtain ⟨⟨-, m, hm⟩, hinorder⟩ := h.turned hf huncle hp hcolors
      exact ⟨s', _, m, hexit (by omega), htree, hinorder, hm⟩

lemma vmaInsertFixup_redBlack (h : Climbing s c z sub n) : ∃ s' t', vmaInsertFixup s z = some s' ∧ IsTree (treeOf s') t' ∧
    RedBlack (redOf s') t' ∧ t'.inorder = (plug c (.node z sub)).inorder := by
  obtain ⟨s', t', _, hloop, htree, hinorder, hbalanced⟩ := fixupLoop_balanced h (length_context_lt h.nodup)
  have hroot : s'.task.vmaTreeRoot = t'.top := htree.root
  cases t' with
  | leaf =>
    have hz : z ∈ (plug c (.node z sub)).inorder := by
      rw [inorder_plug]
      simp [Shape.inorder]
    rw [← hinorder] at hz
    cases hz
  | node r subr =>
    refine ⟨s'.setColor r .black, .node r subr, ?_, ?_, ?_, hinorder⟩
    · rw [vmaInsertFixup, hloop]
      simp only [bind_eq_bind, bind_some, hroot]
      rfl
    · rwa [treeOf_setColor]
    · apply hbalanced.blacken (hinorder ▸ h.nodup)
      · exact redOf_eq_false.mpr (by rw [colorOf_setColor, update_self])
      · exact fun b hb => redOf_congr (by rw [colorOf_setColor, update_of_ne hb])

variable {t : Shape Word} {new : Word}

lemma climbing_inserted {s₁ : Vm} (hvalid : RedBlack (redOf s) (plug c .leaf))
    (hnodup : (plug c (.node new fun _ => .leaf)).inorder.Nodup) (hred : redOf s new = true)
    (htree : IsTree (treeOf s₁) (plug c (.node new fun _ => .leaf))) (hcolors : colorOf s₁ = colorOf s) :
    Climbing s₁ c new (fun _ => .leaf) 0 := by
  have hsame : redOf s₁ = redOf s := funext fun a => redOf_congr (congrFun hcolors a)
  obtain ⟨_, hleaf, hfits⟩ := fits_of_redBlack hvalid
  cases hleaf
  rw [← hsame] at hred hfits
  exact ⟨htree, hnodup, hred, .red hred (fun _ => rfl) fun _ => .leaf, hfits⟩

theorem treeInsert_fixup_redBlack (htree : IsTree (treeOf s) t) (hnodup : t.inorder.Nodup) (hvalid : RedBlack (redOf s) t)
    (hnew : new ∉ t.inorder) (hred : (s.areas new).color = .red) (hchild : ∀ d, (s.areas new).child d = none)
    (hparent : (s.areas new).parent = none) :
    ∃ s₁ s' t' l r, treeInsert s new = some s₁ ∧ vmaInsertFixup s₁ new = some s' ∧ IsTree (treeOf s') t' ∧
      RedBlack (redOf s') t' ∧ t.inorder = l ++ r ∧ t'.inorder = l ++ new :: r ∧ rangeOf s' = rangeOf s ∧
      (t.inorder.Pairwise (StartsBefore s) → t'.inorder.Pairwise (StartsBefore s')) := by
  obtain ⟨s₁, hinsert⟩ := treeInsert_some htree hnodup new
  obtain ⟨c, htree₁, rfl, hsides⟩ := treeInsert_plug htree hnodup hnew hchild hparent hinsert
  have hinorder : (plug c .leaf).inorder = before c ++ after c := by
    rw [inorder_plug, Shape.inorder, append_nil]
  have hinorder₁ : (plug c (.node new fun _ => .leaf)).inorder = before c ++ new :: after c := by
    rw [inorder_plug]
    simp [Shape.inorder]
  have hnodup₁ : (plug c (.node new fun _ => .leaf)).inorder.Nodup := by
    rw [hinorder₁, perm_middle.nodup_iff, ← hinorder]
    exact nodup_cons.mpr ⟨hnew, hnodup⟩
  have hclimbing := climbing_inserted hvalid hnodup₁ (redOf_eq_true.mpr hred) htree₁ (linkFree_colorOf.treeInsert hinsert)
  obtain ⟨s', t', hfixup, htree', hvalid', hinorder'⟩ := vmaInsertFixup_redBlack hclimbing
  have hrange : rangeOf s' = rangeOf s :=
    congrArg Prod.fst ((treeFree_listOf.vmaInsertFixup hfixup).trans (treeFree_listOf.treeInsert hinsert))
  refine ⟨s₁, s', t', before c, after c, hinsert, hfixup, htree', hvalid', hinorder, hinorder'.trans hinorder₁, hrange, ?_⟩
  intro hsorted
  have hfilled : (plug c (.node new fun _ => .leaf)).inorder.Pairwise (StartsBefore s) := by
    refine sorted_fill hsorted fun f hf => ?_
    rw [hsides f hf]
    exact sideOf_agrees s new f.node
  rw [← hinorder'] at hfilled
  exact pairwise_congr hfilled fun a _ => congrFun hrange a

def redChildren : Vm :=
  let area (start : Word) (parent : Option Word) : VmaArea := ⟨start, start + 0x1000, 3, none, none, parent, .red, none, none⟩
  { blankVm with
    areas := update (update (update (update blankVm.areas 0x10
      { area 0x5000 none with left := some 0x20, right := some 0x30, color := .black }) 0x20 (area 0x2000 (some 0x10)))
      0x30 (area 0x8000 (some 0x10))) 0x40 (area 0x1000 none)
    task := { blankVm.task with vmaTreeRoot := some 0x10 } }

def redChildrenShape : Shape Word :=
  .node 0x10 fun
    | .left => .node 0x20 fun _ => .leaf
    | .right => .node 0x30 fun _ => .leaf

theorem treeInsert_fixup_redChildren :
    ∃ s₁ s' t' l r, treeInsert redChildren 0x40 = some s₁ ∧ vmaInsertFixup s₁ 0x40 = some s' ∧ IsTree (treeOf s') t' ∧
      RedBlack (redOf s') t' ∧ [0x20, 0x10, 0x30] = l ++ r ∧ t'.inorder = l ++ 0x40 :: r ∧ rangeOf s' = rangeOf redChildren ∧
      (redChildrenShape.inorder.Pairwise (StartsBefore redChildren) → t'.inorder.Pairwise (StartsBefore s')) := by
  refine treeInsert_fixup_redBlack (t := redChildrenShape) ⟨rfl, rfl, fun d => ?_, fun d => ?_⟩ (by decide)
    ⟨rfl, 1, .black rfl fun d => ?_⟩
    (by decide) rfl (fun d => ?_) rfl
  · cases d <;> rfl
  · cases d with
    | left => exact ⟨rfl, fun d => by cases d <;> rfl, fun _ => trivial⟩
    | right => exact ⟨rfl, fun d => by cases d <;> rfl, fun _ => trivial⟩
  · cases d with
    | left => exact .red rfl (fun _ => rfl) fun _ => .leaf
    | right => exact .red rfl (fun _ => rfl) fun _ => .leaf
  · cases d <;> rfl

variable {l : List Word}

def ValidTree (s : Vm) : Prop := ∀ t, IsTree (treeOf s) t → RedBlack (redOf s) t

lemma ValidTree.of_tree (ht : IsTree (treeOf s) t) (h : RedBlack (redOf s) t) : ValidTree s := by
  intro t' ht'
  rwa [ht'.unique ht]

lemma ValidTree.congr (h : ValidTree s) (htree : treeOf s' = treeOf s) (hcolors : colorOf s' = colorOf s) : ValidTree s' := by
  intro t ht
  have hsame : redOf s' = redOf s := funext fun a => redOf_congr (congrFun hcolors a)
  rw [hsame]
  exact h t (htree ▸ ht)

lemma ValidTree.of_areas (h : ValidTree s) (hareas : s'.areas = s.areas) (htask : s'.task = s.task) : ValidTree s' := by
  apply h.congr
  · rw [treeOf, hareas, htask]
    rfl
  · funext a
    rw [colorOf, hareas, colorOf]

lemma ValidTree.setEnd (h : ValidTree s) (a e : Word) : ValidTree (s.setEnd a e) :=
  h.congr treeOf_setEnd (field_setArea_same VmaArea.color rfl)

lemma ValidTree.setArea (h : ValidTree s) (hl : Linked s l) (hnew : new ∉ l) (area : VmaArea) :
    ValidTree (s.setArea new area) := by
  obtain ⟨t, ht, hperm⟩ := hl.tree
  have hother : ∀ a ∈ t.inorder, (s.setArea new area).areas a = s.areas a := by
    intro a ha
    apply update_of_ne
    rintro rfl
    exact hnew (hperm.mem_iff.mp ha)
  obtain ⟨t', ht', _⟩ := (hl.setArea hnew area).tree
  have hsame : t' = t := by
    refine ht'.unique ⟨ht.root, ht.holds.congr ?_ ?_⟩
    · exact fun a ha => congrArg VmaArea.child (hother a ha)
    · exact fun a ha => congrArg VmaArea.parent (hother a ha)
  have hcolors := fun a ha => redOf_congr (congrArg VmaArea.color (hother a ha))
  obtain ⟨hroot, n, hn⟩ := h t ht
  exact .of_tree (hsame ▸ ht') ⟨(topRed_congr hcolors).trans hroot, n, hn.congr hcolors⟩

lemma ValidTree.insert {s₂ s₃ : Vm} (h : ValidTree s) (hl : Linked s l) (hnew : new ∉ l) (hred : (s.areas new).color = .red)
    (hchild : ∀ d, (s.areas new).child d = none) (hparent : (s.areas new).parent = none)
    (hinsert : treeInsert (listInsert s new) new = some s₂) (hfixup : vmaInsertFixup s₂ new = some s₃) : ValidTree s₃ := by
  have hlinks : ∀ d, ((listInsert s new).areas new).child d = none := by
    intro d
    rw [← treeOf_child, listInsert_treeOf]
    exact hchild d
  have hparent₁ : ((listInsert s new).areas new).parent = none := by
    rwa [← treeOf_parent, listInsert_treeOf]
  have hcolors := colorOf_listInsert s new
  obtain ⟨t, _, hperm⟩ := hl.tree
  have hvalid := h.congr listInsert_treeOf hcolors
  have ht₁ : IsTree (treeOf (listInsert s new)) t := by
    rwa [listInsert_treeOf]
  have hnodup := hperm.nodup_iff.mpr hl.nodup
  have hfresh : new ∉ t.inorder := fun hmem => hnew (hperm.mem_iff.mp hmem)
  obtain ⟨c, ht₂, rfl, -⟩ := treeInsert_plug ht₁ hnodup hfresh hlinks hparent₁ hinsert
  have hnodup₂ : (plug c (.node new fun _ => .leaf)).inorder.Nodup := by
    rw [inorder_plug, Shape.inorder, append_assoc]
    rw [inorder_plug, Shape.inorder, append_nil] at hnodup hfresh
    exact perm_middle.nodup_iff.mpr (nodup_cons.mpr ⟨hfresh, hnodup⟩)
  have hred₁ := redOf_eq_true.mpr ((congrFun hcolors new).trans hred)
  obtain ⟨_, _, hfixup', ht₃, hvalid₃, -⟩ := vmaInsertFixup_redBlack
    (climbing_inserted (hvalid _ ht₁) hnodup₂ hred₁ ht₂ (linkFree_colorOf.treeInsert hinsert))
  cases hfixup'.symm.trans hfixup
  exact .of_tree ht₃ hvalid₃

lemma ValidTree.remove {s₂ : Vm} (h : ValidTree s) (hl : Linked s l) (ha : a ∈ l)
    (hleaf : (s.areas a).left = none ∧ (s.areas a).right = none) (hred : (s.areas a).color = .red ∨ s.task.vmaTreeRoot = some a)
    (hremove : treeRemove (listRemove s a) a = some s₂) : ValidTree s₂ := by
  obtain ⟨t, ht, hperm⟩ := hl.tree
  have hvalid := h t ht
  obtain ⟨c, sub, rfl⟩ := exists_plug (hperm.mem_iff.mpr ha)
  have hsub : sub = fun _ => .leaf := by
    funext d
    have hlink := (isTree_plug.mp ht).2.2.1 d
    have hnone : (s.areas a).child d = none := by
      cases d with
      | left => exact hleaf.1
      | right => exact hleaf.2
    rw [treeOf_child, hnone] at hlink
    cases hshape : sub d with
    | leaf => rfl
    | node =>
      simp [hshape] at hlink
  subst hsub
  have hcolors := (linkFree_colorOf.treeRemove hremove).trans (colorOf_listRemove s a)
  have hsame : redOf s₂ = redOf s := funext fun b => redOf_congr (congrFun hcolors b)
  have hrem : LinkedTree.remove walkFuel (treeOf (listRemove s a)) a = some (treeOf s₂) := by
    rw [← treeOf_treeRemove, hremove]
    rfl
  have ht₁ : IsTree (treeOf (listRemove s a)) (plug c (.node a fun _ => .leaf)) := by
    rwa [listRemove_treeOf]
  refine .of_tree (isTree_remove ht₁ (hperm.nodup_iff.mpr hl.nodup) hrem) ?_
  rw [hsame]
  refine redBlack_take_out hvalid (hred.imp redOf_eq_true.mpr fun hroot => ?_)
  have hnone := parent_of_root ht hroot
  have habove : (s.areas a).parent = above c := (isTree_plug.mp ht).2.1
  rw [hnone] at habove
  cases c with
  | nil => rfl
  | cons => cases habove

def Call.TakesRedLeaf (s : Vm) : Call → Prop
  | .map _ _ _ _ _ => True
  | .unmap _ addr size => ∀ vma ∈ (vmaFind s addr).join, addr ≤ (s.areas vma).vmStart ∧ addr + size ≥ (s.areas vma).vmEnd →
      ((s.areas vma).left = none ∧ (s.areas vma).right = none) ∧
      ((s.areas vma).color = .red ∨ s.task.vmaTreeRoot = some vma)

instance (s : Vm) : (c : Call) → Decidable (c.TakesRedLeaf s)
  | .map _ _ _ _ _ => .isTrue trivial
  | .unmap _ addr _ => Option.decidableForallMem (vmaFind s addr).join

lemma step_validTree {c : Call} (h : ValidTree s) (hl : Linked s l) (hfresh : c.Fresh s) (hleaf : c.TakesRedLeaf s)
    (hstep : step s c = some s') : ValidTree s' := by
  cases c with
  | map cpu kmalloc addr size flags =>
    obtain ⟨⟨code, s₁⟩, hmap, rfl⟩ := map_eq_some_iff.mp hstep
    rw [Call.Fresh, hl.vmas_eq] at hfresh
    cases vmaMap_cases hmap with
    | refused => exact h
    | expandFailed => exact h.of_areas rfl rfl
    | expanded _ _ _ _ hback =>
      obtain ⟨hareas, htask⟩ := backRange_areas hback
      exact (h.of_areas hareas htask).setEnd _ _
    | insertFailed hnew => exact (h.setArea hl (hfresh _ hnew) _).of_areas rfl rfl
    | @inserted new phys pmm s₁ s₂ s₃ haligned hnew hfree halloc hphys hback hinsert hfixup =>
      have hmem := hfresh new hnew
      obtain ⟨hareas, htask⟩ := backRange_areas hback
      obtain ⟨harea, hchild, hparent, -⟩ := backRange_newArea hback
      have hl₁ := (hl.setArea hmem (newArea addr (addr + roundUp size) flags)).congr hareas htask
      have h₁ := (h.setArea hl hmem (newArea addr (addr + roundUp size) flags)).of_areas hareas htask
      exact (h₁.insert hl₁ hmem (congrArg VmaArea.color harea) hchild hparent hinsert hfixup).congr rfl rfl
  | unmap cpu addr =>
    obtain ⟨⟨_, s₁⟩, hunmap, rfl⟩ := map_eq_some_iff.mp hstep
    cases vmaUnmap_cases hunmap with
    | refused => exact h
    | kept _ hpages =>
      obtain ⟨hareas, htask⟩ := unmapPages_areas hpages
      exact h.of_areas hareas htask
    | trimmed _ hpages =>
      obtain ⟨hareas, htask⟩ := unmapPages_areas hpages
      exact (h.of_areas hareas htask).setEnd _ _
    | @removed vma s₁ s₂ hfind hpages hremove hwhole =>
      obtain ⟨hareas, htask⟩ := unmapPages_areas hpages
      rw [hareas] at hwhole
      obtain ⟨hvma, -⟩ := hl.vmaFind hfind
      have hin : vma ∈ (vmaFind s addr).join := by
        rw [hfind]
        rfl
      obtain ⟨hchildren, hcolor⟩ := hleaf vma hin hwhole
      rw [← hareas] at hchildren hcolor
      rw [← htask] at hcolor
      exact ((h.of_areas hareas htask).remove (hl.congr hareas htask) hvma hchildren hcolor hremove).congr rfl rfl

def HeightBounded (s : Vm) : Prop :=
  ∃ t, IsTree (treeOf s) t ∧ t.inorder.Perm (vmas s) ∧ (t.height : ℝ) ≤ 2 * Real.logb 2 ((vmas s).length + 1) ∧
    ∀ addr, ((visited s addr).length : ℝ) ≤ 2 * Real.logb 2 ((vmas s).length + 1)

lemma le_two_logb_iff {h : ℕ} : (h : ℝ) ≤ 2 * Real.logb 2 (n + 1) ↔ 2 ^ h ≤ (n + 1) ^ 2 := by
  have hpos : (0 : ℝ) < (n + 1) ^ 2 := by positivity
  have hpow : 2 * Real.logb 2 ((n : ℝ) + 1) = Real.logb 2 (((n : ℝ) + 1) ^ 2) := by rw [Real.logb_pow, Nat.cast_ofNat]
  rw [hpow, Real.le_logb_iff_rpow_le one_lt_two hpos, Real.rpow_natCast]
  exact_mod_cast Iff.rfl

lemma ValidTree.heightBounded (h : ValidTree s) (hl : Linked s l) : HeightBounded s := by
  obtain ⟨t, ht, hperm⟩ := hl.tree
  have hheight : (t.height : ℝ) ≤ 2 * Real.logb 2 ((vmas s).length + 1) := by
    rw [le_two_logb_iff, hl.vmas_eq, ← hperm.length_eq]
    exact (h t ht).height_le
  refine ⟨t, ht, hl.vmas_eq.symm ▸ hperm, hheight, fun addr => le_trans ?_ hheight⟩
  exact Nat.cast_le.mpr (length_visitedFrom_le ht.draws)

theorem tree_stays_balanced {s : Vm} {t : TaskVm} {calls : List Call} (hinit : s.task = vmaInitTask t)
    (hfresh : Runs.Guarded step (fun s c => c.Fresh s) s calls)
    (hleaf : Runs.Guarded step (fun s c => c.TakesRedLeaf s) s calls) : Runs.Always step HeightBounded s calls := by
  have hstart : ValidTree s := by
    have hl := linked_init hinit
    obtain ⟨u, hu, hperm⟩ := hl.tree
    refine .of_tree hu ?_
    cases u with
    | leaf => exact ⟨rfl, 0, .leaf⟩
    | node a sub => exact absurd (hperm.mem_iff.mp (Shape.top_mem rfl)) not_mem_nil
  have hrun : Runs.Always step (fun s => (∃ l, Matches s l) ∧ ValidTree s) s calls := by
    refine Runs.invariant ?_ ⟨⟨[], matches_init hinit⟩, hstart⟩ (hfresh.and hleaf)
    rintro u c u' ⟨⟨l, hl⟩, hvalid⟩ ⟨hc, hc'⟩ hstep
    exact ⟨step_matches hl hc hstep, step_validTree hvalid hl.linked hc hc' hstep⟩
  apply hrun.mono
  rintro u ⟨⟨l, hl⟩, hvalid⟩
  exact hvalid.heightBounded hl.linked

def redLeafTaken : List Call :=
  [.map none (some 0x8000) 0x5000 0x1000 2, .map none (some 0x9000) 0x1000 0x1000 2, .map none (some 0xA000) 0x9000 0x1000 2,
    .map none (some 0xB000) 0x3000 0x1000 2, .unmap none 0x3000 0x1000]

theorem tree_stays_balanced_redLeafTaken : ∃ s, Runs.run step blankVm redLeafTaken = some s ∧
    vmas s = [0xA000, 0x9000, 0x8000] ∧ HeightBounded s := by
  exact Runs.exists_of_check (vmas · = [0xA000, 0x9000, 0x8000]) (by decide +kernel) fun s hrun hs =>
    ⟨hs, (tree_stays_balanced rfl (by decide +kernel) (by decide +kernel)).last hrun⟩

def rootsTaken : List Call :=
  ([1, 7, 3, 4, 6, 2, 5, 8].map fun i : Word => Call.map none (some (i * 0x100)) (i * 0x2000) 0x1000 2) ++
    [.unmap none 0x6000 0x1000, .unmap none 0xC000 0x1000]

theorem unmaps_unbalance_tree : ∃ s, Runs.run step blankVm rootsTaken = some s ∧ (vmas s).length = 6 ∧
    (∃ addr, (visited s addr).length = 6) ∧ ¬ HeightBounded s := by
  refine Runs.exists_of_check (fun s => (vmas s).length = 6 ∧ (visited s 0x10000).length = 6) (by decide +kernel)
    fun s hrun hs => ⟨hs.1, ⟨0x10000, hs.2⟩, ?_⟩
  rintro ⟨-, -, -, -, hbound⟩
  have hpow := le_two_logb_iff.mp (hbound 0x10000)
  rw [hs.1, hs.2] at hpow
  revert hpow
  decide

end KernelSmp.Memory.VmaRanges
