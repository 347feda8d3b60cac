import KernelSmp.Base.RedBlack
import KernelSmp.Memory.VmaInStep

/-! `vma_insert_fixup` follows no `NULL` link as long as the root of the tree is black. -/

namespace KernelSmp.Memory.VmaRanges

open Base LinkedTree Function Option

variable {s s' : Vm} {z p g : Word} {d : Side}

section loop

variable {c : Ctx Word}

def colorOf (s : Vm) (a : Word) : Color := (s.areas a).color

lemma colorOf_setColor (s : Vm) (a : Word) (k : Color) : colorOf (s.setColor a k) = update (colorOf s) a k :=
  field_setArea VmaArea.color ..

lemma linkFree_colorOf : LinkFree colorOf := by
  refine ⟨fun s a d c => ?_, fun s a p => field_setArea_same VmaArea.color rfl, fun s r => rfl⟩
  cases d with
  | left => exact field_setArea_same VmaArea.color rfl
  | right => exact field_setArea_same VmaArea.color rfl

variable {sub : Side → Shape Word}

lemma rotateSide_some {x y : Word} {sub' : Side → Shape Word} (h : IsTree (treeOf s) (plug c (.node x sub)))
    (hy : sub d.other = .node y sub') (hnodup : (plug c (.node x sub)).inorder.Nodup) :
    ∃ s', rotateSide d s x = some s' ∧ IsTree (treeOf s') (plug c (rotated d x sub y sub')) := by
  obtain ⟨_, hrot, htree⟩ := isTree_rotate h hy hnodup
  rw [← treeOf_rotateSide] at hrot
  obtain ⟨s', hs', rfl⟩ := map_eq_some_iff.mp hrot
  exact ⟨s', hs', htree⟩

lemma turn_grandparent {subp subz : Side → Shape Word} (h : IsTree (treeOf s) (plug c (.node g sub)))
    (hp : sub d = .node p subp) (hz : subp d = .node z subz) (hnodup : (plug c (.node g sub)).inorder.Nodup) :
    ∃ s', rotateSide d.other ((s.setColor p .black).setColor g .red) g = some s' ∧ (s.areas z).parent = some p ∧
      (s.areas p).parent = some g ∧ (s'.areas z).parent = some p ∧
      IsTree (treeOf s') (plug c (rotated d.other g sub p subp)) ∧
      colorOf s' = update (update (colorOf s) p .black) g .red := by
  have hcolors : treeOf ((s.setColor p .black).setColor g .red) = treeOf s := by rw [treeOf_setColor, treeOf_setColor]
  have hp' : sub d.other.other = .node p subp := by rw [Side.other_other, hp]
  obtain ⟨-, -, -, hsub⟩ := isTree_plug.mp h
  have hholds := hsub d
  rw [hp] at hholds
  obtain ⟨hparentp, -, hsubp⟩ := hholds
  have hholdz := hsubp d
  rw [hz] at hholdz
  obtain ⟨s', hrot, htree⟩ := rotateSide_some (hcolors.symm ▸ h) hp' hnodup
  refine ⟨s', hrot, hholdz.1, hparentp, ?_, htree, ?_⟩
  · obtain ⟨-, -, -, hsub'⟩ := isTree_plug.mp htree
    have hholdz' := hsub' d
    rw [update_of_ne (Side.other_ne d).symm, hz] at hholdz'
    exact hholdz'.1
  · rw [linkFree_colorOf.rotateSide hrot, colorOf_setColor, colorOf_setColor]

variable {f f' : Frame Word}

lemma straighten_some
    (h : IsTree (treeOf s) (plug (f :: f' :: c) (.node z sub))) (hnodup : (plug (f :: f' :: c) (.node z sub)).inorder.Nodup) :
    ∃ z' p s₁ subp subz, straighten f'.side s z f.node = some (z', s₁) ∧
      IsTree (treeOf s₁) (plug (f' :: c) (straightened f'.side f z sub)) ∧ colorOf s₁ = colorOf s ∧
      straightened f'.side f z sub = .node p subp ∧ subp f'.side = .node z' subz := by
  obtain ⟨⟨-, hlink, hsibling, -⟩, -⟩ := isTree_plug.mp h
  rcases straightened_cases f'.side f z sub with ⟨hside, hshape⟩ | ⟨hside, hshape⟩
  · -- an outer child stays
    refine ⟨z, f.node, s, f.sub (.node z sub), sub, ?_, hshape ▸ h, rfl, hshape, ?_⟩
    · rw [hside, treeOf_child] at hsibling
      rw [straighten, if_neg]
      rw [hsibling]
      intro htop
      have hin := (nodup_plug hnodup).2.2 z (Shape.mem_inorder_node.mpr (.inl rfl))
      exact hin (mem_context_cons.mpr (.inr (.inl (Shape.top_mem htop))))
    · rw [← hside, Frame.sub_side]
  · -- an inner child comes up in the place of its parent
    have hinner : f.sub (.node z sub) f'.side.other = .node z sub := by rw [← hside, Frame.sub_side]
    obtain ⟨s₁, hrot, htree⟩ := rotateSide_some (c := f' :: c) h hinner hnodup
    refine ⟨f.node, z, s₁, _, _, ?_, hshape ▸ htree, linkFree_colorOf.rotateSide hrot, hshape, update_self ..⟩
    rw [hside, treeOf_child, Shape.top_node] at hlink
    rw [straighten, if_pos hlink, hrot]
    rfl

lemma inorder_straightened (d : Side) (f : Frame Word) (z : Word) (sub : Side → Shape Word) :
    (straightened d f z sub).inorder = (f.plug (.node z sub)).inorder := by
  rcases Side.eq_or_other d f.side with hside | hside
  · rw [straightened, if_pos hside]
  · have hinner : f.sub (.node z sub) d.other = .node z sub := by rw [← hside, Frame.sub_side]
    rw [straightened, if_neg (hside ▸ Side.other_ne d), inorder_rotated _ _ hinner]
    rfl

lemma fixupSide_turns
    (h : IsTree (treeOf s) (plug (f :: f' :: c) (.node z sub))) (hnodup : (plug (f :: f' :: c) (.node z sub)).inorder.Nodup)
    (huncle : isRed s ((s.areas f'.node).child f'.side.other) = false) :
    ∃ z' p subp s', fixupSide f'.side s z f.node f'.node = some (z', s') ∧ (s'.areas z').parent = some p ∧
      straightened f'.side f z sub = .node p subp ∧
      IsTree (treeOf s') (plug c (rotated f'.side.other f'.node (f'.sub (straightened f'.side f z sub)) p subp)) ∧
      colorOf s' = update (update (colorOf s) p .black) f'.node .red := by
  obtain ⟨z', p, s₁, subp, _, hstraight, htree, hcolors, hp, hz'⟩ := straighten_some h hnodup
  have hnodup₁ : (plug (f' :: c) (straightened f'.side f z sub)).inorder.Nodup := by
    rwa [inorder_plug, inorder_straightened, ← inorder_plug]
  have hp₁ : f'.sub (straightened f'.side f z sub) f'.side = .node p subp := by rw [Frame.sub_side, hp]
  obtain ⟨s', hrot, hparentz, _, hparent', htree', hcolors'⟩ := turn_grandparent htree hp₁ hz' hnodup₁
  refine ⟨z', p, subp, s', ?_, hparent', hp, htree', hcolors ▸ hcolors'⟩
  have hparentp' : ((s₁.setColor p .black).areas p).parent = some f'.node := by
    rwa [← treeOf_parent, treeOf_setColor]
  simp only [fixupSide, huncle, Bool.false_eq_true, if_false, hstraight, bind_eq_bind, bind_some,
    hparentz, hparentp',
    hrot, pure_def]

variable {t : Shape Word}

lemma side_of_frame (h : IsTree (treeOf s) (plug (f :: f' :: c) t)) (hnodup : (plug (f :: f' :: c) t).inorder.Nodup) :
    (if (s.areas f'.node).left = some f.node then Side.left else .right) = f'.side := by
  obtain ⟨⟨-, -, -, -, -, hlink, hsibling, -⟩, -⟩ := isTree_plug.mp h
  rw [treeOf_child] at hlink hsibling
  cases hside : f'.side with
  | left =>
    rw [hside, child_left] at hlink
    exact if_pos hlink
  | right =>
    rw [hside] at hsibling
    change (s.areas f'.node).left = _ at hsibling
    rw [if_neg]
    rw [hsibling]
    intro htop
    have hself := (nodup_plug (t := f.plug t) hnodup).2.2 f.node (Shape.mem_inorder_node.mpr (.inl rfl))
    exact hself (mem_context_cons.mpr (.inr (.inl (Shape.top_mem htop))))

def RootBlack (s : Vm) (z : Word) : Prop := ∀ r, s.task.vmaTreeRoot = some r → r ≠ z → colorOf s r = .black

lemma parent_of_root (h : IsTree (treeOf s) t) {r : Word} (hr : s.task.vmaTreeRoot = some r) : (s.areas r).parent = none := by
  have hroot : s.task.vmaTreeRoot = t.top := h.root
  cases t with
  | leaf =>
    simp [hr] at hroot
  | node =>
    rw [hr] at hroot
    cases hroot
    exact h.holds.1

lemma fixupSide_recolors (h : IsTree (treeOf s) (plug (f :: f' :: c) t))
    (huncle : isRed s ((s.areas f'.node).child f'.side.other) = true) :
    ∃ y s', f'.sibling.top = some y ∧ colorOf s y = .red ∧ fixupSide f'.side s z f.node f'.node = some (f'.node, s') ∧
      treeOf s' = treeOf s ∧ colorOf s' = update (update (update (colorOf s) f.node .black) y .black) f'.node .red := by
  obtain ⟨⟨-, -, -, -, -, -, hsibling, -⟩, -⟩ := isTree_plug.mp h
  cases hy : (s.areas f'.node).child f'.side.other with
  | none =>
    rw [hy] at huncle
    cases huncle
  | some y =>
    rw [hy] at huncle
    refine ⟨y, ((s.setColor f.node .black).setColor y .black).setColor f'.node .red, hsibling.symm.trans hy,
      of_decide_eq_true huncle, ?_, ?_, ?_⟩
    · simp only [fixupSide, hy, huncle]
      rfl
    · rw [treeOf_setColor, treeOf_setColor, treeOf_setColor]
    · rw [colorOf_setColor, colorOf_setColor, colorOf_setColor]

inductive Round (s : Vm) (z : Word) (sub : Side → Shape Word) (fuel : ℕ) : Ctx Word → Prop
  | root (hexit : fixupLoop (fuel + 1) s z = some s) : Round s z sub fuel []
  | black {f : Frame Word} {c : Ctx Word} (hf : colorOf s f.node = .black) (hexit : fixupLoop (fuel + 1) s z = some s) :
      Round s z sub fuel (f :: c)
  | recolored {f f' : Frame Word} {c : Ctx Word} {y : Word} {s' : Vm} (hf : colorOf s f.node = .red)
      (huncle : f'.sibling.top = some y) (hy : colorOf s y = .red) (htree : treeOf s' = treeOf s)
      (hcolors : colorOf s' = update (update (update (colorOf s) f.node .black) y .black) f'.node .red)
      (hnext : fixupLoop (fuel + 1) s z = fixupLoop fuel s' f'.node) : Round s z sub fuel (f :: f' :: c)
  | turned {f f' : Frame Word} {c : Ctx Word} {p : Word} {subp : Side → Shape Word} {s' : Vm} (hf : colorOf s f.node = .red)
      (huncle : isRed s f'.sibling.top = false) (hp : straightened f'.side f z sub = .node p subp)
      (htree : IsTree (treeOf s') (plug c (rotated f'.side.other f'.node (f'.sub (straightened f'.side f z sub)) p subp)))
      (hcolors : colorOf s' = update (update (colorOf s) p .black) f'.node .red)
      (hexit : 0 < fuel → fixupLoop (fuel + 1) s z = some s') : Round s z sub fuel (f :: f' :: c)

lemma not_red_iff {a : Word} : ¬ (s.areas a).color = .red ↔ colorOf s a = .black := by
  rw [colorOf]
  cases (s.areas a).color <;> simp

lemma round_of_tree (fuel : ℕ) (h : IsTree (treeOf s) (plug c (.node z sub)))
    (hnodup : (plug c (.node z sub)).inorder.Nodup) (hroot : RootBlack s z) : Round s z sub fuel c := by
  have hparent : (s.areas z).parent = above c := (isTree_plug.mp h).2.1
  cases c with
  | nil => exact .root (by rw [fixupLoop, hparent]; rfl)
  | cons f c =>
    have hparent' : (s.areas z).parent = some f.node := hparent
    by_cases hred : (s.areas f.node).color = .red
    · cases c with
      | nil =>
        -- the parent would be a red root
        have hnode : (s.areas f.node).parent = none := (isTree_plug.mp h).1.1
        have hfz : f.node ≠ z := by
          intro hfz
          simp [hfz, hparent'] at hnode
        exact absurd hred (not_red_iff.mpr (hroot f.node h.root hfz))
      | cons f' c =>
        have hgrand : (s.areas f.node).parent = some f'.node := (isTree_plug.mp h).1.1
        have hbody : fixupLoop (fuel + 1) s z =
            (fixupSide f'.side s z f.node f'.node).bind fun r => fixupLoop fuel r.2 r.1 := by
          rw [fixupLoop, hparent']
          dsimp only
          rw [if_pos hred, hgrand]
          simp only [bind_eq_bind, bind_some, side_of_frame h hnodup]
        cases huncle : isRed s ((s.areas f'.node).child f'.side.other) with
        | true =>
          obtain ⟨_, s', htop, hy, hside, htree, hcolors⟩ := fixupSide_recolors h huncle
          rw [hside] at hbody
          exact .recolored hred htop hy htree hcolors hbody
        | false =>
          obtain ⟨_, p, _, s', hside, hparentz, hp, htree, hcolors⟩ := fixupSide_turns h hnodup huncle
          have htop : (s.areas f'.node).child f'.side.other = f'.sibling.top := (isTree_plug.mp h).1.2.2.2.2.2.2.1
          rw [htop] at huncle
          refine .turned hred huncle hp htree hcolors fun hfuel => ?_
          obtain ⟨_, rfl⟩ := Nat.exists_eq_succ_of_ne_zero hfuel.ne'
          have hpg : p ≠ f'.node := by
            rintro rfl
            have hself := ((Shape.nodup_node (nodup_plug (c := c) hnodup).1).1 f'.side).2
            rw [Frame.sub_side, ← inorder_straightened f'.side, hp] at hself
            exact hself (Shape.mem_inorder_node.mpr (.inl rfl))
          have hblack : colorOf s' p = .black := by rw [hcolors, update_of_ne hpg, update_self]
          rw [hbody, hside, bind_some, fixupLoop, hparentz]
          exact if_neg (not_red_iff.mpr hblack)
    · refine .black (not_red_iff.mp hred) ?_
      rw [fixupLoop, hparent']
      exact if_neg hred

lemma RootBlack.recolored {y : Word} (hroot : RootBlack s z)
    (h : IsTree (treeOf s) (plug (f :: f' :: c) t)) (hz : (s.areas z).parent = some f.node) (huncle : f'.sibling.top = some y)
    (htree : treeOf s' = treeOf s) (hcolors : colorOf s' = update (update (update (colorOf s) f.node .black) y .black)
    f'.node .red) :
    RootBlack s' f'.node := by
  obtain ⟨⟨hparentp, -, -, -, -, -, -, hholds, -⟩, -⟩ := isTree_plug.mp h
  have hparenty : (s.areas y).parent = some f'.node := by
    cases hshape : f'.sibling with
    | leaf =>
      simp [hshape] at huncle
    | node =>
      rw [hshape] at huncle hholds
      cases huncle
      exact hholds.1
  intro r hr hrg
  have hr' := (congrArg LinkedTree.Store.root htree).symm.trans hr
  have hnone := parent_of_root h hr'
  have hne : ∀ {x q : Word}, (s.areas x).parent = some q → r ≠ x := by
    rintro x q hx rfl
    simp [hnone] at hx
  rw [hcolors, update_of_ne hrg, update_of_ne (hne hparenty), update_of_ne (hne hparentp)]
  exact hroot r hr' (hne hz)

lemma fixupLoop_some {fuel : ℕ} (h : IsTree (treeOf s) (plug c (.node z sub))) (hnodup : (plug c (.node z sub)).inorder.Nodup)
    (hroot : RootBlack s z) (hfuel : c.length < fuel) : ∃ s', fixupLoop fuel s z = some s' := by
  induction fuel generalizing s c z sub with
  | zero => cases hfuel
  | succ fuel ih =>
    cases round_of_tree fuel h hnodup hroot with
    | root hexit => exact ⟨s, hexit⟩
    | black _ hexit => exact ⟨s, hexit⟩
    | @recolored f f' c y s' _ huncle _ htree hcolors hnext =>
      have hz := (isTree_plug.mp h).2.1
      have hroot' := hroot.recolored h hz huncle htree hcolors
      rw [hnext]
      rw [← htree] at h
      exact ih h hnodup hroot' (by simp only [List.length_cons] at hfuel; omega)
    | @turned f f' c p subp s' _ _ _ _ _ hexit =>
      simp only [List.length_cons] at hfuel
      exact ⟨s', hexit (by omega)⟩

lemma length_le_context (c : Ctx Word) : c.length ≤ (before c ++ after c).length := by
  induction c with
  | nil => exact Nat.zero_le _
  | cons f c ih =>
    obtain ⟨side, _, _⟩ := f
    rw [List.length_append] at ih
    cases side <;> simp [before, after] <;> omega

lemma length_context_lt (hnodup : (plug c (.node z sub)).inorder.Nodup) : c.length < walkFuel := by
  have hlength := Word.length_le_of_nodup hnodup
  have hcontext := length_le_context c
  rw [inorder_plug, List.length_append, List.length_append] at hlength
  rw [List.length_append] at hcontext
  have hnode : 0 < (Shape.node z sub).inorder.length := List.length_pos_of_mem (Shape.mem_inorder_node.mpr (.inl rfl))
  rw [walkFuel]
  omega

theorem vmaInsertFixup_some (h : IsTree (treeOf s) t) (hnodup : t.inorder.Nodup) (hz : z ∈ t.inorder)
    (hroot : RootBlack s z) : ∃ s', vmaInsertFixup s z = some s' := by
  obtain ⟨_, _, rfl⟩ := exists_plug hz
  obtain ⟨s', hloop⟩ := fixupLoop_some h hnodup hroot (length_context_lt hnodup)
  obtain ⟨t', htree, heq⟩ := fixupLoop_tree h hnodup hz hloop
  obtain ⟨r, hr⟩ : ∃ r, s'.task.vmaTreeRoot = some r := by
    have hroot' := htree.root
    cases t' with
    | leaf =>
      rw [← heq] at hz
      cases hz
    | node a => exact ⟨a, hroot'⟩
  rw [vmaInsertFixup, hloop]
  simp only [bind_eq_bind, bind_some, hr]
  exact ⟨_, rfl⟩

end loop

variable {l : List Word} {a vma : Word} {t : Shape Word}

def BlackRoot (s : Vm) : Prop := ∀ r, s.task.vmaTreeRoot = some r → colorOf s r = .black

def replacement (s : Vm) (vma : Word) : Option Word :=
  if (s.areas vma).left.isSome then (s.areas vma).left else (s.areas vma).right

lemma top_plug_cons (f : Frame Word) (c : Ctx Word) (t t' : Shape Word) : (plug (f :: c) t).top = (plug (f :: c) t').top := by
  induction c generalizing f t t' with
  | nil => rfl
  | cons f' c ih => exact ih f' _ _

lemma root_treeRemove (h : IsTree (treeOf s) t) (hnodup : t.inorder.Nodup) (hvma : vma ∈ t.inorder)
    (hremove : treeRemove s vma = some s') :
    s'.task.vmaTreeRoot = if s.task.vmaTreeRoot = some vma then replacement s vma else s.task.vmaTreeRoot := by
  obtain ⟨c, sub, rfl⟩ := exists_plug hvma
  have hrem : remove walkFuel (treeOf s) vma = some (treeOf s') := by
    rw [← treeOf_treeRemove, hremove]
    rfl
  have hroot : s.task.vmaTreeRoot = _ := h.root
  have hroot' : s'.task.vmaTreeRoot = _ := (isTree_remove h hnodup hrem).root
  cases c with
  | nil =>
    have hleft : (s.areas vma).left = (sub .left).top := h.holds.2.1 .left
    have hright : (s.areas vma).right = (sub .right).top := h.holds.2.1 .right
    have hself : s.task.vmaTreeRoot = some vma := hroot
    rw [if_pos hself, hroot', replacement, hleft, hright]
    cases hl : sub .left with
    | leaf => rfl
    | node => rfl
  | cons f c =>
    have hne : s.task.vmaTreeRoot ≠ some vma := by
      intro hsame
      have hparent : (s.areas vma).parent = some f.node := (isTree_plug.mp h).2.1
      simp [parent_of_root h hsame] at hparent
    rw [if_neg hne, hroot, hroot']
    exact top_plug_cons f c _ _

lemma colorOf_setNext (s : Vm) (a : Word) (n : Option Word) : colorOf (s.setNext a n) = colorOf s :=
  field_setArea_same VmaArea.color rfl

lemma colorOf_setPrev (s : Vm) (a : Word) (n : Option Word) : colorOf (s.setPrev a n) = colorOf s :=
  field_setArea_same VmaArea.color rfl

lemma colorOf_listInsert (s : Vm) (new : Word) : colorOf (listInsert s new) = colorOf s :=
  (TreeFree.onLink colorOf (fun s a => colorOf_setPrev s a _) _).trans (colorOf_setNext s new _)

lemma colorOf_listRemove (s : Vm) (vma : Word) : colorOf (listRemove s vma) = colorOf s := by
  have hbypass := bypass_view colorOf colorOf_setNext colorOf_setPrev s vma
  rw [listRemove_eq]
  split
  · exact hbypass
  · exact hbypass

lemma BlackRoot.congr (h : BlackRoot s) (hareas : s'.areas = s.areas) (htask : s'.task = s.task) : BlackRoot s' := by
  intro r hr
  rw [htask] at hr
  rw [colorOf, hareas]
  exact h r hr

lemma BlackRoot.setEnd (h : BlackRoot s) (a e : Word) : BlackRoot (s.setEnd a e) := by
  intro r hr
  have hcolor : colorOf (s.setEnd a e) = colorOf s := field_setArea_same VmaArea.color rfl
  rw [hcolor]
  exact h r hr

lemma Linked.root_mem (h : Linked s l) {r : Word} (hr : s.task.vmaTreeRoot = some r) : r ∈ l := by
  obtain ⟨t, ht, hperm⟩ := h.tree
  have hroot : s.task.vmaTreeRoot = t.top := ht.root
  rw [hr] at hroot
  exact hperm.mem_iff.mp (Shape.top_mem hroot.symm)

lemma BlackRoot.setArea (h : BlackRoot s) (hl : Linked s l) (ha : a ∉ l) (area : VmaArea) : BlackRoot (s.setArea a area) := by
  intro r hr
  have hra : r ≠ a := by
    rintro rfl
    exact ha (hl.root_mem hr)
  have hsame : (s.setArea a area).areas r = s.areas r := update_of_ne hra _ _
  rw [colorOf, hsame]
  exact h r hr

lemma BlackRoot.of_fixup (hfix : vmaInsertFixup s z = some s') : BlackRoot s' := by
  simp only [vmaInsertFixup, bind_eq_bind, bind_eq_some_iff, pure_def, Option.some.injEq] at hfix
  obtain ⟨_, -, r, hr, rfl⟩ := hfix
  intro r' hr'
  have hsame := Option.some.inj (hr'.symm.trans hr)
  rw [hsame, colorOf_setColor, update_self]

lemma BlackRoot.remove (h : BlackRoot s) (hl : Linked s l) (hvma : vma ∈ l) (hreplacement : s.task.vmaTreeRoot = some vma →
    isRed s (replacement s vma) = false) (hremove : treeRemove (listRemove s vma) vma = some s') : BlackRoot s' := by
  obtain ⟨t, _, hperm⟩ := hl.tree
  have ht₁ : IsTree (treeOf (listRemove s vma)) t := by
    rwa [listRemove_treeOf]
  have hroot₁ : (listRemove s vma).task.vmaTreeRoot = s.task.vmaTreeRoot :=
    congrArg LinkedTree.Store.root (listRemove_treeOf s vma)
  have hreplacement₁ : replacement (listRemove s vma) vma = replacement s vma := by
    have hleft : ((listRemove s vma).areas vma).left = (s.areas vma).left :=
      congrArg (fun σ : LinkedTree.Store Word => σ.child vma .left) (listRemove_treeOf s vma)
    have hright : ((listRemove s vma).areas vma).right = (s.areas vma).right :=
      congrArg (fun σ : LinkedTree.Store Word => σ.child vma .right) (listRemove_treeOf s vma)
    rw [replacement, hleft, hright, replacement]
  have hroot := root_treeRemove ht₁ (hperm.nodup_iff.mpr hl.nodup) (hperm.mem_iff.mpr hvma) hremove
  rw [hroot₁, hreplacement₁] at hroot
  intro r hr
  rw [linkFree_colorOf.treeRemove hremove, colorOf_listRemove]
  rw [hroot] at hr
  split_ifs at hr with hself
  · have hred := hreplacement hself
    rw [hr, isRed, decide_eq_false_iff_not] at hred
    cases hcolor : colorOf s r with
    | red => exact absurd hcolor hred
    | black => rfl
  · exact h r hr

variable {s₂ : Vm} {new : Word}

section runs

def fixupCall (s : Vm) : Call → Option (Vm × Word)
  | .map cpu kmalloc addr size flags =>
    if size = 0 ∨ addr &&& 0xFFF ≠ 0 then none
    else do
      let expand ← findArea s.areas (canExpand addr flags) walkFuel s.task.vmaListHead
      let overlap ← findArea s.areas (overlaps addr (roundUp size)) walkFuel s.task.vmaListHead
      if expand.isSome ∨ overlap.isSome then none
      else do
        let new ← kmalloc
        let s := s.setArea new (newArea addr (addr + roundUp size) flags)
        let (phys, pmm) := pmmAllocFrames s.pmm ((roundUp size).toNat / 4096)
        if phys = 0 then none
        else do
          let s ← backRange { s with pmm } cpu addr phys (roundUp size) flags
          let s ← treeInsert (listInsert s new) new
          return (s, new)
  | .unmap _ _ _ => none

variable {c : Call}

lemma fixupCall_cases (h : fixupCall s c = some (s₂, new)) :
    ∃ cpu addr size flags phys pmm s₁, c = .map cpu (some new) addr size flags ∧
      pmmAllocFrames s.pmm ((roundUp size).toNat / 4096) = (phys, pmm) ∧
      backRange { s.setArea new (newArea addr (addr + roundUp size) flags) with pmm } cpu addr phys (roundUp size) flags =
        some s₁ ∧
      treeInsert (listInsert s₁ new) new = some s₂ ∧
      vmaMap s cpu (some new) addr size flags =
        (vmaInsertFixup s₂ new).map fun s => (0, { s with task := { s.task with vmaCount := s.task.vmaCount + 1 } }) := by
  cases c with
  | unmap => cases h
  | map cpu kmalloc addr size flags =>
    simp only [fixupCall] at h
    split at h
    · cases h
    · rename_i hargs
      obtain ⟨hsize, haligned⟩ := not_or.mp hargs
      simp only [bind_eq_bind, bind_eq_some_iff] at h
      obtain ⟨_, hexpand, _, hoverlap, h⟩ := h
      split at h
      · cases h
      · rename_i hnone
        obtain ⟨hnoexpand, hnooverlap⟩ := not_or.mp hnone
        rw [not_isSome_iff_eq_none] at hnoexpand hnooverlap
        subst hnoexpand hnooverlap
        obtain ⟨new', rfl, hrest⟩ := bind_eq_some_iff.mp h
        rcases halloc : pmmAllocFrames s.pmm ((roundUp size).toNat / 4096) with ⟨phys, pmm⟩
        simp only [Vm.setArea, halloc] at hrest
        split at hrest
        · cases hrest
        · rename_i hphys
          obtain ⟨s₁, hback, hrest⟩ := bind_eq_some_iff.mp hrest
          obtain ⟨s₂', hinsert, hrest⟩ := bind_eq_some_iff.mp hrest
          obtain ⟨rfl, rfl⟩ := Prod.mk.inj (Option.some.inj hrest)
          refine ⟨cpu, addr, size, flags, phys, pmm, s₁, rfl, halloc, hback, hinsert, ?_⟩
          simp only [vmaMap, if_neg hsize, if_neg haligned, hexpand, bind_eq_bind, bind_some, hoverlap,
            Vm.setArea, halloc,
            if_neg hphys, hback, hinsert, isSome_none, Bool.false_eq_true, if_false]
          cases vmaInsertFixup s₂' new' with
          | none => rfl
          | some => rfl

def FixupSafe (s : Vm) : Prop :=
  ∀ c s₂ new, Call.Fresh s c → fixupCall s c = some (s₂, new) → RootBlack s₂ new ∧ (vmaInsertFixup s₂ new).isSome

def Call.BlackBelow (s : Vm) : Call → Prop
  | .map _ _ _ _ _ => True
  | .unmap _ addr size => ∀ r ∈ s.task.vmaTreeRoot, vmaFind s addr = some (some r) ∧
      addr ≤ (s.areas r).vmStart ∧ addr + size ≥ (s.areas r).vmEnd → isRed s (replacement s r) = false

instance (s : Vm) : (c : Call) → Decidable (c.BlackBelow s)
  | .map _ _ _ _ _ => .isTrue trivial
  | .unmap _ _ _ => Option.decidableForallMem s.task.vmaTreeRoot

lemma insertFrom_root {fuel : ℕ} {node : Word} (h : insertFrom new fuel s node = some s') :
    s'.task.vmaTreeRoot = s.task.vmaTreeRoot := by
  induction fuel generalizing node with
  | zero => cases h
  | succ fuel ih =>
    rw [insertFrom] at h
    split at h
    · cases h
      cases (if (s.areas new).vmStart < (s.areas node).vmStart then Side.left else .right) <;> rfl
    · exact ih h

lemma treeInsert_root (h : treeInsert s new = some s') {r : Word} (hr : s'.task.vmaTreeRoot = some r) (hne : r ≠ new) :
    s.task.vmaTreeRoot = some r := by
  rw [treeInsert] at h
  split at h
  · cases h
    exact absurd (Option.some.inj hr).symm hne
  · rwa [← insertFrom_root h]

lemma fixupSafe_of_blackRoot (h : Linked s l) (hblack : BlackRoot s) : FixupSafe s := by
  intro c s₂ new hfresh hcall
  obtain ⟨_, addr, size, flags, _, _, s₁, rfl, -, hback, hinsert, -⟩ := fixupCall_cases hcall
  rw [Call.Fresh, h.vmas_eq] at hfresh
  have hmem := hfresh new rfl
  obtain ⟨hareas, htask⟩ := backRange_areas hback
  have hlinked := (h.setArea hmem (newArea addr (addr + roundUp size) flags)).congr hareas htask
  have hblack₁ := (hblack.setArea h hmem (newArea addr (addr + roundUp size) flags)).congr hareas htask
  obtain ⟨-, hnoChild, _, -⟩ := backRange_newArea hback
  obtain ⟨t, _, hperm⟩ := hlinked.tree
  have hnodup := hperm.nodup_iff.mpr hlinked.nodup
  have hfresh' : new ∉ t.inorder := fun hin => hmem (hperm.mem_iff.mp hin)
  have ht₁ : IsTree (treeOf (listInsert s₁ new)) t := by
    rwa [listInsert_treeOf]
  have hchild : ∀ d, ((listInsert s₁ new).areas new).child d = none := by
    intro d
    rw [← treeOf_child, listInsert_treeOf]
    exact hnoChild d
  have hparent : ((listInsert s₁ new).areas new).parent = none := by
    rwa [← treeOf_parent, listInsert_treeOf]
  obtain ⟨_, ht₂, hperm₂⟩ := treeInsert_tree ht₁ hnodup hfresh' hchild hparent hinsert
  have hroot : RootBlack s₂ new := by
    intro r hr hne
    have hroot₁ : s₁.task.vmaTreeRoot = some r := by
      have hold := treeInsert_root hinsert hr hne
      rwa [show (listInsert s₁ new).task.vmaTreeRoot = s₁.task.vmaTreeRoot from
        congrArg LinkedTree.Store.root listInsert_treeOf] at hold
    rw [linkFree_colorOf.treeInsert hinsert, colorOf_listInsert]
    exact hblack₁ r hroot₁
  refine ⟨hroot, ?_⟩
  obtain ⟨_, hs₃⟩ := vmaInsertFixup_some ht₂ (hperm₂.nodup_iff.mpr (List.nodup_cons.mpr ⟨hfresh', hnodup⟩))
    (hperm₂.mem_iff.mpr List.mem_cons_self) hroot
  rw [hs₃]
  rfl

lemma step_blackRoot (h : Linked s l) (hblack : BlackRoot s) (hfresh : c.Fresh s) (hbelow : c.BlackBelow s)
    (hstep : step s c = some s') : BlackRoot s' := by
  cases c with
  | map =>
    obtain ⟨⟨code, s₁⟩, hmap, rfl⟩ := map_eq_some_iff.mp hstep
    rw [Call.Fresh, h.vmas_eq] at hfresh
    cases vmaMap_cases hmap with
    | refused => exact hblack
    | expandFailed => exact hblack.congr rfl rfl
    | expanded _ _ _ _ hback =>
      obtain ⟨hareas, htask⟩ := backRange_areas hback
      exact (hblack.congr hareas htask).setEnd _ _
    | insertFailed hnew => exact (hblack.setArea h (hfresh _ hnew) _).congr rfl rfl
    | inserted _ _ _ _ _ _ _ hfixup => exact fun r hr => BlackRoot.of_fixup hfixup r hr
  | unmap =>
    obtain ⟨⟨_, s₁⟩, hunmap, rfl⟩ := map_eq_some_iff.mp hstep
    cases vmaUnmap_cases hunmap with
    | refused => exact hblack
    | kept _ hpages =>
      obtain ⟨hareas, htask⟩ := unmapPages_areas hpages
      exact hblack.congr hareas htask
    | trimmed _ hpages =>
      obtain ⟨hareas, htask⟩ := unmapPages_areas hpages
      exact (hblack.congr hareas htask).setEnd _ _
    | @removed vma s₁ s₂ hfind hpages hremove hwhole =>
      obtain ⟨hareas, htask⟩ := unmapPages_areas hpages
      obtain ⟨hvma, -⟩ := h.vmaFind hfind
      rw [hareas] at hwhole
      have hreplaced : s₁.task.vmaTreeRoot = some vma → isRed s₁ (replacement s₁ vma) = false := by
        intro hroot
        rw [htask] at hroot
        have hred := hbelow vma hroot ⟨hfind, hwhole⟩
        simpa only [replacement, isRed, hareas] using hred
      have hremoved := (hblack.congr hareas htask).remove (h.congr hareas htask) hvma hreplaced hremove
      exact fun r hr => hremoved r hr

lemma blackRoot_init {t : TaskVm} (hinit : s.task = vmaInitTask t) : BlackRoot s := by
  intro r hr
  rw [hinit] at hr
  cases hr

theorem fixup_safe {s : Vm} {t : TaskVm} {calls : List Call} (hinit : s.task = vmaInitTask t)
    (hfresh : Runs.Guarded step (fun s c => c.Fresh s) s calls)
    (hbelow : Runs.Guarded step (fun s c => c.BlackBelow s) s calls) : Runs.Always step FixupSafe s calls := by
  have hrun : Runs.Always step (fun s => (∃ l, Matches s l) ∧ BlackRoot s) s calls := by
    refine Runs.invariant ?_ ⟨⟨[], matches_init hinit⟩, blackRoot_init hinit⟩ (hfresh.and hbelow)
    rintro u c u' ⟨⟨l, hl⟩, hblack⟩ ⟨hc, hc'⟩ hstep
    exact ⟨step_matches hl hc hstep, step_blackRoot hl.linked hblack hc hc' hstep⟩
  apply hrun.mono
  rintro u ⟨⟨l, hl⟩, hblack⟩
  exact fixupSafe_of_blackRoot hl.linked hblack

def leftDeep : List Call :=
  [.map none (some 0x8000) 0x5000 0x1000 2, .map none (some 0x9000) 0x1000 0x1000 1, .map none (some 0xA000) 0x9000 0x1000 2,
    .unmap none 0x1000 0x1000]

theorem fixup_safe_leftDeep : ∃ s, Runs.run step blankVm leftDeep = some s ∧
    (fixupCall s (.map none (some 0xB000) 0xB000 0x1000 1)).isSome ∧ FixupSafe s := by
  exact Runs.exists_of_check (fun s => (fixupCall s (.map none (some 0xB000) 0xB000 0x1000 1)).isSome) (by decide +kernel)
    fun s hrun hs => ⟨hs, (fixup_safe rfl (by decide +kernel) (by decide +kernel)).last hrun⟩

theorem red_root_left : ∃ s, Runs.run step blankVm [.map none (some 0x8000) 0x5000 0x1000 2,
      .map none (some 0x9000) 0x1000 0x1000 2, .unmap none 0x5000 0x1000] = some s ∧
    step s (.map none (some 0xA000) 0x9000 0x1000 2) = none ∧ ¬ FixupSafe s := by
  refine Runs.exists_of_check (fun s => vmas s = [0x9000] ∧ step s (.map none (some 0xA000) 0x9000 0x1000 2) = none ∧
    ∃ r ∈ fixupCall s (.map none (some 0xA000) 0x9000 0x1000 2), r.2 = 0xA000 ∧ vmaInsertFixup r.1 r.2 = none)
    (by decide +kernel) ?_
  rintro s hrun ⟨hvmas, hstep, ⟨s₂, new⟩, hfixup, rfl, hnone⟩
  refine ⟨hstep, fun hsafe => ?_⟩
  have hfresh : Call.Fresh s (.map none (some 0xA000) 0x9000 0x1000 2) := by
    rw [Call.Fresh, hvmas]
    simp
  have hsome := (hsafe _ s₂ 0xA000 hfresh hfixup).2
  rw [hnone] at hsome
  cases hsome

end runs

end KernelSmp.Memory.VmaRanges
