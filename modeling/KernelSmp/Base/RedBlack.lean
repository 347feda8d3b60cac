import KernelSmp.Base.LinkedTree
import Mathlib.Tactic

/-! Red-black trees: the balance of a shape under a colouring of its nodes, the balance of a context
around its hole, and the two ways in which a red node below a red parent is repaired. -/

namespace KernelSmp.Base.LinkedTree

open Function List

variable {α : Type*}

def topRed (red : α → Bool) (t : Shape α) : Bool := t.top.any red

inductive Balanced (red : α → Bool) : Shape α → ℕ → Prop
  | leaf : Balanced red .leaf 0
  | red {a : α} {sub : Side → Shape α} {n : ℕ} (ha : red a = true) (hblack : ∀ d, topRed red (sub d) = false)
      (hsub : ∀ d, Balanced red (sub d) n) : Balanced red (.node a sub) n
  | black {a : α} {sub : Side → Shape α} {n : ℕ} (ha : red a = false) (hsub : ∀ d, Balanced red (sub d) n) :
      Balanced red (.node a sub) (n + 1)

structure RedBlack (red : α → Bool) (t : Shape α) : Prop where
  root : topRed red t = false
  balanced : ∃ n, Balanced red t n

variable {red red' : α → Bool} {t : Shape α} {n : ℕ}

lemma topRed_congr (h : ∀ a ∈ t.inorder, red' a = red a) : topRed red' t = topRed red t := by
  cases t with
  | leaf => rfl
  | node a => exact h a (Shape.mem_inorder_node.mpr (.inl rfl))

lemma Balanced.congr (hbal : Balanced red t n) (h : ∀ a ∈ t.inorder, red' a = red a) : Balanced red' t n := by
  induction hbal with
  | leaf => exact .leaf
  | @red a sub n ha hblack hsub ih =>
    have hin := fun d b hb => h b (Shape.mem_inorder_node.mpr (.inr ⟨d, hb⟩))
    refine .red ((h a (Shape.mem_inorder_node.mpr (.inl rfl))).trans ha) (fun d => ?_) fun d => ih d (hin d)
    rw [topRed_congr (hin d)]
    exact hblack d
  | @black a sub n ha hsub ih =>
    refine .black ((h a (Shape.mem_inorder_node.mpr (.inl rfl))).trans ha) fun d => ih d fun b hb => ?_
    exact h b (Shape.mem_inorder_node.mpr (.inr ⟨d, hb⟩))

lemma Balanced.height_le (h : Balanced red t n) : t.height ≤ 2 * n + if topRed red t then 1 else 0 := by
  induction h with
  | leaf => exact Nat.zero_le _
  | @red a sub n ha hblack hsub ih =>
    have hleft := ih .left
    have hright := ih .right
    simp only [hblack, Bool.false_eq_true, if_false] at hleft hright
    have htop : topRed red (.node a sub) = true := ha
    rw [Shape.height, htop, if_pos rfl]
    omega
  | @black a sub n ha hsub ih =>
    have hshort : ∀ d, (sub d).height ≤ 2 * n + 1 := by
      intro d
      refine Nat.le_trans (ih d) ?_
      split <;> omega
    have hleft := hshort .left
    have hright := hshort .right
    rw [Shape.height]
    omega

lemma Balanced.pow_le (h : Balanced red t n) : 2 ^ n ≤ t.inorder.length + 1 := by
  induction h with
  | leaf => exact Nat.le_refl _
  | @red a sub n ha hblack hsub ih =>
    have hleft := ih .left
    rw [Shape.inorder, length_append]
    omega
  | @black a sub n ha hsub ih =>
    have hleft := ih .left
    have hright := ih .right
    rw [Shape.inorder, length_append, length_cons, Nat.pow_succ]
    omega

theorem RedBlack.height_le (h : RedBlack red t) : 2 ^ t.height ≤ (t.inorder.length + 1) ^ 2 := by
  obtain ⟨n, hn⟩ := h.balanced
  have hheight := hn.height_le
  rw [h.root, if_neg Bool.false_ne_true, Nat.add_zero] at hheight
  calc 2 ^ t.height ≤ 2 ^ (2 * n) := Nat.pow_le_pow_right Nat.two_pos hheight
    _ = (2 ^ n) ^ 2 := by rw [Nat.mul_comm, Nat.pow_mul]
    _ ≤ (t.inorder.length + 1) ^ 2 := Nat.pow_le_pow_left hn.pow_le 2

variable {c : Ctx α} {f : Frame α} {k : Bool}

def Fits (red : α → Bool) : Ctx α → Bool → ℕ → Prop
  | [], k, _ => k = false
  | f :: c, k, n => Balanced red f.sibling n ∧ (red f.node = true → k = false ∧ topRed red f.sibling = false) ∧
    Fits red c (red f.node) (if red f.node then n else n + 1)

lemma balanced_frame (h : Balanced red t n) (hsibling : Balanced red f.sibling n)
    (hcolors : red f.node = true → topRed red t = false ∧ topRed red f.sibling = false) :
    Balanced red (f.plug t) (if red f.node then n else n + 1) := by
  have hsub : ∀ d, Balanced red (f.sub t d) n := by
    intro d
    rcases Side.eq_or_other f.side d with rfl | rfl
    · rwa [Frame.sub_side]
    · rwa [Frame.sub_other]
  cases hred : red f.node with
  | false => exact .black hred hsub
  | true =>
    refine .red hred (fun d => ?_) hsub
    rcases Side.eq_or_other f.side d with rfl | rfl
    · rw [Frame.sub_side]
      exact (hcolors hred).1
    · rw [Frame.sub_other]
      exact (hcolors hred).2

lemma redBlack_plug (h : Balanced red t n) (hfits : Fits red c (topRed red t) n) : RedBlack red (plug c t) := by
  induction c generalizing t n with
  | nil => exact ⟨hfits, n, h⟩
  | cons f c ih =>
    obtain ⟨hsibling, hcolors, hrest⟩ := hfits
    exact ih (balanced_frame h hsibling hcolors) hrest

lemma fits_of_redBlack (h : RedBlack red (plug c t)) : ∃ n, Balanced red t n ∧ Fits red c (topRed red t) n := by
  induction c generalizing t with
  | nil =>
    obtain ⟨hroot, n, hn⟩ := h
    exact ⟨n, hn, hroot⟩
  | cons f c ih =>
    obtain ⟨m, hbal, hfits⟩ := ih h
    cases hbal with
    | red ha hblack hsub =>
      have hside := hsub f.side
      have hother := hsub f.side.other
      rw [Frame.sub_side] at hside
      rw [Frame.sub_other] at hother
      refine ⟨m, hside, hother, fun _ => ?_, ?_⟩
      · exact ⟨f.sub_side t ▸ hblack f.side, f.sub_other t ▸ hblack f.side.other⟩
      · rw [ha, if_pos rfl]
        rwa [show topRed red (f.plug t) = true from ha] at hfits
    | @black _ _ m ha hsub =>
      have hside := hsub f.side
      have hother := hsub f.side.other
      rw [Frame.sub_side] at hside
      rw [Frame.sub_other] at hother
      refine ⟨m, hside, hother, fun hred => ?_, ?_⟩
      · simp [ha] at hred
      · rw [ha, if_neg Bool.false_ne_true]
        rwa [show topRed red (f.plug t) = false from ha] at hfits

lemma Fits.blacken (h : Fits red c k n) : Fits red c false n := by
  cases c with
  | nil => rfl
  | cons => exact ⟨h.1, fun hred => ⟨rfl, (h.2.1 hred).2⟩, h.2.2⟩

lemma Fits.below_black (h : Fits red (f :: c) false n) (hf : red f.node = false) : Fits red (f :: c) k n := by
  refine ⟨h.1, fun hred => ?_, h.2.2⟩
  simp [hf] at hred

lemma Fits.congr (h : Fits red c k n) (hsame : ∀ a ∈ before c ++ after c, red' a = red a) : Fits red' c k n := by
  induction c generalizing k n with
  | nil => exact h
  | cons f c ih =>
    obtain ⟨hsibling, _, hrest⟩ := h
    have hnode := hsame _ (mem_context_cons.mpr (.inl rfl))
    have hbelow := fun a ha => hsame a (mem_context_cons.mpr (.inr (.inl ha)))
    refine ⟨hsibling.congr hbelow, ?_, ?_⟩
    · rwa [hnode, topRed_congr hbelow]
    · rw [hnode]
      exact ih hrest fun a ha => hsame a (mem_context_cons.mpr (.inr (.inr ha)))

lemma Fits.topRed_plug (h : Fits red (f :: c) k n) : topRed red (plug (f :: c) t) = false := by
  induction c generalizing f t k n with
  | nil => exact h.2.2
  | cons f' c ih => exact ih h.2.2

lemma Fits.below_red {f' : Frame α} (h : Fits red (f :: f' :: c) false n) (hf : red f.node = true) :
    Balanced red f.sibling n ∧ topRed red f.sibling = false ∧ Balanced red f'.sibling n ∧ Fits red c false (n + 1) := by
  obtain ⟨hsibling, hblack, huncle, hcolors, hrest⟩ := h
  rw [hf] at hcolors
  have hf' : red f'.node = false := by
    cases hred : red f'.node with
    | false => rfl
    | true => cases (hcolors hred).1
  rw [hf, if_pos rfl] at huncle
  rw [hf, hf', if_pos rfl, if_neg Bool.false_ne_true] at hrest
  exact ⟨hsibling, (hblack hf).2, huncle, hrest⟩

lemma redBlack_take_out {a : α} (h : RedBlack red (plug c (.node a fun _ => .leaf))) (ha : red a = true ∨ c = []) :
    RedBlack red (plug c .leaf) := by
  rcases ha with ha | rfl
  · obtain ⟨_, hbal, hfits⟩ := fits_of_redBlack h
    cases hbal with
    | red _ _ hsub => exact redBlack_plug (hsub .left) hfits.blacken
    | black hblack =>
      simp [ha] at hblack
  · exact ⟨rfl, 0, .leaf⟩

variable {f' : Frame α} {d : Side}

lemma recolored {y : α} (h : Balanced red t n) (hfits : Fits red (f :: f' :: c) false n) (hp : red f.node = true)
    (huncle : f'.sibling.top = some y) (hy : red y = true) (hnodup : (plug (f :: f' :: c) t).inorder.Nodup)
    (hp' : red' f.node = false) (hy' : red' y = false) (hg' : red' f'.node = true)
    (hrest : ∀ a, a ≠ f.node → a ≠ y → a ≠ f'.node → red' a = red a) :
    Balanced red' (f'.plug (f.plug t)) (n + 1) ∧ Fits red' c false (n + 1) := by
  obtain ⟨_, -, huncles, hctx⟩ := hfits.below_red hp
  obtain ⟨hnode, _, hapart⟩ := nodup_plug (c := c) hnodup
  obtain ⟨hsubs, hdisj⟩ := Shape.nodup_node hnode
  have hside := hsubs f'.side
  have hother := hsubs f'.side.other
  have hcross := hdisj f'.side
  rw [Frame.sub_side] at hside hcross
  rw [Frame.sub_other] at hother hcross
  obtain ⟨hsubsp, -⟩ := Shape.nodup_node hside.1
  have hyin := Shape.top_mem huncle
  have hpin : f.node ∈ (f.plug t).inorder := Shape.mem_inorder_node.mpr (.inl rfl)
  have hbelow : ∀ e, ∀ a ∈ (f.sub t e).inorder, red' a = red a := by
    intro e a ha
    have hin : a ∈ (f.plug t).inorder := Shape.mem_inorder_node.mpr (.inr ⟨e, ha⟩)
    apply hrest
    · rintro rfl
      exact (hsubsp e).2 ha
    · rintro rfl
      exact hcross _ hin hyin
    · rintro rfl
      exact hside.2 hin
  have hparent : Balanced red' (f.plug t) (n + 1) := by
    refine .black hp' fun e => ?_
    apply Balanced.congr _ (hbelow e)
    rcases Side.eq_or_other f.side e with rfl | rfl
    · rwa [Frame.sub_side]
    · rwa [Frame.sub_other]
  have hblackUncle : Balanced red' f'.sibling (n + 1) := by
    cases hshape : f'.sibling with
    | leaf =>
      simp [hshape] at huncle
    | node b sub =>
      rw [hshape] at huncle huncles hother hcross
      obtain rfl := Option.some.inj huncle
      cases huncles with
      | black hb =>
        simp [hb] at hy
      | red hb hblack hsub =>
        refine .black hy' fun e => (hsub e).congr fun a ha => ?_
        have hin : a ∈ (Shape.node b sub).inorder := Shape.mem_inorder_node.mpr (.inr ⟨e, ha⟩)
        apply hrest
        · rintro rfl
          exact hcross _ hpin hin
        · rintro rfl
          exact ((Shape.nodup_node hother.1).1 e).2 ha
        · rintro rfl
          exact hother.2 hin
  refine ⟨?_, hctx.congr fun a ha => ?_⟩
  · have hplug := balanced_frame hparent hblackUncle fun _ => ⟨hp', by rw [topRed, huncle]; exact hy'⟩
    rwa [hg', if_pos rfl] at hplug
  · have hout : ∀ b ∈ (f'.plug (f.plug t)).inorder, a ≠ b := by
      rintro b hb rfl
      exact hapart _ hb ha
    apply hrest
    · apply hout
      exact Shape.mem_inorder_node.mpr (.inr ⟨f'.side, by rwa [Frame.sub_side]⟩)
    · apply hout
      exact Shape.mem_inorder_node.mpr (.inr ⟨f'.side.other, by rwa [Frame.sub_other]⟩)
    · exact hout _ (Shape.mem_inorder_node.mpr (.inl rfl))

def straightened (d : Side) (f : Frame α) (z : α) (sub : Side → Shape α) : Shape α :=
  if f.side = d then f.plug (.node z sub) else rotated d f.node (f.sub (.node z sub)) z sub

lemma straightened_cases (d : Side) (f : Frame α) (z : α) (sub : Side → Shape α) :
    (f.side = d ∧ straightened d f z sub = .node f.node (f.sub (.node z sub))) ∨
    (f.side = d.other ∧ straightened d f z sub =
      .node z (update sub d (.node f.node (update (f.sub (.node z sub)) d.other (sub d))))) := by
  rcases Side.eq_or_other d f.side with hside | hside
  · exact .inl ⟨hside, if_pos hside⟩
  · refine .inr ⟨hside, if_neg ?_⟩
    rw [hside]
    exact Side.other_ne d

variable {sub : Side → Shape α}

lemma balanced_straightened {z p : α} {subp : Side → Shape α} (hp : straightened d f z sub = .node p subp)
    (h : Balanced red (.node z sub) n) (hz : red z = true) (hf : red f.node = true) (hsibling : Balanced red f.sibling n)
    (hblack : topRed red f.sibling = false) : (∀ e, Balanced red (subp e) n) ∧ topRed red (subp d.other) = false := by
  rcases straightened_cases d f z sub with ⟨hside, hshape⟩ | ⟨hside, hshape⟩
  · obtain ⟨-, rfl⟩ := Shape.node.inj (hp.symm.trans hshape)
    refine ⟨fun e => ?_, ?_⟩
    · rcases Side.eq_or_other f.side e with rfl | rfl
      · rwa [Frame.sub_side]
      · rwa [Frame.sub_other]
    · rwa [← hside, Frame.sub_other]
  · obtain ⟨-, rfl⟩ := Shape.node.inj (hp.symm.trans hshape)
    have hd : d = f.side.other := by rw [hside, Side.other_other]
    obtain ⟨hsubz, hblackz⟩ : (∀ e, Balanced red (sub e) n) ∧ ∀ e, topRed red (sub e) = false := by
      cases h with
      | red ha hblack hsub => exact ⟨hsub, hblack⟩
      | black ha =>
        simp [ha] at hz
    have hparent : Balanced red (.node f.node (update (f.sub (.node z sub)) d.other (sub d))) n := by
      have hinner : ∀ e, update (f.sub (.node z sub)) d.other (sub d) e = if e = d then f.sibling else sub d := by
        intro e
        rcases Side.eq_or_other d e with rfl | rfl
        · rw [if_pos rfl, update_of_ne (Side.other_ne _).symm, hd, Frame.sub_other]
        · rw [if_neg (Side.other_ne d), update_self]
      refine .red hf (fun e => ?_) fun e => ?_
      · rw [hinner]
        split
        · exact hblack
        · exact hblackz d
      · rw [hinner]
        split
        · exact hsibling
        · exact hsubz d
    refine ⟨fun e => ?_, ?_⟩
    · rcases Side.eq_or_other d e with rfl | rfl
      · rwa [update_self]
      · rw [update_of_ne (Side.other_ne d)]
        exact hsubz d.other
    · rw [update_of_ne (Side.other_ne d)]
      exact hblackz d.other

lemma balanced_turned {g p : α} {subp : Side → Shape α} (hp : sub d = .node p subp) (hsubp : ∀ e, Balanced red (subp e) n)
    (hinner : topRed red (subp d.other) = false) (huncle : Balanced red (sub d.other) n)
    (hblack : topRed red (sub d.other) = false) (hnodup : (Shape.node g sub).inorder.Nodup)
    (hp' : red' p = false) (hg' : red' g = true) (hrest : ∀ a, a ≠ p → a ≠ g → red' a = red a) :
    Balanced red' (rotated d.other g sub p subp) (n + 1) := by
  obtain ⟨hsubs, hdisj⟩ := Shape.nodup_node hnodup
  have hside := hsubs d
  have hcross := hdisj d
  rw [hp] at hside hcross
  have hbelow : ∀ e, ∀ a ∈ (subp e).inorder, red' a = red a := by
    intro e a ha
    apply hrest
    · rintro rfl
      exact ((Shape.nodup_node hside.1).1 e).2 ha
    · rintro rfl
      exact hside.2 (Shape.mem_inorder_node.mpr (.inr ⟨e, ha⟩))
  have hbelow' : ∀ a ∈ (sub d.other).inorder, red' a = red a := by
    intro a ha
    apply hrest
    · rintro rfl
      exact hcross _ (Shape.mem_inorder_node.mpr (.inl rfl)) ha
    · rintro rfl
      exact (hsubs d.other).2 ha
  have hgrand : Balanced red' (.node g (update sub d (subp d.other))) n := by
    refine .red hg' (fun e => ?_) fun e => ?_
    · rcases Side.eq_or_other d e with rfl | rfl
      · rwa [update_self, topRed_congr (hbelow _)]
      · rwa [update_of_ne (Side.other_ne d), topRed_congr hbelow']
    · rcases Side.eq_or_other d e with rfl | rfl
      · rw [update_self]
        exact (hsubp _).congr (hbelow _)
      · rw [update_of_ne (Side.other_ne d)]
        exact huncle.congr hbelow'
  rw [rotated, Side.other_other]
  refine .black hp' fun e => ?_
  rcases Side.eq_or_other d e with rfl | rfl
  · rw [update_of_ne (Side.other_ne _).symm]
    exact (hsubp _).congr (hbelow _)
  · rwa [update_self]

lemma Balanced.blacken {a : α} (h : Balanced red (.node a sub) n) (hnodup : (Shape.node a sub).inorder.Nodup)
    (ha : red' a = false) (hrest : ∀ b, b ≠ a → red' b = red b) : RedBlack red' (.node a sub) := by
  have hsame : ∀ d, ∀ b ∈ (sub d).inorder, red' b = red b := by
    intro d b hb
    apply hrest
    rintro rfl
    exact ((Shape.nodup_node hnodup).1 d).2 hb
  refine ⟨ha, ?_⟩
  cases h with
  | red _ _ hsub => exact ⟨n + 1, .black ha fun d => (hsub d).congr (hsame d)⟩
  | black _ hsub => exact ⟨_, .black ha fun d => (hsub d).congr (hsame d)⟩

end KernelSmp.Base.LinkedTree
