import Mathlib.Data.List.Nodup
import Mathlib.Logic.Function.Basic

/-! Binary trees in a store whose nodes have two child links and a parent link. A `Shape` is the tree
that the links draw, a context is the rest of a shape around one of its subtrees. -/

namespace KernelSmp.Base

open Function List Option

inductive Side
  | left
  | right
deriving DecidableEq, Repr

def Side.other : Side → Side
  | left => right
  | right => left

@[simp] lemma Side.other_other (d : Side) : d.other.other = d := by cases d <;> rfl

lemma Side.other_ne (d : Side) : d.other ≠ d := by cases d <;> decide

lemma Side.eq_or_other (d e : Side) : e = d ∨ e = d.other := by cases d <;> cases e <;> simp [Side.other]

namespace LinkedTree

variable {α : Type*}

inductive Shape (α : Type*)
  | leaf
  | node (a : α) (sub : Side → Shape α)

namespace Shape

def top : Shape α → Option α
  | leaf => none
  | node a _ => some a

@[simp] lemma top_leaf : (leaf : Shape α).top = none := rfl
@[simp] lemma top_node (a : α) (sub : Side → Shape α) : (node a sub).top = some a := rfl

def inorder : Shape α → List α
  | leaf => []
  | node a sub => (sub .left).inorder ++ a :: (sub .right).inorder

lemma mem_inorder_node {a b : α} {sub : Side → Shape α} : b ∈ (node a sub).inorder ↔ b = a ∨ ∃ d, b ∈ (sub d).inorder := by
  rw [inorder, mem_append, mem_cons]
  constructor
  · rintro (h | h | h)
    · exact .inr ⟨.left, h⟩
    · exact .inl h
    · exact .inr ⟨.right, h⟩
  · rintro (h | ⟨d, h⟩)
    · exact .inr (.inl h)
    · cases d with
      | left => exact .inl h
      | right => exact .inr (.inr h)

def height : Shape α → ℕ
  | leaf => 0
  | node _ sub => max (sub .left).height (sub .right).height + 1

lemma height_sub_lt (a : α) (sub : Side → Shape α) (d : Side) : (sub d).height < (node a sub).height := by
  rw [height]
  cases d <;> omega

lemma height_le_length (t : Shape α) : t.height ≤ t.inorder.length := by
  induction t with
  | leaf => exact Nat.le_refl _
  | node a sub ih =>
    have hleft := ih .left
    have hright := ih .right
    rw [height, inorder, length_append, length_cons]
    omega

lemma top_mem {t : Shape α} {a : α} (h : t.top = some a) : a ∈ t.inorder := by
  cases t with
  | leaf => cases h
  | node =>
    cases h
    exact mem_inorder_node.mpr (.inl rfl)

lemma nodup_node {a : α} {sub : Side → Shape α} (h : (node a sub).inorder.Nodup) :
    (∀ d, (sub d).inorder.Nodup ∧ a ∉ (sub d).inorder) ∧ ∀ d, ∀ b ∈ (sub d).inorder, b ∉ (sub d.other).inorder := by
  rw [inorder, nodup_append', nodup_cons] at h
  obtain ⟨hleft, ⟨ha, hright⟩, hdisj⟩ := h
  refine ⟨fun d => ?_, fun d b hb hb' => ?_⟩
  · cases d with
    | left => exact ⟨hleft, fun hmem => hdisj hmem mem_cons_self⟩
    | right => exact ⟨hright, ha⟩
  · cases d with
    | left => exact hdisj hb (mem_cons_of_mem a hb')
    | right => exact hdisj hb' (mem_cons_of_mem a hb)

end Shape

structure Store (α : Type*) where
  root : Option α
  child : α → Side → Option α
  parent : α → Option α

def Holds (σ : Store α) : Option α → Shape α → Prop
  | _, .leaf => True
  | p, .node a sub => σ.parent a = p ∧ (∀ d, σ.child a d = (sub d).top) ∧ ∀ d, Holds σ (some a) (sub d)

structure IsTree (σ : Store α) (t : Shape α) : Prop where
  root : σ.root = t.top
  holds : Holds σ none t

def Draws (child : α → Side → Option α) : Option α → Shape α → Prop
  | link, .leaf => link = none
  | link, .node a sub => link = some a ∧ ∀ d, Draws child (child a d) (sub d)

lemma Holds.draws {σ : Store α} {p : Option α} {t : Shape α} (h : Holds σ p t) : Draws σ.child t.top t := by
  induction t generalizing p with
  | leaf => rfl
  | node a sub ih =>
    refine ⟨rfl, fun d => ?_⟩
    rw [h.2.1 d]
    exact ih d (h.2.2 d)

lemma IsTree.draws {σ : Store α} {t : Shape α} (h : IsTree σ t) : Draws σ.child σ.root t := by
  rw [h.root]
  exact h.holds.draws

lemma Holds.congr {σ σ' : Store α} {p : Option α} {t : Shape α} (h : Holds σ p t)
    (hchild : ∀ a ∈ t.inorder, σ'.child a = σ.child a) (hparent : ∀ a ∈ t.inorder, σ'.parent a = σ.parent a) :
    Holds σ' p t := by
  induction t generalizing p with
  | leaf => trivial
  | node a sub ih =>
    obtain ⟨hp, hc, hsub⟩ := h
    have ha : a ∈ (Shape.node a sub).inorder := Shape.mem_inorder_node.mpr (.inl rfl)
    have hin : ∀ d, ∀ b ∈ (sub d).inorder, b ∈ (Shape.node a sub).inorder :=
      fun d b hb => Shape.mem_inorder_node.mpr (.inr ⟨d, hb⟩)
    refine ⟨(hparent a ha).trans hp, fun d => ?_, fun d => ?_⟩
    · rw [hchild a ha]
      exact hc d
    · exact ih d (hsub d) (fun b hb => hchild b (hin d b hb)) fun b hb => hparent b (hin d b hb)

lemma Holds.unique {σ : Store α} {p q : Option α} {t t' : Shape α} (h : Holds σ p t) (h' : Holds σ q t')
    (htop : t.top = t'.top) : t = t' := by
  induction t generalizing t' p q with
  | leaf =>
    cases t' with
    | leaf => rfl
    | node => cases htop
  | node a sub ih =>
    cases t' with
    | leaf => cases htop
    | node b sub' =>
      cases htop
      have hsub : sub = sub' := by
        funext d
        exact ih d (h.2.2 d) (h'.2.2 d) ((h.2.1 d).symm.trans (h'.2.1 d))
      rw [hsub]

lemma IsTree.unique {σ : Store α} {t t' : Shape α} (h : IsTree σ t) (h' : IsTree σ t') : t = t' :=
  h.holds.unique h'.holds (h.root.symm.trans h'.root)

lemma Holds.reparent {σ σ' : Store α} {p q : Option α} {t : Shape α} (h : Holds σ p t) (hnodup : t.inorder.Nodup)
    (hchild : ∀ a ∈ t.inorder, σ'.child a = σ.child a) (hparent : ∀ a ∈ t.inorder, some a ≠ t.top → σ'.parent a = σ.parent a)
    (htop : ∀ a ∈ t.top, σ'.parent a = q) : Holds σ' q t := by
  cases t with
  | leaf => trivial
  | node a sub =>
    obtain ⟨-, hc, hsub⟩ := h
    have hin : ∀ d, ∀ b ∈ (sub d).inorder, b ∈ (Shape.node a sub).inorder :=
      fun d b hb => Shape.mem_inorder_node.mpr (.inr ⟨d, hb⟩)
    refine ⟨htop a rfl, fun d => ?_, fun d => ?_⟩
    · rw [hchild a (Shape.mem_inorder_node.mpr (.inl rfl))]
      exact hc d
    · apply (hsub d).congr fun b hb => hchild b (hin d b hb)
      intro b hb
      apply hparent b (hin d b hb)
      intro hba
      cases hba
      exact ((Shape.nodup_node hnodup).1 d).2 hb

section context

structure Frame (α : Type*) where
  side : Side
  node : α
  sibling : Shape α

abbrev Ctx (α : Type*) := List (Frame α)

def Frame.sub (f : Frame α) (t : Shape α) (d : Side) : Shape α := if d = f.side then t else f.sibling

@[simp] lemma Frame.sub_side (f : Frame α) (t : Shape α) : f.sub t f.side = t := if_pos rfl

@[simp] lemma Frame.sub_other (f : Frame α) (t : Shape α) : f.sub t f.side.other = f.sibling := if_neg (Side.other_ne f.side)

def Frame.plug (f : Frame α) (t : Shape α) : Shape α := .node f.node (f.sub t)

def plug : Ctx α → Shape α → Shape α
  | [], t => t
  | f :: c, t => plug c (f.plug t)

def above : Ctx α → Option α
  | [] => none
  | f :: _ => some f.node

def before : Ctx α → List α
  | [] => []
  | f :: c => match f.side with
    | .left => before c
    | .right => before c ++ (f.sibling.inorder ++ [f.node])

def after : Ctx α → List α
  | [] => []
  | f :: c => match f.side with
    | .left => f.node :: (f.sibling.inorder ++ after c)
    | .right => after c

def Around (σ : Store α) : Ctx α → Option α → Prop
  | [], link => σ.root = link
  | f :: c, link => σ.parent f.node = above c ∧ σ.child f.node f.side = link ∧
    σ.child f.node f.side.other = f.sibling.top ∧ Holds σ (some f.node) f.sibling ∧ Around σ c (some f.node)

variable {σ σ' : Store α} {c : Ctx α} {t t' : Shape α} {link link' : Option α}

lemma inorder_plug (c : Ctx α) (t : Shape α) : (plug c t).inorder = before c ++ t.inorder ++ after c := by
  induction c generalizing t with
  | nil => simp [plug, before, after]
  | cons f c ih =>
    obtain ⟨side, _, _⟩ := f
    rw [plug, ih]
    cases side <;> simp [Frame.plug, Frame.sub, Shape.inorder, before, after]

lemma length_sub_le_plug (c : Ctx α) (a : α) (sub : Side → Shape α) (d : Side) :
    (sub d).inorder.length ≤ (plug c (.node a sub)).inorder.length := by
  rw [inorder_plug, length_append, length_append, Shape.inorder, length_append, length_cons]
  cases d <;> omega

lemma isTree_plug : IsTree σ (plug c t) ↔ Around σ c t.top ∧ Holds σ (above c) t := by
  induction c generalizing t with
  | nil =>
    constructor
    · rintro ⟨hroot, hholds⟩
      exact ⟨hroot, hholds⟩
    · rintro ⟨hroot, hholds⟩
      exact ⟨hroot, hholds⟩
  | cons f c ih =>
    rw [plug, ih]
    constructor
    · rintro ⟨haround, hparent, hchild, hsub⟩
      have hin := hchild f.side
      have hout := hchild f.side.other
      have hsubIn := hsub f.side
      have hsubOut := hsub f.side.other
      rw [Frame.sub_side] at hin hsubIn
      rw [Frame.sub_other] at hout hsubOut
      exact ⟨⟨hparent, hin, hout, hsubOut, haround⟩, hsubIn⟩
    · rintro ⟨⟨hparent, _, _, _, haround⟩, _⟩
      refine ⟨haround, hparent, fun d => ?_, fun d => ?_⟩
      · rcases Side.eq_or_other f.side d with rfl | rfl
        · rwa [Frame.sub_side]
        · rwa [Frame.sub_other]
      · rcases Side.eq_or_other f.side d with rfl | rfl
        · rwa [Frame.sub_side]
        · rwa [Frame.sub_other]

lemma plug_sub (d : Side) (b : α) (sub : Side → Shape α) : Frame.plug ⟨d, b, sub d.other⟩ (sub d) = .node b sub := by
  rw [Frame.plug, Shape.node.injEq]
  refine ⟨rfl, funext fun e => ?_⟩
  rcases Side.eq_or_other d e with rfl | rfl
  · exact if_pos rfl
  · exact if_neg (Side.other_ne d)

lemma exists_plug {a : α} (h : a ∈ t.inorder) : ∃ c sub, t = plug c (.node a sub) := by
  have haround : ∀ c : Ctx α, ∃ c' sub, plug c t = plug c' (.node a sub) := by
    induction t with
    | leaf => cases h
    | node b sub ih =>
      intro c
      rcases Shape.mem_inorder_node.mp h with rfl | ⟨d, hd⟩
      · exact ⟨c, sub, rfl⟩
      · obtain ⟨c', sub', hc⟩ := ih d hd (⟨d, b, sub d.other⟩ :: c)
        rw [plug, plug_sub] at hc
        exact ⟨c', sub', hc⟩
  exact haround []

lemma mem_context_cons {f : Frame α} {a : α} : a ∈ before (f :: c) ++ after (f :: c) ↔
    a = f.node ∨ a ∈ f.sibling.inorder ∨ a ∈ before c ++ after c := by
  obtain ⟨side, _, _⟩ := f
  cases side <;> simp only [before, after, mem_append, mem_cons] <;> tauto

lemma Around.congr (h : Around σ c link) (hroot : σ'.root = σ.root)
    (hchild : ∀ a ∈ before c ++ after c, σ'.child a = σ.child a)
    (hparent : ∀ a ∈ before c ++ after c, σ'.parent a = σ.parent a) : Around σ' c link := by
  induction c generalizing link with
  | nil => exact hroot.trans h
  | cons f c ih =>
    obtain ⟨hp, _, _, hsub, hrest⟩ := h
    have hself : f.node ∈ before (f :: c) ++ after (f :: c) := mem_context_cons.mpr (.inl rfl)
    refine ⟨(hparent _ hself).trans hp, ?_, ?_, ?_, ?_⟩
    · rwa [hchild _ hself]
    · rwa [hchild _ hself]
    · exact hsub.congr (fun a ha => hchild a (mem_context_cons.mpr (.inr (.inl ha))))
        fun a ha => hparent a (mem_context_cons.mpr (.inr (.inl ha)))
    · exact ih hrest (fun a ha => hchild a (mem_context_cons.mpr (.inr (.inr ha))))
        fun a ha => hparent a (mem_context_cons.mpr (.inr (.inr ha)))

lemma parent_mem {a b : α} (h : IsTree σ t) (ha : a ∈ t.inorder) (hb : σ.parent a = some b) : b ∈ t.inorder := by
  obtain ⟨c, _, rfl⟩ := exists_plug ha
  have hparent := (isTree_plug.mp h).2.1
  rw [hb] at hparent
  cases c with
  | nil => cases hparent
  | cons f c =>
    cases hparent
    rw [inorder_plug, append_assoc, mem_append, mem_append]
    rcases mem_append.mp (mem_context_cons.mpr (.inl rfl) : f.node ∈ before (f :: c) ++ after (f :: c)) with hmem | hmem
    · exact .inl hmem
    · exact .inr (.inr hmem)

lemma nodup_plug (h : (plug c t).inorder.Nodup) :
    t.inorder.Nodup ∧ (before c ++ after c).Nodup ∧ ∀ a ∈ t.inorder, a ∉ before c ++ after c := by
  rw [inorder_plug, nodup_append', nodup_append'] at h
  obtain ⟨⟨hbefore, ht, hdisj⟩, hafter, hdisj'⟩ := h
  refine ⟨ht, nodup_append'.mpr ⟨hbefore, hafter, fun a ha ha' => ?_⟩, fun a ha hmem => ?_⟩
  · exact hdisj' (mem_append_left _ ha) ha'
  · rcases mem_append.mp hmem with hmem | hmem
    · exact hdisj hmem ha
    · exact hdisj' (mem_append_right _ ha) hmem

lemma sorted_fill {r : α → α → Prop} [IsTrans α r] {new : α} (h : (plug c .leaf).inorder.Pairwise r)
    (hway : ∀ f ∈ c, match f.side with | .left => r new f.node | .right => r f.node new) :
    (plug c (.node new fun _ => .leaf)).inorder.Pairwise r := by
  rw [inorder_plug, Shape.inorder, append_nil] at h
  obtain ⟨hbefore, hafter⟩ : (∀ a ∈ before c, r a new) ∧ ∀ b ∈ after c, r new b := by
    induction c with
    | nil => exact ⟨forall_mem_nil _, forall_mem_nil _⟩
    | cons f c ih =>
      obtain ⟨side, node, _⟩ := f
      obtain ⟨hnode, hrest⟩ := forall_mem_cons.mp hway
      cases side with
      | left =>
        simp only [after, pairwise_append, pairwise_cons, mem_cons, mem_append] at h hnode ⊢
        obtain ⟨hb, ⟨hfirst, hs, ha, -⟩, hcross⟩ := h
        obtain ⟨ihb, iha⟩ := ih (pairwise_append.mpr ⟨hb, ha, fun x hx y hy => hcross x hx y (.inr (.inr hy))⟩) hrest
        refine ⟨ihb, ?_⟩
        rintro y (rfl | hy | hy)
        · exact hnode
        · exact trans_of r hnode (hfirst y (.inl hy))
        · exact iha y hy
      | right =>
        simp only [before, pairwise_append, mem_append, mem_singleton] at h hnode ⊢
        obtain ⟨⟨hb, ⟨_, -, hlast⟩, -⟩, ha, hcross⟩ := h
        obtain ⟨ihb, iha⟩ := ih (pairwise_append.mpr ⟨hb, ha, fun x hx y hy => hcross x (.inl hx) y hy⟩) hrest
        refine ⟨?_, iha⟩
        rintro x (hx | hx | rfl)
        · exact ihb x hx
        · exact trans_of r (hlast x hx node rfl) hnode
        · exact hnode
  rw [inorder_plug]
  simp only [nil_append, append_assoc]
  obtain ⟨hb, ha, hcross⟩ := pairwise_append.mp h
  refine pairwise_append.mpr ⟨hb, pairwise_cons.mpr ⟨hafter, ha⟩, fun x hx y hy => ?_⟩
  rcases mem_cons.mp hy with rfl | hy
  · exact hbefore x hx
  · exact hcross x hx y hy

end context

section shapes

def rotated (d : Side) (x : α) (sub : Side → Shape α) (y : α) (sub' : Side → Shape α) : Shape α :=
  .node y (update sub' d (.node x (update sub d.other (sub' d))))

lemma inorder_rotated (d : Side) (x : α) {sub : Side → Shape α} {y : α} {sub' : Side → Shape α}
    (hy : sub d.other = .node y sub') : (rotated d x sub y sub').inorder = (Shape.node x sub).inorder := by
  cases d <;> simp only [Side.other] at hy <;> simp [rotated, Shape.inorder, hy, Side.other]

def hang : Shape α → Shape α → Shape α
  | .leaf, u => u
  | .node a sub, u => .node a (update sub .right (hang (sub .right) u))

lemma inorder_hang (t u : Shape α) : (hang t u).inorder = t.inorder ++ u.inorder := by
  induction t with
  | leaf => rfl
  | node a sub ih => simp [hang, Shape.inorder, ih]

lemma hang_leaf (t : Shape α) : hang t .leaf = t := by
  induction t with
  | leaf => rfl
  | node a sub ih => rw [hang, ih, update_eq_self]

lemma top_hang {t u : Shape α} {a : α} (h : t.top = some a) : (hang t u).top = some a := by
  cases t with
  | leaf => cases h
  | node => exact h

def rightmost (σ : Store α) : ℕ → α → Option α
  | 0, _ => none
  | fuel + 1, a =>
    match σ.child a .right with
    | none => some a
    | some b => rightmost σ fuel b

variable {σ : Store α} {t : Shape α} {p : Option α} {a : α}

lemma rightmost_mem {m : α} (fuel : ℕ) (h : Holds σ p t) (htop : t.top = some a) (hm : rightmost σ fuel a = some m) :
    m ∈ t.inorder := by
  induction fuel generalizing t p a with
  | zero => cases hm
  | succ fuel ih =>
    cases t with
    | leaf => cases htop
    | node b sub =>
      cases htop
      rw [rightmost, h.2.1 .right] at hm
      cases hr : sub .right with
      | leaf =>
        rw [hr] at hm
        cases hm
        exact Shape.mem_inorder_node.mpr (.inl rfl)
      | node =>
        rw [hr] at hm
        have hin := ih (h.2.2 .right) (by rw [hr]; rfl) hm
        exact Shape.mem_inorder_node.mpr (.inr ⟨.right, hin⟩)

lemma rightmost_some (fuel : ℕ) (h : Holds σ p t) (htop : t.top = some a) (hfuel : t.height ≤ fuel) :
    ∃ m, rightmost σ fuel a = some m := by
  induction fuel generalizing p t a with
  | zero =>
    cases t with
    | leaf => cases htop
    | node => exact absurd hfuel (Nat.not_succ_le_zero _)
  | succ fuel ih =>
    cases t with
    | leaf => cases htop
    | node b sub =>
      obtain rfl := Option.some.inj htop
      rw [rightmost, h.2.1 .right]
      cases hsub : (sub .right).top with
      | none => exact ⟨b, rfl⟩
      | some => exact ih (h.2.2 .right) hsub (Nat.le_of_lt_succ (Nat.lt_of_lt_of_le (Shape.height_sub_lt b sub .right) hfuel))

lemma Holds.hang {σ' : Store α} {u : Shape α} {m : α} (fuel : ℕ) (h : Holds σ p t) (hnodup : t.inorder.Nodup)
    (htop : t.top = some a) (hm : rightmost σ fuel a = some m)
    (hchild : ∀ b ∈ t.inorder, b ≠ m → σ'.child b = σ.child b) (hleft : σ'.child m .left = σ.child m .left)
    (hright : σ'.child m .right = u.top) (hparent : ∀ b ∈ t.inorder, σ'.parent b = σ.parent b) (hu : Holds σ' (some m) u) :
    Holds σ' p (hang t u) := by
  induction fuel generalizing t p a with
  | zero => cases hm
  | succ fuel ih =>
    cases t with
    | leaf => cases htop
    | node b sub =>
      obtain rfl := Option.some.inj htop
      obtain ⟨hp, hc, hsub⟩ := h
      obtain ⟨hsubs, hdisj⟩ := Shape.nodup_node hnodup
      have hin : ∀ d, ∀ x ∈ (sub d).inorder, x ∈ (Shape.node b sub).inorder :=
        fun d x hx => Shape.mem_inorder_node.mpr (.inr ⟨d, hx⟩)
      have hself : b ∈ (Shape.node b sub).inorder := Shape.mem_inorder_node.mpr (.inl rfl)
      rw [rightmost, hc .right] at hm
      -- the subtree on the left has none of the nodes on the way to `m`
      have hleftSub : m ∉ (sub .left).inorder → Holds σ' (some b) (sub .left) := by
        intro hml
        apply (hsub .left).congr
        · intro x hx
          apply hchild x (hin .left x hx)
          rintro rfl
          exact hml hx
        · exact fun x hx => hparent x (hin .left x hx)
      cases hr : sub .right with
      | leaf =>
        rw [hr] at hm
        obtain rfl := Option.some.inj hm
        rw [LinkedTree.hang, hr, LinkedTree.hang]
        refine ⟨(hparent b hself).trans hp, fun d => ?_, fun d => ?_⟩
        · cases d with
          | left => exact hleft.trans (hc .left)
          | right => exact hright
        · cases d with
          | left => exact hleftSub (hsubs .left).2
          | right => exact hu
      | node =>
        rw [hr] at hm
        have hm' := rightmost_mem fuel (hsub .right) (by rw [hr]; rfl) hm
        have hbm : b ≠ m := by
          rintro rfl
          exact (hsubs .right).2 hm'
        have hrest := ih (hsub .right) (hsubs .right).1 (by rw [hr]; rfl) hm
          (fun x hx => hchild x (hin .right x hx)) (fun x hx => hparent x (hin .right x hx))
        rw [LinkedTree.hang]
        refine ⟨(hparent b hself).trans hp, fun d => ?_, fun d => ?_⟩
        · rw [hchild b hself hbm]
          cases d with
          | left => exact hc .left
          | right =>
            rw [hc .right, update_self, hr]
            rfl
        · cases d with
          | left => exact hleftSub fun hml => hdisj .left m hml hm'
          | right => exact hrest

end shapes

section edits

variable [DecidableEq α] {σ : Store α} {c : Ctx α} {t : Shape α} {link link' p : Option α} {a b : α} {d : Side}

namespace Store

def setRoot (σ : Store α) (r : Option α) : Store α := { σ with root := r }

def setChild (σ : Store α) (a : α) (d : Side) (link : Option α) : Store α :=
  { σ with child := update σ.child a (update (σ.child a) d link) }

def setParent (σ : Store α) (a : α) (p : Option α) : Store α := { σ with parent := update σ.parent a p }

def setParentOf (σ : Store α) (link p : Option α) : Store α := link.elim σ fun a => σ.setParent a p

def setHole (σ : Store α) : Ctx α → Option α → Store α
  | [], link => σ.setRoot link
  | f :: _, link => σ.setChild f.node f.side link

@[simp] lemma setChild_root : (σ.setChild a d link).root = σ.root := rfl
@[simp] lemma setChild_parent : (σ.setChild a d link).parent = σ.parent := rfl
@[simp] lemma setParent_root : (σ.setParent a p).root = σ.root := rfl
@[simp] lemma setParent_child : (σ.setParent a p).child = σ.child := rfl

@[simp] lemma setChild_child_self : (σ.setChild a d link).child a d = link := by simp [setChild]

lemma setChild_child_other : (σ.setChild a d link).child a d.other = σ.child a d.other := by
  simp [setChild, Side.other_ne]

lemma setChild_child_of_ne (h : b ≠ a) : (σ.setChild a d link).child b = σ.child b := update_of_ne h _ _

@[simp] lemma setParent_parent_self : (σ.setParent a p).parent a = p := update_self ..

lemma setParent_parent_of_ne (h : b ≠ a) : (σ.setParent a p).parent b = σ.parent b := update_of_ne h _ _

@[simp] lemma setParentOf_root : (σ.setParentOf link p).root = σ.root := by cases link <;> rfl
@[simp] lemma setParentOf_child : (σ.setParentOf link p).child = σ.child := by cases link <;> rfl

lemma setParentOf_parent_of_ne (h : some b ≠ link) : (σ.setParentOf link p).parent b = σ.parent b := by
  cases link with
  | none => rfl
  | some => exact setParent_parent_of_ne fun hba => h (congrArg some hba)

lemma setParentOf_parent_self (h : link = some b) : (σ.setParentOf link p).parent b = p := by
  rw [h]
  exact setParent_parent_self

@[simp] lemma setHole_parent : (σ.setHole c link).parent = σ.parent := by cases c <;> rfl

lemma setHole_child (h : b ∉ before c ++ after c) : (σ.setHole c link).child b = σ.child b := by
  cases c with
  | nil => rfl
  | cons =>
    apply setChild_child_of_ne
    rintro rfl
    exact h (mem_context_cons.mpr (.inl rfl))

end Store

open Store

lemma Around.setHole (h : Around σ c link) (hnodup : (before c ++ after c).Nodup) : Around (σ.setHole c link') c link' := by
  cases c with
  | nil => rfl
  | cons f c =>
    obtain ⟨hp, -, hout, hsub, hrest⟩ := h
    have hnode : ∀ b, b ∈ f.sibling.inorder ∨ b ∈ before c ++ after c → b ≠ f.node := by
      rintro b hb rfl
      obtain ⟨side, _, _⟩ := f
      cases side <;>
        simp only [before, after, nodup_append', nodup_cons, mem_append, mem_cons, not_mem_nil,
          or_false, disjoint_left] at hnodup hb <;>
        grind
    refine ⟨hp, setChild_child_self, setChild_child_other.trans hout, ?_, ?_⟩
    · exact hsub.congr (fun b hb => setChild_child_of_ne (hnode b (.inl hb))) fun _ _ => rfl
    · exact hrest.congr rfl (fun b hb => setChild_child_of_ne (hnode b (.inr hb))) fun _ _ => rfl

def replaceAt (d : Side) (σ : Store α) (x : α) (link : Option α) : Store α :=
  match σ.parent x with
  | none => σ.setRoot link
  | some p => if σ.child p d = some x then σ.setChild p d link else σ.setChild p d.other link

lemma replaceAt_eq {x : α} (h : Around σ c (some x)) (hparent : σ.parent x = above c) (hx : x ∉ before c ++ after c) :
    replaceAt d σ x link = σ.setHole c link := by
  rw [replaceAt, hparent]
  cases c with
  | nil => rfl
  | cons f =>
    obtain ⟨-, hin, hout, -⟩ := h
    rcases Side.eq_or_other f.side d with rfl | rfl
    · exact if_pos hin
    · have hne : σ.child f.node f.side.other ≠ some x := by
        intro hchild
        rw [hout] at hchild
        exact hx (mem_context_cons.mpr (.inr (.inl (Shape.top_mem hchild))))
      rw [above]
      dsimp only
      rw [if_neg hne, Side.other_other]
      rfl

def rotate (d : Side) (σ : Store α) (x : α) : Option (Store α) := do
  let y ← σ.child x d.other
  let σ := σ.setChild x d.other (σ.child y d)
  let σ := σ.setParentOf (σ.child y d) (some x)
  let σ := σ.setParent y (σ.parent x)
  let σ := replaceAt d σ x (some y)
  let σ := σ.setChild y d (some x)
  return σ.setParent x (some y)

theorem isTree_rotate {x y : α} {sub sub' : Side → Shape α} (h : IsTree σ (plug c (.node x sub)))
    (hy : sub d.other = .node y sub') (hnodup : (plug c (.node x sub)).inorder.Nodup) :
    ∃ σ', rotate d σ x = some σ' ∧ IsTree σ' (plug c (rotated d x sub y sub')) := by
  obtain ⟨haround, hparent, hchild, hsub⟩ := isTree_plug.mp h
  obtain ⟨hnode, hctx, hout⟩ := nodup_plug hnodup
  obtain ⟨hsubs, hdisj⟩ := Shape.nodup_node hnode
  have hsuby := hsub d.other
  rw [hy] at hsuby
  obtain ⟨_, hchildy, hsub'⟩ := hsuby
  have hnodey := hsubs d.other
  rw [hy] at hnodey
  obtain ⟨hsubs', hdisj'⟩ := Shape.nodup_node hnodey.1
  have hmem : ∀ {b}, b ∈ (Shape.node y sub').inorder → b ∈ (Shape.node x sub).inorder ∧ b ≠ x := by
    intro b hb
    refine ⟨Shape.mem_inorder_node.mpr (.inr ⟨d.other, by rwa [hy]⟩), ?_⟩
    rintro rfl
    exact hnodey.2 hb
  have hmem' : ∀ {e b}, b ∈ (sub' e).inorder → b ∈ (Shape.node x sub).inorder ∧ b ≠ x ∧ b ≠ y := by
    intro e b hb
    obtain ⟨hin, hne⟩ := hmem (Shape.mem_inorder_node.mpr (.inr ⟨e, hb⟩))
    refine ⟨hin, hne, ?_⟩
    rintro rfl
    exact (hsubs' e).2 hb
  have hx : x ∈ (Shape.node x sub).inorder := Shape.mem_inorder_node.mpr (.inl rfl)
  have hyin := hmem (Shape.mem_inorder_node.mpr (.inl rfl) : y ∈ (Shape.node y sub').inorder)
  have htop : ∀ {b}, b ∉ (sub' d).inorder → some b ≠ (sub' d).top := fun hb hbt => hb (Shape.top_mem hbt.symm)
  have hxtop := htop fun hin => (hmem' hin).2.1 rfl
  -- the store right before `y` is put in the place of `x`
  obtain ⟨τ, hτ⟩ : ∃ τ, τ = ((σ.setChild x d.other (sub' d).top).setParentOf (sub' d).top (some x)).setParent y (above c) :=
    ⟨_, rfl⟩
  have hτroot : τ.root = σ.root := by simp [hτ]
  have hτchild : ∀ {b}, b ≠ x → τ.child b = σ.child b := by
    intro b hb
    simp only [hτ, setParent_child, setParentOf_child]
    exact setChild_child_of_ne hb
  have hτparent : ∀ {b}, b ≠ y → some b ≠ (sub' d).top → τ.parent b = σ.parent b := by
    intro b hb hbt
    rw [hτ, setParent_parent_of_ne hb, setParentOf_parent_of_ne hbt, setChild_parent]
  have hτaround : Around τ c (some x) := by
    refine haround.congr hτroot (fun b hb => hτchild ?_) fun b hb => hτparent ?_ (htop fun hin => ?_)
    · rintro rfl
      exact hout b hx hb
    · rintro rfl
      exact hout b hyin.1 hb
    · exact hout b (hmem' hin).1 hb
  have hrot : rotate d σ x = some (((τ.setHole c (some y)).setChild y d (some x)).setParent x (some y)) := by
    have hreplace : replaceAt d τ x (some y) = τ.setHole c (some y) :=
      replaceAt_eq hτaround ((hτparent hyin.2.symm hxtop).trans hparent) (hout x hx)
    have hparentx : ((σ.setChild x d.other (sub' d).top).setParentOf (sub' d).top (some x)).parent x = above c :=
      (setParentOf_parent_of_ne hxtop).trans hparent
    rw [rotate, hchild d.other, hy]
    simp only [Shape.top_node, bind_eq_bind, bind_some, setChild_child_of_ne hyin.2, hchildy d, hparentx]
    rw [← hτ, hreplace]
    rfl
  refine ⟨_, hrot, isTree_plug.mpr ⟨?_, ?_⟩⟩
  · refine (hτaround.setHole hctx).congr rfl (fun b hb => ?_) fun b hb => ?_
    · apply setChild_child_of_ne
      rintro rfl
      exact hout b hyin.1 hb
    · apply setParent_parent_of_ne
      rintro rfl
      exact hout b hx hb
  have hσchild : ∀ {b}, b ∈ (Shape.node x sub).inorder → b ≠ x → b ≠ y →
      (((τ.setHole c (some y)).setChild y d (some x)).setParent x (some y)).child b = σ.child b := by
    intro b hb hbx hby
    rw [setParent_child, setChild_child_of_ne hby, setHole_child (hout b hb), hτchild hbx]
  have hσparent : ∀ {b}, b ≠ x → b ≠ y → some b ≠ (sub' d).top →
      (((τ.setHole c (some y)).setChild y d (some x)).setParent x (some y)).parent b = σ.parent b := by
    intro b hbx hby hbt
    rw [setParent_parent_of_ne hbx, setChild_parent, setHole_parent, hτparent hby hbt]
  refine ⟨?_, fun e => ?_, fun e => ?_⟩
  · rw [setParent_parent_of_ne hyin.2, setChild_parent, setHole_parent, hτ, setParent_parent_self]
  · rw [setParent_child]
    rcases Side.eq_or_other d e with rfl | rfl
    · rw [setChild_child_self, update_self, Shape.top_node]
    · rw [setChild_child_other, setHole_child (hout y hyin.1), hτchild hyin.2, hchildy, update_of_ne (Side.other_ne d)]
  · rcases Side.eq_or_other d e with rfl | rfl
    · rw [update_self]
      refine ⟨setParent_parent_self, fun e' => ?_, fun e' => ?_⟩
      · rw [setParent_child, setChild_child_of_ne hyin.2.symm, setHole_child (hout x hx), hτ, setParent_child,
          setParentOf_child]
        rcases Side.eq_or_other e.other e' with rfl | rfl
        · rw [setChild_child_self, update_self]
        · rw [setChild_child_other, update_of_ne (Side.other_ne e.other), hchild]
      · rcases Side.eq_or_other e.other e' with rfl | rfl
        · rw [update_self]
          apply (hsub' e).reparent (hsubs' e).1
          · intro b hb
            exact hσchild (hmem' hb).1 (hmem' hb).2.1 (hmem' hb).2.2
          · intro b hb hbt
            exact hσparent (hmem' hb).2.1 (hmem' hb).2.2 hbt
          · intro b hb
            have hin := hmem' (Shape.top_mem hb)
            rw [setParent_parent_of_ne hin.2.1, setChild_parent, setHole_parent, hτ, setParent_parent_of_ne hin.2.2]
            exact setParentOf_parent_self hb
        · rw [update_of_ne (Side.other_ne e.other)]
          have hoff : ∀ {b}, b ∈ (sub e.other.other).inorder → b ∉ (sub e.other).inorder := by
            intro b hb hb'
            exact hdisj e.other b hb' hb
          apply (hsub e.other.other).congr
          · intro b hb
            refine hσchild (Shape.mem_inorder_node.mpr (.inr ⟨_, hb⟩)) ?_ ?_
            · rintro rfl
              exact (hsubs _).2 hb
            · rintro rfl
              exact hoff hb (by rw [hy]; exact Shape.mem_inorder_node.mpr (.inl rfl))
          · intro b hb
            refine hσparent ?_ ?_ (htop fun hin => ?_)
            · rintro rfl
              exact (hsubs _).2 hb
            · rintro rfl
              exact hoff hb (by rw [hy]; exact Shape.mem_inorder_node.mpr (.inl rfl))
            · exact hoff hb (by rw [hy]; exact Shape.mem_inorder_node.mpr (.inr ⟨_, hin⟩))
    · rw [update_of_ne (Side.other_ne d)]
      apply (hsub' d.other).congr
      · intro b hb
        exact hσchild (hmem' hb).1 (hmem' hb).2.1 (hmem' hb).2.2
      · intro b hb
        exact hσparent (hmem' hb).2.1 (hmem' hb).2.2 (htop fun hin => hdisj' d b hin hb)

lemma rotate_inorder {σ' : Store α} {x : α} (h : IsTree σ t) (hnodup : t.inorder.Nodup) (hx : x ∈ t.inorder)
    (hrot : rotate d σ x = some σ') : ∃ t', IsTree σ' t' ∧ t'.inorder = t.inorder := by
  obtain ⟨_, sub, rfl⟩ := exists_plug hx
  cases hy : sub d.other with
  | leaf =>
    have hchild := (isTree_plug.mp h).2.2.1 d.other
    rw [hy, Shape.top_leaf] at hchild
    simp [rotate, hchild] at hrot
  | node =>
    obtain ⟨_, hrot₁, htree⟩ := isTree_rotate h hy hnodup
    rw [hrot₁, Option.some.injEq] at hrot
    subst hrot
    refine ⟨_, htree, ?_⟩
    rw [inorder_plug, inorder_plug, inorder_rotated d x hy]

lemma isTree_fill {new : α} (h : IsTree σ (plug c .leaf)) (hnodup : (plug c .leaf).inorder.Nodup)
    (hnew : new ∉ (plug c .leaf).inorder) (hchild : ∀ d, σ.child new d = none) :
    IsTree ((σ.setHole c (some new)).setParent new (above c)) (plug c (.node new fun _ => .leaf)) := by
  obtain ⟨haround, -⟩ := isTree_plug.mp h
  have hout : new ∉ before c ++ after c := by
    intro hmem
    rw [inorder_plug, Shape.inorder, append_nil] at hnew
    exact hnew hmem
  refine isTree_plug.mpr ⟨?_, setParent_parent_self, fun d => ?_, fun _ => trivial⟩
  · refine (haround.setHole (nodup_plug hnodup).2.1).congr rfl (fun _ _ => rfl) fun b hb => ?_
    apply setParent_parent_of_ne
    rintro rfl
    exact hout hb
  · rw [setParent_child, setHole_child hout, hchild]
    rfl

def descend (go : α → Side) (new : α) : ℕ → Store α → α → Option (Store α)
  | 0, _, _ => none
  | fuel + 1, σ, node =>
    match σ.child node (go node) with
    | none => some ((σ.setChild node (go node) (some new)).setParent new (some node))
    | some b => descend go new fuel σ b

theorem isTree_descend {go : α → Side} {new node : α} {σ' : Store α} (fuel : ℕ) (h : IsTree σ (plug c t))
    (hnodup : (plug c t).inorder.Nodup) (hnew : new ∉ (plug c t).inorder) (hchild : ∀ d, σ.child new d = none)
    (htop : t.top = some node) (hdescend : descend go new fuel σ node = some σ') :
    ∃ c', IsTree σ' (plug (c' ++ c) (.node new fun _ => .leaf)) ∧ plug (c' ++ c) .leaf = plug c t ∧
      ∀ f ∈ c', f.side = go f.node := by
  induction fuel generalizing c t node with
  | zero => cases hdescend
  | succ fuel ih =>
    cases t with
    | leaf => cases htop
    | node a sub =>
      obtain rfl := Option.some.inj htop
      have hplug : plug (⟨go a, a, sub (go a).other⟩ :: c) (sub (go a)) = plug c (.node a sub) := by
        rw [plug, plug_sub]
      have hlink := (isTree_plug.mp h).2.2.1 (go a)
      rw [← hplug] at h hnodup hnew ⊢
      rw [descend, hlink] at hdescend
      cases hsub : sub (go a) with
      | leaf =>
        rw [hsub] at h hnodup hnew hdescend
        cases hdescend
        refine ⟨[⟨go a, a, sub (go a).other⟩], isTree_fill h hnodup hnew hchild, rfl, fun f hf => ?_⟩
        rw [mem_singleton.mp hf]
      | node =>
        rw [hsub] at h hnodup hnew hdescend
        obtain ⟨c', _, _, hsides⟩ := ih h hnodup hnew rfl hdescend
        refine ⟨c' ++ [⟨go a, a, sub (go a).other⟩], ?_, ?_, fun f hf => ?_⟩
        · rwa [append_assoc]
        · rwa [append_assoc]
        · rcases mem_append.mp hf with hf | hf
          · exact hsides f hf
          · rw [mem_singleton.mp hf]

lemma descend_some (go : α → Side) (new : α) {node : α} {p : Option α} (fuel : ℕ) (h : Holds σ p t) (htop : t.top = some node)
    (hfuel : t.inorder.length ≤ fuel) : ∃ σ', descend go new fuel σ node = some σ' := by
  induction fuel generalizing p t node with
  | zero =>
    have hmem := Shape.top_mem htop
    simp [length_eq_zero_iff.mp (Nat.le_zero.mp hfuel)] at hmem
  | succ fuel ih =>
    cases t with
    | leaf => cases htop
    | node a sub =>
      obtain rfl := Option.some.inj htop
      have hlink := h.2.1 (go a)
      rw [descend, hlink]
      cases hsub : (sub (go a)).top with
      | none => exact ⟨_, rfl⟩
      | some =>
        refine ih (h.2.2 (go a)) hsub ?_
        rw [Shape.inorder, length_append, length_cons] at hfuel
        cases hside : go a with
        | left => omega
        | right => omega

def hangRight (fuel : ℕ) (σ : Store α) (x : α) : Option (Store α) :=
  match σ.child x .left, σ.child x .right with
  | some l, some r => (rightmost σ fuel l).map fun m => (σ.setChild m .right (some r)).setParent r (some m)
  | _, _ => some σ

def remove (fuel : ℕ) (σ : Store α) (x : α) : Option (Store α) := do
  let replacement := if (σ.child x .left).isSome then σ.child x .left else σ.child x .right
  let σ ← hangRight fuel σ x
  let σ := replaceAt .left σ x replacement
  return σ.setParentOf replacement (σ.parent x)

lemma isTree_replace {x : α} (haround : Around σ c (some x)) (hparent : σ.parent x = above c) (ht : Holds σ p t)
    (hnodup : t.inorder.Nodup) (hctx : (before c ++ after c).Nodup) (hx : x ∉ before c ++ after c)
    (hout : ∀ b ∈ t.inorder, b ∉ before c ++ after c) :
    IsTree ((replaceAt d σ x t.top).setParentOf t.top ((replaceAt d σ x t.top).parent x)) (plug c t) := by
  rw [replaceAt_eq haround hparent hx, setHole_parent, hparent]
  refine isTree_plug.mpr ⟨?_, ?_⟩
  · refine (haround.setHole hctx).congr setParentOf_root (fun b _ => by rw [setParentOf_child]) fun b hb => ?_
    apply setParentOf_parent_of_ne
    intro hbt
    exact hout b (Shape.top_mem hbt.symm) hb
  · apply ht.reparent hnodup
    · intro b hb
      rw [setParentOf_child, setHole_child (hout b hb)]
    · intro b _ hbt
      rw [setParentOf_parent_of_ne hbt, setHole_parent]
    · exact fun b hb => setParentOf_parent_self hb

lemma remove_some {x : α} {sub : Side → Shape α} (fuel : ℕ) (h : IsTree σ (plug c (.node x sub)))
    (hfuel : (sub .left).height ≤ fuel) : ∃ σ', remove fuel σ x = some σ' := by
  obtain ⟨-, -, hchild, hsub⟩ := isTree_plug.mp h
  rw [remove, hangRight, hchild .left, hchild .right]
  cases hl : (sub .left).top with
  | none => exact ⟨_, rfl⟩
  | some =>
    cases hr : (sub .right).top with
    | none => exact ⟨_, rfl⟩
    | some =>
      obtain ⟨_, hm⟩ := rightmost_some fuel (hsub .left) hl hfuel
      simp only [hm]
      exact ⟨_, rfl⟩

theorem isTree_remove {x : α} {sub : Side → Shape α} {fuel : ℕ} {σ' : Store α} (h : IsTree σ (plug c (.node x sub)))
    (hnodup : (plug c (.node x sub)).inorder.Nodup) (hremove : remove fuel σ x = some σ') :
    IsTree σ' (plug c (hang (sub .left) (sub .right))) := by
  obtain ⟨haround, hparent, hchild, hsub⟩ := isTree_plug.mp h
  obtain ⟨hnode, hctx, hout⟩ := nodup_plug hnodup
  obtain ⟨hsubs, hdisj⟩ := Shape.nodup_node hnode
  have hx := hout x (Shape.mem_inorder_node.mpr (.inl rfl))
  have hin := fun {d b} hb => hout b (Shape.mem_inorder_node.mpr (.inr ⟨d, hb⟩))
  rw [remove, hangRight, hchild .left, hchild .right] at hremove
  cases hl : sub .left with
  | leaf =>
    rw [hl] at hremove
    cases hremove
    exact isTree_replace haround hparent (hsub .right) (hsubs .right).1 hctx hx fun b hb => hin hb
  | node l =>
    have hltop : (sub .left).top = some l := by rw [hl]; rfl
    cases hr : sub .right with
    | leaf =>
      rw [hl, hr] at hremove
      cases hremove
      have htree := isTree_replace (d := .left) haround hparent (hsub .left) (hsubs .left).1 hctx hx fun b hb => hin hb
      rw [hl] at htree
      rwa [hang_leaf]
    | node r =>
      have hrtop : (sub .right).top = some r := by rw [hr]; rfl
      rw [hl, hr] at hremove
      simp only [Shape.top_node, bind_eq_bind, bind_eq_some_iff, map_eq_some_iff] at hremove
      obtain ⟨_, ⟨m, hm, rfl⟩, hremove⟩ := hremove
      cases hremove
      have hmL := rightmost_mem fuel (hsub .left) hltop hm
      have hrR := Shape.top_mem hrtop
      have hrL : ∀ {b}, b ∈ (sub .left).inorder → b ≠ r := by
        rintro b hb rfl
        exact hdisj .left b hb hrR
      have hmR : ∀ {b}, b ∈ (sub .right).inorder → b ≠ m := by
        rintro b hb rfl
        exact hdisj .left b hmL hb
      have hxr : x ≠ r := by
        rintro rfl
        exact (hsubs .right).2 hrR
      have hR : Holds ((σ.setChild m .right (some r)).setParent r (some m)) (some m) (sub .right) := by
        apply (hsub .right).reparent (hsubs .right).1
        · exact fun b hb => setChild_child_of_ne (hmR hb)
        · intro b _ hbt
          apply setParent_parent_of_ne
          rintro rfl
          exact hbt hrtop.symm
        · intro b hb
          rw [mem_def, hrtop, Option.some.injEq] at hb
          rw [← hb, setParent_parent_self]
      have hL : Holds ((σ.setChild m .right (some r)).setParent r (some m)) (some x) (hang (sub .left) (sub .right)) := by
        apply (hsub .left).hang fuel (hsubs .left).1 hltop hm
        · exact fun b _ hbm => setChild_child_of_ne hbm
        · exact setChild_child_other
        · exact setChild_child_self.trans hrtop.symm
        · exact fun b hb => setParent_parent_of_ne (hrL hb)
        · exact hR
      have hτ : Around ((σ.setChild m .right (some r)).setParent r (some m)) c (some x) := by
        refine haround.congr rfl (fun b hb => setChild_child_of_ne ?_) fun b hb => setParent_parent_of_ne ?_
        · rintro rfl
          exact hin hmL hb
        · rintro rfl
          exact hin hrR hb
      have htree := isTree_replace (d := .left) hτ ((setParent_parent_of_ne hxr).trans hparent) hL ?_ hctx hx ?_
      · rwa [top_hang hltop, hl, hr] at htree
      · rw [inorder_hang, nodup_append']
        exact ⟨(hsubs .left).1, (hsubs .right).1, fun b hb hb' => hdisj .left b hb hb'⟩
      · intro b hb
        rw [inorder_hang] at hb
        rcases mem_append.mp hb with hb | hb
        · exact hin hb
        · exact hin hb

end edits

end LinkedTree

end KernelSmp.Base
