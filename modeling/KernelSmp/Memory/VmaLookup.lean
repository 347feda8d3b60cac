import KernelSmp.Memory.VmaFixup

/-! `vma_find` goes down a search tree on the start addresses. Whatever the shape of the tree, it gives
what a walk over the list of areas would give. -/

namespace KernelSmp.Memory.VmaRanges

open Base LinkedTree Function List Option BitVec

def Contains (addr : Word) (a : VmaArea) : Prop := a.vmStart ≤ addr ∧ addr < a.vmEnd

instance (addr : Word) (a : VmaArea) : Decidable (Contains addr a) := inferInstanceAs (Decidable (_ ∧ _))

def visitedFrom (areas : Word → VmaArea) (addr : Word) : ℕ → Option Word → List Word
  | 0, _ => []
  | _ + 1, none => []
  | fuel + 1, some c =>
    if addr ≥ (areas c).vmStart ∧ addr < (areas c).vmEnd then [c]
    else if addr < (areas c).vmStart then c :: visitedFrom areas addr fuel (areas c).left
    else c :: visitedFrom areas addr fuel (areas c).right

def visited (s : Vm) (addr : Word) : List Word := visitedFrom s.areas addr walkFuel s.task.vmaTreeRoot

variable {s : Vm} {t : Shape Word} {link : Option Word} {addr : Word} {fuel : ℕ}

def Precedes (s : Vm) (a b : Word) : Prop :=
  (s.areas a).vmStart ≤ (s.areas b).vmStart ∧ (s.areas a).vmEnd ≤ (s.areas b).vmStart

variable {l : List Word}

lemma find?_eq_none_of_precedes {c : Word} (h : ∀ a ∈ l, Precedes s a c) (haddr : (s.areas c).vmStart ≤ addr) :
    l.find? (fun a => decide (Contains addr (s.areas a))) = none := by
  rw [List.find?_eq_none]
  intro a ha hin
  have hend := (of_decide_eq_true hin).2
  have hbefore := (h a ha).2
  rw [le_def] at haddr hbefore
  rw [lt_def] at hend
  omega

lemma find?_eq_none_of_follows {c : Word} (h : ∀ a ∈ l, Precedes s c a) (haddr : addr < (s.areas c).vmStart) :
    l.find? (fun a => decide (Contains addr (s.areas a))) = none := by
  rw [List.find?_eq_none]
  intro a ha hin
  have hstart := (of_decide_eq_true hin).1
  have hafter := (h a ha).1
  rw [le_def] at hstart hafter
  rw [lt_def] at haddr
  omega

lemma findFrom_eq (addr : Word) (hdraws : Draws (treeOf s).child link t) (hsorted : t.inorder.Pairwise (Precedes s))
    (hfuel : t.height < fuel) :
    findFrom s.areas addr fuel link = some (t.inorder.find? fun a => decide (Contains addr (s.areas a))) := by
  induction t generalizing link fuel with
  | leaf =>
    obtain rfl : link = none := hdraws
    obtain ⟨fuel, rfl⟩ := Nat.exists_eq_succ_of_ne_zero (Nat.ne_zero_of_lt hfuel)
    rfl
  | node c sub ih =>
    obtain ⟨rfl, hsub⟩ := hdraws
    obtain ⟨fuel, rfl⟩ := Nat.exists_eq_succ_of_ne_zero (Nat.ne_zero_of_lt hfuel)
    have hheight : ∀ d, (sub d).height < fuel :=
      fun d => Nat.lt_of_lt_of_le (Shape.height_sub_lt c sub d) (Nat.lt_succ_iff.mp hfuel)
    rw [Shape.inorder, pairwise_append, pairwise_cons] at hsorted
    obtain ⟨hleft, ⟨hafter, hright⟩, hcross⟩ := hsorted
    have hbefore : ∀ a ∈ (sub .left).inorder, Precedes s a c := fun a ha => hcross a ha c mem_cons_self
    rw [findFrom, Shape.inorder, List.find?_append, List.find?_cons]
    by_cases hin : Contains addr (s.areas c)
    · have hhit : addr ≥ (s.areas c).vmStart ∧ addr < (s.areas c).vmEnd := hin
      rw [if_pos hhit, find?_eq_none_of_precedes hbefore hin.1]
      simp only [hin, decide_true, none_or]
    · have hmiss : ¬ (addr ≥ (s.areas c).vmStart ∧ addr < (s.areas c).vmEnd) := hin
      rw [if_neg hmiss]
      simp only [hin, decide_false]
      by_cases hlt : addr < (s.areas c).vmStart
      · rw [if_pos hlt, find?_eq_none_of_follows hafter hlt, or_none]
        exact ih .left (hsub .left) hleft (hheight .left)
      · rw [if_neg hlt, find?_eq_none_of_precedes hbefore (BitVec.not_lt.mp hlt), none_or]
        exact ih .right (hsub .right) hright (hheight .right)

lemma length_visitedFrom_le (hdraws : Draws (treeOf s).child link t) :
    (visitedFrom s.areas addr fuel link).length ≤ t.height := by
  induction t generalizing link fuel with
  | leaf =>
    obtain rfl : link = none := hdraws
    cases fuel <;> exact Nat.zero_le _
  | node c sub ih =>
    obtain ⟨rfl, hsub⟩ := hdraws
    cases fuel with
    | zero => exact Nat.zero_le _
    | succ fuel =>
      have hleft : (visitedFrom s.areas addr fuel (s.areas c).left).length ≤ _ := ih .left (hsub .left)
      have hright : (visitedFrom s.areas addr fuel (s.areas c).right).length ≤ _ := ih .right (hsub .right)
      rw [visitedFrom, Shape.height]
      split
      · exact Nat.le_add_left 1 _
      · split
        · rw [length_cons]
          omega
        · rw [length_cons]
          omega

lemma pairwise_precedes (hsame : t.inorder.Perm l)
    (hdisjoint : l.Pairwise fun a b => Disjoint (covered (s.areas a)) (covered (s.areas b)))
    (hnonempty : ∀ a ∈ l, (s.areas a).vmStart < (s.areas a).vmEnd) (hsearch : t.inorder.Pairwise (StartsBefore s)) :
    t.inorder.Pairwise (Precedes s) := by
  have happart : t.inorder.Pairwise fun a b => Disjoint (covered (s.areas a)) (covered (s.areas b)) :=
    (hsame.pairwise_iff fun {a b} h => h.symm).mpr hdisjoint
  refine (happart.and hsearch).imp_of_mem fun {a b} ha hb hab => ⟨hab.2, ?_⟩
  obtain ⟨hdis, hstart⟩ := hab
  by_contra hend
  have hb' := hnonempty b (hsame.mem_iff.mp hb)
  have hin : (s.areas b).vmStart.toNat ∈ covered (s.areas a) := ⟨hstart, Nat.lt_of_not_le hend⟩
  exact Set.disjoint_left.mp hdis hin ⟨le_rfl, hb'⟩

lemma length_lt_walkFuel (hsorted : t.inorder.Pairwise (Precedes s))
    (hnonempty : ∀ a ∈ t.inorder, (s.areas a).vmStart < (s.areas a).vmEnd) : t.inorder.length < walkFuel := by
  have hnodup : (BitVec.allOnes 64 :: t.inorder.map fun a => (s.areas a).vmStart).Nodup := by
    rw [nodup_cons]
    constructor
    · intro hmem
      obtain ⟨a, ha, hstart⟩ := List.mem_map.mp hmem
      have hlt := hnonempty a ha
      rw [hstart, lt_def, toNat_allOnes] at hlt
      omega
    · rw [List.Nodup, pairwise_map]
      refine hsorted.imp_of_mem fun {a b} ha _ hab heq => ?_
      have hlt := hnonempty a ha
      have hle := hab.2
      rw [← heq, le_def] at hle
      rw [lt_def] at hlt
      omega
  have hlength := Word.length_le_of_nodup hnodup
  rwa [length_cons, length_map] at hlength

theorem vmaFind_agrees_list {s : Vm} {t : Shape Word} (htree : Draws (treeOf s).child s.task.vmaTreeRoot t)
    (hsame : t.inorder.Perm (vmas s)) (hsearch : t.inorder.Pairwise (StartsBefore s))
    (hdisjoint : (vmas s).Pairwise fun a b => Disjoint (covered (s.areas a)) (covered (s.areas b)))
    (hnonempty : ∀ a ∈ vmas s, (s.areas a).vmStart < (s.areas a).vmEnd) (addr : Word) :
    ∃ found, vmaFind s addr = some found ∧ (∀ a, found = some a ↔ a ∈ vmas s ∧ Contains addr (s.areas a)) ∧
      (found = none ↔ ∀ a ∈ vmas s, ¬ Contains addr (s.areas a)) := by
  have hsorted := pairwise_precedes hsame hdisjoint hnonempty hsearch
  have hlength := length_lt_walkFuel hsorted fun a ha => hnonempty a (hsame.mem_iff.mp ha)
  have hfind := findFrom_eq addr htree hsorted ((Shape.height_le_length t).trans_lt hlength)
  refine ⟨_, hfind, fun a => ⟨fun hfound => ?_, fun ⟨ha, hin⟩ => ?_⟩, ?_⟩
  · have hin := List.find?_some hfound
    exact ⟨hsame.mem_iff.mp (List.mem_of_find?_eq_some hfound), of_decide_eq_true hin⟩
  · -- an area before `a` ends before it starts, and one behind it starts too late
    obtain ⟨before, after, heq⟩ := append_of_mem (hsame.mem_iff.mpr ha)
    rw [heq, pairwise_append, pairwise_cons] at hsorted
    rw [heq, List.find?_append, find?_eq_none_of_precedes (fun b hb => hsorted.2.2 b hb a mem_cons_self) hin.1,
      none_or, List.find?_cons]
    simp only [hin, decide_true]
  · rw [List.find?_eq_none]
    refine ⟨fun h a ha hin => h a (hsame.mem_iff.mpr ha) (decide_eq_true hin), fun h a ha hin => ?_⟩
    exact h a (hsame.mem_iff.mp ha) (of_decide_eq_true hin)

def leaning : Vm :=
  let area (start : Word) (left parent next prev : Option Word) : VmaArea :=
    ⟨start, start + 0x1000, 3, left, none, parent, .black, next, prev⟩
  { blankVm with
    areas := update (update (update blankVm.areas 0x10 (area 0x5000 (some 0x20) none (some 0x30) (some 0x20)))
      0x20 (area 0x2000 (some 0x30) (some 0x10) (some 0x10) none)) 0x30 (area 0x1000 none (some 0x20) none (some 0x10))
    task := { blankVm.task with vmaTreeRoot := some 0x10, vmaListHead := some 0x20 } }

def leaningShape : Shape Word :=
  .node 0x10 fun
    | .left => .node 0x20 fun
      | .left => .node 0x30 fun _ => .leaf
      | .right => .leaf
    | .right => .leaf

theorem vmaFind_agrees_leaning : ∃ found, vmaFind leaning 0x2FFF = some found ∧
    (∀ a, found = some a ↔ a ∈ vmas leaning ∧ Contains 0x2FFF (leaning.areas a)) ∧
    (found = none ↔ ∀ a ∈ vmas leaning, ¬ Contains 0x2FFF (leaning.areas a)) := by
  have hvmas : vmas leaning = [0x20, 0x10, 0x30] := by decide +kernel
  have hdraws : Draws (treeOf leaning).child leaning.task.vmaTreeRoot leaningShape := by
    refine ⟨rfl, fun d => ?_⟩
    cases d with
    | right => rfl
    | left =>
      refine ⟨rfl, fun d => ?_⟩
      cases d with
      | right => rfl
      | left => exact ⟨rfl, fun d => by cases d <;> rfl⟩
  refine vmaFind_agrees_list (t := leaningShape) hdraws ?_ ?_ ?_ ?_ 0x2FFF
  · rw [hvmas]
    decide
  · change List.Pairwise (fun a b => (leaning.areas a).vmStart ≤ (leaning.areas b).vmStart) [0x30, 0x20, 0x10]
    decide +kernel
  · rw [hvmas]
    simp only [pairwise_cons, forall_mem_cons, not_mem_nil, false_imp_iff, implies_true,
      List.Pairwise.nil, and_true,
      covered, Set.Ico_disjoint_Ico]
    decide +kernel
  · rw [hvmas]
    simp only [forall_mem_cons, not_mem_nil, false_imp_iff, implies_true, and_true]
    decide +kernel

end KernelSmp.Memory.VmaRanges
