import KernelSmp.Memory.UserSpaces
import KernelSmp.Memory.VmmRefinement

/-! The page tables below one PML4 that take their frames from `pmm.c`, down to the page tables. The pages themselves are
left out, so that a frame may be mapped at several addresses, as the kernel does. -/

namespace KernelSmp.Memory

open Base Base.Radix VmmRefinement

abbrev TablePath : List Index → Prop := fun p => p.length ≤ 3

def PathVia (i : Index) (p : List Index) : Prop := p.length ≤ 3 ∧ ∀ j ∈ p.getLast?, j = i

lemma TablePath.tail (i : Index) (p : List Index) (h : TablePath (i :: p)) : TablePath p := by
  exact Nat.le_of_succ_le h

lemma PathVia.tail {i : Index} (j : Index) (p : List Index) (h : PathVia i (j :: p)) : PathVia i p := by
  refine ⟨TablePath.tail j p h.1, fun k hk => h.2 k ?_⟩
  cases p with
  | nil => cases hk
  | cons => rwa [List.getLast?_cons_cons]

lemma upperPath_via (virt : Word) : PathVia (pml4Idx virt) (upperPath virt) := by
  refine ⟨le_refl 3, fun j hj => ?_⟩
  exact (Option.mem_some_iff.mp hj).symm

lemma Wired.sub {R : Type} {roots : R → Option ℕ} {valid valid' : List Index → Prop} {T : ℕ → Index → Word} {U : Set ℕ}
    (h : Wired roots valid T U) (hclosed : ∀ i p, valid' (i :: p) → valid' p) (hsub : ∀ p, valid' p → valid p) :
    Wired roots valid' T U where
  closed := hclosed
  small := h.small
  separate r p r' p' f hp hp' hr hr' := h.separate r p r' p' f (hsub p hp) (hsub p' hp') hr hr'
  used r p f hp hr := h.used r p f (hsub p hp) hr
  upper r p f i hip hlen hr := h.upper r p f i (hsub _ hip) hlen hr

structure KernelTree (f : ℕ) (s : Paging Pmm) : Prop where
  small : s.frames.Small
  wired : TableTree f (tables s.mem) (usedFrames s.frames)

abbrev Beside (f : ℕ) (m : Mem) (g : ℕ) : Prop := Unlinked (fun _ : Unit => some f) TablePath (tables m) g

structure Extends (f : ℕ) (kept : Index → Prop) (s t : Paging Pmm) : Prop where
  tree : KernelTree f t
  used : usedFrames s.frames ⊆ usedFrames t.frames
  beside : ∀ g ∈ usedFrames s.frames, Beside f s.mem g → tables t.mem g = tables s.mem g ∧ Beside f t.mem g
  row : ∀ j, kept j → tables t.mem f j = tables s.mem f j

section tree

variable {f : ℕ} {s t u : Paging Pmm} {kept kept' : Index → Prop} {cpu : Option ℕ} {virt phys flags size : Word}

lemma Extends.refl (h : KernelTree f s) : Extends f kept s s :=
  ⟨h, subset_rfl, fun _ _ hg => ⟨rfl, hg⟩, fun _ _ => rfl⟩

lemma Extends.trans (h : Extends f kept s t) (h' : Extends f kept t u) : Extends f kept s u where
  tree := h'.tree
  used := h.used.trans h'.used
  beside g hg hbeside := by
    obtain ⟨hrow, hbeside'⟩ := h.beside g hg hbeside
    obtain ⟨hrow', hbeside''⟩ := h'.beside g (h.used hg) hbeside'
    exact ⟨hrow'.trans hrow, hbeside''⟩
  row j hj := (h'.row j hj).trans (h.row j hj)

lemma Extends.mono (h : Extends f kept s t) (hkept : ∀ j, kept' j → kept j) : Extends f kept' s t :=
  ⟨h.tree, h.used, h.beside, fun j hj => h.row j (hkept j hj)⟩

lemma KernelTree.root_lt (h : KernelTree f s) : f < 2 ^ 52 := h.wired.small () f rfl

lemma KernelTree.root_used (h : KernelTree f s) : f ∈ usedFrames s.frames :=
  h.wired.used () [] f (Nat.zero_le 3) role_nil

lemma role_setTableLeaf {T : ℕ → Index → Word} {U : Set ℕ} {g : ℕ} (h : TableTree f T U)
    (hg : tableAt f T virt = some g) (e : Word)
    {q : List Index} (hq : TablePath q) :
    role (fun _ : Unit => some f) (set T g (ptIdx virt) e) () q = role (fun _ : Unit => some f) T () q := by
  rw [role_setLeaf h (fun q hq => le_trans hq (by decide)) hg (le_refl 3) rfl () hq, if_neg]
  rintro ⟨-, rfl⟩
  exact absurd hq (by simp [upperPath])

variable (cpu) (virt phys flags) in
lemma KernelTree.row_other (h : KernelTree f s) {j : Index} (hj : j ≠ pml4Idx virt) :
    tables (vmmMapUnlocked (fun p => pmmAllocFrame p cpu) s (frameAddr f) virt phys flags).2.mem f j = tables s.mem f j := by
  have hvia : Wired (fun _ : Unit => some f) (PathVia (pml4Idx virt)) (tables s.mem) ((pmmSource cpu).used s.frames) :=
    h.wired.sub PathVia.tail fun p hp => hp.1
  obtain ⟨-, T, hT, hgrown, hres⟩ := vmmMapUnlocked_spec phys flags h.small hvia rfl (upperPath_via virt)
  have hrow : T f j = tables s.mem f j := by
    refine hgrown.rows f j h.root_used fun _ p hp _ hv => ?_
    obtain ⟨-, rfl⟩ := h.wired.separate () p () [] f (TablePath.tail j p hv.1) (Nat.zero_le 3) hp role_nil
    exact hj (hv.2 j rfl)
  rw [← hrow]
  rcases hres with ⟨-, hmem⟩ | ⟨-, g, hg, hmem⟩
  · exact congrFun (congrFun hmem f) j
  · refine (congrFun (congrFun hmem f) j).trans (set_of_ne _ _ ?_)
    rintro ⟨rfl, -⟩
    obtain ⟨-, hnil⟩ := hT.separate () _ () [] f (upperPath_via virt) ⟨Nat.zero_le 3, fun j hj => by cases hj⟩ hg role_nil
    cases hnil

lemma role_singleton (T : ℕ → Index → Word) (j : Index) : role (fun _ : Unit => some f) T () [j] = target (T f j) :=
  role_cons role_nil

lemma Grown.row_present {T T' : ℕ → Index → Word} {U U' : Set ℕ} (h : TableTree f T U) (h' : TableTree f T' U')
    (hgrown : Grown (fun _ : Unit => some f) TablePath T U T' U') {j : Index} (hj : T f j ≠ 0) : T' f j = T f j := by
  have hone : TablePath [j] := by simp
  obtain ⟨g, hg, he⟩ := (h.upper () [] f j hone (by decide) role_nil).resolve_left hj
  have hrole : role (fun _ : Unit => some f) T () [j] = some g := by
    rw [role_singleton, he, tableEntry_target hg]
  have hkept := hgrown.kept () [j] g hone hrole
  rw [role_singleton] at hkept
  rcases h'.upper () [] f j hone (by decide) role_nil with hzero | ⟨g', hg', he'⟩
  · rw [hzero] at hkept
    cases hkept
  · rw [he', tableEntry_target hg', Option.some.injEq] at hkept
    rw [he', he, hkept]

variable (cpu) (virt phys flags) in
lemma KernelTree.map (h : KernelTree f s) :
    Extends f (fun j => j ≠ pml4Idx virt ∨ tables s.mem f j ≠ 0) s
      (vmmMapUnlocked (fun p => pmmAllocFrame p cpu) s (frameAddr f) virt phys flags).2 := by
  have hother := fun j => h.row_other cpu virt phys flags (j := j)
  obtain ⟨hsmall, T, hT, hgrown, hres⟩ := vmmMapUnlocked_spec (S := pmmSource cpu) phys flags h.small h.wired rfl
    (le_refl 3)
  have hbeside : ∀ g ∈ usedFrames s.frames, Beside f s.mem g → T g = tables s.mem g ∧
      Unlinked (fun _ : Unit => some f) TablePath T g := by
    intro g hg hbeside
    refine ⟨?_, (hgrown.evolves h.wired.closed).unlinked hg hbeside⟩
    funext j
    exact hgrown.rows g j hg fun _ p hp _ hv => hbeside () p (TablePath.tail j p hv) hp
  have hpresent := fun j => Grown.row_present h.wired hT hgrown (j := j)
  change _ ∧ tables (vmmMapUnlocked (fun p => pmmAllocFrame p cpu) s (frameAddr f) virt phys flags).2.mem = T ∨ _ ∧ ∃ g, _ ∧
    tables (vmmMapUnlocked (fun p => pmmAllocFrame p cpu) s (frameAddr f) virt phys flags).2.mem = _ at hres
  rcases hres with ⟨-, hmem⟩ | ⟨-, pt, hpt, hmem⟩
  · refine ⟨⟨hsmall, by rw [hmem]; exact hT⟩, hgrown.used, fun g hg hg' => ?_, fun j hj => hj.elim (hother j) fun hj => ?_⟩
    · rw [Beside, hmem]
      exact hbeside g hg hg'
    · rw [hmem]
      exact hpresent j hj
  · have hrow : ∀ g, (∀ p, TablePath p → role (fun _ : Unit => some f) T () p = some g → p.length ≠ 3) →
        tables (vmmMapUnlocked (fun p => pmmAllocFrame p cpu) s (frameAddr f) virt phys flags).2.mem g = T g := by
      intro g hg
      funext j
      rw [hmem]
      refine set_of_ne _ _ ?_
      rintro ⟨rfl, -⟩
      exact hg _ (le_refl 3) hpt rfl
    refine ⟨⟨hsmall, by rw [hmem]; exact TableTree.setLeaf hT hpt⟩, hgrown.used, fun g hg hg' => ?_,
      fun j hj => hj.elim (hother j) fun hj => ?_⟩
    · obtain ⟨hsame, hunlinked⟩ := hbeside g hg hg'
      refine ⟨(hrow g fun p hp hr => absurd hr (hunlinked () p hp)).trans hsame, fun _ p hp hr => hunlinked () p hp ?_⟩
      rwa [hmem, role_setTableLeaf hT hpt _ hp] at hr
    · rw [hrow f fun p hp hr hlen => ?_]
      · exact hpresent j hj
      · obtain ⟨-, rfl⟩ := hT.separate () p () [] f hp (Nat.zero_le 3) hr role_nil
        cases hlen

variable (cpu) (virt phys flags) in
lemma KernelTree.map_leaf (h : KernelTree f s)
    (hres : (vmmMapUnlocked (fun p => pmmAllocFrame p cpu) s (frameAddr f) virt phys flags).1 = true)
    (w : Word) : leafAt f (tables (vmmMapUnlocked (fun p => pmmAllocFrame p cpu) s (frameAddr f) virt phys flags).2.mem) w =
      if pageOf w = pageOf virt then some (leafEntry phys flags) else leafAt f (tables s.mem) w := by
  obtain ⟨-, _, hT, hgrown, ⟨hfalse, -⟩ | ⟨-, pt, hpt, hmem⟩⟩ := vmmMapUnlocked_spec (S := pmmSource cpu) phys
    flags h.small
    h.wired rfl (le_refl 3)
  · cases hfalse.symm.trans hres
  · rw [← leafAt_grown h.wired hgrown, ← leafEntry_present, ← leafAt_setLeaf hT hpt]
    exact congrArg (leafAt f · w) hmem

def Written (f : ℕ) (virt phys flags : Word) (i stop : ℕ) (s t : Paging Pmm) : Prop :=
  ∀ w, ((∀ k, i ≤ k → k < stop → pageOf w ≠ pageOf (virt + pageOffset k)) ∧ leafAt f (tables t.mem) w =
    leafAt f (tables s.mem) w) ∨
    ∃ k, i ≤ k ∧ k < stop ∧ pageOf w = pageOf (virt + pageOffset k) ∧
      leafAt f (tables t.mem) w = some (leafEntry (phys + pageOffset k) flags)

lemma KernelTree.mapPages (n : ℕ) {i : ℕ} (h : KernelTree f s)
    (hkept : ∀ k, i ≤ k → k < i + n → ∀ j, kept j → j ≠ pml4Idx (virt + pageOffset k) ∨ tables s.mem f j ≠ 0)
    (hres : (mapPages (fun p => pmmAllocFrame p cpu) (frameAddr f) virt phys flags s n i).1 = true) :
    Extends f kept s (Memory.mapPages (fun p => pmmAllocFrame p cpu) (frameAddr f) virt phys flags s n i).2 ∧
    Written f virt phys flags i (i + n) s (Memory.mapPages (fun p => pmmAllocFrame p cpu) (frameAddr f) virt phys flags
      s n i).2 := by
  induction n generalizing s i with
  | zero => exact ⟨.refl h, fun w => .inl ⟨fun k hk hk' => by omega, rfl⟩⟩
  | succ n ih =>
    have hmap := h.map cpu (virt + pageOffset i) (phys + pageOffset i) flags
    have hleaf := h.map_leaf cpu (virt + pageOffset i) (phys + pageOffset i) flags
    simp only [Memory.mapPages] at hres ⊢
    split at hres
    · rename_i t heq
      rw [heq] at hmap hleaf
      have hone := hmap.mono fun j hj => hkept i (le_refl i) (by omega) j hj
      have hkept' : ∀ k, i + 1 ≤ k → k < i + 1 + n → ∀ j, kept j → j ≠ pml4Idx (virt + pageOffset k) ∨
          tables t.mem f j ≠ 0 := by
        intro k hk hk' j hj
        rw [hone.row j hj]
        exact hkept k (by omega) (by omega) j hj
      obtain ⟨hrest, hwritten⟩ := ih hone.tree hkept' hres
      refine ⟨hone.trans hrest, fun w => ?_⟩
      rcases hwritten w with ⟨hout, hsame⟩ | ⟨k, hk, hk', hpage, hw⟩
      · rw [hsame, hleaf rfl w]
        split_ifs with hpage
        · exact .inr ⟨i, le_refl i, by omega, hpage, rfl⟩
        · refine .inl ⟨fun k hk hk' => ?_, rfl⟩
          rcases Nat.lt_or_eq_of_le hk with hlt | rfl
          · exact hout k hlt (by omega)
          · exact hpage
      · exact .inr ⟨k, by omega, by omega, hpage, hw⟩
    · cases hres

lemma checkMapped_some {r : Bool × Paging Pmm} (hvirt : virt ≥ hhdmOffset) (hcheck : checkMapped virt r = some t) :
    r.1 = true ∧ r.2 = t := by
  refine ⟨?_, checkMapped_eq hcheck⟩
  cases hr : r.1 with
  | true => rfl
  | false =>
    rw [checkMapped, hr, if_pos ⟨rfl, hvirt⟩] at hcheck
    cases hcheck

end tree

end KernelSmp.Memory
