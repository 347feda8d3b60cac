import KernelSmp.Memory.Mmu
import KernelSmp.Memory.PageTables

/-! Page table trees that grow by frames from an allocator. `valid` selects the paths under
consideration, and the allocator is any state with a set of frames in use. -/

namespace KernelSmp.Memory

open Base Base.Radix List Option

structure FrameSource (σ : Type) where
  alloc : σ → Word × σ
  ok : σ → Prop
  used : σ → Set ℕ
  alloc_ok : ∀ s, ok s → ok (alloc s).2
  alloc_spec : ∀ s, ok s →
    (alloc s).1 = 0 ∧ used (alloc s).2 = used s ∨
    ∃ f, 0 < f ∧ f < 2 ^ 28 ∧ (alloc s).1 = frameAddr f ∧ f ∉ used s ∧ used (alloc s).2 = insert f (used s)

section trees

variable {R : Type} (roots : R → Option ℕ) (valid : List Index → Prop)

abbrev role (T : ℕ → Index → Word) : R → List Index → Option ℕ := look target roots T

structure Wired (T : ℕ → Index → Word) (U : Set ℕ) : Prop where
  closed : ∀ i p, valid (i :: p) → valid p
  small : ∀ r f, roots r = some f → f < 2 ^ 52
  separate : Separate target roots valid T
  used : ∀ r p f, valid p → role roots T r p = some f → f ∈ U
  upper : ∀ r p f i, valid (i :: p) → p.length < 3 → role roots T r p = some f →
    T f i = 0 ∨ ∃ g, g < 2 ^ 28 ∧ T f i = tableEntry g

structure Grown (T : ℕ → Index → Word) (U : Set ℕ) (T' : ℕ → Index → Word) (U' : Set ℕ) : Prop where
  used : U ⊆ U'
  kept : ∀ r q f, valid q → role roots T r q = some f → role roots T' r q = some f
  fresh : ∀ r q f, valid q → role roots T' r q = some f → role roots T r q = some f ∨
    q.length ≤ 3 ∧ (0 < f ∧ f ∉ U) ∧ (q.length = 3 → T' f = fun _ => 0)
  placed : ∀ f ∈ U', f ∈ U ∨ ∃ r q, valid q ∧ role roots T' r q = some f
  rows : ∀ g j, g ∈ U → (∀ r p, role roots T r p = some g → p.length < 3 → ¬ valid (j :: p)) → T' g j = T g j

variable {roots valid} {T T' T'' : ℕ → Index → Word} {U U' U'' : Set ℕ} {r : R} {p : List Index} {f : ℕ} {i : Index}

lemma role_nil : role roots T r [] = roots r := look_nil target roots T r

lemma role_cons (hp : role roots T r p = some f) : role roots T r (i :: p) = target (T f i) := by
  rw [role, look_cons, show look target roots T r p = some f from hp, bind_some]

lemma target_absent {e : Word} (h : isPresent e = false) : target e = none := by
  rw [target, h]
  rfl

lemma role_small (hsmall : ∀ r f, roots r = some f → f < 2 ^ 52) (h : role roots T r p = some f) : f < 2 ^ 52 := by
  cases p with
  | nil => exact hsmall r f (by rwa [role_nil] at h)
  | cons =>
    rw [role, look_cons] at h
    obtain ⟨_, -, hg⟩ := bind_eq_some_iff.mp h
    exact (target_lt hg).trans (by decide)

lemma Grown.refl : Grown roots valid T U T U where
  used := subset_rfl
  kept _ _ _ _ h := h
  fresh _ _ _ _ h := Or.inl h
  placed _ h := Or.inl h
  rows _ _ _ _ := rfl

lemma Wired.upper_present (h : Wired roots valid T U) (hip : valid (i :: p)) (hlen : p.length < 3)
    (hp : role roots T r p = some f) (hpres : isPresent (T f i) = true) : ∃ g, g < 2 ^ 28 ∧ T f i = tableEntry g := by
  rcases h.upper r p f i hip hlen hp with hz | hg
  · rw [hz] at hpres
    exact absurd hpres (by decide)
  · exact hg

lemma Wired.row_of_pt (h : Wired roots valid T U) (hp : valid p) (hlen : p.length = 3) (hr : role roots T r p = some f)
    (r' : R) (q : List Index) (hq : role roots T r' q = some f) (hql : q.length < 3) : ¬ valid (i :: q) := by
  intro hv
  obtain ⟨-, rfl⟩ := h.separate r p r' q f hp (h.closed i q hv) hr hq
  omega

lemma Grown.trans (h' : Wired roots valid T' U') (h₁ : Grown roots valid T U T' U')
    (h₂ : Grown roots valid T' U' T'' U'') : Grown roots valid T U T'' U'' where
  used := h₁.used.trans h₂.used
  kept r q f hq h := h₂.kept r q f hq (h₁.kept r q f hq h)
  fresh r q f hq h := by
    rcases h₂.fresh r q f hq h with hold | ⟨hlen, hnew, hz⟩
    · rcases h₁.fresh r q f hq hold with hold' | ⟨hlen, hnew, hz⟩
      · exact Or.inl hold'
      · refine Or.inr ⟨hlen, hnew, fun h3 => ?_⟩
        funext j
        rw [h₂.rows f j (h'.used r q f hq hold) (h'.row_of_pt hq h3 hold), hz h3]
    · exact Or.inr ⟨hlen, ⟨hnew.1, fun hf => hnew.2 (h₁.used hf)⟩, hz⟩
  placed f hf := by
    rcases h₂.placed f hf with hmid | hnew
    · rcases h₁.placed f hmid with hold | ⟨r, q, hq, hr⟩
      · exact Or.inl hold
      · exact Or.inr ⟨r, q, hq, h₂.kept r q f hq hr⟩
    · exact Or.inr hnew
  rows g j hg hrows := by
    rw [h₂.rows g j (h₁.used hg), h₁.rows g j hg hrows]
    intro r p hp hlen hv
    rcases h₁.fresh r p g (h'.closed j p hv) hp with hold | ⟨-, hnew, -⟩
    · exact hrows r p hold hlen hv
    · exact hnew.2 hg

section link

variable [DecidableEq R] {g : ℕ}

def linked (T : ℕ → Index → Word) (f : ℕ) (i : Index) (g : ℕ) : ℕ → Index → Word :=
  set (setRow T g fun _ => 0) f i (tableEntry g)

lemma role_linked (h : Wired roots valid T U) (hp : role roots T r p = some f) (hip : valid (i :: p))
    (habs : isPresent (T f i) = false) (hg : g < 2 ^ 28) (hfresh : g ∉ U) (r' : R) {q : List Index} (hq : valid q) :
    role roots (linked T f i g) r' q = if r' = r ∧ q = i :: p then some g else role roots T r' q := by
  have hunread : ∀ (r' : R) p, valid p → role roots T r' p ≠ some g := fun r' p hv hr => hfresh (h.used r' p g hv hr)
  have hrow : ∀ (r' : R) {q}, valid q → role roots (setRow T g fun _ => 0) r' q = role roots T r' q :=
    fun r' q hv => look_setRow h.closed _ hv (hunread r')
  have hsep : Separate target roots valid (setRow T g fun _ => 0) := by
    intro r₁ p₁ r₂ p₂ f' hv₁ hv₂ h₁ h₂
    exact h.separate r₁ p₁ r₂ p₂ f' hv₁ hv₂ ((hrow r₁ hv₁).symm.trans h₁) ((hrow r₂ hv₂).symm.trans h₂)
  have hpv := h.closed i p hip
  have hfg : f ≠ g := by
    rintro rfl
    exact hunread r p hpv hp
  rw [role, linked, look_set h.closed hsep ((hrow r hpv).trans hp) hip _ _ r' hq, tableEntry_target hg]
  · by_cases hat : r' = r ∧ q = i :: p
    · rw [if_pos hat, if_pos hat]
    · rw [if_neg hat, if_neg hat]
      exact hrow r' hq
  · intro j hj
    change role roots _ r _ = none
    rw [hrow r hj]
    apply look_none_of_suffix target roots (suffix_cons j (i :: p))
    exact (role_cons hp).trans (target_absent habs)
  · intro g' j hg' _
    rw [tableEntry_target hg, Option.some.injEq] at hg'
    subst hg'
    refine ⟨hfg.symm, ?_⟩
    rw [setRow, Function.update_self]
    rfl

lemma linked_row (hfg : f ≠ g) : linked T f i g g = fun _ => 0 := by
  funext j
  rw [linked, set_of_ne _ _ (fun h => hfg h.1.symm), setRow, Function.update_self]

lemma linked_entry : linked T f i g f i = tableEntry g := set_self _ _ _ _

lemma linked_other {f' : ℕ} {j : Index} (hg : f' ≠ g) (h : ¬ (f' = f ∧ j = i)) : linked T f i g f' j = T f' j := by
  rw [linked, set_of_ne _ _ h, setRow_of_ne _ _ hg]

lemma Wired.linked (h : Wired roots valid T U) (hp : role roots T r p = some f) (hip : valid (i :: p))
    (habs : isPresent (T f i) = false) (hg : g < 2 ^ 28) (hfresh : g ∉ U)
    (hused : U' = insert g U) : Wired roots valid (linked T f i g) U' where
  closed := h.closed
  small := h.small
  separate := by
    have hnew : ∀ r' q, valid q → role roots T r' q ≠ some g := fun r' q hv hr => hfresh (h.used r' q g hv hr)
    intro r₁ p₁ r₂ p₂ f' hv₁ hv₂ h₁ h₂
    rw [← role, role_linked h hp hip habs hg hfresh _ hv₁] at h₁
    rw [← role, role_linked h hp hip habs hg hfresh _ hv₂] at h₂
    split at h₁ <;> split at h₂
    · rename_i ha hb
      exact ⟨ha.1.trans hb.1.symm, ha.2.trans hb.2.symm⟩
    · cases h₁
      exact absurd h₂ (hnew _ _ hv₂)
    · cases h₂
      exact absurd h₁ (hnew _ _ hv₁)
    · exact h.separate r₁ p₁ r₂ p₂ f' hv₁ hv₂ h₁ h₂
  used r' q f' hq hr := by
    rw [role_linked h hp hip habs hg hfresh _ hq] at hr
    rw [hused]
    split at hr
    · cases hr
      exact Set.mem_insert _ _
    · exact Set.mem_insert_of_mem _ (h.used r' q f' hq hr)
  upper r' q f' j hv hlen hr := by
    have hq := h.closed j q hv
    have hfg : f ≠ g := by
      rintro rfl
      exact hfresh (h.used r p f (h.closed i p hip) hp)
    rw [role_linked h hp hip habs hg hfresh _ hq] at hr
    split at hr
    · cases hr
      rw [linked_row hfg]
      exact Or.inl rfl
    · have hne : f' ≠ g := by
        rintro rfl
        exact hfresh (h.used r' q f' hq hr)
      by_cases hat : f' = f ∧ j = i
      · obtain ⟨rfl, rfl⟩ := hat
        exact Or.inr ⟨g, hg, linked_entry⟩
      · rw [linked_other hne hat]
        exact h.upper r' q f' j hv hlen hr

lemma Grown.linked (h : Wired roots valid T U) (hp : role roots T r p = some f) (hip : valid (i :: p)) (hlen : p.length < 3)
    (habs : isPresent (T f i) = false) (hpos : 0 < g) (hg : g < 2 ^ 28) (hfresh : g ∉ U) (hused : U' = insert g U) :
    Grown roots valid T U (linked T f i g) U' where
  used := by
    rw [hused]
    exact Set.subset_insert _ _
  kept r' q f' hq hr := by
    rw [role_linked h hp hip habs hg hfresh _ hq, if_neg, hr]
    rintro ⟨rfl, rfl⟩
    simp [role_cons hp, target_absent habs] at hr
  fresh r' q f' hq hr := by
    have hfg : f ≠ g := by
      rintro rfl
      exact hfresh (h.used r p f (h.closed i p hip) hp)
    rw [role_linked h hp hip habs hg hfresh _ hq] at hr
    split_ifs at hr with hat
    · cases hr
      refine .inr ⟨?_, ⟨hpos, hfresh⟩, fun _ => linked_row hfg⟩
      rwa [hat.2, length_cons]
    · exact .inl hr
  placed f' hf' := by
    rw [hused] at hf'
    rcases Set.mem_insert_iff.mp hf' with rfl | hold
    · refine .inr ⟨r, i :: p, hip, ?_⟩
      rw [role_linked h hp hip habs hg hfresh r hip, if_pos ⟨rfl, rfl⟩]
    · exact .inl hold
  rows g' j hused' hrows := by
    apply linked_other
    · rintro rfl
      exact hfresh hused'
    · rintro ⟨rfl, rfl⟩
      exact hrows r p hp hlen hip

section leaf

variable {e : Word}

lemma role_setLeaf (h : Wired roots valid T U) (hdeep : ∀ q, valid q → q.length ≤ 4) (hp : role roots T r p = some f)
    (hv : valid p) (hlen : p.length = 3) (r' : R) {q : List Index} (hq : valid q) :
    role roots (set T f i e) r' q = if r' = r ∧ q = i :: p then target e else role roots T r' q := by
  have hend : ∀ j, ¬ valid (j :: i :: p) := by
    intro j hj
    have := hdeep _ hj
    simp only [length_cons] at this
    omega
  by_cases hip : valid (i :: p)
  · apply look_set h.closed h.separate hp hip _ _ r' hq
    · exact fun j hj => absurd hj (hend j)
    · exact fun g j _ hj => absurd hj (hend j)
  · rw [if_neg]
    · apply look_set_unread h.closed e hq
      intro p' hp' hr
      obtain ⟨rfl, rfl⟩ := h.separate r' p' r p f (h.closed i p' hp') hv hr hp
      exact hip hp'
    · rintro ⟨rfl, rfl⟩
      exact hip hq

lemma Wired.setLeaf (h : Wired roots valid T U) (hdeep : ∀ q, valid q → q.length ≤ 4)
    (hp : role roots T r p = some f) (hv : valid p) (hlen : p.length = 3)
    (hleaf : ∀ g, valid (i :: p) → target e = some g →
      g ∈ U ∧ ∀ r' q, valid q → role roots T r' q = some g → r' = r ∧ q = i :: p) :
    Wired roots valid (set T f i e) U where
  closed := h.closed
  small := h.small
  separate := by
    intro r₁ p₁ r₂ p₂ f' hv₁ hv₂ h₁ h₂
    rw [← role, role_setLeaf h hdeep hp hv hlen _ hv₁] at h₁
    rw [← role, role_setLeaf h hdeep hp hv hlen _ hv₂] at h₂
    split at h₁ <;> split at h₂
    · rename_i ha hb
      exact ⟨ha.1.trans hb.1.symm, ha.2.trans hb.2.symm⟩
    · rename_i ha hb
      exact absurd ((hleaf f' (ha.2 ▸ hv₁) h₁).2 r₂ p₂ hv₂ h₂) hb
    · rename_i ha hb
      exact absurd ((hleaf f' (hb.2 ▸ hv₂) h₂).2 r₁ p₁ hv₁ h₁) ha
    · exact h.separate r₁ p₁ r₂ p₂ f' hv₁ hv₂ h₁ h₂
  used r' q f' hq hr := by
    rw [role_setLeaf h hdeep hp hv hlen _ hq] at hr
    split at hr
    · rename_i hat
      exact (hleaf f' (hat.2 ▸ hq) hr).1
    · exact h.used r' q f' hq hr
  upper r' q f' j hjq hq hr := by
    have hqv := h.closed j q hjq
    rw [role_setLeaf h hdeep hp hv hlen _ hqv, if_neg] at hr
    · have hne : f' ≠ f := by
        rintro rfl
        obtain ⟨-, rfl⟩ := h.separate r' q r p f' hqv hv hr hp
        omega
      rw [set_of_ne _ _ (fun hh => hne hh.1)]
      exact h.upper r' q f' j hjq hq hr
    · rintro ⟨-, rfl⟩
      simp only [length_cons] at hq
      omega

end leaf

variable {σ : Type} {S : FrameSource σ}

lemma mapTables_spec (flags : Word) {s : Paging σ} (hok : S.ok s.frames)
    (h : Wired roots valid (tables s.mem) (S.used s.frames))
    (hp : role roots (tables s.mem) r p = some f) (rest : List Index) (hlen : p.length + rest.length ≤ 3)
    (hvalid : valid (rest.reverse ++ p)) :
    let res := mapTables S.alloc flags s (frameAddr f) rest
    S.ok res.2.frames ∧ Wired roots valid (tables res.2.mem) (S.used res.2.frames) ∧
    Grown roots valid (tables s.mem) (S.used s.frames) (tables res.2.mem) (S.used res.2.frames) ∧
    ∀ t, res.1 = some t → ∃ g, t = frameAddr g ∧ role roots (tables res.2.mem) r (rest.reverse ++ p) = some g := by
  induction rest generalizing s p f with
  | nil =>
    refine ⟨hok, h, Grown.refl, ?_⟩
    rintro t ⟨⟩
    exact ⟨f, rfl, hp⟩
  | cons i rest ih =>
    rw [reverse_cons, append_assoc, singleton_append] at hvalid ⊢
    rw [length_cons] at hlen
    have hip := valid_of_suffix h.closed (suffix_append _ _) hvalid
    have hlen' : (i :: p).length + rest.length ≤ 3 := by
      rw [length_cons]
      omega
    have hf := role_small h.small hp
    have hentry : ∀ m : Mem, entry m (frameAddr f) i = tables m f i := fun m => entry_frameAddr m hf i
    rw [mapTables]
    cases hpres : isPresent (entry s.mem (frameAddr f) i) with
    | true =>
      simp only [Bool.false_eq_true]
      rw [hentry] at hpres
      obtain ⟨g, hg, he⟩ := h.upper_present hip (by omega) hp hpres
      have hself : ∀ m : Mem, tables m f i = tableEntry g → tables (setEntry m (frameAddr f) i (tableEntry g)) = tables m := by
        intro m hm
        rw [tables_setEntry m hf, ← hm, set_eq_self]
      set m₁ := if hasFlag flags pteUser then setEntry s.mem (frameAddr f) i (entry s.mem (frameAddr f) i ||| pteUser)
        else s.mem with hm₁
      have h₁ : tables m₁ = tables s.mem := by
        rw [hm₁]
        split
        · rw [hentry, he, tableEntry_or_user, hself _ he]
        · rfl
      set m₂ := if hasFlag flags pteWritable then setEntry m₁ (frameAddr f) i (entry m₁ (frameAddr f) i ||| pteWritable)
        else m₁ with hm₂
      have h₂ : tables m₂ = tables s.mem := by
        rw [hm₂, ← h₁]
        split
        · rw [hentry, h₁, he, tableEntry_or_writable, hself _ (by rw [h₁, he]), h₁]
        · rfl
      have hnext : entry m₂ (frameAddr f) i &&& vmmAddrMask = frameAddr g := by
        rw [hentry, h₂, he, and_addrMask, tableEntry_frameOf hg]
      have hrole : role roots (tables m₂) r (i :: p) = some g := by
        rw [h₂, role_cons hp, he, tableEntry_target hg]
      rw [hnext]
      have hrun := ih (s := ⟨m₂, s.frames⟩) hok (by rw [h₂]; exact h) hrole hlen' hvalid
      simp only [h₂] at hrun
      exact hrun
    | false =>
      simp only [Bool.not_false, if_true]
      rw [hentry] at hpres
      have hok' := S.alloc_ok s.frames hok
      rcases S.alloc_spec s.frames hok with ⟨hnull, hsame⟩ | ⟨g, hpos, hg, haddr, hfresh, hused⟩
      · rw [if_pos hnull]
        simp only [hsame]
        refine ⟨hok', h, Grown.refl, ?_⟩
        intro t ht
        cases ht
      · have hnz : ¬ (S.alloc s.frames).1 = 0 := by
          rw [haddr]
          exact frameAddr_ne_zero (by rw [pageSize]; omega) (by omega)
        rw [if_neg hnz, haddr]
        set m₁ := setEntry (zeroPage s.mem (frameAddr g)) (frameAddr f) i
          ((frameAddr g &&& vmmAddrMask) ||| ptePresent ||| pteWritable ||| pteUser) with hm₁
        have h₁ : tables m₁ = linked (tables s.mem) f i g := by
          rw [hm₁, tables_setEntry _ hf, tables_zeroPage _ (by omega)]
          rfl
        have hnext : entry m₁ (frameAddr f) i &&& vmmAddrMask = frameAddr g := by
          rw [hentry, h₁, linked_entry, and_addrMask, tableEntry_frameOf hg]
        have hrole : role roots (tables m₁) r (i :: p) = some g := by
          rw [h₁, role_linked h hp hip hpres hg hfresh r hip, if_pos ⟨rfl, rfl⟩]
        have hw : Wired roots valid (tables m₁) (S.used (S.alloc s.frames).2) := by
          rw [h₁]
          exact h.linked hp hip hpres hg hfresh hused
        have hgrown : Grown roots valid (tables s.mem) (S.used s.frames) (tables m₁) (S.used (S.alloc s.frames).2) := by
          rw [h₁]
          exact Grown.linked h hp hip (by omega) hpres hpos hg hfresh hused
        rw [hnext]
        obtain ⟨hok'', hw', hgrown', hend⟩ := ih (s := ⟨m₁, (S.alloc s.frames).2⟩) hok' hw hrole hlen' hvalid
        exact ⟨hok'', hw', hgrown.trans hw hgrown', hend⟩

lemma vmmMapUnlocked_spec {virt : Word} (phys flags : Word) {s : Paging σ} (hok : S.ok s.frames)
    (h : Wired roots valid (tables s.mem) (S.used s.frames)) (hroot : roots r = some f) (hvalid : valid (upperPath virt)) :
    let res := vmmMapUnlocked S.alloc s (frameAddr f) virt phys flags
    S.ok res.2.frames ∧ ∃ T, Wired roots valid T (S.used res.2.frames) ∧
      Grown roots valid (tables s.mem) (S.used s.frames) T (S.used res.2.frames) ∧
      (res.1 = false ∧ tables res.2.mem = T ∨
       res.1 = true ∧ ∃ g, role roots T r (upperPath virt) = some g ∧
         tables res.2.mem = set T g (ptIdx virt) (leafEntry phys flags)) := by
  obtain ⟨hok', hw, hgrown, hend⟩ := mapTables_spec flags hok h (role_nil.trans hroot) [pml4Idx virt, pdptIdx virt, pdIdx virt]
    (le_refl 3) hvalid
  simp only [vmmMapUnlocked]
  split
  · rename_i t heq
    rw [heq] at hok' hw hgrown
    exact ⟨hok', _, hw, hgrown, Or.inl ⟨rfl, rfl⟩⟩
  · rename_i table t heq
    rw [heq] at hok' hw hgrown hend
    obtain ⟨g, rfl, hg⟩ := hend table rfl
    refine ⟨hok', _, hw, hgrown, Or.inr ⟨rfl, g, hg, ?_⟩⟩
    exact tables_setEntry _ (role_small hw.small hg) _ _

end link

lemma vmmUnmapUnlocked_spec (hsmall : ∀ r f, roots r = some f → f < 2 ^ 52) {m : Mem} (hroot : roots r = some f)
    (virt : Word) :
    tables (vmmUnmapUnlocked m (frameAddr f) virt) =
      match role roots (tables m) r (upperPath virt) with
      | none => tables m
      | some g => set (tables m) g (ptIdx virt) 0 := by
  have h₀ : role roots (tables m) r [] = some f := role_nil.trans hroot
  have hstep : ∀ {p g} (i : Index), role roots (tables m) r p = some g →
      role roots (tables m) r (i :: p) =
        if isPresent (entry m (frameAddr g) i) then some (frameOf (entry m (frameAddr g) i)) else none := by
    intro p g i hp
    rw [role_cons hp, entry_frameAddr m (role_small hsmall hp)]
    rfl
  have hnone : ∀ {p}, p <:+ upperPath virt → role roots (tables m) r p = none →
      role roots (tables m) r (upperPath virt) = none := fun hs => look_none_of_suffix target roots hs
  rw [vmmUnmapUnlocked]
  simp only [and_addrMask]
  have h₁ := hstep (pml4Idx virt) h₀
  split_ifs with hp₁ hp₂ hp₃
  · rw [hnone ⟨[_, _], rfl⟩ (by rw [h₁, if_neg (by simpa using hp₁)])]
  · rw [if_pos (by simpa using hp₁)] at h₁
    have h₂ := hstep (pdptIdx virt) h₁
    rw [hnone ⟨[_], rfl⟩ (by rw [h₂, if_neg (by simpa using hp₂)])]
  · rw [if_pos (by simpa using hp₁)] at h₁
    have h₂ := hstep (pdptIdx virt) h₁
    rw [if_pos (by simpa using hp₂)] at h₂
    have h₃ := hstep (pdIdx virt) h₂
    rw [if_neg (by simpa using hp₃)] at h₃
    rw [upperPath, h₃]
  · rw [if_pos (by simpa using hp₁)] at h₁
    have h₂ := hstep (pdptIdx virt) h₁
    rw [if_pos (by simpa using hp₂)] at h₂
    have h₃ := hstep (pdIdx virt) h₂
    rw [if_pos (by simpa using hp₃)] at h₃
    rw [upperPath, h₃]
    exact tables_setEntry m ((frameOf_lt _).trans (by decide)) _ _

lemma role_congr (hv : ∀ i p, valid (i :: p) → valid p) (hT : ∀ r p f j, valid (j :: p) → role roots T r p = some f →
    T' f j = T f j) (r : R) {q : List Index} (hq : valid q) : role roots T' r q = role roots T r q := by
  cases hr : roots r with
  | none => simp [look, hr]
  | some root =>
    have hlook : ∀ T p, role roots T r p = walk target T root p := by
      intro T p
      simp [look, hr]
    rw [hlook, hlook]
    apply walk_congr
    intro i p f hs hw
    rw [hT r p f i (valid_of_suffix hv hs hq) ((hlook T p).trans hw)]

lemma Wired.congr (h : Wired roots valid T U)
    (hT : ∀ r p f j, valid (j :: p) → role roots T r p = some f → T' f j = T f j) : Wired roots valid T' U where
  closed := h.closed
  small := h.small
  separate := by
    intro r₁ p₁ r₂ p₂ f hv₁ hv₂ h₁ h₂
    exact h.separate r₁ p₁ r₂ p₂ f hv₁ hv₂ ((role_congr h.closed hT r₁ hv₁).symm.trans h₁)
      ((role_congr h.closed hT r₂ hv₂).symm.trans h₂)
  used r p f hp hr := h.used r p f hp ((role_congr h.closed hT r hp).symm.trans hr)
  upper r p f i hip hlen hr := by
    rw [role_congr h.closed hT r (h.closed i p hip)] at hr
    rw [hT r p f i hip hr]
    exact h.upper r p f i hip hlen hr

lemma Wired.mono (h : Wired roots valid T U) (hU : ∀ r p f, valid p → role roots T r p = some f → f ∈ U') :
    Wired roots valid T U' :=
  ⟨h.closed, h.small, h.separate, hU, h.upper⟩

section roots

variable [DecidableEq R] {t : R} {g : ℕ}

lemma role_update_of_ne (hr : r ≠ t) (o : Option ℕ) : role (Function.update roots t o) T r p = role roots T r p := by
  rw [role, role, look, look, Function.update_of_ne hr]

lemma role_update_none : role (Function.update roots t none) T t p = none := by
  rw [role, look, Function.update_self, bind_none]

lemma Wired.removeRoot (h : Wired roots valid T U) (t : R) (hU : ∀ f ∈ U, f ∉ U' → ∃ p, valid p ∧ role roots T t p = some f) :
    Wired (Function.update roots t none) valid T U' := by
  have hold : ∀ {r p f}, role (Function.update roots t none) T r p = some f → r ≠ t ∧ role roots T r p = some f := by
    intro r p f hr
    by_cases hrt : r = t
    · simp [hrt, role_update_none] at hr
    · exact ⟨hrt, by rwa [role_update_of_ne hrt] at hr⟩
  refine ⟨h.closed, fun r f hr => ?_, ?_, ?_, ?_⟩
  · have hnil : role (Function.update roots t none) T r [] = some f := role_nil.trans hr
    exact role_small h.small (hold hnil).2
  · intro r₁ p₁ r₂ p₂ f hv₁ hv₂ h₁ h₂
    exact h.separate r₁ p₁ r₂ p₂ f hv₁ hv₂ (hold h₁).2 (hold h₂).2
  · intro r p f hp hr
    obtain ⟨hne, hr⟩ := hold hr
    by_contra hf
    obtain ⟨q, hq, ht⟩ := hU f (h.used r p f hp hr) hf
    exact hne (h.separate r p t q f hp hq hr ht).1
  · intro r p f i hip hlen hr
    exact h.upper r p f i hip hlen (hold hr).2

lemma role_addRoot (hrow : ∀ i, valid [i] → T' g i = 0) (hv : ∀ i p, valid (i :: p) → valid p) (hp : valid p)
    (h : role (Function.update roots t (some g)) T' t p = some f) : p = [] ∧ f = g := by
  induction p generalizing f with
  | nil =>
    rw [role_nil, Function.update_self, Option.some.injEq] at h
    exact ⟨rfl, h.symm⟩
  | cons i p ih =>
    rw [role, look_cons, bind_eq_some_iff] at h
    obtain ⟨_, hf', ht⟩ := h
    obtain ⟨rfl, rfl⟩ := ih (hv i p hp) hf'
    rw [hrow i hp] at ht
    cases ht

omit [DecidableEq R] in
lemma role_of_noRoot (hr : roots r = none) : role roots T r p = none := by
  rw [role, look, hr, bind_none]

omit [DecidableEq R] in
lemma wired_of_noRoots (hroots : ∀ r, roots r = none) (hv : ∀ i p, valid (i :: p) → valid p) : Wired roots valid T U := by
  have hnone : ∀ {r p f}, role roots T r p = some f → False := by
    intro r p f hr
    simp [role_of_noRoot (hroots r)] at hr
  refine ⟨hv, ?_, ?_, ?_, ?_⟩
  · intro r f hf
    simp [hroots] at hf
  · exact fun _ _ _ _ _ _ _ hr => (hnone hr).elim
  · exact fun _ _ _ _ hr => (hnone hr).elim
  · exact fun _ _ _ _ _ _ hr => (hnone hr).elim

omit [DecidableEq R] in
lemma Wired.addRoot_rows (h : Wired roots valid T U) (hfresh : g ∉ U) (hsame : ∀ f, f ≠ g → T' f = T f) (r : R)
    (p : List Index) (f : ℕ) (j : Index) (hjp : valid (j :: p)) (hr : role roots T r p = some f) : T' f j = T f j := by
  rw [hsame]
  rintro rfl
  exact hfresh (h.used r p f (h.closed j p hjp) hr)

lemma Wired.addRoot_cases (h : Wired roots valid T U) (hfresh : g ∉ U) (hsame : ∀ f, f ≠ g → T' f = T f)
    (hrow : ∀ i, valid [i] → T' g i = 0) (hp : valid p)
    (hr : role (Function.update roots t (some g)) T' r p = some f) :
    r = t ∧ p = [] ∧ f = g ∨ r ≠ t ∧ f ≠ g ∧ role roots T r p = some f := by
  rcases eq_or_ne r t with rfl | hrt
  · obtain ⟨rfl, rfl⟩ := role_addRoot hrow h.closed hp hr
    exact .inl ⟨rfl, rfl, rfl⟩
  · rw [role_update_of_ne hrt, role_congr h.closed (h.addRoot_rows hfresh hsame) r hp] at hr
    refine .inr ⟨hrt, ?_, hr⟩
    rintro rfl
    exact hfresh (h.used r p f hp hr)

lemma Wired.addRoot (h : Wired roots valid T U) (hg : g < 2 ^ 52) (hfresh : g ∉ U) (hsame : ∀ f, f ≠ g → T' f = T f)
    (hrow : ∀ i, valid [i] → T' g i = 0) (t : R) : Wired (Function.update roots t (some g)) valid T' (insert g U) := by
  have hcases : ∀ {r p f}, valid p → role (Function.update roots t (some g)) T' r p = some f →
      r = t ∧ p = [] ∧ f = g ∨ r ≠ t ∧ f ≠ g ∧ role roots T r p = some f :=
    fun hp hr => h.addRoot_cases hfresh hsame hrow hp hr
  refine ⟨h.closed, fun r f hr => ?_, ?_, ?_, ?_⟩
  · by_cases hrt : r = t
    · rw [hrt, Function.update_self, Option.some.injEq] at hr
      rwa [← hr]
    · rw [Function.update_of_ne hrt] at hr
      exact h.small r f hr
  · intro r₁ p₁ r₂ p₂ f hv₁ hv₂ h₁ h₂
    rcases hcases hv₁ h₁ with ⟨rfl, rfl, rfl⟩ | ⟨-, hne₁, h₁'⟩
    · rcases hcases hv₂ h₂ with ⟨rfl, rfl, -⟩ | ⟨-, hne₂, -⟩
      · exact ⟨rfl, rfl⟩
      · exact absurd rfl hne₂
    · rcases hcases hv₂ h₂ with ⟨-, -, rfl⟩ | ⟨-, -, h₂'⟩
      · exact absurd rfl hne₁
      · exact h.separate r₁ p₁ r₂ p₂ f hv₁ hv₂ h₁' h₂'
  · intro r p f hp hr
    rcases hcases hp hr with ⟨-, -, rfl⟩ | ⟨-, -, hr'⟩
    · exact Set.mem_insert _ _
    · exact Set.mem_insert_of_mem _ (h.used r p f hp hr')
  · intro r p f i hip hlen hr
    rcases hcases (h.closed i p hip) hr with ⟨-, rfl, rfl⟩ | ⟨-, -, hr'⟩
    · exact .inl (hrow i hip)
    · rw [h.addRoot_rows hfresh hsame r p f i hip hr']
      exact h.upper r p f i hip hlen hr'

end roots

section walk

def presentEntry (e : Word) : Option Word := if isPresent e then some e else none

def leafOf (roots : R → Option ℕ) (T : ℕ → Index → Word) (r : R) (virt : Word) : Option Word :=
  (role roots T r (upperPath virt)).bind fun g => presentEntry (T g (ptIdx virt))

lemma role_leafPath (virt : Word) : role roots T r (leafPath virt) = (leafOf roots T r virt).map frameOf := by
  rw [leafPath, role, look_cons, leafOf, Option.map_bind]
  congr 1
  funext g
  rw [Function.comp_apply, target, presentEntry]
  split <;> rfl

lemma leafOf_grown (h : Wired roots valid T U) (hg : Grown roots valid T U T' U') {virt : Word}
    (hv : valid (upperPath virt)) : leafOf roots T' r virt = leafOf roots T r virt := by
  rw [leafOf, leafOf]
  cases hold : role roots T r (upperPath virt) with
  | some g =>
    have hrow := hg.rows g (ptIdx virt) (h.used r _ g hv hold) (h.row_of_pt hv rfl hold)
    rw [hg.kept r _ g hv hold, bind_some, bind_some, hrow]
  | none =>
    cases hnew : role roots T' r (upperPath virt) with
    | none => rfl
    | some g =>
      rcases hg.fresh r _ g hv hnew with h' | ⟨-, -, hz⟩
      · simp [h'] at hold
      · rw [bind_some, bind_none, hz rfl]
        exact if_neg (show ¬ isPresent 0 = true by decide)

lemma leafOf_congr (hv : ∀ i p, valid (i :: p) → valid p) (hT : ∀ r p f j, valid (j :: p) → role roots T r p = some f →
    T' f j = T f j) {virt : Word} (hp : valid (leafPath virt)) : leafOf roots T' r virt = leafOf roots T r virt := by
  rw [leafOf, leafOf, role_congr hv hT r (hv _ _ hp)]
  cases hr : role roots T r (upperPath virt) with
  | none => rfl
  | some g => rw [bind_some, bind_some, hT r _ g _ hp hr]

lemma leafPath_inj {v w : Word} : leafPath v = leafPath w ↔ upperPath v = upperPath w ∧ ptIdx v = ptIdx w := by
  rw [leafPath, leafPath, List.cons.injEq, and_comm]

lemma leafOf_setLeaf [DecidableEq R] (h : Wired roots valid T U) (hdeep : ∀ q, valid q → q.length ≤ 4) {virt w : Word}
    {g : ℕ} {e : Word} (hg : role roots T r (upperPath virt) = some g) (hv : valid (upperPath virt)) (r' : R)
    (hw : valid (upperPath w)) :
    leafOf roots (set T g (ptIdx virt) e) r' w =
      if r' = r ∧ leafPath w = leafPath virt then presentEntry e else leafOf roots T r' w := by
  have hrole : role roots (set T g (ptIdx virt) e) r' (upperPath w) = role roots T r' (upperPath w) := by
    rw [role_setLeaf h hdeep hg hv rfl r' hw, if_neg]
    simp [upperPath]
  rw [leafOf, leafOf, hrole]
  by_cases hat : r' = r ∧ leafPath w = leafPath virt
  · obtain ⟨hup, hpt⟩ := leafPath_inj.mp hat.2
    rw [if_pos hat, hat.1, hup, hg, bind_some, hpt, set_self]
  · rw [if_neg hat]
    cases hgw : role roots T r' (upperPath w) with
    | none => rfl
    | some g' =>
      rw [bind_some, bind_some, set_of_ne]
      rintro ⟨rfl, hpt⟩
      obtain ⟨hr, hup⟩ := h.separate r' _ r _ g' hw hv hgw hg
      exact hat ⟨hr, leafPath_inj.mpr ⟨hup, hpt⟩⟩

lemma Wired.entry_cases (h : Wired roots valid T U) {m : Mem} (hm : tables m = T) (hip : valid (i :: p))
    (hlen : p.length < 3) (hp : role roots T r p = some f) :
    entry m (frameAddr f) i = 0 ∧ role roots T r (i :: p) = none ∨
    ∃ g, entry m (frameAddr f) i = tableEntry g ∧ g < 2 ^ 28 ∧ role roots T r (i :: p) = some g := by
  rw [entry_frameAddr m (role_small h.small hp), hm, role_cons hp]
  rcases h.upper r p f i hip hlen hp with hz | ⟨g, hg, he⟩
  · rw [hz]
    exact .inl ⟨rfl, rfl⟩
  · rw [he]
    exact .inr ⟨g, rfl, hg, tableEntry_target hg⟩

lemma Wired.walk_cases {m : Mem} (h : Wired roots valid (tables m) U) (hroot : roots r = some f) {virt : Word}
    (hv : valid (upperPath virt)) :
    (leafOf roots (tables m) r virt = none ∧ vmmVirtualToPhysical m (frameAddr f) virt = 0 ∧
      walkEntries m (frameAddr f) virt = none) ∨
    ∃ e, leafOf roots (tables m) r virt = some e ∧
      vmmVirtualToPhysical m (frameAddr f) virt = (e &&& vmmAddrMask) + (virt &&& 0xFFF) ∧
      ∃ g₁ g₂ g₃, walkEntries m (frameAddr f) virt = some [tableEntry g₁, tableEntry g₂, tableEntry g₃, e] := by
  have hv₂ := h.closed _ _ hv
  have hv₁ := h.closed _ _ hv₂
  have hnone : ∀ {p}, p <:+ upperPath virt → role roots (tables m) r p = none → leafOf roots (tables m) r virt = none := by
    intro p hs hp
    rw [leafOf, role, look_none_of_suffix target _ hs hp, bind_none]
  have hmask : ∀ {g}, g < 2 ^ 28 → tableEntry g &&& vmmAddrMask = frameAddr g := by
    intro g hg
    rw [and_addrMask, tableEntry_frameOf hg]
  have hzero : isPresent 0 = false := by decide
  have hzeroHuge : hasFlag 0 pteHuge = false := by decide
  have hhuge : ∀ g, hasFlag (tableEntry g) pteHuge = false := fun g => (tableEntry_hasFlag g).2.2.1
  rw [vmmVirtualToPhysical, walkEntries]
  rcases h.entry_cases rfl hv₁ (by decide) (role_nil.trans hroot) with ⟨he₁, h₁⟩ | ⟨g₁, he₁, hg₁, h₁⟩
  · left
    simp only [he₁, hzero, Bool.not_false, if_true, and_true]
    exact hnone ⟨[_, _], rfl⟩ h₁
  simp only [he₁, tableEntry_present, hmask hg₁, Bool.not_true, Bool.false_eq_true, if_false]
  rcases h.entry_cases rfl hv₂ (by simp) h₁ with ⟨he₂, h₂⟩ | ⟨g₂, he₂, hg₂, h₂⟩
  · left
    simp only [he₂, hzero, Bool.not_false, if_true, and_true]
    exact hnone ⟨[_], rfl⟩ h₂
  simp only [he₂, tableEntry_present, hhuge, hmask hg₂, Bool.not_true]
  rcases h.entry_cases rfl hv (by simp) h₂ with ⟨he₃, h₃⟩ | ⟨g₃, he₃, hg₃, h₃⟩
  · left
    simp only [he₃, hzero, hzeroHuge, Bool.not_false, if_true, Bool.false_eq_true, if_false, and_true]
    exact hnone ⟨[], rfl⟩ h₃
  simp only [he₃, tableEntry_present, hhuge, hmask hg₃]
  have hleaf : leafOf roots (tables m) r virt = presentEntry (entry m (frameAddr g₃) (ptIdx virt)) := by
    rw [leafOf, show role roots (tables m) r (upperPath virt) = some g₃ from h₃, bind_some,
      entry_frameAddr m (by omega)]
  rw [hleaf, presentEntry]
  cases isPresent (entry m (frameAddr g₃) (ptIdx virt)) with
  | false => exact .inl ⟨rfl, rfl, rfl⟩
  | true => exact .inr ⟨_, rfl, rfl, g₁, g₂, g₃, rfl⟩

end walk

end trees

end KernelSmp.Memory
