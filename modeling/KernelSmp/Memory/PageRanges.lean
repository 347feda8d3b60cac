import KernelSmp.Memory.PageTree

/-! Mapping and unmapping whole ranges inside page table trees that share an allocator, with what
these operations leave alone. -/

namespace KernelSmp.Memory

open Base Base.Radix BitVec

section evolution

variable {R : Type} (roots : R → Option ℕ) (valid : List Index → Prop)

def Outside (T : ℕ → Index → Word) (g : ℕ) (j : Index) : Prop :=
  ∀ r p, valid p → role roots T r p = some g → p = [] ∧ ¬ valid [j]

def Unlinked (T : ℕ → Index → Word) (g : ℕ) : Prop := ∀ r p, valid p → role roots T r p ≠ some g

def OnlyLeaf (T : ℕ → Index → Word) (g : ℕ) : Prop := ∀ r p, valid p → role roots T r p = some g → p.length = 4

structure Evolves (U : Set ℕ) (T T' : ℕ → Index → Word) : Prop where
  kept : ∀ g j, g ∈ U → Outside roots valid T g j → T' g j = T g j
  roles : ∀ r p f, valid p → f ∈ U → role roots T' r p = some f → role roots T r p = some f

def LeavesChange (r : R) (new : List Index → Option Word → Prop) (T T' : ℕ → Index → Word) : Prop :=
  ∀ r' w, valid (leafPath w) →
    leafOf roots T' r' w = leafOf roots T r' w ∨ r' = r ∧ new (leafPath w) (leafOf roots T' r w)

variable {roots valid} {U U' V : Set ℕ} {T T' T'' : ℕ → Index → Word} {r : R} {f g : ℕ}
  {new new' : List Index → Option Word → Prop}

lemma Wired.unlinked (h : Wired roots valid T U) (hg : g ∉ U) : Unlinked roots valid T g :=
  fun r p hp hr => hg (h.used r p g hp hr)

lemma LeavesChange.refl : LeavesChange roots valid r new T T := fun _ _ _ => Or.inl rfl

lemma LeavesChange.mono (h : LeavesChange roots valid r new T T') (hnew : ∀ q l, new q l → new' q l) :
    LeavesChange roots valid r new' T T' := by
  intro r' w hw
  rcases h r' w hw with hsame | ⟨hr, hchange⟩
  · exact .inl hsame
  · exact .inr ⟨hr, hnew _ _ hchange⟩

lemma LeavesChange.trans (h₁ : LeavesChange roots valid r new T T') (h₂ : LeavesChange roots valid r new T' T'') :
    LeavesChange roots valid r new T T'' := by
  intro r' w hw
  rcases h₂ r' w hw with hsame | hchange
  · rw [hsame]
    rcases h₁ r' w hw with hsame' | ⟨rfl, hchange⟩
    · exact .inl hsame'
    · rw [hsame]
      exact .inr ⟨rfl, hchange⟩
  · exact .inr hchange

lemma Evolves.refl : Evolves roots valid U T T := ⟨fun _ _ _ _ => rfl, fun _ _ _ _ _ h => h⟩

lemma Evolves.outside (h : Evolves roots valid U T T') {j : Index} (hg : g ∈ U) (ho : Outside roots valid T g j) :
    Outside roots valid T' g j :=
  fun r p hp hr => ho r p hp (h.roles r p g hp hg hr)

lemma Evolves.unlinked (h : Evolves roots valid U T T') (hg : g ∈ U) (hu : Unlinked roots valid T g) :
    Unlinked roots valid T' g :=
  fun r p hp hr => hu r p hp (h.roles r p g hp hg hr)

lemma Unlinked.onlyLeaf (h : Unlinked roots valid T g) : OnlyLeaf roots valid T g := fun r p hp hr => absurd hr (h r p hp)

lemma Evolves.onlyLeaf (h : Evolves roots valid U T T') (hg : g ∈ U) (hl : OnlyLeaf roots valid T g) :
    OnlyLeaf roots valid T' g :=
  fun r p hp hr => hl r p hp (h.roles r p g hp hg hr)

lemma Evolves.trans (h₁ : Evolves roots valid U T T') (h₂ : Evolves roots valid U T' T'') :
    Evolves roots valid U T T'' where
  kept g j hg ho := (h₂.kept g j hg (h₁.outside hg ho)).trans (h₁.kept g j hg ho)
  roles r p f hp hf hr := h₁.roles r p f hp hf (h₂.roles r p f hp hf hr)

lemma Evolves.mono (h : Evolves roots valid U' T T') (hU : U ⊆ U') : Evolves roots valid U T T' :=
  ⟨fun g j hg => h.kept g j (hU hg), fun r p f hp hf => h.roles r p f hp (hU hf)⟩

lemma Grown.evolves (hv : ∀ i p, valid (i :: p) → valid p) (h : Grown roots valid T U T' U') :
    Evolves roots valid U T T' where
  kept g j hg ho := by
    apply h.rows g j hg
    intro r p hr _ hjp
    obtain ⟨rfl, hj⟩ := ho r p (hv j p hjp) hr
    exact hj hjp
  roles r p f hp hf hr := by
    rcases h.fresh r p f hp hr with hold | ⟨-, hnew, -⟩
    · exact hold
    · exact absurd hf hnew.2

variable [DecidableEq R]

lemma Evolves.setLeaf (h : Wired roots valid T V) (hdeep : ∀ q, valid q → q.length ≤ 4) {p : List Index}
    (hp : role roots T r p = some f) (hv : valid p) (hlen : p.length = 3) {i : Index} {e : Word}
    (hleaf : ∀ g, target e = some g → g ∉ U) : Evolves roots valid U T (set T f i e) where
  kept g j hg ho := by
    apply set_of_ne
    rintro ⟨rfl, -⟩
    obtain ⟨rfl, -⟩ := ho r p hv hp
    cases hlen
  roles r' q g hq hg hr := by
    rw [role_setLeaf h hdeep hp hv hlen r' hq] at hr
    split at hr
    · exact absurd hg (hleaf g hr)
    · exact hr

lemma LeavesChange.setLeaf (h : Wired roots valid T V) (hdeep : ∀ q, valid q → q.length ≤ 4) {virt e : Word}
    (hp : role roots T r (upperPath virt) = some f) (hv : valid (upperPath virt)) :
    LeavesChange roots valid r (fun q l => q = leafPath virt ∧ l = presentEntry e) T (set T f (ptIdx virt) e) := by
  intro r' w hw
  rw [leafOf_setLeaf h hdeep hp hv r' (h.closed _ _ hw)]
  split_ifs with hat
  · refine .inr ⟨hat.1, hat.2, ?_⟩
    rw [leafOf_setLeaf h hdeep hp hv r (h.closed _ _ hw), if_pos ⟨rfl, hat.2⟩]
  · exact .inl rfl

end evolution

section ranges

variable {σ R : Type} [DecidableEq R] {S : FrameSource σ} {roots : R → Option ℕ} {valid : List Index → Prop} {U : Set ℕ}
  {r : R} {f : ℕ} {virt phys flags : Word}

lemma vmmUnmapUnlocked_wired (hdeep : ∀ q, valid q → q.length ≤ 4) {m : Mem} (h : Wired roots valid (tables m) U)
    (hroot : roots r = some f) (hv : valid (upperPath virt)) :
    let m' := vmmUnmapUnlocked m (frameAddr f) virt
    Wired roots valid (tables m') U ∧ Evolves roots valid Set.univ (tables m) (tables m') ∧
    leafOf roots (tables m') r virt = none ∧
    LeavesChange roots valid r (fun q l => q = leafPath virt ∧ l = none) (tables m) (tables m') := by
  intro m'
  have hspec : tables m' = _ := vmmUnmapUnlocked_spec h.small hroot virt
  cases hg : role roots (tables m) r (upperPath virt) with
  | none =>
    rw [hg] at hspec
    rw [hspec]
    refine ⟨h, Evolves.refl, ?_, LeavesChange.refl⟩
    rw [leafOf, hg, Option.bind_none]
  | some =>
    rw [hg] at hspec
    rw [hspec]
    refine ⟨?_, ?_, ?_, LeavesChange.setLeaf h hdeep hg hv⟩
    · exact h.setLeaf hdeep hg hv rfl (fun g' _ hg' => by cases hg')
    · exact Evolves.setLeaf h hdeep hg hv rfl (fun g' hg' => by cases hg')
    · rw [leafOf_setLeaf h hdeep hg hv r hv, if_pos ⟨rfl, rfl⟩]
      rfl

lemma role_vmmUnmapUnlocked (hdeep : ∀ q, valid q → q.length ≤ 4) {m : Mem} (h : Wired roots valid (tables m) U)
    (hroot : roots r = some f) (hv : valid (upperPath virt)) (r' : R) {q : List Index} (hq : valid q) :
    role roots (tables (vmmUnmapUnlocked m (frameAddr f) virt)) r' q =
      if r' = r ∧ q = leafPath virt then none else role roots (tables m) r' q := by
  rw [vmmUnmapUnlocked_spec h.small hroot virt]
  cases hg : role roots (tables m) r (upperPath virt) with
  | none =>
    by_cases hat : r' = r ∧ q = leafPath virt
    · rw [if_pos hat, hat.1, hat.2]
      exact look_none_of_suffix target roots (List.suffix_cons _ _) hg
    · rw [if_neg hat]
  | some => exact role_setLeaf h hdeep hg hv rfl r' hq

lemma unmapPages_wired (hdeep : ∀ q, valid q → q.length ≤ 4) {m : Mem} (h : Wired roots valid (tables m) U)
    (hroot : roots r = some f) (n : ℕ) (hv : ∀ i < n, valid (upperPath (virt + pageOffset i))) :
    let m' := unmapPages m (frameAddr f) virt n
    Wired roots valid (tables m') U ∧ Evolves roots valid Set.univ (tables m) (tables m') ∧
    LeavesChange roots valid r (fun q l => (∃ j < n, q = leafPath (virt + pageOffset j)) ∧ l = none) (tables m)
      (tables m') := by
  induction n with
  | zero => exact ⟨h, Evolves.refl, LeavesChange.refl⟩
  | succ n ih =>
    obtain ⟨hw, he, hl⟩ := ih fun i hi => hv i (by omega)
    obtain ⟨hw', he', -, hl'⟩ := vmmUnmapUnlocked_wired hdeep hw hroot (hv n (by omega))
    refine ⟨hw', he.trans he', LeavesChange.trans (hl.mono ?_) (hl'.mono ?_)⟩
    · rintro q l ⟨⟨j, hj, hq⟩, hnone⟩
      exact ⟨⟨j, by omega, hq⟩, hnone⟩
    · rintro q l ⟨hq, hnone⟩
      exact ⟨⟨n, by omega, hq⟩, hnone⟩

structure Remapped (S : FrameSource σ) (roots : R → Option ℕ) (valid : List Index → Prop) (U : Set ℕ) (r : R)
    (new : List Index → Option Word → Prop) (s t : Paging σ) : Prop where
  ok : S.ok t.frames
  wired : Wired roots valid (tables t.mem) (S.used t.frames)
  used : S.used s.frames ⊆ S.used t.frames
  evolves : Evolves roots valid U (tables s.mem) (tables t.mem)
  onlyLeaf : ∀ h ∈ S.used s.frames, OnlyLeaf roots valid (tables s.mem) h → OnlyLeaf roots valid (tables t.mem) h
  leaves : LeavesChange roots valid r new (tables s.mem) (tables t.mem)

variable {new : List Index → Option Word → Prop} {s t u : Paging σ}

omit [DecidableEq R] in
lemma Remapped.trans (h₁ : Remapped S roots valid U r new s t) (h₂ : Remapped S roots valid U r new t u) :
    Remapped S roots valid U r new s u where
  ok := h₂.ok
  wired := h₂.wired
  used := h₁.used.trans h₂.used
  evolves := h₁.evolves.trans h₂.evolves
  onlyLeaf g hg hl := h₂.onlyLeaf g (h₁.used hg) (h₁.onlyLeaf g hg hl)
  leaves := h₁.leaves.trans h₂.leaves

lemma leafEntry_present (phys flags : Word) : presentEntry (leafEntry phys flags) = some (leafEntry phys flags) := by
  rw [presentEntry, if_pos]
  rw [isPresent_eq, leafEntry]
  simp [ptePresent]

lemma vmmMapUnlocked_wired (hdeep : ∀ q, valid q → q.length ≤ 4) (hok : S.ok s.frames)
    (h : Wired roots valid (tables s.mem) (S.used s.frames)) (hU : U ⊆ S.used s.frames) (hroot : roots r = some f)
    (hv : valid (leafPath virt)) {g : ℕ} (htarget : target (leafEntry phys flags) = some g)
    (hg : g ∈ S.used s.frames) (hgU : g ∉ U) (hfree : Unlinked roots valid (tables s.mem) g)
    (hnew : new (leafPath virt) (some (leafEntry phys flags))) :
    let t := (vmmMapUnlocked S.alloc s (frameAddr f) virt phys flags).2
    Remapped S roots valid U r new s t ∧
    ∀ h ∈ S.used s.frames, h ≠ g → Unlinked roots valid (tables s.mem) h → Unlinked roots valid (tables t.mem) h := by
  have hup := h.closed _ _ hv
  obtain ⟨hok', T, hT, hgrown, hres⟩ := vmmMapUnlocked_spec phys flags hok h hroot hup
  have hgrows := hgrown.evolves h.closed
  have hsame : LeavesChange roots valid r new (tables s.mem) T :=
    fun r' w hw => Or.inl (leafOf_grown h hgrown (h.closed _ _ hw))
  rcases hres with ⟨-, hmem⟩ | ⟨-, pt, hpt, hmem⟩
  · rw [← hmem] at hT hgrown hgrows hsame
    exact ⟨⟨hok', hT, hgrown.used, hgrows.mono hU, fun h' hh' => hgrows.onlyLeaf hh', hsame⟩,
      fun h' hh' _ => hgrows.unlinked hh'⟩
  · have hleaf : ∀ V : Set ℕ, g ∉ V → Evolves roots valid V T (set T pt (ptIdx virt) (leafEntry phys flags)) := by
      intro V hgV
      apply Evolves.setLeaf hT hdeep hpt hup rfl
      intro g' hg'
      rw [htarget, Option.some.injEq] at hg'
      rwa [← hg']
    have hchange : LeavesChange roots valid r new T (set T pt (ptIdx virt) (leafEntry phys flags)) := by
      apply (LeavesChange.setLeaf hT hdeep hpt hup).mono
      rintro q l ⟨rfl, rfl⟩
      rwa [leafEntry_present]
    have hplaced : Wired roots valid (set T pt (ptIdx virt) (leafEntry phys flags))
        (S.used (vmmMapUnlocked S.alloc s (frameAddr f) virt phys flags).2.frames) := by
      apply hT.setLeaf hdeep hpt hup rfl
      intro g' _ hg'
      rw [htarget, Option.some.injEq] at hg'
      subst hg'
      exact ⟨hgrown.used hg, fun r' q hq hr => absurd hr (hgrows.unlinked hg hfree r' q hq)⟩
    rw [← hmem] at hleaf hchange hplaced
    refine ⟨⟨hok', hplaced, hgrown.used, (hgrows.mono hU).trans (hleaf U hgU), fun h' hh' hl => ?_,
      hsame.trans hchange⟩, fun h' hh' hne hu => ?_⟩
    · intro r' q hq hr
      rw [hmem, role_setLeaf hT hdeep hpt hup rfl r' hq] at hr
      split at hr
      · rename_i hat
        rw [hat.2]
        rfl
      · exact hgrows.onlyLeaf hh' hl r' q hq hr
    · have hone : h' ∈ ({h'} : Set ℕ) := rfl
      have hne' : g ∉ ({h'} : Set ℕ) := fun hh => hne (Set.mem_singleton_iff.mp hh).symm
      exact (hleaf {h'} hne').unlinked hone (hgrows.unlinked hh' hu)

lemma numPages_pageOffset {j : ℕ} (h : j < 2 ^ 52) : numPages (pageOffset j) = j := by
  rw [numPages, pageOffset, pageSize, toNat_sub, BitVec.toNat_add, toNat_ofNat, toNat_ofNat]
  change (2 ^ 64 - 1 + (j * 4096 % 2 ^ 64 + 4096 % 2 ^ 64) % 2 ^ 64) % 2 ^ 64 / 4096 = j
  omega

lemma mapPages_wired (hdeep : ∀ q, valid q → q.length ≤ 4) (hroot : roots r = some f) {start : ℕ} (n : ℕ)
    {i : ℕ} (hok : S.ok s.frames) (h : Wired roots valid (tables s.mem) (S.used s.frames)) (hU : U ⊆ S.used s.frames)
    (hn : i + n < 2 ^ 51) (hv : ∀ j < i + n, valid (leafPath (virt + pageOffset j)))
    (htarget : ∀ j < i + n, target (leafEntry (phys + pageOffset j) flags) = some (start + j))
    (hused : ∀ j < i + n, start + j ∈ S.used s.frames ∧ start + j ∉ U)
    (hfree : ∀ j < i + n, i ≤ j → Unlinked roots valid (tables s.mem) (start + j))
    (hnew : ∀ j < i + n, new (leafPath (virt + pageOffset j)) none ∧
      new (leafPath (virt + pageOffset j)) (some (leafEntry (phys + pageOffset j) flags))) :
    Remapped S roots valid U r new s (mapPages S.alloc (frameAddr f) virt phys flags s n i).2 := by
  induction n generalizing s i with
  | zero => exact ⟨hok, h, subset_rfl, Evolves.refl, fun h' _ hl => hl, LeavesChange.refl⟩
  | succ n ih =>
    obtain ⟨hmapped, hrest⟩ := vmmMapUnlocked_wired hdeep hok h hU hroot (hv i (by omega))
      (htarget i (by omega)) (hused i (by omega)).1 (hused i (by omega)).2 (hfree i (by omega) le_rfl) (hnew i (by omega)).2
    simp only [mapPages]
    split
    · rename_i t heq
      rw [heq] at hmapped hrest
      have hwait : ∀ j < i + 1 + n, i + 1 ≤ j → Unlinked roots valid (tables t.mem) (start + j) := fun j hj hij =>
        hrest (start + j) (hused j (by omega)).1 (by omega) (hfree j (by omega) (by omega))
      apply hmapped.trans
      exact ih hmapped.ok hmapped.wired (hU.trans hmapped.used) (by omega) (fun j hj => hv j (by omega))
        (fun j hj => htarget j (by omega)) (fun j hj => ⟨hmapped.used (hused j (by omega)).1, (hused j (by omega)).2⟩) hwait
        (fun j hj => hnew j (by omega))
    · rename_i t heq
      rw [heq] at hmapped
      split
      · rw [vmmUnmapRangeUnlocked, numPages_pageOffset (by omega)]
        obtain ⟨h'', hevolves, hleaves⟩ :=
          unmapPages_wired hdeep hmapped.wired hroot i fun j hj => h.closed _ _ (hv j (by omega))
        refine hmapped.trans ⟨hmapped.ok, h'', subset_rfl, hevolves.mono (Set.subset_univ U),
          fun g _ hl => hevolves.onlyLeaf (Set.mem_univ g) hl, hleaves.mono ?_⟩
        rintro q l ⟨⟨j, hj, rfl⟩, rfl⟩
        exact (hnew j (by omega)).1
      · exact hmapped

end ranges

section ownership

variable {σ R : Type} [DecidableEq R] {S : FrameSource σ} {roots : R → Option ℕ} {valid : List Index → Prop}
  {T T' : ℕ → Index → Word} {U V W : Set ℕ} {r : R} {f g : ℕ} {virt phys flags : Word} {s : Paging σ}

structure Owned (roots : R → Option ℕ) (valid : List Index → Prop) (T : ℕ → Index → Word) (U V : Set ℕ) : Prop where
  covered : ∀ g ∈ U, g ∈ V ∨ ∃ r p, valid p ∧ role roots T r p = some g
  positive : ∀ r p g, valid p → role roots T r p = some g → 0 < g

omit [DecidableEq R] in
lemma Owned.mono (h : Owned roots valid T U V) (hV : V ⊆ W) : Owned roots valid T U W :=
  ⟨fun g hg => (h.covered g hg).imp (fun hv => hV hv) id, h.positive⟩

omit [DecidableEq R] in
lemma Owned.more (h : Owned roots valid T U V) (W : Set ℕ) : Owned roots valid T (U ∪ W) (V ∪ W) where
  covered g hg := by
    rcases hg with hg | hg
    · exact (h.covered g hg).imp .inl id
    · exact .inl (.inr hg)
  positive := h.positive

omit [DecidableEq R] in
lemma Owned.congr (h : Owned roots valid T U V) (hrole : ∀ r p, valid p → role roots T' r p = role roots T r p) :
    Owned roots valid T' U V where
  covered g hg := (h.covered g hg).imp id fun ⟨r, p, hp, hr⟩ => ⟨r, p, hp, (hrole r p hp).trans hr⟩
  positive r p g hp hr := h.positive r p g hp ((hrole r p hp).symm.trans hr)

omit [DecidableEq R] in
lemma Owned.grown (h : Owned roots valid T U V) {U' : Set ℕ} (hg : Grown roots valid T U T' U') :
    Owned roots valid T' U' V where
  covered g hmem := by
    rcases hg.placed g hmem with hold | hnew
    · rcases h.covered g hold with hv | ⟨r, p, hp, hr⟩
      · exact .inl hv
      · exact .inr ⟨r, p, hp, hg.kept r p g hp hr⟩
    · exact .inr hnew
  positive r p g hp hr := by
    rcases hg.fresh r p g hp hr with hold | ⟨-, hnew, -⟩
    · exact h.positive r p g hp hold
    · exact hnew.1

lemma Owned.setLeaf (h : Owned roots valid T U (insert g V)) (hw : Wired roots valid T U) (hdeep : ∀ q, valid q → q.length ≤ 4)
    {pt : ℕ} {e : Word} (hpt : role roots T r (upperPath virt) = some pt) (hv : valid (leafPath virt))
    (hnone : leafOf roots T r virt = none) (htarget : target e = some g) (hpos : 0 < g) :
    Owned roots valid (set T pt (ptIdx virt) e) U V := by
  have hup := hw.closed _ _ hv
  have hrole : ∀ r' {q}, valid q → role roots (set T pt (ptIdx virt) e) r' q =
      if r' = r ∧ q = leafPath virt then some g else role roots T r' q := by
    intro r' q hq
    rw [role_setLeaf hw hdeep hpt hup rfl r' hq, htarget]
    rfl
  constructor
  · intro g' hg'
    rcases h.covered g' hg' with hwait | ⟨r', q, hq, hr⟩
    · rcases Set.mem_insert_iff.mp hwait with rfl | hV
      · exact .inr ⟨r, leafPath virt, hv, by rw [hrole r hv, if_pos ⟨rfl, rfl⟩]⟩
      · exact .inl hV
    · refine .inr ⟨r', q, hq, ?_⟩
      rw [hrole r' hq, if_neg, hr]
      rintro ⟨rfl, rfl⟩
      simp [role_leafPath, hnone] at hr
  · intro r' q g' hq hr
    rw [hrole r' hq] at hr
    split at hr
    · cases hr
      exact hpos
    · exact h.positive r' q g' hq hr

lemma vmmMapUnlocked_owned (hdeep : ∀ q, valid q → q.length ≤ 4) (hok : S.ok s.frames)
    (h : Wired roots valid (tables s.mem) (S.used s.frames)) (hroot : roots r = some f) (hv : valid (leafPath virt))
    (htarget : target (leafEntry phys flags) = some g) (hpos : 0 < g)
    (hnone : leafOf roots (tables s.mem) r virt = none)
    (hres : (vmmMapUnlocked S.alloc s (frameAddr f) virt phys flags).1 = true)
    (howned : Owned roots valid (tables s.mem) (S.used s.frames) (insert g V)) :
    Owned roots valid (tables (vmmMapUnlocked S.alloc s (frameAddr f) virt phys flags).2.mem)
      (S.used (vmmMapUnlocked S.alloc s (frameAddr f) virt phys flags).2.frames) V := by
  have hup := h.closed _ _ hv
  obtain ⟨-, _, hT, hgrown, ⟨hfalse, -⟩ | ⟨-, pt, hpt, hmem⟩⟩ := vmmMapUnlocked_spec phys flags hok h hroot hup
  · simp [hres] at hfalse
  · rw [hmem]
    refine (howned.grown hgrown).setLeaf hT hdeep hpt hv ?_ htarget hpos
    rw [leafOf_grown h hgrown hup, hnone]

lemma mapPages_owned (hdeep : ∀ q, valid q → q.length ≤ 4) (hroot : roots r = some f) {start : ℕ} (n : ℕ)
    {i : ℕ} (hok : S.ok s.frames) (h : Wired roots valid (tables s.mem) (S.used s.frames))
    (hv : ∀ j < i + n, valid (leafPath (virt + pageOffset j)))
    (hinj : ∀ j < i + n, ∀ k < i + n, leafPath (virt + pageOffset j) = leafPath (virt + pageOffset k) → j = k)
    (hpos : 0 < start) (htarget : ∀ j < i + n, target (leafEntry (phys + pageOffset j) flags) = some (start + j))
    (hused : ∀ j < i + n, start + j ∈ S.used s.frames)
    (hfree : ∀ j < i + n, i ≤ j → Unlinked roots valid (tables s.mem) (start + j))
    (hnone : ∀ j < i + n, i ≤ j → leafOf roots (tables s.mem) r (virt + pageOffset j) = none)
    (hres : (mapPages S.alloc (frameAddr f) virt phys flags s n i).1 = true)
    (howned : Owned roots valid (tables s.mem) (S.used s.frames) (V ∪ {g | start + i ≤ g ∧ g < start + (i + n)})) :
    Owned roots valid (tables (mapPages S.alloc (frameAddr f) virt phys flags s n i).2.mem)
      (S.used (mapPages S.alloc (frameAddr f) virt phys flags s n i).2.frames) V := by
  induction n generalizing s i with
  | zero =>
    apply howned.mono
    rintro g (hg | hg)
    · exact hg
    · exact absurd hg.2 (by have := hg.1; omega)
  | succ n ih =>
    obtain ⟨hmapped, hrest⟩ : Remapped S roots valid ∅ r (fun q _ => q = leafPath (virt + pageOffset i)) s
        (vmmMapUnlocked S.alloc s (frameAddr f) (virt + pageOffset i) (phys + pageOffset i) flags).2 ∧ _ :=
      vmmMapUnlocked_wired hdeep hok h (Set.empty_subset _) hroot (hv i (by omega)) (htarget i (by omega))
        (hused i (by omega)) (Set.notMem_empty _) (hfree i (by omega) le_rfl) rfl
    have hone := vmmMapUnlocked_owned (V := V ∪ {g | start + (i + 1) ≤ g ∧ g < start + (i + 1 + n)}) hdeep hok h hroot
      (hv i (by omega)) (htarget i (by omega)) (by omega) (hnone i (by omega) le_rfl)
    simp only [mapPages] at hres ⊢
    split at hres
    · rename_i t heq
      rw [heq] at hmapped hrest hone
      have hnext := hone rfl (howned.mono ?_)
      · refine ih hmapped.ok hmapped.wired (fun j hj => hv j (by omega)) (fun j hj k hk => hinj j (by omega) k (by omega))
          (fun j hj => htarget j (by omega)) (fun j hj => hmapped.used (hused j (by omega))) (fun j hj hij => ?_)
          (fun j hj hij => ?_) hres hnext
        · exact hrest (start + j) (hused j (by omega)) (by omega) (hfree j (by omega) (by omega))
        · rcases hmapped.leaves r _ (hv j (by omega)) with hsame | ⟨-, hpath⟩
          · rw [hsame]
            exact hnone j (by omega) (by omega)
          · exact absurd (hinj j (by omega) i (by omega) hpath) (by omega)
      · rintro g (hg | hg)
        · exact .inr (.inl hg)
        · by_cases hgi : g = start + i
          · exact .inl hgi
          · refine .inr (.inr ⟨?_, ?_⟩)
            · have := hg.1
              omega
            · have := hg.2
              omega
    · cases hres

end ownership

end KernelSmp.Memory
