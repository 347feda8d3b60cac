import KernelSmp.Memory.KernelTree

/-! `vmm_map_huge` and the walk of `vmm_virtual_to_physical` through 2 MiB pages. -/

namespace KernelSmp.Memory.HugePages

open Base Base.Radix VmmRefinement Option BitVec

variable {σ : Type}

section model

variable (alloc : σ → Word × σ)

/-- The table that entry `i` names, after a new one has been linked where there is none. The frame is not looked at. -/
def nextTable (s : Paging σ) (table : Word) (i : Index) : Word × Paging σ :=
  if !isPresent (entry s.mem table i) then
    let (newTable, frames) := alloc s.frames
    let m := setEntry (zeroPage s.mem newTable) table i
      ((newTable &&& vmmAddrMask) ||| ptePresent ||| pteWritable ||| pteUser)
    (entry m table i &&& vmmAddrMask, ⟨m, frames⟩)
  else (entry s.mem table i &&& vmmAddrMask, s)

def vmmMapHuge (s : Paging σ) (pml4 virt phys flags : Word) : Paging σ :=
  let (pdpt, s) := nextTable alloc s pml4 (pml4Idx virt)
  let (pd, s) := nextTable alloc s pdpt (pdptIdx virt)
  ⟨setEntry s.mem pd (pdIdx virt) ((phys &&& vmmAddrMask) ||| flags ||| 0x81), s.frames⟩

def Supplied (s : Paging σ) (table : Word) (i : Index) : Prop := isPresent (entry s.mem table i) = false →
    (alloc s.frames).1 ≠ 0

end model

def regionOf (virt : Word) : ℕ := virt.toNat / 2 ^ 21 % 2 ^ 27

abbrev pdPath (virt : Word) : List Index := [pdptIdx virt, pml4Idx virt]

abbrev OffHuge (H : Set (List Index)) : List Index → Prop := fun p => p.length ≤ 3 ∧ p ∉ H

structure HugeTree (r : ℕ) (m : Mem) (U : Set ℕ) (H : Set (List Index)) : Prop where
  wired : Wired (fun _ : Unit => some r) (OffHuge H) (tables m) U
  huge : ∀ q ∈ H, ∃ i p f, q = i :: p ∧ p.length = 2 ∧ role (fun _ : Unit => some r) (tables m) () p = some f ∧
    hasFlag (tables m f i) pteHuge = true

variable {S : FrameSource σ} {s t : Paging σ} {r g : ℕ} {m m' : Mem} {U U' : Set ℕ} {H H' : Set (List Index)} {virt w e : Word}

lemma regionOf_eq_iff {v : Word} : regionOf v = regionOf w ↔ upperPath v = upperPath w := by
  simp only [upperPath, List.cons.injEq, and_true, pml4Idx, pdptIdx, pdIdx, Fin.ext_iff, indexAt_val, regionOf]
  omega

lemma HugeTree.short (h : HugeTree r m U H) {p : List Index} (hp : p.length ≤ 2) : OffHuge H p := by
  refine ⟨by omega, fun hin => ?_⟩
  obtain ⟨_, _, _, rfl, _, -⟩ := h.huge p hin
  rw [List.length_cons] at hp
  omega

lemma HugeTree.entry (h : HugeTree r m U H) (hw : upperPath w ∈ H) :
    ∃ f, role (fun _ : Unit => some r) (tables m) () (pdPath w) = some f ∧ hasFlag (tables m f (pdIdx w)) pteHuge = true := by
  obtain ⟨_, _, f, heq, -, hf, hflag⟩ := h.huge _ hw
  obtain ⟨rfl, rfl⟩ := List.cons.inj heq
  exact ⟨f, hf, hflag⟩

lemma HugeTree.translate_huge (h : HugeTree r m U H) {f : ℕ}
    (hf : role (fun _ : Unit => some r) (tables m) () (pdPath w) = some f)
    (hflag : hasFlag (tables m f (pdIdx w)) pteHuge = true) :
    vmmVirtualToPhysical m (frameAddr r) w = (tables m f (pdIdx w) &&& 0xFFFFFFFFFE000000) + (w &&& 0x1FFFFF) := by
  have hmask : ∀ {g}, g < 2 ^ 28 → tableEntry g &&& vmmAddrMask = frameAddr g := by
    intro g hg
    rw [and_addrMask, tableEntry_frameOf hg]
  rw [vmmVirtualToPhysical]
  rcases h.wired.entry_cases rfl (h.short (by simp)) (by decide) role_nil with ⟨-, hnone⟩
    | ⟨g₁, he₁, hg₁, h₁⟩
  · simp [role, look_cons, show look target _ (tables m) () [pml4Idx w] = none from hnone] at hf
  rcases h.wired.entry_cases rfl (h.short (by simp)) (by simp) h₁ with ⟨-, hnone⟩ | ⟨g₂, he₂, hg₂, h₂⟩
  · rw [hnone] at hf
    cases hf
  cases h₂.symm.trans hf
  simp only [he₁, he₂, tableEntry_present, hmask hg₁, hmask hg₂, Bool.not_true, Bool.false_eq_true, if_false]
  rw [entry_frameAddr m (by omega), if_pos hflag]

lemma HugeTree.translate_leaf (h : HugeTree r m U H) (hw : upperPath w ∉ H) :
    vmmVirtualToPhysical m (frameAddr r) w =
      ((leafOf (fun _ : Unit => some r) (tables m) () w).map fun e => (e &&& vmmAddrMask) + (w &&& 0xFFF)).getD 0 := by
  rcases h.wired.walk_cases rfl (⟨le_refl 3, hw⟩) with
    ⟨hnone, hphys, -⟩ | ⟨e, hsome, hphys, -⟩
  · rw [hphys, hnone]
    rfl
  · rw [hphys, hsome]
    rfl

lemma HugeTree.translate_congr (h : HugeTree r m U H) (h' : HugeTree r m' U' H') (hsame : upperPath w ∈ H' ↔ upperPath w ∈ H)
    (hleaf : upperPath w ∉ H → leafOf (fun _ : Unit => some r) (tables m') () w =
    leafOf (fun _ : Unit => some r) (tables m) () w)
    (hpd : upperPath w ∈ H → ∀ f, role (fun _ : Unit => some r) (tables m) () (pdPath w) = some f →
      role (fun _ : Unit => some r) (tables m') () (pdPath w) = some f ∧ tables m' f (pdIdx w) = tables m f (pdIdx w)) :
    vmmVirtualToPhysical m' (frameAddr r) w = vmmVirtualToPhysical m (frameAddr r) w := by
  by_cases hw : upperPath w ∈ H
  · obtain ⟨f, hf, hflag⟩ := h.entry hw
    obtain ⟨hf', hentry⟩ := hpd hw f hf
    have hflag' : hasFlag (tables m' f (pdIdx w)) pteHuge = true := by
      rwa [hentry]
    rw [h.translate_huge hf hflag, h'.translate_huge hf' hflag', hentry]
  · rw [h.translate_leaf hw, h'.translate_leaf (mt hsame.mp hw), hleaf hw]

lemma HugeTree.row_kept (h : HugeTree r m U H) {T : ℕ → Index → Word}
    (hgrown : Grown (fun _ : Unit => some r) (OffHuge H) (tables m) U T U') {i : Index} {p : List Index} {f : ℕ}
    (hin : i :: p ∈ H)
    (hp : OffHuge H p) (hf : role (fun _ : Unit => some r) (tables m) () p = some f) : T f i = tables m f i := by
  refine hgrown.rows f i (h.wired.used () p f hp hf) fun _ q hq _ hv => ?_
  obtain ⟨-, rfl⟩ := h.wired.separate () q () p f (h.wired.closed i q hv) hp hq hf
  exact hv.2 hin

lemma HugeTree.grown (h : HugeTree r m U H) (hwired : Wired (fun _ : Unit => some r) (OffHuge H) (tables m') U')
    (hgrown : Grown (fun _ : Unit => some r) (OffHuge H) (tables m) U (tables m') U') : HugeTree r m' U' H := by
  refine ⟨hwired, fun q hq => ?_⟩
  obtain ⟨i, p, f, rfl, hlen, hf, _⟩ := h.huge q hq
  have hp : OffHuge H p := h.short (by omega)
  refine ⟨i, p, f, rfl, hlen, hgrown.kept () p f hp hf, ?_⟩
  rwa [h.row_kept hgrown hq hp hf]

lemma HugeTree.translate_grown (h : HugeTree r m U H) (hwired : Wired (fun _ : Unit => some r) (OffHuge H) (tables m') U')
    (hgrown : Grown (fun _ : Unit => some r) (OffHuge H) (tables m) U (tables m') U') (w : Word) :
    vmmVirtualToPhysical m' (frameAddr r) w = vmmVirtualToPhysical m (frameAddr r) w := by
  refine h.translate_congr (h.grown hwired hgrown) Iff.rfl (fun hw => ?_) fun hw f hf => ?_
  · exact leafOf_grown h.wired hgrown ⟨le_refl 3, hw⟩
  · have hp : OffHuge H (pdPath w) := h.short (by simp)
    exact ⟨hgrown.kept () _ f hp hf, h.row_kept hgrown hw hp hf⟩

lemma HugeTree.row_set (h : HugeTree r m U H) (hg : role (fun _ : Unit => some r) (tables m) () (pdPath virt) = some g)
    (u : Unit) (p : List Index) (f : ℕ) (j : Index) (hv : OffHuge (insert (upperPath virt) H) (j :: p))
    (hf : role (fun _ : Unit => some r) (tables m) u p = some f) : set (tables m) g (pdIdx virt) e f j = tables m f j := by
  refine set_of_ne _ _ ?_
  rintro ⟨rfl, rfl⟩
  have hlen := Nat.le_of_succ_le_succ hv.1
  obtain ⟨-, rfl⟩ := h.wired.separate u p () (pdPath virt) f (h.short hlen) (h.short (by simp)) hf hg
  exact hv.2 (Set.mem_insert _ _)

lemma HugeTree.setHuge (h : HugeTree r m U H) (hg : role (fun _ : Unit => some r) (tables m) () (pdPath virt) = some g)
    (he : hasFlag e pteHuge = true) (hm : tables m' = set (tables m) g (pdIdx virt) e) :
    HugeTree r m' U (insert (upperPath virt) H) ∧ (∀ q, q.length ≤ 2 →
      role (fun _ : Unit => some r) (tables m') () q = role (fun _ : Unit => some r) (tables m) () q) := by
  have hshort : ∀ {p : List Index}, p.length ≤ 2 → OffHuge (insert (upperPath virt) H) p := by
    intro p hp
    refine ⟨by omega, fun hin => ?_⟩
    rcases Set.mem_insert_iff.mp hin with rfl | hin
    · simp [upperPath] at hp
    · exact (h.short hp).2 hin
  have hclosed : ∀ i p, OffHuge (insert (upperPath virt) H) (i :: p) → OffHuge (insert (upperPath virt) H) p :=
    fun i p hv => hshort (Nat.le_of_succ_le_succ hv.1)
  have hrow : ∀ u p f j, OffHuge (insert (upperPath virt) H) (j :: p) → role (fun _ : Unit => some r) (tables m) u p = some f →
      tables m' f j = tables m f j := by
    intro u p f j hv hf
    rw [hm]
    exact h.row_set hg u p f j hv hf
  have hrole : ∀ q, q.length ≤ 2 → role (fun _ : Unit => some r) (tables m') () q =
      role (fun _ : Unit => some r) (tables m) () q :=
    fun q hq => role_congr hclosed hrow () (hshort hq)
  have hsub := h.wired.sub hclosed fun p hp => ⟨hp.1, fun hin => hp.2 (Set.mem_insert_of_mem _ hin)⟩
  refine ⟨⟨hsub.congr hrow, fun q hq => ?_⟩, hrole⟩
  by_cases hq' : q = upperPath virt
  · refine ⟨pdIdx virt, pdPath virt, g, hq', rfl, (hrole _ (by simp)).trans hg, ?_⟩
    rwa [hm, set_self]
  · obtain ⟨i, p, f, rfl, hlen, hf, hflag⟩ := h.huge q ((Set.mem_insert_iff.mp hq).resolve_left hq')
    refine ⟨i, p, f, rfl, hlen, (hrole p (by omega)).trans hf, ?_⟩
    rw [hm, set_of_ne]
    · exact hflag
    · rintro ⟨rfl, rfl⟩
      obtain ⟨-, rfl⟩ := h.wired.separate () p () (pdPath virt) f (h.short (by omega)) (h.short (by simp)) hf hg
      exact hq' rfl

lemma HugeTree.translate_other (h : HugeTree r m U H) (hg : role (fun _ : Unit => some r) (tables m) () (pdPath virt) = some g)
    (he : hasFlag e pteHuge = true) (hm : tables m' = set (tables m) g (pdIdx virt) e) (hw : upperPath w ≠ upperPath virt) :
    vmmVirtualToPhysical m' (frameAddr r) w = vmmVirtualToPhysical m (frameAddr r) w := by
  obtain ⟨htree, hrole⟩ := h.setHuge hg he hm
  refine h.translate_congr htree ?_ (fun hout => ?_) fun hin f hf => ⟨(hrole _ (by simp)).trans hf, ?_⟩
  · exact Set.mem_insert_iff.trans (or_iff_right hw)
  · have hvalid : OffHuge (insert (upperPath virt) H) (upperPath w) :=
      ⟨le_refl 3, fun hin => (Set.mem_insert_iff.mp hin).elim hw hout⟩
    have hup : role (fun _ : Unit => some r) (tables m') () (upperPath w) =
        role (fun _ : Unit => some r) (tables m) () (upperPath w) := by
      rw [hm]
      exact role_congr htree.wired.closed (fun u p f j => h.row_set hg u p f j) () hvalid
    rw [leafOf, leafOf, hup]
    cases hr : role (fun _ : Unit => some r) (tables m) () (upperPath w) with
    | none => rw [bind_none, bind_none]
    | some f =>
      rw [bind_some, bind_some, hm, set_of_ne]
      rintro ⟨rfl, -⟩
      -- a page table is not a page directory
      obtain ⟨-, hpath⟩ := h.wired.separate () _ () (pdPath virt) f ⟨le_refl 3, hout⟩ (h.short (by simp)) hr hg
      simp [upperPath] at hpath
  · rw [hm, set_of_ne]
    rintro ⟨rfl, hi⟩
    obtain ⟨-, hpath⟩ := h.wired.separate () _ () (pdPath virt) f (h.short (by simp)) (h.short (by simp)) hf hg
    exact hw (by rw [upperPath, hi]; exact congrArg _ hpath)

lemma mapTables_nextTable {alloc : σ → Word × σ} {table : Word} {i : Index} (hs : Supplied alloc s table i)
    (rest : List Index) :
    mapTables alloc 0 s table (i :: rest) = mapTables alloc 0 (nextTable alloc s table i).2
      (nextTable alloc s table i).1 rest := by
  rw [mapTables, nextTable]
  cases hp : isPresent (KernelSmp.Memory.entry s.mem table i) with
  | true => rfl
  | false =>
    simp only [Bool.not_false, if_true]
    rw [if_neg (hs hp)]

lemma HugeTree.vmmMapHuge (h : HugeTree r s.mem (S.used s.frames) H) (hok : S.ok s.frames) (phys flags : Word)
    (h₁ : Supplied S.alloc s (frameAddr r) (pml4Idx virt))
    (h₂ : Supplied S.alloc (nextTable S.alloc s (frameAddr r) (pml4Idx virt)).2
      (nextTable S.alloc s (frameAddr r) (pml4Idx virt)).1
      (pdptIdx virt)) :
    ∃ m U g, HugeTree r m U H ∧ (∀ w, vmmVirtualToPhysical m (frameAddr r) w = vmmVirtualToPhysical s.mem (frameAddr r) w) ∧
      role (fun _ : Unit => some r) (tables m) () (pdPath virt) = some g ∧
      tables (vmmMapHuge S.alloc s (frameAddr r) virt phys flags).mem =
        set (tables m) g (pdIdx virt) ((phys &&& vmmAddrMask) ||| flags ||| 0x81) := by
  have hspec := mapTables_spec 0 hok h.wired (role_nil (r := ())) [pml4Idx virt, pdptIdx virt] (by simp) (h.short (by simp))
  rw [mapTables_nextTable h₁, mapTables_nextTable h₂] at hspec
  obtain ⟨-, hwired, hgrown, hend⟩ := hspec
  obtain ⟨g, hpd, hg⟩ := hend _ rfl
  refine ⟨_, _, g, h.grown hwired hgrown, h.translate_grown hwired hgrown, hg, ?_⟩
  rw [HugePages.vmmMapHuge]
  dsimp only
  rw [hpd]
  exact tables_setEntry _ (role_small hwired.small hg) _ _

variable {phys flags : Word}

lemma hugeEntry_flag : hasFlag ((phys &&& vmmAddrMask) ||| flags ||| 0x81) pteHuge = true := by
  rw [pteHuge, hasFlag_eq _ (by decide)]
  simp

lemma hugeEntry_and (hlow : phys.toNat < 2 ^ 40) (hphys : phys.toNat % 2 ^ 21 = 0) (hflags : flags &&& vmmAddrMask = 0) :
    (((phys &&& vmmAddrMask) ||| flags ||| 0x81) &&& 0xFFFFFFFFFE000000).toNat =
      phys.toNat / 2 ^ 25 * 2 ^ 25 + flags.toNat / 2 ^ 40 * 2 ^ 40 := by
  have hmask : (0xFFFFFFFFFE000000 : Word) = BitVec.ofNat 64 ((2 ^ 39 - 1) * 2 ^ 25) := rfl
  have haddr := and_addrMask_toNat phys
  have hfree := congrArg BitVec.toNat hflags
  rw [and_addrMask_toNat, show (0 : Word).toNat = 0 from rfl] at hfree
  have hhigh : flags.toNat / 2 ^ 25 = (flags.toNat / 2 ^ 40) <<< 15 := by
    rw [Nat.shiftLeft_eq]
    omega
  have hpage : phys.toNat / 2 ^ 12 % 2 ^ 28 * 2 ^ 12 / 2 ^ 25 = phys.toNat / 2 ^ 25 := by omega
  have hlt : phys.toNat / 2 ^ 25 < 2 ^ 15 := by omega
  have hfields : ((phys &&& vmmAddrMask) ||| flags ||| 0x81).toNat / 2 ^ 25 =
      (flags.toNat / 2 ^ 40) <<< 15 + phys.toNat / 2 ^ 25 := by
    rw [toNat_or, toNat_or, haddr, ← Nat.shiftRight_eq_div_pow, Nat.shiftRight_or_distrib,
      Nat.shiftRight_or_distrib,
      Nat.shiftRight_eq_div_pow, Nat.shiftRight_eq_div_pow, hpage, hhigh, show (0x81 : Word).toNat >>> 25 =
        0 from rfl, Nat.or_zero,
      Nat.or_comm, ← Nat.shiftLeft_add_eq_or_of_lt hlt]
  have hbound : flags.toNat / 2 ^ 40 < 2 ^ 24 := by omega
  rw [hmask, Word.toNat_and_field _ 25 39 (by decide), hfields, Nat.shiftLeft_eq]
  clear hfields hpage hhigh hfree haddr hmask
  generalize flags.toNat / 2 ^ 40 = high at *
  generalize phys.toNat / 2 ^ 25 = low at *
  omega

end KernelSmp.Memory.HugePages
