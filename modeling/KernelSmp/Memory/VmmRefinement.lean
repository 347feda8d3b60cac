import KernelSmp.Base.Runs
import KernelSmp.Memory.PageRanges

/-! One address space under the 4 KiB operations of `vmm.c`, compared with a map from virtual page
numbers to frames and flags. -/

namespace KernelSmp.Memory.VmmRefinement

open Base Base.Radix Function List Option

def pop : List ℕ → Word × List ℕ
  | [] => (0, [])
  | f :: fs => (frameAddr f, fs)

inductive PageOp
  | map (virt phys flags : Word)
  | mapRange (virt phys size flags : Word)
  | unmap (virt : Word)
  | unmapRange (virt size : Word)

def pageStep (root : Word) (s : Paging (List ℕ)) : PageOp → Option (Paging (List ℕ))
  | .map virt phys flags => vmmMap pop s root virt phys flags
  | .mapRange virt phys size flags => vmmMapRange pop s root virt phys size flags
  | .unmap virt => some ⟨vmmUnmap s.mem root virt, s.frames⟩
  | .unmapRange virt size => some ⟨vmmUnmapRange s.mem root virt size, s.frames⟩

def pageOf (virt : Word) : ℕ := virt.toNat / pageSize % 2 ^ 36

abbrev PageMap := ℕ → Option (ℕ × Word)

namespace PageMap

def writePages (M : PageMap) (virt : Word) (leaf : ℕ → Option (ℕ × Word)) (is : List ℕ) : PageMap :=
  is.foldl (fun M i => update M (pageOf (virt + pageOffset i)) (leaf i)) M

def apply (M : PageMap) : PageOp → PageMap
  | .map virt phys flags => update M (pageOf virt) (some (frameIndex phys, flags))
  | .mapRange virt phys size flags =>
    writePages M virt (fun i => some (frameIndex (phys + pageOffset i), flags)) (List.range (numPages size))
  | .unmap virt => update M (pageOf virt) none
  | .unmapRange virt size => writePages M virt (fun _ => none) (List.range (numPages size))

def translate (M : PageMap) (virt : Word) : Word :=
  match M (pageOf virt) with
  | none => 0
  | some (f, _) => BitVec.ofNat 64 (f * pageSize + virt.toNat % pageSize)

end PageMap

def PageOp.pages : PageOp → Set ℕ
  | .map virt _ _ | .unmap virt => {pageOf virt}
  | .mapRange virt _ size _ | .unmapRange virt size => {n | ∃ i < numPages size, n = pageOf (virt + pageOffset i)}

def MappablePhys (phys : Word) : Prop := phys.toNat % pageSize = 0 ∧ phys ≠ 0 ∧ phys.toNat < 2 ^ 40

def PageOp.Allowed : PageOp → Prop
  | .map _ phys flags => MappablePhys phys ∧ flags &&& vmmAddrMask = 0
  | .mapRange _ phys size flags =>
    (∀ i < numPages size, MappablePhys (phys + pageOffset i)) ∧ flags &&& vmmAddrMask = 0
  | .unmap _ | .unmapRange _ _ => True

structure Refines (m : Mem) (root : Word) (M : PageMap) : Prop where
  translate : ∀ virt, vmmVirtualToPhysical m root virt = M.translate virt
  permission : ∀ virt, effectivePermission m root virt = (M (pageOf virt)).map fun x => permissionAlong [x.2]

section indices

lemma pageOf_eq_iff {v w : Word} : pageOf v = pageOf w ↔ upperPath v = upperPath w ∧ ptIdx v = ptIdx w := by
  simp only [upperPath, List.cons.injEq, and_true, pml4Idx, pdptIdx, pdIdx, ptIdx, Fin.ext_iff, indexAt_val, pageOf,
    pageSize]
  omega

lemma pageOffset_zero (v : Word) : v + pageOffset 0 = v := by
  simp [pageOffset]

end indices

section pool

def framePool : FrameSource (List ℕ) where
  alloc := pop
  ok fs := fs.Nodup ∧ ∀ f ∈ fs, 0 < f ∧ f < 2 ^ 28
  used fs := {f | f ∉ fs}
  alloc_ok fs h := by
    cases fs with
    | nil => exact h
    | cons f fs => exact ⟨h.1.of_cons, fun g hg => h.2 g (mem_cons_of_mem _ hg)⟩
  alloc_spec fs h := by
    cases fs with
    | nil => exact Or.inl ⟨rfl, rfl⟩
    | cons f fs =>
      have hf := h.2 f mem_cons_self
      refine Or.inr ⟨f, hf.1, hf.2, rfl, fun hu => hu mem_cons_self, ?_⟩
      ext g
      have hnot : f ∉ fs := (nodup_cons.mp h.1).1
      simp only [pop, Set.mem_ofPred_eq, Set.mem_insert_iff, mem_cons, not_or]
      constructor
      · intro hg
        by_cases hgf : g = f
        · exact Or.inl hgf
        · exact Or.inr ⟨hgf, hg⟩
      · rintro (rfl | ⟨-, hg⟩)
        · exact hnot
        · exact hg

lemma pop_suffix (fs : List ℕ) : (pop fs).2 <:+ fs := by
  cases fs with
  | nil => exact suffix_refl _
  | cons f fs => exact suffix_cons f fs

lemma pop_zero {fs : List ℕ} (h : framePool.ok fs) (hz : (pop fs).1 = 0) : (pop fs).2 = [] := by
  cases fs with
  | nil => rfl
  | cons f =>
    obtain ⟨_, _⟩ := h.2 f mem_cons_self
    exact absurd hz (frameAddr_ne_zero (by rw [pageSize]; omega) (by omega))

lemma mapTables_frames (flags : Word) {s : Paging (List ℕ)} (h : framePool.ok s.frames) (table : Word)
    (is : List Index) :
    let res := mapTables pop flags s table is
    res.2.frames <:+ s.frames ∧ (res.1 = none → res.2.frames = []) := by
  induction is generalizing s table with
  | nil => exact ⟨suffix_refl _, fun h => by cases h⟩
  | cons i is ih =>
    rw [mapTables]
    by_cases hp : (!isPresent (entry s.mem table i)) = true
    · simp only [if_pos hp]
      by_cases hz : (pop s.frames).1 = 0
      · rw [if_pos hz]
        exact ⟨pop_suffix _, fun _ => pop_zero h hz⟩
      · rw [if_neg hz]
        have hrest := fun m t => ih (s := ⟨m, (pop s.frames).2⟩) (framePool.alloc_ok _ h) t
        exact ⟨(hrest _ _).1.trans (pop_suffix _), (hrest _ _).2⟩
    · simp only [if_neg hp]
      have hrest := fun m t => ih (s := ⟨m, s.frames⟩) h t
      exact hrest _ _

lemma vmmMapUnlocked_frames {s : Paging (List ℕ)} (h : framePool.ok s.frames) (root virt phys flags : Word) :
    let res := vmmMapUnlocked pop s root virt phys flags
    res.2.frames <:+ s.frames ∧ (res.1 = false → res.2.frames = []) := by
  have hm := mapTables_frames flags h root [pml4Idx virt, pdptIdx virt, pdIdx virt]
  simp only [vmmMapUnlocked]
  split
  · rename_i t heq
    rw [heq] at hm
    exact ⟨hm.1, fun _ => hm.2 rfl⟩
  · rename_i table t heq
    rw [heq] at hm
    exact ⟨hm.1, fun hf => by cases hf⟩

lemma ok_of_suffix {fs gs : List ℕ} (hs : gs <:+ fs) (h : framePool.ok fs) : framePool.ok gs :=
  ⟨h.1.sublist hs.sublist, fun f hf => h.2 f (hs.subset hf)⟩

lemma mapPages_frames (root virt phys flags : Word) (n : ℕ) {s : Paging (List ℕ)} (h : framePool.ok s.frames) (i : ℕ) :
    let res := mapPages pop root virt phys flags s n i
    res.2.frames <:+ s.frames ∧ (res.1 = false → res.2.frames = []) := by
  induction n generalizing s i with
  | zero => exact ⟨suffix_refl _, fun hf => by cases hf⟩
  | succ n ih =>
    have hm := vmmMapUnlocked_frames h root (virt + pageOffset i) (phys + pageOffset i) flags
    simp only [mapPages]
    split
    · rename_i t heq
      rw [heq] at hm
      have hrest := ih (ok_of_suffix hm.1 h) (i + 1)
      exact ⟨hrest.1.trans hm.1, hrest.2⟩
    · rename_i t heq
      rw [heq] at hm
      split
      · exact ⟨hm.1, fun _ => hm.2 rfl⟩
      · exact ⟨hm.1, fun _ => hm.2 rfl⟩

end pool

section leaves

variable {r : ℕ} {T T' : ℕ → Index → Word} {U U' : Set ℕ} {g : ℕ} {virt e : Word}

abbrev TableTree (r : ℕ) (T : ℕ → Index → Word) (U : Set ℕ) : Prop := Wired (fun _ : Unit => some r) (fun p => p.length ≤ 3) T U

abbrev Tree (r : ℕ) (T : ℕ → Index → Word) (fs : List ℕ) : Prop :=
  Wired (fun _ : Unit => some r) (fun p => p.length ≤ 3) T (framePool.used fs)

abbrev tableAt (r : ℕ) (T : ℕ → Index → Word) (virt : Word) : Option ℕ :=
  role (fun _ : Unit => some r) T () (upperPath virt)

def leafAt (r : ℕ) (T : ℕ → Index → Word) (virt : Word) : Option Word := leafOf (fun _ : Unit => some r) T () virt

lemma leafAt_eq (r : ℕ) (T : ℕ → Index → Word) (virt : Word) :
    leafAt r T virt = (tableAt r T virt).bind fun g => presentEntry (T g (ptIdx virt)) := rfl

lemma leafAt_grown (h : TableTree r T U) (hg : Grown (fun _ : Unit => some r) (fun p => p.length ≤ 3) T U T' U') (virt : Word) :
    leafAt r T' virt = leafAt r T virt :=
  leafOf_grown h hg (le_refl 3)

lemma TableTree.setLeaf (h : TableTree r T U) (hg : tableAt r T virt = some g) : TableTree r (set T g (ptIdx virt) e) U := by
  apply Wired.setLeaf h (fun q hq => le_trans hq (by decide)) hg (le_refl 3) rfl
  intro _ hlong _
  exact absurd hlong (by simp [upperPath])

lemma leafAt_setLeaf (h : TableTree r T U) (hg : tableAt r T virt = some g) (w : Word) :
    leafAt r (set T g (ptIdx virt) e) w = if pageOf w = pageOf virt then presentEntry e else leafAt r T w := by
  rw [leafAt, leafOf_setLeaf h (fun q hq => le_trans hq (by decide)) hg (le_refl 3) () (le_refl 3), leafAt]
  simp only [true_and, leafPath_inj, pageOf_eq_iff]

lemma tableTree_empty (hr : r < 2 ^ 52) (hrow : ∀ i, T r i = 0) (hroot : r ∈ U) :
    TableTree r T U ∧ ∀ virt, leafAt r T virt = none := by
  have hrole : ∀ p f, role (fun _ : Unit => some r) T () p = some f → p = [] ∧ f = r := by
    intro p
    induction p with
    | nil =>
      intro f hf
      exact ⟨rfl, (Option.some.inj hf).symm⟩
    | cons i p ih =>
      intro f hf
      rw [role, look_cons, bind_eq_some_iff] at hf
      obtain ⟨g, hg, ht⟩ := hf
      rw [(ih g hg).2, hrow] at ht
      cases ht
  refine ⟨⟨?_, ?_, ?_, ?_, ?_⟩, fun virt => ?_⟩
  · intro i p hp
    rw [length_cons] at hp
    omega
  · rintro _ f ⟨⟩
    exact hr
  · rintro _ p _ p' f - - hp hp'
    exact ⟨rfl, (hrole p f hp).1.trans (hrole p' f hp').1.symm⟩
  · rintro _ p f - hp
    rwa [(hrole p f hp).2]
  · rintro _ p f i - - hp
    rw [(hrole p f hp).2]
    exact .inl (hrow i)
  · rw [leafAt_eq]
    cases ht : tableAt r T virt with
    | none => rfl
    | some g =>
      have hnil := (hrole _ g ht).1
      cases hnil

end leaves

section invariant

structure Tracks (r : ℕ) (s : Paging (List ℕ)) (M : PageMap) : Prop where
  ok : framePool.ok s.frames
  tree : Tree r (tables s.mem) s.frames
  leaf : ∀ virt, leafAt r (tables s.mem) virt = (M (pageOf virt)).map fun x => leafEntry (frameAddr x.1) x.2
  mapped : ∀ n x, M n = some x → x.1 < 2 ^ 28 ∧ x.2 &&& vmmAddrMask = 0

variable {r : ℕ} {s t : Paging (List ℕ)} {M : PageMap} {virt phys flags : Word}

lemma MappablePhys.frame (h : MappablePhys phys) : frameIndex phys < 2 ^ 28 ∧ frameAddr (frameIndex phys) = phys := by
  obtain ⟨halign, -, _⟩ := h
  rw [pageSize] at halign
  refine ⟨by rw [frameIndex, pageSize]; omega, ?_⟩
  apply BitVec.eq_of_toNat_eq
  rw [frameAddr_toNat (by rw [frameIndex, pageSize]; omega), frameIndex, pageSize]
  omega

lemma Tracks.map (h : Tracks r s M) (hphys : MappablePhys phys) (hflags : flags &&& vmmAddrMask = 0)
    (hmap : vmmMapUnlocked pop s (frameAddr r) virt phys flags = (true, t)) :
    Tracks r t (update M (pageOf virt) (some (frameIndex phys, flags))) := by
  have hspec :=
    vmmMapUnlocked_spec (r := ()) phys flags h.ok h.tree rfl (show (upperPath virt).length ≤ 3 from le_refl 3)
  simp only [show framePool.alloc = pop from rfl, hmap, Bool.true_eq_false, false_and, true_and, false_or] at hspec
  obtain ⟨hok, _, hT, hgrown, _, hg, hmem⟩ := hspec
  obtain ⟨hlt, hframe⟩ := hphys.frame
  refine ⟨hok, ?_, fun w => ?_, fun n x hx => ?_⟩
  · rw [hmem]
    exact TableTree.setLeaf hT hg
  · rw [hmem, leafAt_setLeaf hT hg, leafEntry_present]
    by_cases hw : pageOf w = pageOf virt
    · rw [if_pos hw, hw, update_self, map_some, hframe]
    · rw [if_neg hw, update_of_ne hw, leafAt_grown h.tree hgrown, h.leaf]
  · by_cases hn : n = pageOf virt
    · rw [hn, update_self, Option.some.injEq] at hx
      rw [← hx]
      exact ⟨hlt, hflags⟩
    · rw [update_of_ne hn] at hx
      exact h.mapped n x hx

lemma Tracks.unmap (h : Tracks r s M) (virt : Word) :
    Tracks r ⟨vmmUnmapUnlocked s.mem (frameAddr r) virt, s.frames⟩ (update M (pageOf virt) none) := by
  have hspec := vmmUnmapUnlocked_spec h.tree.small (m := s.mem) (r := ()) rfl virt
  rw [← tableAt] at hspec
  have hmapped : ∀ n x, update M (pageOf virt) none n = some x → x.1 < 2 ^ 28 ∧ x.2 &&& vmmAddrMask = 0 := by
    intro n x hx
    by_cases hn : n = pageOf virt
    · simp [hn] at hx
    · rw [update_of_ne hn] at hx
      exact h.mapped n x hx
  cases hg : tableAt r (tables s.mem) virt with
  | none =>
    rw [hg] at hspec
    refine ⟨h.ok, hspec.symm ▸ h.tree, fun w => ?_, hmapped⟩
    rw [hspec]
    by_cases hw : pageOf w = pageOf virt
    · have hup := (pageOf_eq_iff.mp hw).1
      rw [hw, update_self, leafAt_eq, tableAt, hup, ← tableAt, hg]
      rfl
    · rw [update_of_ne hw, h.leaf]
  | some =>
    rw [hg] at hspec
    refine ⟨h.ok, ?_, fun w => ?_, hmapped⟩
    · rw [hspec]
      exact TableTree.setLeaf h.tree hg
    · rw [hspec, leafAt_setLeaf h.tree hg]
      by_cases hw : pageOf w = pageOf virt
      · rw [if_pos hw, hw, update_self]
        rfl
      · rw [if_neg hw, update_of_ne hw, h.leaf]

lemma Tracks.mapPages (hflags : flags &&& vmmAddrMask = 0) (n : ℕ) {i : ℕ} (h : Tracks r s M)
    (hphys : ∀ j < i + n, MappablePhys (phys + pageOffset j))
    (hmap : mapPages pop (frameAddr r) virt phys flags s n i = (true, t)) :
    Tracks r t (M.writePages virt (fun j => some (frameIndex (phys + pageOffset j), flags)) (List.range' i n)) := by
  induction n generalizing s i M with
  | zero =>
    cases hmap
    exact h
  | succ n ih =>
    rw [Memory.mapPages] at hmap
    split at hmap
    · rename_i u heq
      exact ih (h.map (hphys i (by omega)) hflags heq) (fun j hj => hphys j (by omega)) hmap
    · cases hmap

lemma Tracks.unmapPages (h : Tracks r s M) (virt : Word) (n : ℕ) :
    Tracks r ⟨unmapPages s.mem (frameAddr r) virt n, s.frames⟩ (M.writePages virt (fun _ => none) (List.range n)) := by
  induction n with
  | zero => exact h
  | succ n ih =>
    rw [range_succ, PageMap.writePages, foldl_append]
    exact ih.unmap (virt + pageOffset n)

lemma pageStep_frames {op : PageOp} (h : framePool.ok s.frames) (hstep : pageStep (frameAddr r) s op = some t) :
    t.frames <:+ s.frames := by
  cases op with
  | map =>
    rw [← checkMapped_eq hstep]
    exact (vmmMapUnlocked_frames h _ _ _ _).1
  | mapRange =>
    rw [← checkMapped_eq hstep]
    exact (mapPages_frames _ _ _ _ _ h 0).1
  | unmap =>
    cases hstep
    exact suffix_refl _
  | unmapRange =>
    cases hstep
    exact suffix_refl _

lemma Tracks.step {op : PageOp} (h : Tracks r s M) (hop : op.Allowed) (hstep : pageStep (frameAddr r) s op = some t)
    (hsupply : t.frames ≠ []) : Tracks r t (M.apply op) := by
  cases op with
  | map virt phys flags =>
    have ht := checkMapped_eq hstep
    have hframes := (vmmMapUnlocked_frames h.ok (frameAddr r) virt phys flags).2
    rcases hres : vmmMapUnlocked pop s (frameAddr r) virt phys flags with ⟨b, u⟩
    rw [hres] at ht hframes
    subst ht
    cases b with
    | false => exact absurd (hframes rfl) hsupply
    | true => exact h.map hop.1 hop.2 hres
  | mapRange virt phys size flags =>
    have ht := checkMapped_eq hstep
    have hframes := (mapPages_frames (frameAddr r) virt phys flags (numPages size) h.ok 0).2
    rcases hres : Memory.mapPages pop (frameAddr r) virt phys flags s (numPages size) 0 with ⟨b, _⟩
    rw [vmmMapRangeUnlocked, hres] at ht
    rw [hres] at hframes
    subst ht
    cases b with
    | false => exact absurd (hframes rfl) hsupply
    | true =>
      rw [PageMap.apply, range_eq_range']
      exact h.mapPages hop.2 (numPages size) (fun j hj => hop.1 j (by omega)) hres
  | unmap virt =>
    cases hstep
    exact h.unmap virt
  | unmapRange virt size =>
    cases hstep
    exact h.unmapPages virt (numPages size)

end invariant

section refines

variable {r : ℕ} {s t : Paging (List ℕ)} {M : PageMap}

lemma translate_some {virt : Word} {f : ℕ} (hf : f < 2 ^ 28) :
    frameAddr f + (virt &&& 0xFFF) = BitVec.ofNat 64 (f * pageSize + virt.toNat % pageSize) := by
  have hlow : (virt &&& 0xFFF).toNat = virt.toNat % pageSize := by
    rw [BitVec.toNat_and]
    exact Nat.and_two_pow_sub_one_eq_mod _ 12
  apply BitVec.eq_of_toNat_eq
  rw [BitVec.toNat_add, hlow, frameAddr_toNat (by omega), BitVec.toNat_ofNat, mul_comm]

lemma permissionAlong_walk (g₁ g₂ g₃ : ℕ) (phys flags : Word) :
    permissionAlong [tableEntry g₁, tableEntry g₂, tableEntry g₃, leafEntry phys flags] = permissionAlong [flags] := by
  have hw : hasFlag (leafEntry phys flags) pteWritable = hasFlag flags pteWritable :=
    leafEntry_hasFlag phys flags (by decide) (by decide) (by decide)
  have hu : hasFlag (leafEntry phys flags) pteUser = hasFlag flags pteUser :=
    leafEntry_hasFlag phys flags (by decide) (by decide) (by decide)
  have hnx : hasFlag (leafEntry phys flags) pteNx = hasFlag flags pteNx :=
    leafEntry_hasFlag phys flags (by decide) (by decide) (by decide)
  have htable := tableEntry_hasFlag
  simp [permissionAlong, hw, hu, hnx, htable]

lemma Tracks.refines (h : Tracks r s M) : Refines s.mem (frameAddr r) M := by
  have hwalk : ∀ virt, vmmVirtualToPhysical s.mem (frameAddr r) virt = M.translate virt ∧
      effectivePermission s.mem (frameAddr r) virt = (M (pageOf virt)).map fun x => permissionAlong [x.2] := by
    intro virt
    have hleaf := h.leaf virt
    rcases h.tree.walk_cases rfl (le_refl 3) with ⟨hnone, hphys, hwalk⟩
      | ⟨e, hsome, hphys, g₁, g₂, g₃, hwalk⟩
    · rw [leafAt, hnone, eq_comm, map_eq_none_iff] at hleaf
      rw [hphys, effectivePermission, hwalk, PageMap.translate, hleaf]
      exact ⟨rfl, rfl⟩
    · rw [leafAt, hsome, eq_comm, map_eq_some_iff] at hleaf
      obtain ⟨⟨_, flags⟩, hM, rfl⟩ := hleaf
      obtain ⟨hf, hflags⟩ := h.mapped _ _ hM
      rw [hphys, effectivePermission, hwalk, PageMap.translate, hM, and_addrMask, frameOf_leafEntry hf hflags,
        translate_some hf]
      exact ⟨rfl, congrArg some (permissionAlong_walk g₁ g₂ g₃ _ flags)⟩
  exact ⟨fun virt => (hwalk virt).1, fun virt => (hwalk virt).2⟩

lemma Tracks.start {m : Mem} {pool : List ℕ} (hr : r < 2 ^ 52) (hzero : ∀ i, entry m (frameAddr r) i = 0)
    (hpool : framePool.ok pool) (hroot : r ∉ pool) : Tracks r ⟨m, pool⟩ fun _ => none := by
  have hrow : ∀ i, tables m r i = 0 := fun i => (entry_frameAddr m hr i).symm.trans (hzero i)
  obtain ⟨htree, hleaf⟩ := tableTree_empty (U := framePool.used pool) hr hrow hroot
  exact ⟨hpool, htree, hleaf, fun n x hx => by cases hx⟩

lemma run_frames {ops : List PageOp} (h : framePool.ok s.frames) (hrun : Runs.run (pageStep (frameAddr r)) s ops = some t) :
    t.frames <:+ s.frames := by
  induction ops generalizing s with
  | nil =>
    cases hrun
    exact suffix_refl _
  | cons op ops ih =>
    obtain ⟨_, hu, hrun⟩ := Runs.run_cons hrun
    have hsuf := pageStep_frames h hu
    exact (ih (ok_of_suffix hsuf h) hrun).trans hsuf

lemma Tracks.run {ops : List PageOp} (h : Tracks r s M) (hops : ∀ op ∈ ops, op.Allowed)
    (hrun : Runs.run (pageStep (frameAddr r)) s ops = some t) (hsupply : t.frames ≠ []) :
    Tracks r t (ops.foldl PageMap.apply M) := by
  induction ops generalizing s M with
  | nil =>
    cases hrun
    exact h
  | cons op ops ih =>
    obtain ⟨u, hu, hrun⟩ := Runs.run_cons hrun
    have hok := ok_of_suffix (pageStep_frames h.ok hu) h.ok
    have hu' : u.frames ≠ [] := by
      intro hnil
      have hsuf := run_frames hok hrun
      rw [hnil, suffix_nil] at hsuf
      exact hsupply hsuf
    exact ih (h.step (hops op mem_cons_self) hu hu') (fun o ho => hops o (mem_cons_of_mem _ ho)) hrun

lemma writePages_other (M : PageMap) (virt : Word) (leaf : ℕ → Option (ℕ × Word)) (is : List ℕ) {n : ℕ}
    (h : ∀ i ∈ is, n ≠ pageOf (virt + pageOffset i)) : M.writePages virt leaf is n = M n := by
  induction is generalizing M with
  | nil => rfl
  | cons i is ih =>
    rw [PageMap.writePages, foldl_cons, ← PageMap.writePages, ih _ fun j hj => h j (mem_cons_of_mem _ hj),
      update_of_ne (h i mem_cons_self)]

lemma apply_other (M : PageMap) {op : PageOp} {n : ℕ} (h : n ∉ op.pages) : M.apply op n = M n := by
  cases op with
  | map => exact update_of_ne h _ _
  | mapRange virt =>
    exact writePages_other M virt _ _ fun i hi hn => h ⟨i, mem_range.mp hi, hn⟩
  | unmap => exact update_of_ne h _ _
  | unmapRange virt =>
    exact writePages_other M virt _ _ fun i hi hn => h ⟨i, mem_range.mp hi, hn⟩

theorem paging_refines_pageMap {m₀ : Mem} {pool : List ℕ} (hr : r < 2 ^ 52) (hzero : ∀ i, entry m₀ (frameAddr r) i = 0)
    (hpool : pool.Nodup) (hframes : ∀ f ∈ pool, 0 < f ∧ f < 2 ^ 28 ∧ f ≠ r) {ops : List PageOp}
    (hops : ∀ op ∈ ops, op.Allowed) (hrun : Runs.run (pageStep (frameAddr r)) ⟨m₀, pool⟩ ops = some s)
    (hsupply : s.frames ≠ []) :
    Refines s.mem (frameAddr r) (ops.foldl PageMap.apply fun _ => none) ∧
    ∀ op t, op.Allowed → pageStep (frameAddr r) s op = some t → t.frames ≠ [] → ∀ virt, pageOf virt ∉ op.pages →
      vmmVirtualToPhysical t.mem (frameAddr r) virt = vmmVirtualToPhysical s.mem (frameAddr r) virt := by
  have hok : framePool.ok pool := ⟨hpool, fun f hf => ⟨(hframes f hf).1, (hframes f hf).2.1⟩⟩
  have hstart := Tracks.start hr hzero hok fun hmem => (hframes r hmem).2.2 rfl
  have htracks := hstart.run hops hrun hsupply
  refine ⟨htracks.refines, fun op t hop hstep ht virt hvirt => ?_⟩
  have hafter := (htracks.step hop hstep ht).refines.translate virt
  rw [hafter, htracks.refines.translate, PageMap.translate, PageMap.translate, apply_other _ hvirt]

theorem paging_refines_pageMap_small :
    ∃ s, Runs.run (pageStep (frameAddr 1)) ⟨fun _ => 0, [2, 3, 4, 5]⟩
        [.map 0x400000 0x9000 pteUser, .mapRange 0x400000 0x7000 0x2000 pteWritable, .unmap 0x401000] = some s ∧
      vmmVirtualToPhysical s.mem (frameAddr 1) 0x400123 = 0x7123 ∧
      vmmVirtualToPhysical s.mem (frameAddr 1) 0x401123 = 0 := by
  have hops : ∀ op ∈ [PageOp.map 0x400000 0x9000 pteUser, .mapRange 0x400000 0x7000 0x2000 pteWritable, .unmap 0x401000],
      op.Allowed := by
    simp only [mem_cons, not_mem_nil, or_false, forall_eq_or_imp, forall_eq, PageOp.Allowed, MappablePhys]
    decide +kernel
  have hzero : ∀ i, entry (fun _ => 0) (frameAddr 1) i = 0 := by
    intro i
    simp [entry, Mem.load64, Mem.readLE]
  refine Runs.exists_of_check (·.frames = [5]) (by decide +kernel) fun s hs hfive => ?_
  have hrefines := (paging_refines_pageMap (by decide) hzero (by decide) (by decide) hops hs (by rw [hfive]; decide)).1
  rw [hrefines.translate, hrefines.translate]
  decide +kernel

end refines

end KernelSmp.Memory.VmmRefinement
