import KernelSmp.Memory.UserSpaces

/-! The frames that `vmm_destroy_user_pml4` gives back, in its order. -/

namespace KernelSmp.Memory

open Base Base.Radix List Option

/-- The frames of the walk below a table with `d` levels: what a present entry names comes last. -/
def freedBelow (m : Mem) : ℕ → Word → List Word
  | 0, _ => []
  | d + 1, table => (List.finRange 512).flatMap fun i =>
    let e := entry m table i
    if isPresent e then (if hasFlag e pteHuge then [] else freedBelow m d (e &&& vmmAddrMask)) ++ [e &&& vmmAddrMask]
    else []

def destroyFrees (m : Mem) (cr3 : Word) : List Word :=
  ((List.finRange 256).flatMap fun i =>
    let e := entry m cr3 (userIndex i)
    if isPresent e then freedBelow m 3 (e &&& vmmAddrMask) ++ [e &&& vmmAddrMask] else []) ++ [cr3]

def freeAll (cpu : Option ℕ) (p : Pmm) (frames : List Word) : Pmm := frames.foldl (fun p w => pmmFreeFrame p cpu w) p

section order

variable (m : Mem) (cpu : Option ℕ)

lemma freeAll_append (p : Pmm) (l l' : List Word) : freeAll cpu p (l ++ l') = freeAll cpu (freeAll cpu p l) l' :=
  foldl_append

lemma foldl_freeAll {ι : Type} {step : Pmm → ι → Pmm} {frees : ι → List Word}
    (hstep : ∀ p i, step p i = freeAll cpu p (frees i)) (l : List ι) (p : Pmm) :
    l.foldl step p = freeAll cpu p (l.flatMap frees) := by
  induction l generalizing p with
  | nil => rfl
  | cons i l ih => rw [foldl_cons, ih, hstep, flatMap_cons, freeAll_append]

lemma destroyPt_eq (pt : Word) (p : Pmm) : destroyPt m cpu true pt p = freeAll cpu p (freedBelow m 1 pt) := by
  rw [destroyPt, if_pos rfl, freedBelow]
  apply foldl_freeAll
  intro p i
  dsimp only
  split
  · rw [freedBelow, ite_self]
    rfl
  · rfl

lemma freeAll_table (e : Word) (p : Pmm) (sub : List Word) :
    (if !isPresent e then p
     else if hasFlag e pteHuge then if true then pmmFreeFrame p cpu (e &&& vmmAddrMask) else p
     else pmmFreeFrame (freeAll cpu p sub) cpu (e &&& vmmAddrMask)) =
      freeAll cpu p (if isPresent e then (if hasFlag e pteHuge then [] else sub) ++ [e &&& vmmAddrMask] else []) := by
  cases isPresent e with
  | false => rfl
  | true =>
    cases hasFlag e pteHuge with
    | true => rfl
    | false => simp [freeAll]

lemma destroyPd_eq (pd : Word) (p : Pmm) : destroyPd m cpu true pd p = freeAll cpu p (freedBelow m 2 pd) := by
  rw [destroyPd, freedBelow]
  apply foldl_freeAll
  intro p i
  dsimp only
  rw [destroyPt_eq]
  exact freeAll_table cpu _ p _

lemma destroyPdpt_eq (pdpt : Word) (p : Pmm) : destroyPdpt m cpu true pdpt p = freeAll cpu p (freedBelow m 3 pdpt) := by
  rw [destroyPdpt, freedBelow]
  apply foldl_freeAll
  intro p i
  dsimp only
  rw [destroyPd_eq]
  exact freeAll_table cpu _ p _

lemma vmmDestroyUserPml4_eq (cr3 : Word) (p : Pmm) :
    vmmDestroyUserPml4 m cpu true cr3 p = freeAll cpu p (destroyFrees m cr3) := by
  rw [vmmDestroyUserPml4, destroyFrees, freeAll_append]
  refine congrArg (pmmFreeFrame · cpu cr3) (foldl_freeAll cpu (fun p i => ?_) _ p)
  dsimp only
  rw [destroyPdpt_eq]
  cases isPresent (entry m cr3 (userIndex i)) with
  | false => rfl
  | true => simp [freeAll]

variable {cpu}

lemma freeAll_size (p : Pmm) (l : List Word) : (freeAll cpu p l).bitmapSize = p.bitmapSize := by
  induction l generalizing p with
  | nil => rfl
  | cons w l ih => exact (ih _).trans (pmmFreeFrame_size p cpu w)

lemma usedFrames_freeAll (p : Pmm) (l : List Word) :
    usedFrames (freeAll cpu p l) = usedFrames p \ {g | ∃ w ∈ l, w ≠ 0 ∧ g = frameIndex w} := by
  induction l generalizing p with
  | nil => simp [freeAll]
  | cons w l ih =>
    refine (ih (pmmFreeFrame p cpu w)).trans ?_
    rw [usedFrames_freeAt]
    ext g
    simp only [Set.mem_sdiff, Set.mem_ofPred_eq, mem_cons, exists_eq_or_imp, not_or, and_assoc]

end order

variable {R : Type} {roots : R → Option ℕ} {r : R} {U : Set ℕ} {q : List Index} {g : ℕ} {w : Word}

section tree

variable {m : Mem}

def freedAt (T : ℕ → Index → Word) (roots : R → Option ℕ) (m : Mem) (r : R) (q : List Index) (d : ℕ) (i : Index) : List Word :=
  (role roots T r (i :: q)).elim [] fun k => freedBelow m d (frameAddr k) ++ [frameAddr k]

variable {d : ℕ}

lemma freedBelow_succ (h : Wired roots UserPath (tables m) U) (hr : role roots (tables m) r q = some g)
    (hq : ∀ i, UserPath (i :: q)) (hd : d ≠ 0 → q.length < 3) :
    freedBelow m (d + 1) (frameAddr g) = (List.finRange 512).flatMap (freedAt (tables m) roots m r q d) := by
  rw [freedBelow]
  congr 1
  funext i
  dsimp only
  rw [entry_frameAddr m (role_small h.small hr), freedAt, role_cons hr, target]
  split
  · rename_i hpresent
    rw [and_addrMask, elim_some]
    cases d with
    | zero => rw [freedBelow, ite_self]
    | succ =>
      obtain ⟨k, -, he⟩ := h.upper_present (hq i) (hd (by omega)) hr hpresent
      rw [if_neg]
      rw [he, (tableEntry_hasFlag k).2.2.1]
      decide
  · rfl

def EndsAt (roots : R → Option ℕ) (m : Mem) (r : R) (p : List Index) (w : Word) : Prop :=
  ∃ k, role roots (tables m) r p = some k ∧ w = frameAddr k

lemma EndsAt.unique (h : Wired roots UserPath (tables m) U) {p p' : List Index} (hp : UserPath p) (hp' : UserPath p')
    (hw : EndsAt roots m r p w) (hw' : EndsAt roots m r p' w) : p = p' := by
  obtain ⟨k, hk, rfl⟩ := hw
  obtain ⟨_, hk', hkk⟩ := hw'
  have hindex := congrArg frameIndex hkk
  rw [frameIndex_frameAddr' (role_small h.small hk), frameIndex_frameAddr' (role_small h.small hk')] at hindex
  subst hindex
  exact (h.separate r p r p' k hp hp' hk hk').2

variable {i : Index}

lemma mem_freedAt (ih : ∀ k, role roots (tables m) r (i :: q) = some k →
    (w ∈ freedBelow m d (frameAddr k) ↔ ∃ p, p ≠ [] ∧ p.length ≤ d ∧ EndsAt roots m r (p ++ i :: q) w)) :
    w ∈ freedAt (tables m) roots m r q d i ↔ ∃ p, p.length ≤ d ∧ EndsAt roots m r (p ++ i :: q) w := by
  rw [freedAt]
  cases hr : role roots (tables m) r (i :: q) with
  | none =>
    rw [elim_none]
    constructor
    · rintro ⟨⟩
    · rintro ⟨p, -, k, hk, -⟩
      have hnone := look_none_of_suffix target roots (suffix_append p (i :: q)) hr
      simp [hnone] at hk
  | some k =>
    rw [elim_some, mem_append, mem_singleton, ih k hr]
    constructor
    · rintro (⟨p, -, hp⟩ | rfl)
      · exact ⟨p, hp⟩
      · exact ⟨[], Nat.zero_le d, k, hr, rfl⟩
    · rintro ⟨p, hlen, hw⟩
      cases p with
      | nil =>
        obtain ⟨_, hk', rfl⟩ := hw
        rw [nil_append, hr, Option.some.injEq] at hk'
        exact .inr (by rw [hk'])
      | cons j p => exact .inl ⟨j :: p, by simp, hlen, hw⟩

lemma exists_last_iff {α : Type} {P : List α → Prop} :
    (∃ i p, p.length ≤ d ∧ P (p ++ [i])) ↔ ∃ p, p ≠ [] ∧ p.length ≤ d + 1 ∧ P p := by
  constructor
  · rintro ⟨i, p, hlen, hp⟩
    refine ⟨p ++ [i], by simp, ?_, hp⟩
    rw [length_append, length_singleton]
    omega
  · rintro ⟨p, hne, hlen, hp⟩
    obtain ⟨p, i, rfl⟩ := eq_nil_or_concat p |>.resolve_left hne
    rw [concat_eq_append] at hlen hp
    rw [length_append, length_singleton] at hlen
    exact ⟨i, p, by omega, hp⟩

lemma mem_freedBelow (h : Wired roots UserPath (tables m) U) (d : ℕ) (hr : role roots (tables m) r q = some g)
    (hne : q ≠ []) (hq : UserPath q) (hlen : q.length + d ≤ 4) :
    w ∈ freedBelow m d (frameAddr g) ↔ ∃ p, p ≠ [] ∧ p.length ≤ d ∧ EndsAt roots m r (p ++ q) w := by
  induction d generalizing q g with
  | zero =>
    constructor
    · rintro ⟨⟩
    · rintro ⟨p, hp, hle, -⟩
      exact absurd (length_eq_zero_iff.mp (Nat.le_zero.mp hle)) hp
  | succ d ih =>
    have hpath : ∀ i, UserPath (i :: q) := fun i => userPath_append (q := [i]) hq hne (by simp; omega)
    have hat : ∀ i, w ∈ freedAt (tables m) roots m r q d i ↔ ∃ p, p.length ≤ d ∧ EndsAt roots m r ((p ++ [i]) ++ q) w := by
      intro i
      rw [mem_freedAt fun k hk => ih hk (cons_ne_nil i q) (hpath i) (by rw [length_cons]; omega)]
      simp only [append_assoc, singleton_append]
    rw [freedBelow_succ h hr hpath (by omega), mem_flatMap, ← exists_last_iff]
    simp only [mem_finRange, true_and, hat]

lemma nodup_flatMap_freedAt (h : Wired roots UserPath (tables m) U) {is : List Index} (his : is.Nodup)
    (hmem : ∀ i ∈ is, ∀ w ∈ freedAt (tables m) roots m r q d i, ∃ p, UserPath (p ++ i :: q) ∧ EndsAt roots m r (p ++ i :: q) w)
    (heach : ∀ i ∈ is, (freedAt (tables m) roots m r q d i).Nodup) :
    (is.flatMap (freedAt (tables m) roots m r q d)).Nodup := by
  rw [nodup_flatMap]
  refine ⟨heach, his.pairwise_of_forall_ne ?_⟩
  intro i hi j hj hij w hwi hwj
  obtain ⟨_, hp, hw⟩ := hmem i hi w hwi
  obtain ⟨_, hp', hw'⟩ := hmem j hj w hwj
  have hsame := EndsAt.unique h hp hp' hw hw'
  rw [← singleton_append, ← append_assoc, ← singleton_append (x := j), ← append_assoc] at hsame
  have hlast := append_inj_right' (append_cancel_right hsame) rfl
  exact hij (singleton_inj.mp hlast)

lemma nodup_freedAt (h : Wired roots UserPath (tables m) U) (hq : UserPath (i :: q)) (hlen : (i :: q).length + d ≤ 4)
    (ih : ∀ k, role roots (tables m) r (i :: q) = some k → (freedBelow m d (frameAddr k)).Nodup) :
    (freedAt (tables m) roots m r q d i).Nodup := by
  rw [freedAt]
  cases hr : role roots (tables m) r (i :: q) with
  | none => exact nodup_nil
  | some k =>
    rw [elim_some, nodup_append]
    refine ⟨ih k hr, nodup_singleton _, ?_⟩
    rintro w hw w' hw' rfl
    obtain ⟨p, hp, _, hend⟩ := (mem_freedBelow h d hr (cons_ne_nil i q) hq hlen).mp hw
    have hpath : UserPath (p ++ i :: q) := userPath_append hq (cons_ne_nil i q) (by rw [length_append]; omega)
    have hself := EndsAt.unique h hpath hq hend ⟨k, hr, mem_singleton.mp hw'⟩
    exact hp (append_cancel_right (hself.trans (nil_append _).symm))

lemma nodup_freedBelow (h : Wired roots UserPath (tables m) U) (d : ℕ) (hr : role roots (tables m) r q = some g)
    (hne : q ≠ []) (hq : UserPath q) (hlen : q.length + d ≤ 4) : (freedBelow m d (frameAddr g)).Nodup := by
  induction d generalizing q g with
  | zero => exact nodup_nil
  | succ d ih =>
    have hpath : ∀ i, UserPath (i :: q) := fun i => userPath_append (q := [i]) hq hne (by simp; omega)
    have hle : ∀ i, (i :: q).length + d ≤ 4 := fun i => by rw [length_cons]; omega
    rw [freedBelow_succ h hr hpath (by omega)]
    apply nodup_flatMap_freedAt h (nodup_finRange 512)
    · intro i _ w hw
      obtain ⟨p, hp, hend⟩ :=
        (mem_freedAt fun k hk => mem_freedBelow h d hk (cons_ne_nil i q) (hpath i) (hle i)).mp hw
      exact ⟨p, userPath_append (hpath i) (cons_ne_nil i q) (by have := hle i; rw [length_append]; omega), hend⟩
    · exact fun i _ => nodup_freedAt h (hpath i) (hle i) fun k hk => ih hk (cons_ne_nil i q) (hpath i) (hle i)

lemma destroyFrees_eq (h : Wired roots UserPath (tables m) U) (hroot : roots r = some g) :
    destroyFrees m (frameAddr g) =
      ((List.finRange 256).map userIndex).flatMap (freedAt (tables m) roots m r [] 3) ++ [frameAddr g] := by
  have hnil : role roots (tables m) r [] = some g := role_nil.trans hroot
  rw [destroyFrees, flatMap_map]
  congr 2
  funext i
  dsimp only
  rw [entry_frameAddr m (role_small h.small hnil), freedAt, role_cons hnil, target]
  split
  · rw [and_addrMask, elim_some]
  · rfl

lemma userPath_last {p : List Index} : UserPath (p ++ [i]) ↔ p.length ≤ 3 ∧ (i : ℕ) < 256 := by
  rw [UserPath, length_append, length_singleton, List.getLast?_append_of_ne_nil _ (by simp)]
  simp [Nat.lt_succ_iff]

lemma mem_destroyFrees (h : Wired roots UserPath (tables m) U) (hroot : roots r = some g) :
    w ∈ destroyFrees m (frameAddr g) ↔ ∃ p, UserPath p ∧ EndsAt roots m r p w := by
  have hat : ∀ i : Fin 256, w ∈ freedAt (tables m) roots m r [] 3 (userIndex i) ↔
      ∃ p, p.length ≤ 3 ∧ EndsAt roots m r (p ++ [userIndex i]) w := fun i =>
    mem_freedAt fun k hk => mem_freedBelow h 3 hk (cons_ne_nil _ _) (userPath_singleton.mpr i.isLt) (by simp)
  rw [destroyFrees_eq h hroot, mem_append, mem_flatMap, mem_singleton]
  constructor
  · rintro (⟨_, hj, hw⟩ | rfl)
    · obtain ⟨i, -, rfl⟩ := List.mem_map.mp hj
      obtain ⟨p, hp, hend⟩ := (hat i).mp hw
      exact ⟨p ++ [userIndex i], userPath_last.mpr ⟨hp, i.isLt⟩, hend⟩
    · exact ⟨[], userPath_nil, g, role_nil.trans hroot, rfl⟩
  · rintro ⟨p, hp, hend⟩
    rcases eq_nil_or_concat p with rfl | ⟨p, i, rfl⟩
    · obtain ⟨_, hk, rfl⟩ := hend
      rw [role_nil, hroot, Option.some.injEq] at hk
      exact .inr (by rw [hk])
    · rw [concat_eq_append] at hp hend
      obtain ⟨hlen, hi⟩ := userPath_last.mp hp
      exact .inl ⟨i, List.mem_map.mpr ⟨⟨i, hi⟩, mem_finRange _, rfl⟩, (hat ⟨i, hi⟩).mpr ⟨p, hlen, hend⟩⟩

lemma nodup_destroyFrees (h : Wired roots UserPath (tables m) U) (hroot : roots r = some g) :
    (destroyFrees m (frameAddr g)).Nodup := by
  have huser : ∀ i ∈ (List.finRange 256).map userIndex, UserPath [i] := by
    intro i hi
    obtain ⟨j, -, rfl⟩ := List.mem_map.mp hi
    exact userPath_singleton.mpr j.isLt
  have hat : ∀ i ∈ (List.finRange 256).map userIndex, ∀ w ∈ freedAt (tables m) roots m r [] 3 i,
      ∃ p, UserPath (p ++ [i]) ∧ EndsAt roots m r (p ++ [i]) w := by
    intro i hi w hw
    obtain ⟨p, hp, hend⟩ := (mem_freedAt fun k hk => mem_freedBelow h 3 hk (cons_ne_nil _ _) (huser i hi) (by simp)).mp hw
    exact ⟨p, userPath_append (huser i hi) (cons_ne_nil _ _) (by simp; omega), hend⟩
  rw [destroyFrees_eq h hroot, nodup_append]
  refine ⟨nodup_flatMap_freedAt h ?_ hat fun i hi => ?_, nodup_singleton _, ?_⟩
  · refine (nodup_finRange 256).map fun i j hij => ?_
    exact Fin.ext (Fin.mk.inj hij)
  · exact nodup_freedAt h (huser i hi) (by simp) fun k hk => nodup_freedBelow h 3 hk (cons_ne_nil _ _) (huser i hi)
      (by simp)
  · rintro w hw w' hw' rfl
    obtain ⟨i, hi, hwi⟩ := mem_flatMap.mp hw
    obtain ⟨_, hp, hend⟩ := hat i hi w hwi
    have hroot' : EndsAt roots m r [] w := ⟨g, role_nil.trans hroot, mem_singleton.mp hw'⟩
    have hempty := EndsAt.unique h hp userPath_nil hend hroot'
    exact absurd hempty (by simp)

lemma usedFrames_vmmDestroyUserPml4 (h : Wired roots UserPath (tables m) U) (hroot : roots r = some g)
    (cpu : Option ℕ) (p : Pmm) :
    usedFrames (vmmDestroyUserPml4 m cpu true (frameAddr g) p) =
      usedFrames p \ {f | f ≠ 0 ∧ ∃ q, UserPath q ∧ role roots (tables m) r q = some f} := by
  rw [vmmDestroyUserPml4_eq, usedFrames_freeAll]
  congr 1
  ext f
  constructor
  · rintro ⟨_, hw, hnull, rfl⟩
    obtain ⟨q, hq, _, hk, rfl⟩ := (mem_destroyFrees h hroot).mp hw
    rw [frameIndex_frameAddr' (role_small h.small hk)]
    refine ⟨?_, q, hq, hk⟩
    rintro rfl
    exact hnull rfl
  · rintro ⟨hpos, q, hq, hf⟩
    have hsmall := role_small h.small hf
    refine ⟨frameAddr f, (mem_destroyFrees h hroot).mpr ⟨q, hq, f, hf, rfl⟩, ?_, (frameIndex_frameAddr' hsmall).symm⟩
    exact frameAddr_ne_zero (by rw [pageSize]; omega) hpos

lemma vmmDestroyUserPml4_size (cpu : Option ℕ) (cr3 : Word) (p : Pmm) :
    (vmmDestroyUserPml4 m cpu true cr3 p).bitmapSize = p.bitmapSize := by
  rw [vmmDestroyUserPml4_eq, freeAll_size]

end tree

end KernelSmp.Memory
