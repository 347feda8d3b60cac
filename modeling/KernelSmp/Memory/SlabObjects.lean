import KernelSmp.Memory.SlabLists

/-! The objects of a slab, and the list of those that are free. -/

namespace KernelSmp.Memory.SlabCaches

open Base LinkedList LinkedQueue Function List

def objSize (i : Fin 8) : ℕ := (cacheSizes i).toNat
def capacity (i : Fin 8) : ℕ := 4032 / objSize i
def objAt (i : Fin 8) (p : Word) (n : ℕ) : Word := p + BitVec.ofNat 64 (64 + n * objSize i)
def objectsFrom (i : Fin 8) (p : Word) (n m : ℕ) : List Word := (List.range' n m).map (objAt i p)
def objectsAt (i : Fin 8) (p : Word) : List Word := objectsFrom i p 0 (capacity i)

variable {i : Fin 8} {p q o o' : Word} {n m : ℕ}

lemma objSize_spec (i : Fin 8) : objSize i % 16 = 0 ∧ 0 < objSize i ∧ 0 < capacity i ∧ capacity i ≤ 252 := by
  revert i
  decide

lemma fits (h : n < capacity i) : n * objSize i + objSize i ≤ 4032 :=
  calc n * objSize i + objSize i = (n + 1) * objSize i := (Nat.succ_mul n _).symm
    _ ≤ capacity i * objSize i := Nat.mul_le_mul_right _ h
    _ ≤ 4032 := Nat.div_mul_le_self _ _

lemma objAt_toNat (hp : IsPage p) (h : n < capacity i) : (objAt i p n).toNat = p.toNat + 64 + n * objSize i := by
  have hfits := fits h
  obtain ⟨_, -⟩ := hp
  obtain ⟨-, _, -⟩ := objSize_spec i
  rw [objAt, Word.toNat_add_ofNat (by omega)]
  omega

lemma mem_objectsFrom : o ∈ objectsFrom i p n m ↔ ∃ k, n ≤ k ∧ k < n + m ∧ objAt i p k = o := by
  simp [objectsFrom, and_assoc]

lemma mem_objectsAt : o ∈ objectsAt i p ↔ ∃ k, k < capacity i ∧ objAt i p k = o := by
  simp [objectsAt, mem_objectsFrom]

lemma objectsFrom_concat : objectsFrom i p n (m + 1) = objectsFrom i p n m ++ [objAt i p (n + m)] := by
  rw [objectsFrom, range'_1_concat, map_append, map_singleton, objectsFrom]

lemma inside (hp : IsPage p) (ho : o ∈ objectsAt i p) :
    o.toNat % 16 = 0 ∧ p.toNat + 64 ≤ o.toNat ∧ o.toNat + objSize i ≤ p.toNat + 4096 := by
  obtain ⟨k, hk, rfl⟩ := mem_objectsAt.mp ho
  have hfits := fits hk
  obtain ⟨hsize, -⟩ := objSize_spec i
  have hmul : k * objSize i % 16 = 0 := by rw [Nat.mul_mod, hsize, mul_zero, Nat.zero_mod]
  rw [objAt_toNat hp hk]
  obtain ⟨_, -⟩ := hp
  omega

lemma isObj_of_mem (hp : IsPage p) (ho : o ∈ objectsAt i p) : IsObj o := by
  obtain ⟨hmod, _, _⟩ := inside hp ho
  obtain ⟨-, _, -⟩ := objSize_spec i
  obtain ⟨_, -⟩ := hp
  exact ⟨hmod, by omega⟩

lemma slabOf_eq (hp : IsPage p) (ho : o ∈ objectsAt i p) : slabOf o = p := by
  obtain ⟨-, _, _⟩ := inside hp ho
  obtain ⟨-, _, -⟩ := objSize_spec i
  obtain ⟨_, -⟩ := hp
  have hmask : o &&& ~~~0xFFF = o &&& BitVec.ofNat 64 ((2 ^ 52 - 1) * 2 ^ 12) := rfl
  apply BitVec.eq_of_toNat_eq
  rw [slabOf, hmask, Word.toNat_and_field _ 12 52 (by decide)]
  omega

lemma objAt_inj (hp : IsPage p) (hn : n < capacity i) (hm : m < capacity i) (h : objAt i p n = objAt i p m) : n = m := by
  have heq := congrArg BitVec.toNat h
  rw [objAt_toNat hp hn, objAt_toNat hp hm] at heq
  obtain ⟨-, hpos, -⟩ := objSize_spec i
  exact Nat.eq_of_mul_eq_mul_right hpos (Nat.add_left_cancel heq)

lemma objectsAt_nodup (hp : IsPage p) : (objectsAt i p).Nodup := by
  apply List.Nodup.map_on
  · intro n hn m hm h
    exact objAt_inj hp (by simpa using hn) (by simpa using hm) h
  · exact nodup_range'

lemma objectsAt_length : (objectsAt i p).length = capacity i := by
  rw [objectsAt, objectsFrom, length_map, length_range']

lemma apart_of_ne (hp : IsPage p) (ho : o ∈ objectsAt i p) (ho' : o' ∈ objectsAt i p) (h : o ≠ o') :
    o.toNat + objSize i ≤ o'.toNat ∨ o'.toNat + objSize i ≤ o.toNat := by
  obtain ⟨n, hn, rfl⟩ := mem_objectsAt.mp ho
  obtain ⟨m, hm, rfl⟩ := mem_objectsAt.mp ho'
  rw [objAt_toNat hp hn, objAt_toNat hp hm]
  rcases Nat.lt_trichotomy n m with hlt | rfl | hlt
  · have hmul := Nat.mul_le_mul_right (objSize i) hlt
    rw [Nat.succ_mul] at hmul
    omega
  · exact absurd rfl h
  · have hmul := Nat.mul_le_mul_right (objSize i) hlt
    rw [Nat.succ_mul] at hmul
    omega

lemma objAt_succ : objAt i p n + cacheSizes i = objAt i p (n + 1) := by
  have hsize : cacheSizes i = BitVec.ofNat 64 (objSize i) := by rw [objSize, BitVec.ofNat_toNat, BitVec.setWidth_eq]
  rw [objAt, objAt, hsize, BitVec.add_assoc, ← BitVec.ofNat_add, Nat.succ_mul, Nat.add_assoc]

structure SlabRep (s : Slabs) (p : Word) (i : Fin 8) (l : List Word) : Prop where
  page : IsPage p
  magic : s.get p .magic = slabMagic.setWidth 64
  parent : s.get p .parentCache = s.cacheAddr i
  chain : Chain (objNext s) (pointer (s.get p .freeList)) l none
  count : s.get p .freeCount = BitVec.ofNat 64 l.length
  nodup : l.Nodup
  objects : ∀ o ∈ l, o ∈ objectsAt i p

structure Within (p : Word) (s s' : Slabs) : Prop where
  fields : ∀ b f, IsPage b → (b ≠ p ∨ f = .next ∨ f = .prev) → s'.get b f = s.get b f
  objs : ∀ o, IsObj o → slabOf o ≠ p → s'.getObj o = s.getObj o
  lists : s'.lists = s.lists
  base : s'.kmallocCaches = s.kmallocCaches

variable {s s' s'' : Slabs} {j : Fin 8} {v : Word} {f : SlabField} {l : List Word} {ls : Fin 8 × SlabList → List Word}

lemma Within.refl : Within p s s := ⟨fun _ _ _ _ => rfl, fun _ _ _ => rfl, rfl, rfl⟩

lemma Within.trans (h : Within p s s') (h' : Within p s' s'') : Within p s s'' :=
  ⟨fun b f hb hf => (h'.fields b f hb hf).trans (h.fields b f hb hf),
    fun o ho hp => (h'.objs o ho hp).trans (h.objs o ho hp), h'.lists.trans h.lists, h'.base.trans h.base⟩

lemma Within.set (hp : IsPage p) (hf : f ≠ .next ∧ f ≠ .prev) (v : Word) : Within p s (s.set p f v) := by
  refine ⟨fun b g hb hg => get_set_other hp hb ?_, fun o ho _ => getObj_set hp ho, rfl, rfl⟩
  rcases hg with hg | rfl | rfl
  · exact .inl hg
  · exact .inr hf.1.symm
  · exact .inr hf.2.symm

lemma Within.setObj (ho : IsObj o) (hp : slabOf o = p) (v : Word) : Within p s (s.setObj o v) := by
  refine ⟨fun b g hb _ => get_setObj hb ho, fun o' ho' hne => getObj_setObj ho ho' ?_, rfl, rfl⟩
  rintro rfl
  exact hne hp

lemma Listed.within (h : Listed s ls) (hw : Within p s s') : Listed s' ls := by
  refine ⟨h.lists.congr (fun k b hb => ?_) (fun k b hb => ?_) fun k => ?_, h.pages⟩
  · rw [slabNext, hw.fields b .next (h.pages k b hb) (.inr (.inl rfl)), slabNext]
  · rw [slabPrev, hw.fields b .prev (h.pages k b hb) (.inr (.inr rfl)), slabPrev]
  · rw [listHead, hw.lists, listHead]

lemma SlabRep.congr (h : SlabRep s p i l) (hfields : ∀ f, f ≠ .next → f ≠ .prev → s'.get p f = s.get p f)
    (hobjs : ∀ o ∈ l, s'.getObj o = s.getObj o) (hbase : s'.kmallocCaches = s.kmallocCaches) : SlabRep s' p i l where
  page := h.page
  magic := (hfields .magic nofun nofun).trans h.magic
  parent := by
    rw [hfields .parentCache nofun nofun, h.parent, Slabs.cacheAddr, Slabs.cacheAddr, hbase]
  chain := by
    rw [hfields .freeList nofun nofun]
    exact h.chain.congr fun o ho => congrArg pointer (hobjs o ho)
  count := (hfields .freeCount nofun nofun).trans h.count
  nodup := h.nodup
  objects := h.objects

lemma SlabRep.relinked (h : SlabRep s p i l) (hr : Relinked s s') : SlabRep s' p i l :=
  h.congr (fun f hn hv => hr.fields p f h.page hn hv) (fun o ho => hr.objs o (isObj_of_mem h.page (h.objects o ho))) hr.base

lemma SlabRep.within (h : SlabRep s q j l) (hw : Within p s s') (hne : q ≠ p) : SlabRep s' q j l := by
  refine h.congr (fun f _ _ => hw.fields q f h.page (.inl hne)) (fun o ho => ?_) hw.base
  have hmem := h.objects o ho
  apply hw.objs o (isObj_of_mem h.page hmem)
  rwa [slabOf_eq h.page hmem]

lemma SlabRep.length_le (h : SlabRep s p i l) : l.length ≤ capacity i := by
  rw [← objectsAt_length]
  exact (h.nodup.subperm h.objects).length_le

lemma SlabRep.length_lt (h : SlabRep s p i l) (ho : o ∈ objectsAt i p) (hout : o ∉ l) : l.length < capacity i := by
  have hnodup := nodup_cons.mpr ⟨hout, h.nodup⟩
  have hsub : ∀ o' ∈ o :: l, o' ∈ objectsAt i p := by
    intro o' ho'
    rcases mem_cons.mp ho' with rfl | ho'
    · exact ho
    · exact h.objects o' ho'
  have hle := (hnodup.subperm hsub).length_le
  rwa [objectsAt_length, length_cons] at hle

lemma SlabRep.count_eq_iff (h : SlabRep s p i l) (hn : n ≤ 252) : s.get p .freeCount = BitVec.ofNat 64 n ↔ l.length = n := by
  have hle := h.length_le
  obtain ⟨-, -, -, _⟩ := objSize_spec i
  rw [h.count]
  constructor
  · intro heq
    have hnat := congrArg BitVec.toNat heq
    rwa [BitVec.toNat_ofNat, BitVec.toNat_ofNat, Nat.mod_eq_of_lt (by omega), Nat.mod_eq_of_lt (by omega)] at hnat
  · rintro rfl
    rfl

lemma SlabRep.take (h : SlabRep s p i (o :: l)) : s.get p .freeList = o ∧
    SlabRep ((s.set p .freeList (s.getObj o)).set p .freeCount (s.get p .freeCount - 1)) p i l := by
  have hlink := h.chain.1
  have ho := (pointer_eq_some.mp hlink).1
  refine ⟨ho, h.page, ?_, ?_, ?_, ?_, (nodup_cons.mp h.nodup).2, fun o' ho' => h.objects o' (mem_cons_of_mem o ho')⟩
  · rw [get_set_other h.page h.page (.inr (by decide)), get_set_other h.page h.page (.inr (by decide)), h.magic]
  · rw [get_set_other h.page h.page (.inr (by decide)), get_set_other h.page h.page (.inr (by decide)), h.parent]
    rfl
  · rw [get_set_other h.page h.page (.inr (by decide)), get_set_same (s.getObj o).isLt]
    refine Chain.congr h.chain.2 fun o' ho' => congrArg pointer ?_
    have hobj' := isObj_of_mem h.page (h.objects o' (mem_cons_of_mem o ho'))
    rw [getObj_set h.page hobj', getObj_set h.page hobj']
  · rw [get_set_same (s.get p .freeCount - 1).isLt, h.count, length_cons, BitVec.ofNat_add]
    exact BitVec.add_sub_cancel _ _

lemma SlabRep.put (h : SlabRep s p i l) (ho : o ∈ objectsAt i p) (hout : o ∉ l) :
    SlabRep (((s.setObj o (s.get p .freeList)).set p .freeList o).set p .freeCount (s.get p .freeCount + 1)) p i (o :: l) := by
  have hobj := isObj_of_mem h.page ho
  refine ⟨h.page, ?_, ?_, ⟨?_, ?_⟩, ?_, nodup_cons.mpr ⟨hout, h.nodup⟩, fun o' ho' => ?_⟩
  · rw [get_set_other h.page h.page (.inr (by decide)), get_set_other h.page h.page (.inr (by decide)),
      get_setObj h.page hobj, h.magic]
  · rw [get_set_other h.page h.page (.inr (by decide)), get_set_other h.page h.page (.inr (by decide)),
      get_setObj h.page hobj, h.parent]
    rfl
  · rw [get_set_other h.page h.page (.inr (by decide)), get_set_same o.isLt, pointer_of_ne hobj.ne_zero]
  · rw [objNext, getObj_set h.page hobj, getObj_set h.page hobj, getObj_setObj_self]
    refine h.chain.congr fun o' ho' => congrArg pointer ?_
    have hobj' := isObj_of_mem h.page (h.objects o' ho')
    rw [getObj_set h.page hobj', getObj_set h.page hobj', getObj_setObj hobj hobj']
    rintro rfl
    exact hout ho'
  · rw [get_set_same (s.get p .freeCount + 1).isLt, h.count, length_cons, BitVec.ofNat_add]
    rfl
  · rcases mem_cons.mp ho' with rfl | ho'
    · exact ho
    · exact h.objects o' ho'

lemma linkObjects_spec (hp : IsPage p) (h : n + m < capacity i) :
    (linkObjects (cacheSizes i) m s (objAt i p n)).2 = objAt i p (n + m) ∧
    Within p s (linkObjects (cacheSizes i) m s (objAt i p n)).1 ∧
    (∀ b f, IsPage b → (linkObjects (cacheSizes i) m s (objAt i p n)).1.get b f = s.get b f) ∧
    (∀ o, IsObj o → o ∉ objectsFrom i p n m → (linkObjects (cacheSizes i) m s (objAt i p n)).1.getObj o = s.getObj o) ∧
    Chain (objNext (linkObjects (cacheSizes i) m s (objAt i p n)).1) (some (objAt i p n)) (objectsFrom i p n m)
      (some (objAt i p (n + m))) := by
  induction m generalizing n s with
  | zero => exact ⟨rfl, .refl, fun _ _ _ => rfl, fun _ _ _ => rfl, rfl⟩
  | succ m ih =>
    have hmem : objAt i p n ∈ objectsAt i p := mem_objectsAt.mpr ⟨n, by omega, rfl⟩
    have hobj := isObj_of_mem hp hmem
    have hstep : linkObjects (cacheSizes i) (m + 1) s (objAt i p n) =
        linkObjects (cacheSizes i) m (s.setObj (objAt i p n) (objAt i p (n + 1))) (objAt i p (n + 1)) := by
      rw [linkObjects, objAt_succ, getObj_setObj_self]
    obtain ⟨hend, hwithin, hfields, hobjs, hchain⟩ := ih (n := n + 1)
      (by omega)
    have hrange : objectsFrom i p n (m + 1) = objAt i p n :: objectsFrom i p (n + 1) m := by
      rw [objectsFrom, range'_succ, map_cons, objectsFrom]
    have hout : objAt i p n ∉ objectsFrom i p (n + 1) m := by
      intro hin
      obtain ⟨_, _, _, heq⟩ := mem_objectsFrom.mp hin
      have hkn := objAt_inj hp (by omega) (by omega) heq
      omega
    rw [hstep, hrange, show n + (m + 1) = n + 1 + m by omega]
    refine ⟨hend, (Within.setObj hobj (slabOf_eq hp hmem) _).trans hwithin, fun b f hb => ?_, fun o ho hne => ?_, rfl, ?_⟩
    · rw [hfields b f hb, get_setObj hb hobj]
    · obtain ⟨hne, hrest⟩ := not_or.mp (mt mem_cons.mpr hne)
      rw [hobjs o ho hrest, getObj_setObj hobj ho hne]
    · rw [objNext, hobjs _ hobj hout, getObj_setObj_self, pointer_of_ne]
      · exact hchain
      · exact (isObj_of_mem hp (mem_objectsAt.mpr ⟨n + 1, by omega, rfl⟩)).ne_zero

lemma start_eq (hp : IsPage p) : (p + slabSize + 15) &&& ~~~15 = objAt i p 0 := by
  obtain ⟨_, -⟩ := hp
  have hmask : (p + slabSize + 15) &&& ~~~15 = (p + BitVec.ofNat 64 71) &&& BitVec.ofNat 64 ((2 ^ 60 - 1) * 2 ^ 4) := by
    rw [slabSize, BitVec.add_assoc]
    rfl
  apply BitVec.eq_of_toNat_eq
  rw [hmask, Word.toNat_and_field _ 4 60 (by decide), Word.toNat_add_ofNat (by omega), objAt, Nat.zero_mul,
    Word.toNat_add_ofNat (by omega)]
  omega

lemma maxObjs_eq : (p + 4096 - objAt i p 0) / cacheSizes i = BitVec.ofNat 64 (capacity i) := by
  have hroom : p + 4096 - objAt i p 0 = 4032 := by
    rw [objAt, Nat.zero_mul]
    bv_omega
  rw [hroom]
  clear hroom
  revert i
  decide

lemma capacity_pred : (BitVec.ofNat 64 (capacity i) - 1).toNat = capacity i - 1 := by
  revert i
  decide

lemma carve_spec (hp : IsPage p) : SlabRep (carve s i p) p i (objectsAt i p) ∧ Within p s (carve s i p) := by
  have hcap := (objSize_spec i).2.2.1
  rw [carve]
  simp only [start_eq (i := i) hp, maxObjs_eq, capacity_pred]
  generalize hs : (((s.set p .magic (slabMagic.setWidth 64)).set p .parentCache (s.cacheAddr i)).set p .freeList
    (objAt i p 0)).set p .freeCount (BitVec.ofNat 64 (capacity i)) = s₁
  have hwithin₁ : Within p s s₁ := by
    rw [← hs]
    exact (((Within.set hp (by decide) _).trans (.set hp (by decide) _)).trans (.set hp (by decide) _)).trans
      (.set hp (by decide) _)
  have hfree : s₁.get p .freeList = objAt i p 0 := by
    rw [← hs, get_set_other hp hp (.inr (by decide)), get_set_same (objAt i p 0).isLt]
  obtain ⟨hend, hwithin₂, hfields, _, hchain⟩ := linkObjects_spec (i := i) (n := 0) (m := capacity i - 1)
    hp (by omega)
  rw [hfree]
  generalize linkObjects (cacheSizes i) (capacity i - 1) s₁ (objAt i p 0) = r at *
  obtain ⟨s₂, curr⟩ := r
  obtain rfl : curr = objAt i p (0 + (capacity i - 1)) := hend
  rw [Nat.zero_add] at *
  have hmem : objAt i p (capacity i - 1) ∈ objectsAt i p := mem_objectsAt.mpr ⟨capacity i - 1, by omega, rfl⟩
  have hobj := isObj_of_mem hp hmem
  have hsplit : objectsAt i p = objectsFrom i p 0 (capacity i - 1) ++ [objAt i p (capacity i - 1)] := by
    have hconcat := objectsFrom_concat (i := i) (p := p) (n := 0) (m := capacity i - 1)
    rwa [Nat.sub_add_cancel hcap, Nat.zero_add] at hconcat
  have hlast : objAt i p (capacity i - 1) ∉ objectsFrom i p 0 (capacity i - 1) := by
    have hnodup := objectsAt_nodup (i := i) hp
    rw [hsplit] at hnodup
    exact fun hin => (nodup_append'.mp hnodup).2.2 hin (mem_singleton_self _)
  have hget : ∀ f, (s₂.setObj (objAt i p (capacity i - 1)) 0).get p f = s₁.get p f := by
    intro f
    rw [get_setObj hp hobj]
    exact hfields p f hp
  refine ⟨⟨hp, ?_, ?_, ?_, ?_, objectsAt_nodup hp, fun o ho => ho⟩,
    (hwithin₁.trans hwithin₂).trans (.setObj hobj (slabOf_eq hp hmem) 0)⟩
  · rw [hget, ← hs, get_set_other hp hp (.inr (by decide)), get_set_other hp hp (.inr (by decide)),
      get_set_other hp hp (.inr (by decide)), get_set_same (by decide)]
  · rw [hget, ← hs, get_set_other hp hp (.inr (by decide)), get_set_other hp hp (.inr (by decide)),
      get_set_same (s.cacheAddr i).isLt]
    exact congrArg (· + 128 * BitVec.ofNat 64 i) (hwithin₁.trans hwithin₂).base.symm
  · rw [hget, hfree, hsplit, pointer_of_ne (isObj_of_mem hp (mem_objectsAt.mpr ⟨0, hcap, rfl⟩)).ne_zero]
    refine chain_append.mpr ⟨_, hchain.congr fun o ho => ?_, rfl, ?_⟩
    · have hmem' := hsplit ▸ mem_append_left _ ho
      refine congrArg pointer (getObj_setObj hobj (isObj_of_mem hp hmem') ?_)
      rintro rfl
      exact hlast ho
    · rw [objNext, getObj_setObj_self]
      rfl
  · rw [hget, ← hs, get_set_same (BitVec.ofNat 64 (capacity i)).isLt, objectsAt_length]

end KernelSmp.Memory.SlabCaches
