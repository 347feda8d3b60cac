import KernelSmp.Base.Runs
import KernelSmp.Memory.SlabObjects

/-! Sequences of calls on the caches of `kmalloc`. -/

namespace KernelSmp.Memory.SlabCaches

open Base LinkedList LinkedQueue Function List

/-- The list for a slab with the free objects `l`. A slab of one object goes from full to partial,
so that a partial slab may have all its objects free. -/
def Ranked (i : Fin 8) (l : List Word) : SlabList → Prop
  | .partialSlabs => l ≠ []
  | .fullSlabs => l = []
  | .emptySlabs => l.length = capacity i

def RankedBut (B : Fin 8 → Prop) (i : Fin 8) (l : List Word) : SlabList → Prop
  | .partialSlabs => l ≠ [] ∧ (l.length < capacity i ∨ B i)
  | .fullSlabs => l = []
  | .emptySlabs => l.length = capacity i

structure CachesRep (s : Slabs) (pages live : List (Word × Fin 8)) (ls : Fin 8 × SlabList → List Word)
    (fl : Word → List Word) : Prop where
  slab : ∀ p i, (p, i) ∈ pages → SlabRep s p i (fl p)
  free : ∀ p i, (p, i) ∈ pages → ∀ o ∈ objectsAt i p, (o ∈ fl p ↔ (o, i) ∉ live)
  owner : ∀ o i, (o, i) ∈ live → ∃ p, (p, i) ∈ pages ∧ o ∈ objectsAt i p
  nodup : live.Nodup
  listed : Listed s ls
  placed : ∀ p i, (p, i) ∈ pages ↔ ∃ k, p ∈ ls (i, k)

def AllRanked (ls : Fin 8 × SlabList → List Word) (fl : Word → List Word) : Prop :=
  ∀ i k, ∀ p ∈ ls (i, k), Ranked i (fl p) k

def AllRankedBut (B : Fin 8 → Prop) (ls : Fin 8 × SlabList → List Word) (fl : Word → List Word) : Prop :=
  ∀ i k, ∀ p ∈ ls (i, k), RankedBut B i (fl p) k

variable {s s' : Slabs} {pages live : List (Word × Fin 8)} {ls : Fin 8 × SlabList → List Word} {fl : Word → List Word}
  {i j : Fin 8} {k : SlabList} {p q o : Word} {l : List Word} {B : Fin 8 → Prop}

lemma RankedBut.ranked (h : RankedBut B i l k) : Ranked i l k := by
  cases k with
  | partialSlabs => exact h.1
  | fullSlabs => exact h
  | emptySlabs => exact h

lemma Ranked.but (h : Ranked i l k) : RankedBut (fun _ => True) i l k := by
  cases k with
  | partialSlabs => exact ⟨h, .inr trivial⟩
  | fullSlabs => exact h
  | emptySlabs => exact h

lemma AllRankedBut.ranked (h : AllRankedBut B ls fl) : AllRanked ls fl := fun i k p hp => (h i k p hp).ranked

lemma AllRanked.but (h : AllRanked ls fl) : AllRankedBut (fun _ => True) ls fl := fun i k p hp => (h i k p hp).but

lemma Listed.move {k : Fin 8 × SlabList} (h : Listed s ls) (hp : p ∈ ls k) (k' : Fin 8 × SlabList) :
    ∃ ls', Listed (slabListPush (slabListRemove s k p) k' p) ls' ∧ Relinked s (slabListPush (slabListRemove s k p) k' p) ∧
    ∀ m q, q ∈ ls' m ↔ if q = p then m = k' else q ∈ ls m := by
  obtain ⟨l₁, l₂, hk⟩ := append_of_mem hp
  obtain ⟨hremoved, hrel⟩ := h.remove hk
  have hnodup := hk ▸ h.lists.nodup k
  have hleft : ∀ m q, q ∈ update ls k (l₁ ++ l₂) m ↔ q ≠ p ∧ q ∈ ls m := by
    intro m q
    by_cases hm : m = k
    · rw [hm, update_self, hk]
      constructor
      · intro hq
        refine ⟨?_, ((sublist_cons_self p l₂).append_left l₁).mem hq⟩
        rintro rfl
        exact (nodup_middle.mp hnodup).notMem hq
      · rintro ⟨hne, hq⟩
        rcases mem_append.mp hq with hq | hq
        · exact mem_append_left _ hq
        · exact mem_append_right _ ((mem_cons.mp hq).resolve_left hne)
    · rw [update_of_ne hm]
      refine ⟨fun hq => ⟨?_, hq⟩, fun hq => hq.2⟩
      rintro rfl
      exact hm (h.lists.apart m k q hq hp)
  obtain ⟨hpushed, hrel'⟩ := hremoved.push (h.pages k p hp) (fun m hm => ((hleft m p).mp hm).1 rfl) k'
  refine ⟨_, hpushed, hrel.trans hrel', fun m q => ?_⟩
  by_cases hm : m = k'
  · rw [hm, update_self, mem_cons, hleft]
    by_cases hq : q = p
    · simp [hq]
    · simp [hq]
  · rw [update_of_ne hm, hleft]
    by_cases hq : q = p
    · simp [hm]
    · simp [hq]

lemma CachesRep.cache_eq (h : CachesRep s pages live ls fl) (hi : (p, i) ∈ pages) (hj : (p, j) ∈ pages) : i = j := by
  obtain ⟨_, hk⟩ := (h.placed p i).mp hi
  obtain ⟨_, hk'⟩ := (h.placed p j).mp hj
  exact congrArg Prod.fst (h.listed.lists.apart _ _ p hk hk')

lemma CachesRep.move (h : CachesRep s pages live ls fl) (hp : p ∈ ls (i, k)) (k' : SlabList)
    (hother : ∀ j m, ∀ q ∈ ls (j, m), q ≠ p → RankedBut B j (fl q) m) :
    ∃ ls', CachesRep (slabListPush (slabListRemove s (i, k) p) (i, k') p) pages live ls' fl ∧
      (∀ j m, ∀ q ∈ ls' (j, m), q ≠ p → RankedBut B j (fl q) m) ∧ p ∈ ls' (i, k') := by
  obtain ⟨ls', hlisted, hrel, hmem⟩ := h.listed.move hp (i, k')
  have hpi := (h.placed p i).mpr ⟨k, hp⟩
  refine ⟨ls', ⟨fun q j hq => (h.slab q j hq).relinked hrel, h.free, h.owner, h.nodup, hlisted, fun q j => ?_⟩, ?_, ?_⟩
  · rcases eq_or_ne q p with rfl | hq
    · constructor
      · intro hj
        obtain rfl := h.cache_eq hpi hj
        exact ⟨k', (hmem _ _).mpr (by rw [if_pos rfl])⟩
      · rintro ⟨m, hm⟩
        rw [hmem, if_pos rfl] at hm
        obtain rfl : j = i := congrArg Prod.fst hm
        exact hpi
    · rw [h.placed]
      refine exists_congr fun m => ?_
      rw [hmem, if_neg hq]
  · intro j m q hq hqp
    rw [hmem, if_neg hqp] at hq
    exact hother j m q hq hqp
  · exact (hmem _ _).mpr (by rw [if_pos rfl])

lemma Listed.ranked_of_other (h : Listed s ls) (hp : p ∈ ls (i, k)) (hother : ∀ j m, ∀ q ∈ ls (j, m), q ≠ p →
    RankedBut B j (fl q) m) (hrank : RankedBut B i (fl p) k) : AllRankedBut B ls fl := by
  intro j m q hq
  rcases eq_or_ne q p with rfl | hqp
  · obtain ⟨rfl, rfl⟩ := Prod.mk.inj (h.lists.apart _ _ q hp hq)
    exact hrank
  · exact hother j m q hq hqp

variable {frame : Word}

lemma CachesRep.grow (h : CachesRep s pages live ls fl) (hranked : AllRankedBut B ls fl) (hp : IsPage (physToVirt frame))
    (hnew : ∀ j, (physToVirt frame, j) ∉ pages) : ∃ ls' fl', CachesRep (slabGrow s i frame) ((physToVirt frame, i) :: pages)
    live ls' fl' ∧ AllRankedBut B ls' fl' ∧ ∀ j ≠ i, ∀ k, ls' (j, k) = ls (j, k) := by
  generalize hpage : physToVirt frame = p at *
  obtain ⟨hslab, hwithin⟩ := carve_spec hp
  have hout : ∀ m, p ∉ ls m := by
    rintro ⟨j, k⟩ hin
    exact hnew j ((h.placed p j).mpr ⟨k, hin⟩)
  obtain ⟨hlisted, hrel⟩ := (h.listed.within hwithin).push hp hout (i, .emptySlabs)
  have hne : ∀ q j, (q, j) ∈ pages → q ≠ p := by
    rintro q j hq rfl
    exact hnew j hq
  rw [slabGrow, hpage]
  refine ⟨_, update fl p (objectsAt i p), ⟨fun q j hq => ?_, fun q j hq o ho => ?_, fun o j ho => ?_, h.nodup, hlisted,
    fun q j => ?_⟩, fun j k q hq => ?_, fun j hj k => update_of_ne (fun heq => hj (congrArg Prod.fst heq)) _ _⟩
  · rcases mem_cons.mp hq with heq | hq
    · obtain ⟨rfl, rfl⟩ := Prod.mk.inj heq
      rw [update_self]
      exact hslab.relinked hrel
    · rw [update_of_ne (hne q j hq)]
      exact ((h.slab q j hq).within hwithin (hne q j hq)).relinked hrel
  · rcases mem_cons.mp hq with heq | hq
    · obtain ⟨rfl, rfl⟩ := Prod.mk.inj heq
      rw [update_self]
      refine iff_of_true ho fun hlive => ?_
      obtain ⟨q', hq', ho'⟩ := h.owner o j hlive
      have hsame := (slabOf_eq hp ho).symm.trans (slabOf_eq (h.slab q' j hq').page ho')
      exact hne q' j hq' hsame.symm
    · rw [update_of_ne (hne q j hq)]
      exact h.free q j hq o ho
  · obtain ⟨q, hq, hoq⟩ := h.owner o j ho
    exact ⟨q, mem_cons_of_mem _ hq, hoq⟩
  · rw [mem_cons, h.placed]
    rcases eq_or_ne j i with rfl | hj
    · constructor
      · rintro (heq | ⟨k, hk⟩)
        · exact ⟨.emptySlabs, by rw [update_self, (Prod.mk.inj heq).1]; exact mem_cons_self⟩
        · refine ⟨k, ?_⟩
          by_cases hkey : (j, k) = (j, SlabList.emptySlabs)
          · rw [hkey, update_self]
            exact mem_cons_of_mem p (hkey ▸ hk)
          · rwa [update_of_ne hkey]
      · rintro ⟨k, hk⟩
        by_cases hkey : (j, k) = (j, SlabList.emptySlabs)
        · rw [hkey, update_self] at hk
          rcases mem_cons.mp hk with rfl | hk
          · exact .inl rfl
          · exact .inr ⟨_, hk⟩
        · rw [update_of_ne hkey] at hk
          exact .inr ⟨k, hk⟩
    · have hkey : ∀ k, (j, k) ≠ (i, SlabList.emptySlabs) := fun k heq => hj (congrArg Prod.fst heq)
      simp only [update_of_ne (hkey _)]
      exact or_iff_right fun heq => hj (congrArg Prod.snd heq)
  · by_cases hkey : (j, k) = (i, SlabList.emptySlabs)
    · obtain ⟨rfl, rfl⟩ := Prod.mk.inj hkey
      rw [update_self] at hq
      rcases mem_cons.mp hq with rfl | hq
      · rw [update_self]
        exact objectsAt_length
      · rw [update_of_ne fun heq => hout _ (heq ▸ hq)]
        exact hranked _ _ q hq
    · rw [update_of_ne hkey] at hq
      rw [update_of_ne fun heq => hout _ (heq ▸ hq)]
      exact hranked j k q hq

lemma CachesRep.take (h : CachesRep s pages live ls fl) (hp : (p, i) ∈ pages) (hfl : fl p = o :: l) :
    CachesRep ((s.set p .freeList (s.getObj o)).set p .freeCount (s.get p .freeCount - 1)) pages ((o, i) :: live) ls
      (update fl p l) := by
  have hslab := h.slab p i hp
  rw [hfl] at hslab
  have hobj := hslab.objects o mem_cons_self
  obtain ⟨hout, -⟩ := nodup_cons.mp hslab.nodup
  have hwithin : Within p s ((s.set p .freeList (s.getObj o)).set p .freeCount (s.get p .freeCount - 1)) :=
    (Within.set hslab.page (by decide) _).trans (.set hslab.page (by decide) _)
  have hnew := (h.free p i hp o hobj).mp (hfl ▸ mem_cons_self)
  refine ⟨fun q j hq => ?_, fun q j hq o' ho' => ?_, fun o' j ho' => ?_, nodup_cons.mpr ⟨hnew, h.nodup⟩,
    h.listed.within hwithin, h.placed⟩
  · rcases eq_or_ne q p with rfl | hqp
    · obtain rfl := h.cache_eq hp hq
      rw [update_self]
      exact hslab.take.2
    · rw [update_of_ne hqp]
      exact (h.slab q j hq).within hwithin hqp
  · have hfree := h.free q j hq o' ho'
    rw [mem_cons, not_or]
    rcases eq_or_ne q p with rfl | hqp
    · obtain rfl := h.cache_eq hp hq
      rw [hfl, mem_cons] at hfree
      rw [update_self, ← hfree, Prod.mk.injEq, and_iff_left rfl]
      constructor
      · intro hin
        exact ⟨fun heq => hout (heq ▸ hin), .inr hin⟩
      · rintro ⟨hne, hin⟩
        exact hin.resolve_left hne
    · rw [update_of_ne hqp, hfree]
      refine (and_iff_right fun heq => hqp ?_).symm
      obtain ⟨rfl, rfl⟩ := Prod.mk.inj heq
      exact (slabOf_eq (h.slab q j hq).page ho').symm.trans (slabOf_eq hslab.page hobj)
  · rcases mem_cons.mp ho' with heq | ho'
    · obtain ⟨rfl, rfl⟩ := Prod.mk.inj heq
      exact ⟨p, hp, hobj⟩
    · exact h.owner o' j ho'

lemma CachesRep.put (h : CachesRep s pages live ls fl) (hp : (p, i) ∈ pages) (hobj : o ∈ objectsAt i p)
    (hlive : (o, i) ∈ live) :
    CachesRep (((s.setObj o (s.get p .freeList)).set p .freeList o).set p .freeCount (s.get p .freeCount + 1)) pages
      (live.filter (·.1 ≠ o)) ls (update fl p (o :: fl p)) := by
  have hslab := h.slab p i hp
  have hout : o ∉ fl p := fun hin => (h.free p i hp o hobj).mp hin hlive
  have hwithin : Within p s (((s.setObj o (s.get p .freeList)).set p .freeList o).set p .freeCount (s.get p .freeCount + 1)) :=
    ((Within.setObj (isObj_of_mem hslab.page hobj) (slabOf_eq hslab.page hobj) _).trans
      (.set hslab.page (by decide) _)).trans (.set hslab.page (by decide) _)
  have hmem : ∀ o' j, (o', j) ∈ live.filter (·.1 ≠ o) ↔ (o', j) ∈ live ∧ o' ≠ o := by
    intro o' j
    rw [mem_filter, decide_eq_true_eq]
  refine ⟨fun q j hq => ?_, fun q j hq o' ho' => ?_, fun o' j ho' => h.owner o' j ((hmem o' j).mp ho').1,
    h.nodup.filter _, h.listed.within hwithin, h.placed⟩
  · rcases eq_or_ne q p with rfl | hqp
    · obtain rfl := h.cache_eq hp hq
      rw [update_self]
      exact hslab.put hobj hout
    · rw [update_of_ne hqp]
      exact (h.slab q j hq).within hwithin hqp
  · have hfree := h.free q j hq o' ho'
    rw [hmem]
    rcases eq_or_ne q p with rfl | hqp
    · rw [update_self, mem_cons, hfree]
      tauto
    · rw [update_of_ne hqp, hfree]
      refine not_congr (and_iff_left ?_).symm
      rintro rfl
      exact hqp ((slabOf_eq (h.slab q j hq).page ho').symm.trans (slabOf_eq hslab.page hobj))

lemma AllRankedBut.update_free (h : AllRankedBut B ls fl) (p : Word) (l : List Word) :
    ∀ j m, ∀ q ∈ ls (j, m), q ≠ p → RankedBut B j (update fl p l q) m := by
  intro j m q hq hne
  rw [update_of_ne hne]
  exact h j m q hq

lemma takeObject_spec (h : CachesRep s pages live ls fl) (hother : ∀ j m, ∀ q ∈ ls (j, m), q ≠ p → RankedBut B j (fl q) m)
    (hp : p ∈ ls (i, .partialSlabs)) (hne : fl p ≠ []) :
    ∃ ls' fl', CachesRep (takeObject s i p).2 pages (((takeObject s i p).1, i) :: live) ls' fl' ∧ AllRankedBut B ls' fl' := by
  have hpi := (h.placed p i).mpr ⟨_, hp⟩
  have hslab := h.slab p i hpi
  obtain ⟨o, l, hfl⟩ := exists_cons_of_ne_nil hne
  have htaken := h.take hpi hfl
  have hlength := hslab.length_le
  rw [hfl] at hslab hlength
  obtain ⟨hfirst, hrest⟩ := hslab.take
  have hother' : ∀ j m, ∀ q ∈ ls (j, m), q ≠ p → RankedBut B j (update fl p l q) m := by
    intro j m q hq hqp
    rw [update_of_ne hqp]
    exact hother j m q hq hqp
  have hcount : (s.set p .freeList (s.getObj o)).get p .freeCount = s.get p .freeCount :=
    get_set_other hslab.page hslab.page (.inr (by decide))
  rw [takeObject]
  simp only [hfirst, hcount]
  have hzero : ((s.set p .freeList (s.getObj o)).set p .freeCount (s.get p .freeCount - 1)).get p .freeCount = 0 ↔ l = [] :=
    (hrest.count_eq_iff (by decide)).trans length_eq_zero_iff
  by_cases hl : l = []
  · rw [if_pos (hzero.mpr hl)]
    obtain ⟨ls', hrep, hother'', hmem⟩ := htaken.move hp .fullSlabs hother'
    refine ⟨ls', _, hrep, hrep.listed.ranked_of_other hmem hother'' ?_⟩
    rwa [update_self]
  · rw [if_neg (mt hzero.mp hl)]
    refine ⟨ls, _, htaken, h.listed.ranked_of_other hp hother' ?_⟩
    rw [update_self]
    exact ⟨hl, .inl (Nat.lt_of_succ_le hlength)⟩

lemma off_header (hp : IsPage p) (hq : IsPage q) (hobj : o ∈ objectsAt i p) :
    o.toNat + objSize i ≤ q.toNat ∨ q.toNat + slabSize.toNat ≤ o.toNat := by
  obtain ⟨-, _, _⟩ := inside hp hobj
  obtain ⟨_, -⟩ := hp
  obtain ⟨_, -⟩ := hq
  have hsize : slabSize.toNat = 56 := rfl
  omega

lemma CachesRep.apart {o' : Word} (h : CachesRep s pages live ls fl) (hp : (p, i) ∈ pages) (hq : (q, j) ∈ pages)
    (hobj : o ∈ objectsAt i p) (hobj' : o' ∈ objectsAt j q) (hne : (o, i) ≠ (o', j)) :
    o.toNat + objSize i ≤ o'.toNat ∨ o'.toNat + objSize j ≤ o.toNat := by
  have hpage := (h.slab p i hp).page
  have hpage' := (h.slab q j hq).page
  rcases eq_or_ne p q with rfl | hpq
  · obtain rfl := h.cache_eq hp hq
    exact apart_of_ne hpage hobj hobj' fun heq => hne (by rw [heq])
  · have hdiff : p.toNat ≠ q.toNat := fun heq => hpq (BitVec.eq_of_toNat_eq heq)
    obtain ⟨-, _, _⟩ := inside hpage hobj
    obtain ⟨-, _, _⟩ := inside hpage' hobj'
    obtain ⟨_, -⟩ := hpage
    obtain ⟨_, -⟩ := hpage'
    omega

def Grows (s : Slabs) (i : Fin 8) : Prop := s.lists (i, .partialSlabs) = 0 ∧ s.lists (i, .emptySlabs) = 0

instance : Decidable (Grows s i) := inferInstanceAs (Decidable (_ ∧ _))

lemma slabGrow_head : (slabGrow s i frame).lists (i, .emptySlabs) = physToVirt frame := update_self ..

lemma Listed.nil_of_zero {k : Fin 8 × SlabList} (h : Listed s ls) (hk : s.lists k = 0) : ls k = [] := by
  have hlist := h.lists.dlist k
  rw [listHead, hk, pointer_zero] at hlist
  cases hl : ls k with
  | nil => rfl
  | cons =>
    rw [hl] at hlist
    cases hlist.1

lemma Listed.mem_of_ne_zero {k : Fin 8 × SlabList} (h : Listed s ls) (hk : s.lists k ≠ 0) : s.lists k ∈ ls k :=
  h.head_mem (pointer_of_ne hk)

lemma slabForAlloc_spec (h : CachesRep s pages live ls fl) (hranked : AllRankedBut B ls fl)
    (hframe : Grows s i → IsPage (physToVirt frame) ∧ ∀ j, (physToVirt frame, j) ∉ pages) :
    ∃ ls' fl', CachesRep (slabForAlloc s i frame).2 (if Grows s i then (physToVirt frame, i) :: pages else pages) live ls' fl' ∧
      (∀ j m, ∀ q ∈ ls' (j, m), q ≠ (slabForAlloc s i frame).1 → RankedBut B j (fl' q) m) ∧
      (slabForAlloc s i frame).1 ∈ ls' (i, .partialSlabs) ∧ fl' (slabForAlloc s i frame).1 ≠ [] := by
  have hmove : ∀ {s pages ls fl}, CachesRep s pages live ls fl → AllRankedBut B ls fl → s.lists (i, .emptySlabs) ≠ 0 →
      ∃ ls', CachesRep (slabListPush (slabListRemove s (i, .emptySlabs) (s.lists (i, .emptySlabs))) (i, .partialSlabs)
        (s.lists (i, .emptySlabs))) pages live ls' fl ∧
        (∀ j m, ∀ q ∈ ls' (j, m), q ≠ s.lists (i, .emptySlabs) → RankedBut B j (fl q) m) ∧
        s.lists (i, .emptySlabs) ∈ ls' (i, .partialSlabs) ∧ fl (s.lists (i, .emptySlabs)) ≠ [] := by
    intro s pages ls fl h hranked hne
    have hmem := h.listed.mem_of_ne_zero hne
    obtain ⟨ls', hrep, hother, hmem'⟩ := h.move hmem .partialSlabs fun j m q hq _ => hranked j m q hq
    have hlength := hranked i .emptySlabs _ hmem
    exact ⟨ls', hrep, hother, hmem', ne_nil_of_length_pos (hlength ▸ (objSize_spec i).2.2.1)⟩
  rw [slabForAlloc]
  by_cases hnoPartial : s.lists (i, .partialSlabs) = 0
  · rw [if_neg (not_not.mpr hnoPartial)]
    by_cases hempty : s.lists (i, .emptySlabs) = 0
    · have hgrows : Grows s i := ⟨hnoPartial, hempty⟩
      obtain ⟨hpage, hnew⟩ := hframe hgrows
      obtain ⟨ls', fl', hrep, hranked', -⟩ := h.grow hranked hpage hnew
      obtain ⟨ls'', hmoved⟩ := hmove hrep hranked' (slabGrow_head ▸ hpage.2)
      rw [if_pos hgrows, if_pos hempty]
      exact ⟨ls'', fl', hmoved⟩
    · obtain ⟨ls', hmoved⟩ := hmove h hranked hempty
      rw [if_neg hempty, if_neg (fun hgrows => hempty hgrows.2)]
      exact ⟨ls', fl, hmoved⟩
  · rw [if_pos hnoPartial, if_neg (fun hgrows => hnoPartial hgrows.1)]
    have hmem := h.listed.mem_of_ne_zero hnoPartial
    exact ⟨ls, fl, h, fun j m q hq _ => hranked j m q hq, hmem, (hranked i .partialSlabs _ hmem).1⟩

lemma slabCacheAlloc_spec (h : CachesRep s pages live ls fl) (hranked : AllRankedBut B ls fl)
    (hframe : Grows s i → IsPage (physToVirt frame) ∧ ∀ j, (physToVirt frame, j) ∉ pages) :
    ∃ ls' fl', CachesRep (slabCacheAlloc s i frame).2 (if Grows s i then (physToVirt frame, i) :: pages else pages)
      (((slabCacheAlloc s i frame).1, i) :: live) ls' fl' ∧ AllRankedBut B ls' fl' := by
  obtain ⟨_, _, hrep, hother, hmem, hne⟩ := slabForAlloc_spec h hranked hframe
  exact takeObject_spec hrep hother hmem hne

lemma freeMax_eq : (4096 - slabSize) / cacheSizes i = BitVec.ofNat 64 (capacity i) := by
  revert i
  decide

lemma slabCacheFree_cases (h : CachesRep s pages live ls fl) (hranked : AllRankedBut B ls fl) (hpi : (p, i) ∈ pages)
    (hobj : o ∈ objectsAt i p) (hlive : (o, i) ∈ live) (hlone : capacity i = 1 → B i)
    (hs' : s' = ((s.setObj o (s.get p .freeList)).set p .freeList o).set p .freeCount (s.get p .freeCount + 1)) :
    ∃ k, p ∈ ls (i, k) ∧
      (slabCacheFree s i o = s' ∧ RankedBut B i (o :: fl p) k ∨
        ∃ k', slabCacheFree s i o = slabListPush (slabListRemove s' (i, k) p) (i, k') p ∧ RankedBut B i (o :: fl p) k') := by
  have hslab := h.slab p i hpi
  have hout : o ∉ fl p := fun hin => (h.free p i hpi o hobj).mp hin hlive
  have hslab' := hslab.put hobj hout
  have hlt := hslab.length_lt hobj hout
  have hcount : ((s.setObj o (s.get p .freeList)).set p .freeList o).get p .freeCount = s.get p .freeCount := by
    rw [get_set_other hslab.page hslab.page (.inr (by decide)), get_setObj hslab.page (isObj_of_mem hslab.page hobj)]
  obtain ⟨k, hk⟩ := (h.placed p i).mp hpi
  have hrank := hranked i k p hk
  rw [slabCacheFree]
  simp only [slabOf_eq hslab.page hobj, hcount, freeMax_eq]
  rw [← hs'] at hslab' ⊢
  have hone : s'.get p .freeCount = 1 ↔ (o :: fl p).length = 1 := hslab'.count_eq_iff (by decide)
  have hfull := hslab'.count_eq_iff (objSize_spec i).2.2.2
  rw [length_cons] at hone hfull
  refine ⟨k, hk, ?_⟩
  by_cases hcount₁ : s'.get p .freeCount = 1
  · rw [if_pos hcount₁]
    have hnil : (fl p).length = 0 := by
      have hlength := hone.mp hcount₁
      omega
    obtain rfl : k = .fullSlabs := by
      cases k with
      | partialSlabs => exact absurd (eq_nil_of_length_eq_zero hnil) hrank.1
      | fullSlabs => rfl
      | emptySlabs =>
        have hlength : (fl p).length = capacity i := hrank
        omega
    refine .inr ⟨.partialSlabs, rfl, cons_ne_nil _ _, ?_⟩
    rw [length_cons, hnil]
    by_cases hcap : capacity i = 1
    · exact .inr (hlone hcap)
    · exact .inl (by omega)
  · rw [if_neg hcount₁]
    have hlength := mt hone.mpr hcount₁
    obtain rfl : k = .partialSlabs := by
      cases k with
      | partialSlabs => rfl
      | fullSlabs =>
        rw [show fl p = [] from hrank] at hlength
        exact absurd rfl hlength
      | emptySlabs =>
        have hlength : (fl p).length = capacity i := hrank
        omega
    by_cases hcountMax : s'.get p .freeCount = BitVec.ofNat 64 (capacity i)
    · rw [if_pos hcountMax]
      exact .inr ⟨.emptySlabs, rfl, hfull.mp hcountMax⟩
    · rw [if_neg hcountMax]
      have hless := mt hfull.mpr hcountMax
      refine .inl ⟨rfl, cons_ne_nil _ _, .inl ?_⟩
      rw [length_cons]
      omega

lemma slabCacheFree_spec (h : CachesRep s pages live ls fl) (hranked : AllRankedBut B ls fl) (hlive : (o, i) ∈ live)
    (hlone : capacity i = 1 → B i) :
    ∃ ls' fl', CachesRep (slabCacheFree s i o) pages (live.filter (·.1 ≠ o)) ls' fl' ∧ AllRankedBut B ls' fl' := by
  obtain ⟨p, hpi, hobj⟩ := h.owner o i hlive
  have hput := h.put hpi hobj hlive
  obtain ⟨_, hk, ⟨heq, hrank⟩ | ⟨k', heq, hrank⟩⟩ := slabCacheFree_cases h hranked hpi hobj hlive hlone rfl
  · rw [heq]
    refine ⟨ls, _, hput, hput.listed.ranked_of_other hk (hranked.update_free p _) ?_⟩
    rwa [update_self]
  · obtain ⟨ls', hrep, hother, hmem⟩ := hput.move hk k' (hranked.update_free p _)
    rw [heq]
    refine ⟨ls', _, hrep, hrep.listed.ranked_of_other hmem hother ?_⟩
    rwa [update_self]

lemma cacheAddr_inj (h : s.cacheAddr i = s.cacheAddr j) : i = j := by
  have hmul : (128 : Word) * BitVec.ofNat 64 i = 128 * BitVec.ofNat 64 j := by
    rw [Slabs.cacheAddr, Slabs.cacheAddr] at h
    bv_omega
  clear h
  revert i j
  decide

lemma slabFree_eq (h : CachesRep s pages live ls fl) (hlive : (o, i) ∈ live) : slabFree s o = some (slabCacheFree s i o) := by
  obtain ⟨p, hpi, hobj⟩ := h.owner o i hlive
  have hslab := h.slab p i hpi
  rw [slabFree, if_neg (isObj_of_mem hslab.page hobj).ne_zero, slabOf_eq hslab.page hobj, if_neg (not_not.mpr hslab.magic),
    hslab.parent]
  cases hfind : (List.finRange 8).find? fun j => decide (s.cacheAddr j = s.cacheAddr i) with
  | none =>
    have hnone := List.find?_eq_none.mp hfind i (mem_finRange i)
    exact absurd (decide_eq_true rfl) hnone
  | some j =>
    have haddr : s.cacheAddr j = s.cacheAddr i := by simpa using List.find?_some hfind
    rw [cacheAddr_inj haddr]
    rfl

structure Heap where
  slabs : Slabs
  pages : List (Word × Fin 8)
  live : List (Word × Fin 8)

inductive Call
  | alloc (i : Fin 8) (frame : Word)
  | free (ptr : Word)
  | write (mem : Mem)

def step (h : Heap) : Call → Option Heap
  | .alloc i frame =>
    let r := slabCacheAlloc h.slabs i frame
    some ⟨r.2, if Grows h.slabs i then (physToVirt frame, i) :: h.pages else h.pages, (r.1, i) :: h.live⟩
  | .free ptr => (slabFree h.slabs ptr).map fun s => ⟨s, h.pages, h.live.filter (·.1 ≠ ptr)⟩
  | .write mem => some { h with slabs := { h.slabs with mem := mem } }

def Fresh (h : Heap) (frame : Word) : Prop := IsPage (physToVirt frame) ∧ ∀ p ∈ h.pages, p.1 ≠ physToVirt frame

instance (h : Heap) (frame : Word) : Decidable (Fresh h frame) :=
  @instDecidableAnd _ _ inferInstance (List.decidableBAll _ h.pages)

def Call.Allowed (h : Heap) : Call → Prop
  | .alloc i frame => Grows h.slabs i → Fresh h frame
  | .free ptr => ptr = 0 ∨ ∃ o ∈ h.live, o.1 = ptr
  | .write mem => ∀ p ∈ h.pages, ∀ a, p.1.toNat ≤ a → a < p.1.toNat + 4096 →
      (∀ o ∈ h.live, a < o.1.toNat ∨ o.1.toNat + objSize o.2 ≤ a) → mem a = h.slabs.mem a

def initCache (h : Heap) (i : Fin 8) (frame : Word) : Heap :=
  let s := ((h.slabs.setList (i, .partialSlabs) 0).setList (i, .fullSlabs) 0).setList (i, .emptySlabs) 0
  ⟨slabGrow s i frame, (physToVirt frame, i) :: h.pages, h.live⟩

def slabInit (mem : Mem) (kmallocCaches : Word) (frames : Fin 8 → Word) : Heap :=
  (List.finRange 8).foldl (fun h i => initCache h i (frames i)) ⟨⟨mem, kmallocCaches, fun _ => 0⟩, [], []⟩

def freeObjects (s : Slabs) (p : Word) : List Word := follow (objNext s) (2 ^ 64) (pointer (s.get p .freeList))
def slabsOn (s : Slabs) (k : Fin 8 × SlabList) : List Word := follow (slabNext s) (2 ^ 64) (listHead s k)

structure Sound (h : Heap) : Prop where
  inSlab : ∀ o i, (o, i) ∈ h.live → o.toNat % 16 = 0 ∧
    ∃ p, (p, i) ∈ h.pages ∧ slabOf o = p ∧ p.toNat + 64 ≤ o.toNat ∧ o.toNat + objSize i ≤ p.toNat + 4096
  apart : h.live.Pairwise fun x y => x.1.toNat + objSize x.2 ≤ y.1.toNat ∨ y.1.toNat + objSize y.2 ≤ x.1.toNat
  headers : ∀ o i, (o, i) ∈ h.live → ∀ p j, (p, j) ∈ h.pages →
    o.toNat + objSize i ≤ p.toNat ∨ p.toNat + slabSize.toNat ≤ o.toNat
  freeChain : ∀ p i, (p, i) ∈ h.pages →
    Chain (objNext h.slabs) (pointer (h.slabs.get p .freeList)) (freeObjects h.slabs p) none
  freeCount : ∀ p i, (p, i) ∈ h.pages → (h.slabs.get p .freeCount).toNat = (freeObjects h.slabs p).length
  freeNodup : ∀ p i, (p, i) ∈ h.pages → (freeObjects h.slabs p).Nodup
  free : ∀ p i, (p, i) ∈ h.pages → ∀ o, (o ∈ freeObjects h.slabs p ↔ o ∈ objectsAt i p ∧ (o, i) ∉ h.live)
  lists : DLists (slabNext h.slabs) (slabPrev h.slabs) (listHead h.slabs) (slabsOn h.slabs)
  onOneList : ∀ p i, (p, i) ∈ h.pages ↔ ∃! k, p ∈ slabsOn h.slabs (i, k)

def Inv (h : Heap) : Prop := ∃ ls fl, CachesRep h.slabs h.pages h.live ls fl ∧ AllRanked ls fl

def InvBut (B : Fin 8 → Prop) (h : Heap) : Prop := ∃ ls fl, CachesRep h.slabs h.pages h.live ls fl ∧ AllRankedBut B ls fl

def Call.FreesLone (h : Heap) : Call → Prop
  | .free ptr => ∃ o ∈ h.live, o.1 = ptr ∧ capacity o.2 = 1
  | _ => False

variable {h h' : Heap} {c : Call}

lemma InvBut.inv (hinv : InvBut B h) : Inv h := by
  obtain ⟨ls, fl, hrep, hranked⟩ := hinv
  exact ⟨ls, fl, hrep, hranked.ranked⟩

lemma Inv.but (hinv : Inv h) : InvBut (fun _ => True) h := by
  obtain ⟨ls, fl, hrep, hranked⟩ := hinv
  exact ⟨ls, fl, hrep, hranked.but⟩

lemma CachesRep.inv (hrep : CachesRep s pages live ls fl) (hranked : AllRanked ls fl) : Inv ⟨s, pages, live⟩ :=
  ⟨ls, fl, hrep, hranked⟩

lemma CachesRep.invBut (hrep : CachesRep s pages live ls fl) (hranked : AllRankedBut B ls fl) : InvBut B ⟨s, pages, live⟩ :=
  ⟨ls, fl, hrep, hranked⟩

lemma seg_chain {next prev : Word → Option Word} {before link after : Option Word}
    (hseg : Seg next prev before link l after) : Chain next link l after := by
  induction l generalizing before link with
  | nil => exact hseg
  | cons a l ih => exact ⟨hseg.1, ih hseg.2.2⟩

lemma SlabRep.freeObjects_eq (hslab : SlabRep s p i l) : freeObjects s p = l :=
  hslab.chain.follow_eq (Word.length_le_of_nodup hslab.nodup)

lemma Inv.sound (hinv : Inv h) : Sound h := by
  obtain ⟨ls, fl, hrep, -⟩ := hinv
  have hfree : ∀ p i, (p, i) ∈ h.pages → freeObjects h.slabs p = fl p := fun p i hp => (hrep.slab p i hp).freeObjects_eq
  have hlists : slabsOn h.slabs = ls := by
    funext k
    exact (seg_chain (hrep.listed.lists.dlist k)).follow_eq (Word.length_le_of_nodup (hrep.listed.lists.nodup k))
  constructor
  case inSlab =>
    intro o i ho
    obtain ⟨p, hp, hobj⟩ := hrep.owner o i ho
    have hpage := (hrep.slab p i hp).page
    obtain ⟨hmod, hin⟩ := inside hpage hobj
    exact ⟨hmod, p, hp, slabOf_eq hpage hobj, hin⟩
  case apart =>
    refine hrep.nodup.pairwise_of_forall_ne fun x hx y hy hne => ?_
    obtain ⟨p, hp, hobj⟩ := hrep.owner x.1 x.2 hx
    obtain ⟨q, hq, hobj'⟩ := hrep.owner y.1 y.2 hy
    exact hrep.apart hp hq hobj hobj' hne
  case headers =>
    intro o i ho q j hq
    obtain ⟨p, hp, hobj⟩ := hrep.owner o i ho
    exact off_header (hrep.slab p i hp).page (hrep.slab q j hq).page hobj
  case freeChain =>
    intro p i hp
    rw [hfree p i hp]
    exact (hrep.slab p i hp).chain
  case freeCount =>
    intro p i hp
    have hslab := hrep.slab p i hp
    have hle := hslab.length_le
    have hcap := (objSize_spec i).2.2.2
    rw [hfree p i hp, hslab.count, BitVec.toNat_ofNat, Nat.mod_eq_of_lt (by omega)]
  case freeNodup =>
    intro p i hp
    rw [hfree p i hp]
    exact (hrep.slab p i hp).nodup
  case free =>
    intro p i hp o
    rw [hfree p i hp]
    constructor
    · intro ho
      have hobj := (hrep.slab p i hp).objects o ho
      exact ⟨hobj, (hrep.free p i hp o hobj).mp ho⟩
    · rintro ⟨hobj, hlive⟩
      exact (hrep.free p i hp o hobj).mpr hlive
  case lists =>
    rw [hlists]
    exact hrep.listed.lists
  case onOneList =>
    intro p i
    rw [hlists, hrep.placed]
    constructor
    · rintro ⟨k, hk⟩
      exact ⟨k, hk, fun k' hk' => congrArg Prod.snd (hrep.listed.lists.apart _ _ p hk' hk)⟩
    · rintro ⟨k, hk, -⟩
      exact ⟨k, hk⟩

variable {mem : Mem}

lemma CachesRep.congr (hrep : CachesRep s pages live ls fl) (hheader : ∀ p i, (p, i) ∈ pages → ∀ a, p.toNat ≤ a →
    a < p.toNat + 56 → mem a = s.mem a) (hfree : ∀ p i, (p, i) ∈ pages → ∀ o ∈ fl p, ∀ a, o.toNat ≤ a → a < o.toNat + 8 →
    mem a = s.mem a) : CachesRep { s with mem := mem } pages live ls fl := by
  have hget : ∀ p i, (p, i) ∈ pages → ∀ f, slabT.get mem p f = s.get p f := fun p i hp f =>
    Layout.get_congr (hheader p i hp)
  have hobj : ∀ p i, (p, i) ∈ pages → ∀ o ∈ fl p, mem.load64 o.toNat = s.getObj o := by
    intro p i hp o ho
    rw [Mem.load64, Mem.readLE_congr (hfree p i hp o ho)]
    rfl
  refine ⟨fun p i hp => ?_, hrep.free, hrep.owner, hrep.nodup, ⟨?_, hrep.listed.pages⟩, hrep.placed⟩
  · exact (hrep.slab p i hp).congr (fun f _ _ => hget p i hp f) (fun o ho => hobj p i hp o ho) rfl
  · refine hrep.listed.lists.congr (fun k p hp => ?_) (fun k p hp => ?_) fun k => rfl
    · exact congrArg pointer (hget p k.1 ((hrep.placed p k.1).mpr ⟨k.2, hp⟩) .next)
    · exact congrArg pointer (hget p k.1 ((hrep.placed p k.1).mpr ⟨k.2, hp⟩) .prev)

lemma CachesRep.live_off_header (hrep : CachesRep s pages live ls fl) {o : Word × Fin 8} (ho : o ∈ live) (hp : (p, i) ∈ pages)
    : o.1.toNat + objSize o.2 ≤ p.toNat ∨ p.toNat + 56 ≤ o.1.toNat := by
  obtain ⟨q, hq, hobj⟩ := hrep.owner o.1 o.2 ho
  exact off_header (hrep.slab q o.2 hq).page (hrep.slab p i hp).page hobj

lemma CachesRep.live_off_free (hrep : CachesRep s pages live ls fl) {x : Word × Fin 8} (hx : x ∈ live) (hp : (p, i) ∈ pages)
    (ho : o ∈ fl p) : x.1.toNat + objSize x.2 ≤ o.toNat ∨ o.toNat + objSize i ≤ x.1.toNat := by
  have hmem := (hrep.slab p i hp).objects o ho
  obtain ⟨_, hq, hobj⟩ := hrep.owner x.1 x.2 hx
  exact hrep.apart hq hp hobj hmem fun heq => (hrep.free p i hp o hmem).mp ho (heq ▸ hx)

lemma InvBut.write (hinv : InvBut B h) (hc : Call.Allowed h (.write mem)) :
    InvBut B { h with slabs := { h.slabs with mem := mem } } := by
  obtain ⟨ls, fl, hrep, hranked⟩ := hinv
  refine ⟨ls, fl, hrep.congr (fun p i hp a hlow hhigh => ?_) (fun p i hp o ho a hlow hhigh => ?_), hranked⟩
  · refine hc (p, i) hp a hlow (by dsimp only; omega) fun x hx => ?_
    have hoff := hrep.live_off_header hx hp
    omega
  · obtain ⟨-, _⟩ := inside (hrep.slab p i hp).page ((hrep.slab p i hp).objects o ho)
    obtain ⟨_, _, -⟩ := objSize_spec i
    refine hc (p, i) hp a (by dsimp only; omega) (by dsimp only; omega) fun x hx => ?_
    have hoff := hrep.live_off_free hx hp ho
    omega

lemma Inv.write (hinv : Inv h) (hc : Call.Allowed h (.write mem)) : Inv { h with slabs := { h.slabs with mem := mem } } :=
  (hinv.but.write hc).inv

lemma InvBut.free (hinv : InvBut B h) {ptr : Word} (hc : Call.Allowed h (.free ptr)) (hlone : ∀ o ∈ h.live, o.1 = ptr →
    capacity o.2 = 1 → B o.2) : ∃ s, slabFree h.slabs ptr = some s ∧ InvBut B ⟨s, h.pages, h.live.filter (·.1 ≠ ptr)⟩ := by
  obtain ⟨ls, fl, hrep, hranked⟩ := hinv
  by_cases hlive : ∃ o ∈ h.live, o.1 = ptr
  · obtain ⟨⟨o, i⟩, ho, heq⟩ := hlive
    obtain rfl : o = ptr := heq
    obtain ⟨_, _, hrep', hranked'⟩ := slabCacheFree_spec hrep hranked ho (hlone (o, i) ho rfl)
    exact ⟨slabCacheFree h.slabs i o, slabFree_eq hrep ho, hrep'.invBut hranked'⟩
  · obtain rfl := hc.resolve_right hlive
    have hall : h.live.filter (fun x => decide (x.1 ≠ 0)) = h.live := by
      rw [filter_eq_self]
      intro o ho
      exact decide_eq_true fun hzero => hlive ⟨o, ho, hzero⟩
    refine ⟨h.slabs, if_pos rfl, ls, fl, ?_, hranked⟩
    rwa [hall]

lemma InvBut.step (hinv : InvBut B h) (hc : c.Allowed h) (hlone : c.FreesLone h → ∀ i, capacity i = 1 → B i) :
    ∃ h', step h c = some h' ∧ InvBut B h' := by
  cases c with
  | alloc i frame =>
    obtain ⟨_, _, hrep, hranked⟩ := hinv
    have hframe : Grows h.slabs i → IsPage (physToVirt frame) ∧ ∀ j, (physToVirt frame, j) ∉ h.pages := by
      intro hgrows
      obtain ⟨hpage, hnew⟩ := hc hgrows
      exact ⟨hpage, fun j hj => hnew _ hj rfl⟩
    obtain ⟨_, _, hrep', hranked'⟩ := slabCacheAlloc_spec hrep hranked hframe
    exact ⟨_, rfl, hrep'.invBut hranked'⟩
  | free =>
    obtain ⟨_, hs, hinv⟩ := hinv.free hc fun o ho heq hcap => hlone ⟨o, ho, heq, hcap⟩ o.2 hcap
    exact ⟨_, by rw [SlabCaches.step, hs, Option.map_some], hinv⟩
  | write => exact ⟨_, rfl, hinv.write hc⟩

lemma Inv.step (hinv : Inv h) (hc : c.Allowed h) : ∃ h', step h c = some h' ∧ Inv h' := by
  obtain ⟨h', hstep, hinv'⟩ := hinv.but.step hc fun _ _ _ => trivial
  exact ⟨h', hstep, hinv'.inv⟩

lemma setList_zero {k : Fin 8 × SlabList} (hk : s.lists k = 0) : s.setList k 0 = s := by
  rw [Slabs.setList, ← hk, update_eq_self]

lemma Listed.lists_zero {k : Fin 8 × SlabList} (hlisted : Listed s ls) (hk : ls k = []) : s.lists k = 0 := by
  have hlist := hlisted.lists.dlist k
  rw [hk] at hlist
  exact pointer_eq_none.mp hlist

lemma physToVirt_injective : Injective physToVirt := by
  intro a b heq
  exact (BitVec.add_left_inj hhdmOffset).mp heq

variable {frames : Fin 8 → Word}

lemma InvBut.init {P : Heap → Prop} (hpage : ∀ i, IsPage (physToVirt (frames i)))
    (hinj : Injective frames)
    (hround : ∀ (h : Heap) ls fl i, CachesRep h.slabs h.pages h.live ls fl → P h →
      P ⟨slabGrow h.slabs i (frames i), (physToVirt (frames i), i) :: h.pages, h.live⟩)
    {l : List (Fin 8)} (hl : l.Nodup) (ls : Fin 8 × SlabList → List Word) (fl : Word → List Word)
    (hrep : CachesRep h.slabs h.pages h.live ls fl) (hranked : AllRankedBut B ls fl) (hempty : ∀ i ∈ l, ∀ k, ls (i, k) = [])
    (hnew : ∀ i ∈ l, ∀ j, (physToVirt (frames i), j) ∉ h.pages) (hP : P h) :
    InvBut B (l.foldl (fun h i => initCache h i (frames i)) h) ∧ P (l.foldl (fun h i => initCache h i (frames i)) h) := by
  induction l generalizing h ls fl with
  | nil => exact ⟨⟨ls, fl, hrep, hranked⟩, hP⟩
  | cons i l ih =>
    obtain ⟨hi, hl⟩ := nodup_cons.mp hl
    have hzero : ∀ k, h.slabs.lists (i, k) = 0 := fun k => hrep.listed.lists_zero (hempty i mem_cons_self k)
    have hinit : initCache h i (frames i) = ⟨slabGrow h.slabs i (frames i), (physToVirt (frames i), i) :: h.pages, h.live⟩ := by
      rw [initCache, setList_zero (hzero .partialSlabs), setList_zero (hzero .fullSlabs), setList_zero (hzero .emptySlabs)]
    obtain ⟨ls', fl', hrep', hranked', hkept⟩ := hrep.grow hranked (hpage i) (hnew i mem_cons_self)
    have hne : ∀ j ∈ l, j ≠ i := by
      rintro j hj rfl
      exact hi hj
    rw [foldl_cons, hinit]
    refine ih hl ls' fl' hrep' hranked' (fun j hj k => ?_) (fun j hj j' hin => ?_) (hround h ls fl i hrep hP)
    · rw [hkept j (hne j hj)]
      exact hempty j (mem_cons_of_mem i hj) k
    · rcases mem_cons.mp hin with heq | hin
      · have hfirst := (Prod.mk.inj heq).1
        exact hne j hj (hinj (physToVirt_injective hfirst))
      · exact hnew j (mem_cons_of_mem i hj) j' hin

lemma slabInit_rule (B : Fin 8 → Prop) {kmallocCaches : Word} {P : Heap → Prop}
    (hpage : ∀ i, IsPage (physToVirt (frames i))) (hinj : Injective frames)
    (hround : ∀ (h : Heap) ls fl i, CachesRep h.slabs h.pages h.live ls fl → P h →
      P ⟨slabGrow h.slabs i (frames i), (physToVirt (frames i), i) :: h.pages, h.live⟩)
    (hP : P ⟨⟨mem, kmallocCaches, fun _ => 0⟩, [], []⟩) :
    InvBut B (slabInit mem kmallocCaches frames) ∧ P (slabInit mem kmallocCaches frames) := by
  have hlisted : Listed ⟨mem, kmallocCaches, fun _ => 0⟩ fun _ => [] :=
    ⟨⟨fun _ => pointer_zero, fun _ => nodup_nil, fun _ _ _ hin => absurd hin not_mem_nil⟩,
      fun _ _ hin => absurd hin not_mem_nil⟩
  refine InvBut.init hpage hinj hround (nodup_finRange 8) (fun _ => []) (fun _ => []) ?_ ?_ (fun _ _ _ => rfl)
    (fun _ _ _ => not_mem_nil) hP
  · refine ⟨?_, ?_, ?_, nodup_nil, hlisted, fun p i => ?_⟩
    · exact fun _ _ hin => absurd hin not_mem_nil
    · exact fun _ _ hin => absurd hin not_mem_nil
    · exact fun _ _ hin => absurd hin not_mem_nil
    · exact iff_of_false not_mem_nil fun ⟨_, hin⟩ => not_mem_nil hin
  · exact fun _ _ _ hin => absurd hin not_mem_nil

lemma slabInit_inv {kmallocCaches : Word} (hpage : ∀ i, IsPage (physToVirt (frames i)))
    (hinj : Injective frames) (B : Fin 8 → Prop) : InvBut B (slabInit mem kmallocCaches frames) :=
  (slabInit_rule B (P := fun _ => True) hpage hinj (fun _ _ _ _ _ _ => trivial) trivial).1

lemma takeAndFree_allowed (hfresh : Fresh h frame) :
    Runs.Guarded step (fun h c => c.Allowed h) h [.alloc i frame, .free (slabCacheAlloc h.slabs i frame).1] := by
  refine ⟨fun _ => hfresh, fun h' hstep => ⟨.inr ?_, fun _ _ => trivial⟩⟩
  rw [← Option.some.inj hstep]
  exact ⟨_, mem_cons_self, rfl⟩

theorem caches_sound (mem : Mem) (kmallocCaches : Word) (frames : Fin 8 → Word)
    (hpage : ∀ i, IsPage (physToVirt (frames i))) (hinj : Injective frames) (calls : List Call)
    (hcalls : Runs.Guarded step (fun h c => c.Allowed h) (slabInit mem kmallocCaches frames) calls) :
    (∃ h, Runs.run step (slabInit mem kmallocCaches frames) calls = some h) ∧
    Runs.Always step Sound (slabInit mem kmallocCaches frames) calls := by
  have hinit : Inv (slabInit mem kmallocCaches frames) := (slabInit_inv hpage hinj fun _ => True).inv
  refine ⟨Runs.progress (fun h c hinv hc => hinv.step hc) hinit hcalls, ?_⟩
  exact (Runs.progress_invariant (fun h c hinv hc => hinv.step hc) hinit hcalls).mono fun h hinv => hinv.sound

def bootFrames (i : Fin 8) : Word := BitVec.ofNat 64 (0x100000 + 0x1000 * i)

def booted : Heap := slabInit (fun _ => 0) 0xFFFFFFFF80000000 bootFrames

theorem caches_sound_takeAndFree :
    (∃ h, Runs.run step booted [.alloc 7 0x108000, .free (slabCacheAlloc booted.slabs 7 0x108000).1] = some h) ∧
    Runs.Always step Sound booted [.alloc 7 0x108000, .free (slabCacheAlloc booted.slabs 7 0x108000).1] := by
  refine caches_sound _ _ _ ?_ ?_ _ (takeAndFree_allowed ?_)
  · decide +kernel
  · decide
  · decide +kernel

end KernelSmp.Memory.SlabCaches
