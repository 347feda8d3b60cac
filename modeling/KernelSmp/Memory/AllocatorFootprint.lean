import KernelSmp.Base.Footprints
import KernelSmp.Memory.KmallocRuns
import KernelSmp.Memory.SlabRuns

/-! The bytes that the large-block heap and the slab caches write: those of their own frames. -/

namespace KernelSmp.Memory

open Base LinkedList Function List Option

variable {S : ℕ → Prop} {m : Mem} {start : Word} {l l₁ l₂ : List Block} {b : Block}

variable {block : Word}

lemma backLink_sameOff {next : Word} (hs : next = 0 ∨ Spans S next.toNat 40) : SameOff S m (backLink m next block) := by
  rw [backLink]
  split_ifs with hnext
  · exact .set (hs.resolve_left hnext)
  · exact .refl

def Headed (S : ℕ → Prop) (l : List Block) : Prop := ∀ a ∈ l.map Block.addr, Spans S a.toNat 40

lemma Headed.self (h : Headed S (l₁ ++ b :: l₂)) : Spans S b.addr.toNat 40 := h b.addr (by simp)

lemma Rep.next_spans (h : Rep ⟨m, start⟩ (l₁ ++ b :: l₂)) (hS : Headed S (l₁ ++ b :: l₂)) :
    mHeader.get m b.addr .next = 0 ∨ Spans S (mHeader.get m b.addr .next).toNat 40 := by
  rcases h.next_cases with ⟨hnext, -⟩ | ⟨d, l₃, rfl, hnext, -⟩
  · exact .inl hnext
  · rw [hnext]
    exact .inr (hS d.addr (by simp))

lemma absorb_sameOff {behind : Word} (hoff : mHeader.Off block behind) (hblock : Spans S block.toNat 40)
    (hnext : mHeader.get m behind .next = 0 ∨ Spans S (mHeader.get m behind .next).toNat 40) :
    SameOff S m (absorb m block behind) := by
  simp only [absorb, Layout.get_set_off hoff]
  exact ((SameOff.set hblock).trans (.set hblock)).trans (backLink_sameOff hnext)

lemma Rep.mergeNext_sameOff (h : Rep ⟨m, start⟩ (l₁ ++ b :: l₂)) (hS : Headed S (l₁ ++ b :: l₂)) :
    SameOff S m (Memory.mergeNext m b.addr) := by
  simp only [Memory.mergeNext]
  split_ifs with htouch
  · rcases h.next_cases with ⟨hnext, -⟩ | ⟨c, l₃, rfl, hnext, -⟩
    · simp [hnext, Memory.touches] at htouch
    · have hlist : l₁ ++ b :: c :: l₃ = (l₁ ++ [b]) ++ c :: l₃ := by simp
      have hoff := ((pairwise_apart_middle.mp h.apart).1 c (by simp)).off
      rw [hnext]
      have h' := hlist ▸ h
      exact absorb_sameOff hoff hS.self (h'.next_spans (hlist ▸ hS))
  · exact .refl

lemma Rep.mergePrev_sameOff (h : Rep ⟨m, start⟩ (l₁ ++ b :: l₂)) (hS : Headed S (l₁ ++ b :: l₂)) :
    SameOff S m (Memory.mergePrev m b.addr) := by
  have hprev := h.prev
  simp only [Memory.mergePrev]
  split_ifs with htouch
  · induction l₁ using List.reverseRecOn with
    | nil =>
      have hzero := pointer_eq_none.mp hprev
      simp [hzero, Memory.touches] at htouch
    | append_singleton l₁ p =>
      rw [map_append, map_singleton, lastOr_concat] at hprev
      have hoff := ((pairwise_apart_middle.mp h.apart).1 p (by simp)).off
      rw [(pointer_eq_some.mp hprev).1]
      exact absorb_sameOff hoff.symm (hS p.addr (by simp)) (h.next_spans hS)
  · exact .refl

lemma Rep.kfreeSection_sameOff (h : Rep ⟨m, start⟩ (l₁ ++ b :: l₂)) (hS : Headed S (l₁ ++ b :: l₂)) :
    SameOff S m (kfreeSection m b.addr) := by
  have hfree := h.set_isFree true rfl
  have hSfree : Headed S (l₁ ++ ⟨b.addr, b.size, true⟩ :: l₂) := by
    intro a ha
    apply hS a
    simpa using ha
  have hSnext : Headed S (l₁ ++ (mergeBehind ⟨b.addr, b.size, true⟩ l₂).1 :: (mergeBehind ⟨b.addr, b.size, true⟩ l₂).2) := by
    intro a ha
    apply hSfree a
    rw [map_append, mem_append] at ha ⊢
    exact ha.imp_right mergeBehind_mem
  have hprev := hfree.mergeNext.mergePrev_sameOff hSnext
  rw [mergeBehind_addr] at hprev
  exact ((SameOff.set hS.self).trans (hfree.mergeNext_sameOff hSfree)).trans hprev

variable {size : Word}

lemma Rep.takeBlock_sameOff (h : Rep ⟨m, start⟩ (l₁ ++ b :: l₂)) (hS : Headed S (l₁ ++ b :: l₂))
    (hb : Spans S b.addr.toNat (40 + b.size.toNat)) (hfit : size.toNat ≤ b.size.toNat) :
    SameOff S m (takeBlock m b.addr size) := by
  have hsane := h.sane b (by simp)
  rw [takeBlock]
  refine SameOff.trans ?_ (.set hS.self)
  split_ifs with hrest
  · rw [hasRest, (h.stored b (by simp)).size, decide_eq_true_eq] at hrest
    have hroom := hsane.room hfit hrest
    obtain ⟨_, -⟩ := hsane.rest hroom
    have hoff : mHeader.Off b.addr (b.addr + headerSize + size) := by
      left
      change b.addr.toNat + 40 ≤ _
      omega
    have hrestS : Spans S (b.addr + headerSize + size).toNat 40 := hb.sub (by omega) (by omega)
    simp only [splitBlock, Layout.get_set_off hoff.symm, Layout.get_set_field (show HeaderField.prev ≠ .next by decide),
      get_set_next]
    -- the header of the rest, then the link back to it, then the block itself
    refine SameOff.trans ?_ (.set hS.self)
    refine SameOff.trans ?_ (.set hS.self)
    refine SameOff.trans ?_ (backLink_sameOff (h.next_spans hS))
    exact ((((SameOff.set hrestS).trans (.set hrestS)).trans (.set hrestS)).trans (.set hrestS)).trans (.set hrestS)
  · exact .refl

lemma newRun_headers {last : Word} (hblock : Spans S block.toNat 40)
    (hrest : (numFrames size * 4096 - headerSize) ≥ size + headerSize + heapMinBlockSize →
      Spans S (block + headerSize + size).toNat 40) :
    SameOff S (m.fill block.toNat (numFrames size * 4096).toNat 0) (newRun m block size last) := by
  have hfirst : SameOff S (m.fill block.toNat (numFrames size * 4096).toNat 0)
      (newBlock (m.fill block.toNat (numFrames size * 4096).toNat 0) block size last) :=
    ((((SameOff.set hblock).trans (.set hblock)).trans (.set hblock)).trans (.set hblock)).trans (.set hblock)
  simp only [newRun]
  split_ifs with hroom
  · rw [hasRest, (newBlock_get _ block size last).2.1, decide_eq_true_eq] at hroom
    have hnew := hrest hroom
    exact (((((((hfirst.trans (.set hnew)).trans (.set hnew)).trans (.set hnew)).trans (.set hnew)).trans (.set hblock)).trans
      (.set hblock)).trans (.set hnew))
  · exact hfirst

lemma newRun_sameOff {last : Word} (hrun : Spans S block.toNat (numFrames size * 4096).toNat) (hblock : Spans S block.toNat 40)
    (hrest : (numFrames size * 4096 - headerSize) ≥ size + headerSize + heapMinBlockSize →
    Spans S (block + headerSize + size).toNat 40) : SameOff S m (newRun m block size last) :=
  (SameOff.fill hrun 0).trans (newRun_headers hblock hrest)

namespace Heap

def InRuns (runs : List (ℕ × ℕ)) (a : ℕ) : Prop := ∃ r ∈ runs, r.1 ≤ a ∧ a < r.2

variable {s : State} {l l₁ l₂ : List Block} {b : Block} {size newFrames last : Word}

lemma Inv.spans (h : Inv s l) (hb : b ∈ l) : Spans (InRuns s.runs) b.addr.toNat (40 + b.size.toNat) := by
  intro a hlow hhigh
  apply h.run_of_byte hb
  rw [mem_bytes, Block.stop]
  omega

lemma Inv.headed (h : Inv s l) : Headed (InRuns s.runs) l := by
  refine List.forall_mem_map.mpr fun b hb => ?_
  exact (h.spans hb).sub le_rfl (by omega)

lemma Inv.taken_sameOff (h : Inv s (l₁ ++ b :: l₂)) (hfit : size.toNat ≤ b.size.toNat) :
    SameOff (InRuns s.runs) s.heap.mem (takeBlock s.heap.mem b.addr size) :=
  h.rep.takeBlock_sameOff h.headed (h.spans (by simp)) hfit

lemma Inv.cleared_sameOff (h : Inv s l) (hb : b ∈ l) : SameOff (InRuns s.runs) s.heap.mem (kmallocClear s.heap b.addr).mem := by
  obtain ⟨hpayload, -⟩ := h.payload hb
  refine SameOff.fill ?_ 0
  rw [hpayload, (h.rep.stored b hb).size]
  exact (h.spans hb).sub (by omega) (by omega)

lemma Inv.freed_sameOff (h : Inv s (l₁ ++ b :: l₂)) : SameOff (InRuns s.runs) s.heap.mem (kfreeSection s.heap.mem b.addr) :=
  h.rep.kfreeSection_sameOff h.headed

lemma Inv.append_sameOff (h : Inv s l) (hlast : (l.map Block.addr).getLast? = some last) (hsize : size.toNat ≤ 2 ^ 47)
    (hfresh : Fresh s.runs newFrames (numFrames size)) : SameOff (InRuns (s.runs ++ [frameRun newFrames (numFrames size)]))
    s.heap.mem (kmallocAppend s.heap last size newFrames).mem := by
  obtain ⟨haligned, hhigh, -⟩ := hfresh
  obtain ⟨hsane, hfit, hstop⟩ := runBlock_sane hsize haligned hhigh
  have hrun : Spans (InRuns (s.runs ++ [frameRun newFrames (numFrames size)])) (physToVirt newFrames).toNat
      (numFrames size * 4096).toNat := by
    intro a hlow hhigh
    exact ⟨_, mem_append_right _ (mem_singleton_self _), hlow, hhigh⟩
  have hend : (runBlock newFrames size).stop = (physToVirt newFrames).toNat + 40 + (runBlock newFrames size).size.toNat := rfl
  have haddr : (runBlock newFrames size).addr = physToVirt newFrames := rfl
  rw [haddr] at hstop
  have hblock := hrun.sub (k := 40) le_rfl (by omega)
  have hnew : SameOff (InRuns (s.runs ++ [frameRun newFrames (numFrames size)])) s.heap.mem
      (newRun s.heap.mem (physToVirt newFrames) size last) := by
    refine newRun_sameOff hrun hblock fun hroom => ?_
    have hfits := hsane.room hfit hroom
    obtain ⟨hplace, -⟩ := hsane.rest hfits
    rw [haddr] at hplace
    exact hrun.sub (by omega) (by omega)
  have hmem := List.mem_of_getLast? hlast
  have hlastS : Spans (InRuns (s.runs ++ [frameRun newFrames (numFrames size)])) last.toNat 40 := by
    intro a hlow hhigh
    obtain ⟨r, hr, hin⟩ := h.headed last hmem a hlow hhigh
    exact ⟨r, mem_append_left _ hr, hin⟩
  simp only [kmallocAppend]
  split
  · exact hnew.trans (.set hlastS)
  · exact hnew.trans (.set hblock)

lemma Inv.kmalloc_sameOff {slabAlloc : Mem → Word → Word × Mem} {slabFree : Mem → Word → Mem} {t : State} (h : Inv s l)
    (hallowed : Allowed s (.kmalloc size newFrames)) (ht : step slabAlloc slabFree s (.kmalloc size newFrames) = some t) :
    SameOff (InRuns t.runs) s.heap.mem t.heap.mem := by
  obtain ⟨hlarge, hsmall, hfresh⟩ := hallowed
  obtain ⟨_, hrequest, hhigh⟩ := align16_toNat hsmall
  simp only [step, kmalloc_large hlarge] at ht
  rcases h.rep.search (align16 size) with ⟨_, b, _, rfl, hfree, hfit, hsearch⟩ | hsearch
  · have htaken := h.taken hfree hrequest (by omega) hfit
    obtain ⟨c, hc, hcaddr, -⟩ := cutBlock_first hfit
    have hcleared := htaken.cleared_sameOff (b := c) (by simp [hc])
    rw [hcaddr] at hcleared
    simp only [hsearch, bind_some, map_some, Option.some.injEq] at ht
    rw [← ht]
    exact (h.taken_sameOff hfit).trans hcleared
  · simp only [hsearch, bind_some, grant] at ht
    by_cases hnone : newFrames = 0
    · simp only [hnone, if_true, map_some, Option.some.injEq] at ht
      rw [← ht]
      exact .refl
    · have hlast : (l.map Block.addr).getLast? = some ((l.map Block.addr).getLastD 0) := by
        rw [List.getLastD_eq_getLast?, List.getLast?_eq_getLast_of_ne_nil (by simpa using h.nonempty)]
        rfl
      simp only [if_neg hnone, map_some, Option.some.injEq] at ht
      rw [← ht]
      exact h.append_sameOff hlast hhigh (hfresh hnone)

end Heap

namespace SlabCaches

variable {S : ℕ → Prop} {s : Slabs} {a p : Word} {i : Fin 8} {k : Fin 8 × SlabList} {ls : Fin 8 × SlabList → List Word}
  {l₁ l₂ : List Word}

variable {v : Word}

lemma set_sameOff {f : SlabField} (hs : Spans S a.toNat 4096) : SameOff S s.mem (s.set a f v).mem :=
  .set (hs.sub le_rfl (Nat.add_le_add_left (show slabT.bytes ≤ 4096 by decide) _))

lemma linkNext_sameOff (hs : ∀ q ∈ pointer a, Spans S q.toNat 4096) : SameOff S s.mem (s.linkNext a v).mem := by
  rw [Slabs.linkNext]
  split_ifs with ha
  · exact set_sameOff (hs a (pointer_of_ne ha))
  · exact .refl

lemma linkPrev_sameOff (hs : ∀ q ∈ pointer a, Spans S q.toNat 4096) : SameOff S s.mem (s.linkPrev a v).mem := by
  rw [Slabs.linkPrev]
  split_ifs with ha
  · exact set_sameOff (hs a (pointer_of_ne ha))
  · exact .refl

lemma Listed.push_sameOff (h : Listed s ls) (hS : ∀ q ∈ ls k, Spans S q.toNat 4096) (ha : Spans S a.toNat 4096) :
    SameOff S s.mem (slabListPush s k a).mem := by
  have hhead : ∀ q ∈ pointer (s.lists k), Spans S q.toNat 4096 := fun q hq => hS q (h.head_mem hq)
  exact ((set_sameOff ha).trans (set_sameOff ha)).trans (linkPrev_sameOff hhead)

lemma Listed.remove_sameOff (h : Listed s ls) (hk : ls k = l₁ ++ a :: l₂) (hS : ∀ q ∈ ls k, Spans S q.toNat 4096) :
    SameOff S s.mem (slabListRemove s k a).mem := by
  have hlist := hk ▸ h.lists.dlist k
  have hnodup := hk ▸ h.lists.nodup k
  have hpage := h.pages k a (by simp [hk])
  have haS := hS a (by simp [hk])
  have hprev : ∀ q ∈ pointer (s.get a .prev), q ∈ l₁ := fun q hq => mem_of_lastOr_none (hlist.prev_eq.symm.trans hq)
  have hnext : ∀ q ∈ pointer (s.get a .next), q ∈ l₂ := fun q hq => List.mem_of_mem_head? (hlist.next_eq.symm.trans hq)
  have hself : slabPrev s a ≠ some a := by
    intro hloop
    exact (nodup_append'.mp hnodup).2.2 (hprev a hloop) mem_cons_self
  obtain ⟨-, -, -, hnext₁⟩ := linkNext_spec (fun q hq => h.pages k q (by simp [hk, hprev q hq])) (s.get a .next)
  have hget : (s.linkNext (s.get a .prev) (s.get a .next)).get a .next = s.get a .next :=
    pointer_inj ((hnext₁ a hpage).trans (if_neg hself))
  rw [slabListRemove]
  simp only [hget]
  have hlinked : SameOff S s.mem ((s.linkNext (s.get a .prev) (s.get a .next)).linkPrev (s.get a .next)
      ((s.linkNext (s.get a .prev) (s.get a .next)).get a .prev)).mem := by
    refine (linkNext_sameOff fun q hq => hS q ?_).trans (linkPrev_sameOff fun q hq => hS q ?_)
    · simp [hk, hprev q hq]
    · simp [hk, hnext q hq]
  generalize (s.linkNext (s.get a .prev) (s.get a .next)).linkPrev (s.get a .next)
    ((s.linkNext (s.get a .prev) (s.get a .next)).get a .prev) = s₁ at hlinked
  have hhead : (if s₁.lists k = a then s₁.setList k (s₁.get a .next) else s₁).mem = s₁.mem := by
    split
    · rfl
    · rfl
  rw [← hhead] at hlinked
  exact hlinked.trans ((set_sameOff haS).trans (set_sameOff haS))

lemma Listed.move_sameOff (h : Listed s ls) (hp : p ∈ ls k) (k' : Fin 8 × SlabList)
    (hS : ∀ k, ∀ q ∈ ls k, Spans S q.toNat 4096) : SameOff S s.mem (slabListPush (slabListRemove s k p) k' p).mem := by
  obtain ⟨l₁, l₂, hk⟩ := append_of_mem hp
  refine (h.remove_sameOff hk (hS k)).trans ((h.remove hk).1.push_sameOff (fun q hq => ?_) (hS k p hp))
  by_cases heq : k' = k
  · rw [heq, update_self] at hq
    refine hS k q (hk ▸ ?_)
    exact ((sublist_cons_self p l₂).append_left l₁).mem hq
  · rw [update_of_ne heq] at hq
    exact hS k' q hq

variable {B : Fin 8 → Prop} {o : Word} {pages live : List (Word × Fin 8)} {fl : Word → List Word}

lemma setObj_sameOff (hp : IsPage p) (ho : o ∈ objectsAt i p) (hs : Spans S p.toNat 4096) :
    SameOff S s.mem (s.setObj o v).mem := by
  obtain ⟨-, _, _⟩ := inside hp ho
  obtain ⟨_, _, -⟩ := objSize_spec i
  exact .writeLE (hs.sub (by omega) (by omega)) _

lemma linkObjects_sameOff (hp : IsPage p) (hs : Spans S p.toNat 4096) {n m : ℕ} (h : n + m < capacity i) :
    SameOff S s.mem (linkObjects (cacheSizes i) m s (objAt i p n)).1.mem := by
  induction m generalizing n s with
  | zero => exact .refl
  | succ m ih =>
    rw [linkObjects, objAt_succ, getObj_setObj_self]
    refine (setObj_sameOff hp (mem_objectsAt.mpr ⟨n, ?_, rfl⟩) hs).trans (ih ?_)
    · omega
    · omega

lemma carve_sameOff (hp : IsPage p) (hs : Spans S p.toNat 4096) : SameOff S s.mem (carve s i p).mem := by
  have hcap := (objSize_spec i).2.2.1
  rw [carve]
  simp only [start_eq (i := i) hp, maxObjs_eq, capacity_pred]
  generalize hs₁ : (((s.set p .magic (slabMagic.setWidth 64)).set p .parentCache (s.cacheAddr i)).set p .freeList
    (objAt i p 0)).set p .freeCount (BitVec.ofNat 64 (capacity i)) = s₁
  have hheader : SameOff S s.mem s₁.mem := by
    rw [← hs₁]
    exact (((set_sameOff hs).trans (set_sameOff hs)).trans (set_sameOff hs)).trans (set_sameOff hs)
  have hfree : s₁.get p .freeList = objAt i p 0 := by
    rw [← hs₁, get_set_other hp hp (.inr (by decide)), get_set_same (objAt i p 0).isLt]
  obtain ⟨hend, -⟩ := linkObjects_spec (i := i) (n := 0) (m := capacity i - 1) hp (by omega)
  rw [hfree, hend]
  refine (hheader.trans (linkObjects_sameOff hp hs (by omega))).trans (setObj_sameOff hp (mem_objectsAt.mpr ⟨_, ?_, rfl⟩) hs)
  omega

lemma CachesRep.spans (h : CachesRep s pages live ls fl) (hS : ∀ x ∈ pages, Spans S x.1.toNat 4096) :
    ∀ k, ∀ q ∈ ls k, Spans S q.toNat 4096 :=
  fun k q hq => hS (q, k.1) ((h.placed q k.1).mpr ⟨k.2, hq⟩)

variable {frame : Word}

lemma CachesRep.grow_sameOff (h : CachesRep s pages live ls fl) (hp : IsPage (physToVirt frame))
    (hS : ∀ x ∈ pages, Spans S x.1.toNat 4096) (hs : Spans S (physToVirt frame).toNat 4096) :
    SameOff S s.mem (slabGrow s i frame).mem := by
  have hlisted := h.listed.within (carve_spec (i := i) hp).2
  exact (carve_sameOff hp hs).trans (hlisted.push_sameOff (h.spans hS _) hs)

lemma slabForAlloc_sameOff (h : CachesRep s pages live ls fl) (hranked : AllRankedBut B ls fl)
    (hframe : Grows s i → IsPage (physToVirt frame) ∧ ∀ j, (physToVirt frame, j) ∉ pages)
    (hS : ∀ x ∈ (if Grows s i then (physToVirt frame, i) :: pages else pages), Spans S x.1.toNat 4096) :
    SameOff S s.mem (slabForAlloc s i frame).2.mem := by
  rw [slabForAlloc]
  by_cases hnoPartial : s.lists (i, .partialSlabs) = 0
  · rw [if_neg (not_not.mpr hnoPartial)]
    by_cases hempty : s.lists (i, .emptySlabs) = 0
    · obtain ⟨hpage, hnew⟩ := hframe ⟨hnoPartial, hempty⟩
      rw [if_pos ⟨hnoPartial, hempty⟩] at hS
      obtain ⟨_, _, hrep, -⟩ := h.grow hranked hpage hnew
      have hhead : (slabGrow s i frame).lists (i, .emptySlabs) ≠ 0 := by
        rw [slabGrow_head]
        exact hpage.2
      have hmem := hrep.listed.mem_of_ne_zero hhead
      have hgrown : SameOff S s.mem (slabGrow s i frame).mem :=
        h.grow_sameOff hpage (fun x hx => hS x (mem_cons_of_mem _ hx)) (hS (physToVirt frame, i) mem_cons_self)
      simp only [if_pos hempty]
      exact hgrown.trans (hrep.listed.move_sameOff hmem _ (hrep.spans hS))
    · rw [if_neg fun hgrows => hempty hgrows.2] at hS
      simp only [if_neg hempty]
      exact h.listed.move_sameOff (h.listed.mem_of_ne_zero hempty) _ (h.spans hS)
  · rw [if_pos hnoPartial]
    exact .refl

lemma takeObject_sameOff (h : CachesRep s pages live ls fl) (hp : p ∈ ls (i, .partialSlabs))
    (hS : ∀ x ∈ pages, Spans S x.1.toNat 4096) : SameOff S s.mem (takeObject s i p).2.mem := by
  have hpage := h.listed.pages _ p hp
  have hs := h.spans hS _ p hp
  simp only [takeObject]
  split
  · have hlisted := h.listed.within ((Within.set hpage (f := .freeList) (by decide) (s.getObj (s.get p .freeList))).trans
      (.set hpage (f := .freeCount) (by decide) ((s.set p .freeList (s.getObj (s.get p .freeList))).get p .freeCount - 1)))
    exact ((set_sameOff hs).trans (set_sameOff hs)).trans (hlisted.move_sameOff hp _ (h.spans hS))
  · exact (set_sameOff hs).trans (set_sameOff hs)

lemma slabCacheAlloc_sameOff (h : CachesRep s pages live ls fl) (hranked : AllRankedBut B ls fl)
    (hframe : Grows s i → IsPage (physToVirt frame) ∧ ∀ j, (physToVirt frame, j) ∉ pages)
    (hS : ∀ x ∈ (if Grows s i then (physToVirt frame, i) :: pages else pages), Spans S x.1.toNat 4096) :
    SameOff S s.mem (slabCacheAlloc s i frame).2.mem := by
  obtain ⟨_, _, hrep, -, hmem, -⟩ := slabForAlloc_spec h hranked hframe
  exact (slabForAlloc_sameOff h hranked hframe hS).trans (takeObject_sameOff hrep hmem hS)

lemma slabCacheFree_sameOff (h : CachesRep s pages live ls fl) (hranked : AllRanked ls fl) (hlive : (o, i) ∈ live)
    (hS : ∀ x ∈ pages, Spans S x.1.toNat 4096) : SameOff S s.mem (slabCacheFree s i o).mem := by
  obtain ⟨p, hpi, hobj⟩ := h.owner o i hlive
  have hput := h.put hpi hobj hlive
  have hs := hS (p, i) hpi
  have hfreed := ((setObj_sameOff (s := s) (v := s.get p .freeList) (h.slab p i hpi).page hobj hs).trans
    (set_sameOff (f := .freeList) (v := o) hs)).trans (set_sameOff (f := .freeCount) (v := s.get p .freeCount + 1) hs)
  obtain ⟨_, hk, ⟨heq, -⟩ | ⟨k', heq, -⟩⟩ := slabCacheFree_cases h hranked.but hpi hobj hlive (fun _ => trivial) rfl
  · rwa [heq]
  · rw [heq]
    exact hfreed.trans (hput.listed.move_sameOff hk _ (h.spans hS))

end SlabCaches

end KernelSmp.Memory
