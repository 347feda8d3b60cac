import KernelSmp.Memory.KmallocRoundTrip

/-! The memory that `kmalloc` hands out: where it lies, how large it is and what it holds. -/

namespace KernelSmp.Memory

open Base LinkedList Heap Option

def InBlock (h : KHeap) (ptr size : Word) : Prop :=
  ∃ b ∈ blocks h, b.free = false ∧ b.addr.toNat + 40 ≤ ptr.toNat ∧ ptr.toNat + size.toNat ≤ b.stop

lemma Rep.inBlock {h : KHeap} {l : List Block} {b : Block} {size request : Word} (hrep : Rep h l)
    (hcut : ∀ c ∈ cutBlock b size, c ∈ l) (hfit : size.toNat ≤ b.size.toNat) (hrequest : request.toNat ≤ size.toNat)
    (hpos : 0 < request.toNat) : InBlock h (b.addr + headerSize) request := by
  obtain ⟨c, hc, haddr, hused, _⟩ := cutBlock_first hfit
  have hpayload := (sane_payload (hrep.sane c (hcut c hc)) (by omega)).1
  refine ⟨c, ?_, hused, ?_, ?_⟩
  · rw [hrep.blocks_eq]
    exact hcut c hc
  · rw [← haddr, hpayload]
  · rw [← haddr, hpayload, Block.stop]
    omega

namespace Allocator

variable {s : Allocator} {l : List Block} {size frame newFrames : Word}

def served (s : Allocator) (size frame newFrames : Word) : Option (Word × KHeap × List (ℕ × ℕ)) :=
  Memory.kmalloc (fun _ _ => ((slabAlloc s.slabs size frame).1, (slabAlloc s.slabs size frame).2.mem)) (Heap.grant newFrames)
    s.heap.heap s.runs size

def Serves (s : Allocator) (ptr size : Word) (x : Word × Fin 8) : Prop :=
  s.slabs.get x.1 .magic = slabMagic.setWidth 64 ∧ s.slabs.get x.1 .parentCache = s.slabs.cacheAddr x.2 ∧
    ∃ o ∈ SlabCaches.objectsAt x.2 x.1, o.toNat ≤ ptr.toNat ∧ ptr.toNat + size.toNat ≤ o.toNat + SlabCaches.objSize x.2

def InObject (s : Allocator) (ptr size : Word) : Prop := ∃ x ∈ s.pages, s.Serves ptr size x

def Holds (s : Allocator) (ptr size : Word) : Prop :=
  Cleared s.slabs.mem ptr size ∧ (s.InObject ptr size ∨ InBlock s.heap.heap ptr size)

lemma kmalloc_of_served {r : Word × KHeap × List (ℕ × ℕ)} (hserved : s.served size frame newFrames = some r) :
    ∃ t, s.kmalloc size frame newFrames = some t ∧ t.heap.heap = r.2.1 := by
  obtain ⟨_, _, _⟩ := r
  rw [served] at hserved
  rw [kmalloc, hserved]
  exact ⟨_, rfl, rfl⟩

lemma served_object (hcaches : SlabCaches.Inv s.caches) (hasked : Asked size)
    (hframe : ∀ i ∈ slabCacheFor size, SlabCaches.Grows s.slabs i → SlabCaches.Fresh s.caches frame) (newFrames : Word) :
    ∃ ptr h' runs t, s.served size frame newFrames = some (ptr, h', runs) ∧ s.kmalloc size frame newFrames = some t ∧
      t.heap.heap = h' ∧ Cleared t.slabs.mem ptr size ∧ t.InObject ptr size ∧ ptr.toNat % 16 = 0 := by
  obtain ⟨ls, fl, hrep, hranked⟩ := hcaches
  obtain ⟨i, _, _, hserved, -, _, hrep', -, heq⟩ := kmalloc_object hrep hranked hasked hframe newFrames
  obtain ⟨p, hp, hobj⟩ := hrep'.owner _ i List.mem_cons_self
  have hslab := hrep'.slab p i hp
  obtain ⟨halign, _, _⟩ := SlabCaches.inside hslab.page hobj
  have hptr := (SlabCaches.isObj_of_mem hslab.page hobj).ne_zero
  generalize slabCacheAlloc s.slabs i frame = r at *
  have hkmalloc : s.served size frame newFrames = _ :=
    kmalloc_asked (fun _ _ => ((slabAlloc s.slabs size frame).1, (slabAlloc s.slabs size frame).2.mem)) (Heap.grant newFrames)
      s.heap.heap s.runs hasked (by rw [hserved]; exact hptr)
  rw [hserved] at hkmalloc
  -- the header of the slab lies in front of its objects
  have hheader : ∀ f, slabT.get (r.2.mem.fill r.1.toNat size.toNat 0) p f = slabT.get r.2.mem p f := by
    intro f
    apply Layout.get_congr
    intro a _ ha
    change a < p.toNat + 56 at ha
    rw [Mem.fill, if_neg (by omega)]
  refine ⟨r.1, _, _, _, hkmalloc, heq, rfl, ?_, ⟨(p, i), hp, ?_, ?_, r.1, hobj, le_rfl, ?_⟩, halign⟩
  · intro k hk
    dsimp only
    rw [Mem.fill, if_pos (by omega)]
  · exact (hheader .magic).trans hslab.magic
  · exact (hheader .parentCache).trans hslab.parent
  · dsimp only
    omega

def Granted (l : List Block) (newFrames size : Word) : Prop :=
  newFrames ≠ 0 → numFrames size ≠ 0 ∧ Memory.FreshRun l newFrames size

lemma granted_grant (newFrames : Word) (runs : List (ℕ × ℕ)) (size : Word) :
    granted (grant newFrames) runs size = newFrames := by
  rw [granted, grant]
  split
  next hnone => exact hnone.symm
  next => rfl

lemma served_huge (hrep : Rep s.heap.heap l) (hhuge : 2 ^ 47 ≤ size.toNat) (hsize : size.toNat + 48 ≤ 2 ^ 64) (frame : Word)
    (hnew : Granted l newFrames (align16 size)) : newFrames = 0 ∧ l.find? (Block.fits (align16 size)) = none ∧
    s.served size frame newFrames = some (0, s.heap.heap, s.runs) := by
  have hlarge : 2048 < size.toNat := by omega
  obtain rfl : newFrames = 0 := by
    by_contra hsome
    obtain ⟨hframes, -, _, -⟩ := hnew hsome
    have hpos : (numFrames (align16 size)).toNat ≠ 0 := fun hzero => hframes (BitVec.eq_of_toNat_eq hzero)
    have hcount := numFrames_huge hhuge hsize
    omega
  have hkmalloc : s.served size frame 0 = _ := kmalloc_large hlarge
  rw [hkmalloc]
  rcases hrep.firstFit (align16 size) with ⟨b, hfirst, -⟩ | ⟨hnone, hsearch⟩
  · obtain ⟨_, _, rfl, -, hfit⟩ := mem_of_find hfirst
    have hroom := (hrep.sane b (by simp)).size_lt
    have hge := (align16_ge size (by omega)).1
    rw [BitVec.le_def] at hfit
    omega
  · have hmissing : kmallocSearch s.heap.heap (align16 size) = _ := hsearch
    rw [hmissing, bind_some]
    simp only [grant, if_true]
    exact ⟨trivial, hnone, trivial⟩

lemma served_large (hrep : Rep s.heap.heap l) (hne : l ≠ []) (hlarge : 2048 < size.toNat) (hsize : size.toNat + 48 ≤ 2 ^ 64)
    (frame : Word) (hnew : Granted l newFrames (align16 size)) :
    ∃ ptr h' runs, s.served size frame newFrames = some (ptr, h', runs) ∧
      (ptr = 0 ∧ newFrames = 0 ∧ l.find? (Block.fits (align16 size)) = none ∨
      Cleared h'.mem ptr size ∧ InBlock h' ptr size ∧
        match l.find? (Block.fits (align16 size)) with
        | some b => ptr = b.addr + headerSize
        | none => newFrames ≠ 0 ∧ ptr = physToVirt newFrames + headerSize) := by
  by_cases hhuge : 2 ^ 47 ≤ size.toNat
  · obtain ⟨hrefused, hnone, hserved⟩ := served_huge hrep hhuge hsize frame hnew
    exact ⟨0, _, _, hserved, .inl ⟨rfl, hrefused, hnone⟩⟩
  obtain ⟨-, hrequest, hhigh⟩ := align16_toNat (lt_of_not_ge hhuge)
  have hpos : 0 < size.toNat := by omega
  rcases hrep.kmalloc_cases (fun _ _ => ((slabAlloc s.slabs size frame).1, (slabAlloc s.slabs size frame).2.mem))
    (grant newFrames)
      s.runs hne hlarge (lt_of_not_ge hhuge) (by rw [granted_grant]; exact fun hsome => (hnew hsome).2) with
    ⟨l₁, b, l₂, h', hfirst, -, -, hfit, hserved, hrep', hcleared⟩ | ⟨hnone, h', runs, hserved, hcases⟩
  · refine ⟨_, h', _, hserved, .inr ⟨hcleared, hrep'.inBlock (fun c hc => by simp [hc]) hfit hrequest hpos, ?_⟩⟩
    rw [hfirst]
  · rw [granted_grant] at hserved hcases
    refine ⟨_, h', runs, hserved, ?_⟩
    by_cases hrefused : newFrames = 0
    · rw [if_pos hrefused]
      exact .inl ⟨rfl, hrefused, hnone⟩
    · rw [if_neg hrefused] at hcases ⊢
      obtain ⟨haligned, hbound, -⟩ := (hnew hrefused).2
      have hfit := (runBlock_sane hhigh haligned hbound).2.1
      refine .inr ⟨hcases.2, hcases.1.inBlock (b := runBlock newFrames (align16 size)) (fun c hc => by simp [hc])
        hfit hrequest hpos, ?_⟩
      rw [hnone]
      exact ⟨hrefused, rfl⟩

theorem kmalloc_capacity (s : Allocator) (l : List Block) (size frame newFrames : Word) (hrep : Rep s.heap.heap l)
    (hne : l ≠ []) (hcaches : SlabCaches.Inv s.caches) (hsize : size.toNat + 48 ≤ 2 ^ 64)
    (hframe : ∀ i ∈ slabCacheFor size, Asked size → SlabCaches.Grows s.slabs i → SlabCaches.Fresh s.caches frame)
    (hnew : 2048 < size.toNat → Granted l newFrames (align16 size)) :
    ∃ ptr h' runs t, s.served size frame newFrames = some (ptr, h', runs) ∧ s.kmalloc size frame newFrames = some t ∧
      t.heap.heap = h' ∧ (ptr = 0 ∨ t.Holds ptr size) := by
  by_cases hlarge : 2048 < size.toNat
  · obtain ⟨ptr, h', runs, hserved, hcases⟩ := served_large hrep hne hlarge hsize frame (hnew hlarge)
    obtain ⟨t, ht, hheap⟩ := kmalloc_of_served hserved
    refine ⟨ptr, h', runs, t, hserved, ht, hheap, ?_⟩
    rcases hcases with ⟨hnull, -⟩ | ⟨hcleared, hblock, -⟩
    · exact .inl hnull
    · right
      have hmem : t.slabs.mem = h'.mem := congrArg KHeap.mem hheap
      rw [Holds, hmem, hheap]
      exact ⟨hcleared, .inr hblock⟩
  · by_cases hzero : size = 0
    · have hserved : s.served size frame newFrames = some (0, s.heap.heap, s.runs) := by
        rw [served, hzero]
        rfl
      obtain ⟨t, ht, hheap⟩ := kmalloc_of_served hserved
      exact ⟨0, _, _, t, hserved, ht, hheap, .inl rfl⟩
    · have hasked : Asked size := ⟨hzero, by bv_omega⟩
      obtain ⟨ptr, h', runs, t, hserved, ht, hheap, hcleared, hobject, -⟩ :=
        served_object hcaches hasked (fun i hi => hframe i hi hasked) newFrames
      exact ⟨ptr, h', runs, t, hserved, ht, hheap, .inr ⟨hcleared, .inl hobject⟩⟩

lemma booted_inv {s : Allocator} (hboot : booted = some s) : Inv s :=
  inv_boot hboot (by decide) (by decide) (by decide +kernel) (by decide) (by decide +kernel)

theorem kmalloc_capacity_booted :
    ∃ s, booted = some s ∧ ∃ ptr h' runs t, s.served 5000 0 0x110000 = some (ptr, h', runs) ∧
      s.kmalloc 5000 0 0x110000 = some t ∧ t.heap.heap = h' ∧ (ptr = 0 ∨ t.Holds ptr 5000) := by
  have hrun : (booted.map fun s => s.runs) = some [Heap.frameRun 0x10A000 1] := rfl
  obtain ⟨s, hboot, hruns⟩ := map_eq_some_iff.mp hrun
  obtain ⟨⟨l, hheap⟩, hcaches, -⟩ := booted_inv hboot
  refine ⟨s, hboot, kmalloc_capacity s l 5000 0 0x110000 hheap.rep hheap.nonempty hcaches (by decide) ?_ fun _ _ =>
      ⟨by decide, ?_⟩⟩
  · exact fun i hi hasked => absurd hasked.2 (by decide)
  · refine ⟨by decide, by decide, fun b hb => .inl ?_⟩
    obtain ⟨r, hr, -, hhigh⟩ := hheap.spans hb (b.stop - 1) (by rw [Block.stop]; omega) (by rw [Block.stop]; omega)
    rw [show s.heap.runs = _ from hruns, List.mem_singleton] at hr
    have hend : r.2 = 0xFFFF80000010B000 := by
      rw [hr]
      rfl
    have hnew : (runBlock 0x110000 (align16 5000)).addr.toNat = 0xFFFF800000110000 := rfl
    omega

/-- Three objects of 1024 bytes and seven of 512 bytes are there after the boot. The next request of either size finds no
frame, and `slab_grow` makes a slab of the frame 0 each time. -/
def refusals : List Call := List.replicate 4 (.kmalloc 1024 0 0) ++ List.replicate 8 (.kmalloc 512 0 0)

instance (s : Allocator) (ptr size : Word) (x : Word × Fin 8) : Decidable (s.Serves ptr size x) :=
  @instDecidableAnd _ _ inferInstance (@instDecidableAnd _ _ inferInstance (List.decidableBEx _ (SlabCaches.objectsAt x.2 x.1)))

instance (s : Allocator) (ptr size : Word) : Decidable (s.InObject ptr size) := List.decidableBEx _ s.pages

instance (h : KHeap) (ptr size : Word) : Decidable (InBlock h ptr size) := List.decidableBEx _ (blocks h)

theorem kmalloc_short :
    (∃ s r t, booted = some s ∧ s.served 0xFFFFFFFFFFFFFFFF 0 0 = some r ∧ s.kmalloc 0xFFFFFFFFFFFFFFFF 0 0 = some t ∧ r.1 ≠ 0 ∧
      ¬ t.Holds r.1 0xFFFFFFFFFFFFFFFF) ∧
    ∃ s s' r t, booted = some s ∧ Runs.run step s refusals = some s' ∧ s'.served 1024 0 0 = some r ∧
      s'.kmalloc 1024 0 0 = some t ∧
      r.1 ≠ 0 ∧ ¬ t.Holds r.1 1024 := by
  constructor
  · obtain ⟨s, hboot, r, hr, t, ht, hsome, hbyte⟩ : ∃ s ∈ booted, ∃ r ∈ s.served 0xFFFFFFFFFFFFFFFF 0 0,
        ∃ t ∈ s.kmalloc 0xFFFFFFFFFFFFFFFF 0 0, r.1 ≠ 0 ∧ t.slabs.mem (r.1.toNat + 0) ≠ 0 := by
      decide +kernel
    exact ⟨s, r, t, hboot, hr, ht, hsome, fun hholds => hbyte (hholds.1 0 (by decide))⟩
  · obtain ⟨s, hboot, s', hs', r, hr, t, ht, hsome, hobject, hblock⟩ : ∃ s ∈ booted, ∃ s' ∈ Runs.run step s refusals,
        ∃ r ∈ s'.served 1024 0 0, ∃ t ∈ s'.kmalloc 1024 0 0,
          r.1 ≠ 0 ∧ ¬ t.InObject r.1 1024 ∧ ¬ InBlock t.heap.heap r.1 1024 := by
      decide +kernel
    exact ⟨s, s', r, t, hboot, hs', hr, ht, hsome, fun hholds => hholds.2.elim hobject hblock⟩

end Allocator

end KernelSmp.Memory
