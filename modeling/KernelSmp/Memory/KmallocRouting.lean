import KernelSmp.Base.CStrings
import KernelSmp.Memory.AllocatorFootprint

/-! `kmalloc` and `kfree` with both of their allocators: small requests go to the slab caches, the others to the
large-block heap, and `kfree` finds out by the first word of the page which of the two has given the pointer. -/

namespace KernelSmp.Memory

open Base LinkedList Function List Option

/-- The memory, the slab lists and `heap_start`; the frames of either allocator, as the direct map shows them; and the
pointers handed out and not freed, those of the slab caches with their cache and those of the heap with the size. -/
structure Allocator where
  slabs : Slabs
  heapStart : Word
  pages : List (Word × Fin 8)
  runs : List (ℕ × ℕ)
  small : List (Word × Fin 8)
  large : List (Word × Word)

namespace Allocator

def heap (s : Allocator) : Heap.State := ⟨⟨s.slabs.mem, s.heapStart⟩, s.runs, s.large⟩
def caches (s : Allocator) : SlabCaches.Heap := ⟨s.slabs, s.pages, s.small⟩

/-- `frame` and `newFrames` are the answers of `pmm_alloc_frame` and `pmm_alloc_frames` if they are asked; `write` is
what the rest of the kernel does to memory between two calls. -/
inductive Call
  | kmalloc (size frame newFrames : Word)
  | kfree (ptr : Word)
  | write (a : ℕ) (bytes : List Byte)

def Asked (size : Word) : Prop := size ≠ 0 ∧ size ≤ 2048

instance (size : Word) : Decidable (Asked size) := inferInstanceAs (Decidable (_ ∧ _))

def pagesWith (s : Allocator) (size frame : Word) : List (Word × Fin 8) :=
  match slabCacheFor size with
  | some i => if SlabCaches.Grows s.slabs i then (physToVirt frame, i) :: s.pages else s.pages
  | none => s.pages

def smallWith (s : Allocator) (size ptr : Word) : List (Word × Fin 8) :=
  match slabCacheFor size with
  | some i => (ptr, i) :: s.small
  | none => s.small

def kmalloc (s : Allocator) (size frame newFrames : Word) : Option Allocator :=
  let r := slabAlloc s.slabs size frame
  (Memory.kmalloc (fun _ _ => (r.1, r.2.mem)) (Heap.grant newFrames) s.heap.heap s.runs size).map fun (ptr, heap, runs) =>
    { slabs := { (if Asked size then r.2 else s.slabs) with mem := heap.mem }
      heapStart := heap.heapStart
      pages := if Asked size then s.pagesWith size frame else s.pages
      runs := runs
      small := if Asked size ∧ r.1 ≠ 0 then s.smallWith size ptr else s.small
      large := if ptr = 0 ∨ Asked size ∧ r.1 ≠ 0 then s.large else (ptr, size) :: s.large }

def ToSlab (s : Allocator) (ptr : Word) : Prop := ptr ≠ 0 ∧ s.slabs.mem.load32 (slabOf ptr).toNat = slabMagic

instance (s : Allocator) (ptr : Word) : Decidable (s.ToSlab ptr) := inferInstanceAs (Decidable (_ ∧ _))

def kfree (s : Allocator) (ptr : Word) : Option Allocator :=
  if s.ToSlab ptr then
    (slabFree s.slabs ptr).map fun slabs => { s with slabs := slabs, small := s.small.filter (·.1 ≠ ptr) }
  else
    match Memory.kfree (fun m _ => m) s.heap.heap ptr with
    | .ok heap => some { s with slabs := { s.slabs with mem := heap.mem }, large := s.large.filter (·.1 ≠ ptr) }
    | .error _ => none

def step (s : Allocator) : Call → Option Allocator
  | .kmalloc size frame newFrames => s.kmalloc size frame newFrames
  | .kfree ptr => s.kfree ptr
  | .write a bytes => some { s with slabs := { s.slabs with mem := s.slabs.mem.place a bytes } }

def boot (mem : Mem) (kmallocCaches firstFrame : Word) (frames : Fin 8 → Word) : Option Allocator :=
  (kmallocInit mem firstFrame).map fun heap =>
    let caches := SlabCaches.slabInit heap.mem kmallocCaches frames
    ⟨caches.slabs, heap.heapStart, caches.pages, [Heap.frameRun firstFrame 1], caches.live, []⟩

structure Routes (s : Allocator) : Prop where
  small : ∀ o i, (o, i) ∈ s.small → s.ToSlab o ∧ (slabOf o, i) ∈ s.pages ∧
    s.slabs.get (slabOf o) .parentCache = s.slabs.cacheAddr i
  large : ∀ x ∈ s.large, ¬ s.ToSlab x.1 ∧ mHeader.get s.slabs.mem (x.1 - headerSize) .magic = kmallocMagic ∧
    ∃ b ∈ Heap.blocks s.heap.heap, b.addr = x.1 - headerSize ∧ b.free = false ∧ x.2.toNat ≤ b.size.toNat

def InPages (pages : List (Word × Fin 8)) (a : ℕ) : Prop := ∃ p ∈ pages, p.1.toNat ≤ a ∧ a < p.1.toNat + 4096

def FreshPage (s : Allocator) (frame : Word) : Prop :=
  SlabCaches.Fresh s.caches frame ∧
    ∀ r ∈ s.runs, r.2 ≤ (physToVirt frame).toNat ∨ (physToVirt frame).toNat + 4096 ≤ r.1

def FreshRun (s : Allocator) (newFrames frames : Word) : Prop :=
  Heap.Fresh s.runs newFrames frames ∧
    ∀ p ∈ s.pages, (Heap.frameRun newFrames frames).2 ≤ p.1.toNat ∨ p.1.toNat + 4096 ≤ (Heap.frameRun newFrames frames).1

def Owned (s : Allocator) (a : ℕ) : Prop :=
  (∃ x ∈ s.small, x.1.toNat ≤ a ∧ a < x.1.toNat + SlabCaches.objSize x.2) ∨
    ∃ x ∈ s.large, x.1.toNat ≤ a ∧ a < x.1.toNat + x.2.toNat

def Metadata (s : Allocator) (a : ℕ) : Prop :=
  (∃ b ∈ Heap.blocks s.heap.heap, b.addr.toNat ≤ a ∧ a < b.addr.toNat + 40) ∨
    ∃ p ∈ s.pages, p.1.toNat ≤ a ∧ a < p.1.toNat + 56 ∨
      ∃ o ∈ SlabCaches.freeObjects s.slabs p.1, o.toNat ≤ a ∧ a < o.toNat + 8

/-- Frames are given once, sizes can be rounded up, live pointers are freed, and what lies outside of the live blocks
is written only where the allocators keep nothing. -/
def Call.Proper (s : Allocator) : Call → Prop
  | .kmalloc size frame newFrames =>
    size.toNat + 4150 < 2 ^ 64 ∧
      (∀ i ∈ slabCacheFor size, Asked size → SlabCaches.Grows s.slabs i → s.FreshPage frame) ∧
      (2048 < size.toNat → newFrames ≠ 0 → s.FreshRun newFrames (numFrames (align16 size)))
  | .kfree ptr => ptr = 0 ∨ (∃ x ∈ s.small, x.1 = ptr) ∨ ∃ x ∈ s.large, x.1 = ptr
  | .write a bytes => ∀ k < bytes.length, s.Owned (a + k) ∨ ¬ s.Metadata (a + k)

def Call.Unmarked (s : Allocator) : Call → Prop
  | .write a bytes => ∀ k < bytes.length, Heap.InRuns s.runs ((a + k) / 4096 * 4096) →
      (s.slabs.mem.place a bytes).load32 ((a + k) / 4096 * 4096) ≠ slabMagic
  | _ => True

structure Inv (s : Allocator) : Prop where
  heap : ∃ l, Heap.Inv s.heap l
  caches : SlabCaches.Inv s.caches
  apart : ∀ a, Heap.InRuns s.runs a → ¬ InPages s.pages a

lemma Inv.of_parts {slabs : Slabs} {heapStart : Word} {pages small : List (Word × Fin 8)} {runs : List (ℕ × ℕ)}
    {large : List (Word × Word)} {l : List Block} (hheap : Heap.Inv ⟨⟨slabs.mem, heapStart⟩, runs, large⟩ l)
    (hcaches : SlabCaches.Inv ⟨slabs, pages, small⟩) (hapart : ∀ a, Heap.InRuns runs a → ¬ InPages pages a) :
    Inv ⟨slabs, heapStart, pages, runs, small, large⟩ :=
  ⟨⟨l, hheap⟩, hcaches, hapart⟩

variable {s : Allocator} {l : List Block} {mem : Mem} {runs : List (ℕ × ℕ)} {pages : List (Word × Fin 8)} {a : ℕ}

lemma InPages.start (hpages : ∀ p ∈ pages, p.1.toNat % 4096 = 0) (ha : InPages pages a) : InPages pages (a / 4096 * 4096) := by
  obtain ⟨p, hp, _⟩ := ha
  have hpage := hpages p hp
  exact ⟨p, hp, by omega⟩

lemma spans_pages : ∀ x ∈ pages, Spans (InPages pages) x.1.toNat 4096 := fun x hx _ hlow hhigh => ⟨x, hx, hlow, hhigh⟩

lemma pages_aligned (h : SlabCaches.Inv s.caches) : ∀ p ∈ s.pages, p.1.toNat % 4096 = 0 := by
  obtain ⟨_, _, hrep, -⟩ := h
  exact fun p hp => (hrep.slab p.1 p.2 hp).page.1

lemma heap_written {h : Heap.State} (hinv : Heap.Inv h l) (hheader : ∀ b ∈ l, ∀ a, b.addr.toNat ≤ a → a < b.addr.toNat + 40 →
    mem a = h.heap.mem a) (hclean : Clean h.runs mem) : Heap.Inv ⟨⟨mem, h.heap.heapStart⟩, h.runs, h.live⟩ l := by
  have hget : ∀ b ∈ l, ∀ f, mHeader.get mem b.addr f = mHeader.get h.heap.mem b.addr f := fun b hb f =>
    Layout.get_congr (hheader b hb)
  refine ⟨⟨?_, fun b hb => ?_, hinv.rep.apart, hinv.rep.sane⟩, hinv.nonempty, hinv.tiles, hinv.runs, hinv.inside, hinv.live,
    hinv.coalesced, hclean⟩
  · refine hinv.rep.links.congr (fun a ha => ?_) fun a ha => ?_
    · obtain ⟨b, hb, rfl⟩ := List.mem_map.mp ha
      exact congrArg pointer (hget b hb .next)
    · obtain ⟨b, hb, rfl⟩ := List.mem_map.mp ha
      exact congrArg pointer (hget b hb .prev)
  · exact (hinv.rep.stored b hb).congr fun f _ _ => hget b hb f

lemma heap_off_pages {h : Heap.State} (hinv : Heap.Inv h l) (hpages : ∀ p ∈ pages, p.1.toNat % 4096 = 0)
    (hapart : ∀ a, Heap.InRuns h.runs a → ¬ InPages pages a) (hsame : SameOff (InPages pages) h.heap.mem mem) :
    Heap.Inv ⟨⟨mem, h.heap.heapStart⟩, h.runs, h.live⟩ l := by
  apply heap_written hinv
  · intro b hb a hlow hhigh
    exact hsame a (hapart a (hinv.headed b.addr (List.mem_map_of_mem hb) a hlow hhigh))
  · intro page hpage hrun
    have hread : mem.readLE page 4 = h.heap.mem.readLE page 4 := by
      refine Mem.readLE_congr fun a hlow hhigh => hsame a fun ha => hapart page hrun ?_
      have hstart := ha.start hpages
      rwa [show a / 4096 * 4096 = page by omega] at hstart
    rw [Mem.load32, hread]
    exact hinv.clean page hpage hrun

lemma caches_off_runs {h : SlabCaches.Heap} (hinv : SlabCaches.Inv h) (hapart : ∀ a, Heap.InRuns runs a → ¬ InPages h.pages a)
    (hsame : SameOff (Heap.InRuns runs) h.slabs.mem mem) : SlabCaches.Inv { h with slabs := { h.slabs with mem := mem } } := by
  apply hinv.write
  intro p hp a hlow hhigh _
  exact hsame a fun ha => hapart a ha ⟨p, hp, hlow, hhigh⟩

variable {h : Heap.State} {size newFrames : Word}

lemma align16_eq (size : Word) (hwrap : size.toNat + 15 < 2 ^ 64) : (align16 size).toNat = (size.toNat + 15) / 16 * 16 := by
  have hmask : align16 size = (size + 15) &&& BitVec.ofNat 64 ((2 ^ 60 - 1) * 2 ^ 4) := rfl
  have hsum : (size + 15).toNat = size.toNat + 15 := by bv_omega
  rw [hmask, Word.toNat_and_field _ 4 60 (by decide), hsum]
  omega

lemma align16_ge (size : Word) (hwrap : size.toNat + 15 < 2 ^ 64) :
    size.toNat ≤ (align16 size).toNat ∧ (align16 size).toNat ≤ size.toNat + 15 := by
  rw [align16_eq size hwrap]
  omega

lemma numFrames_eq (hsize : size.toNat + 48 ≤ 2 ^ 64) :
    (numFrames (align16 size)).toNat = ((size.toNat + 15) / 16 * 16 + 4135) % 2 ^ 64 / 4096 := by
  have hsum : (align16 size + headerSize + 4095).toNat = ((align16 size).toNat + 4135) % 2 ^ 64 := by
    rw [headerSize]
    bv_omega
  rw [numFrames, BitVec.toNat_udiv, hsum, align16_eq size (by omega)]
  rfl

lemma numFrames_huge (hhuge : 2 ^ 47 ≤ size.toNat) (hsize : size.toNat + 48 ≤ 2 ^ 64) :
    (numFrames (align16 size)).toNat = 0 ∧ 2 ^ 64 ≤ size.toNat + 4150 ∨ 2 ^ 47 < (numFrames (align16 size)).toNat * 4096 := by
  rw [numFrames_eq hsize]
  omega

lemma not_fresh (hhuge : 2 ^ 47 ≤ size.toNat) (hwrap : size.toNat + 4150 < 2 ^ 64) :
    ¬ Heap.Fresh runs newFrames (numFrames (align16 size)) := by
  rintro ⟨-, _, -⟩
  have hframes := numFrames_huge hhuge (by omega)
  omega

lemma kmalloc_heap (slabAlloc : Mem → Word → Word × Mem) (slabFree : Mem → Word → Mem) (hinv : Heap.Inv h l)
    (hlarge : 2048 < size.toNat) (hwrap : size.toNat + 4150 < 2 ^ 64)
    (hfresh : newFrames ≠ 0 → Heap.Fresh h.runs newFrames (numFrames (align16 size))) :
    ∃ t l', Heap.step slabAlloc slabFree h (.kmalloc size newFrames) = some t ∧ Heap.Inv t l' ∧
      SameOff (Heap.InRuns t.runs) h.heap.mem t.heap.mem ∧
      (t.runs = h.runs ∨ newFrames ≠ 0 ∧ t.runs = h.runs ++ [Heap.frameRun newFrames (numFrames (align16 size))]) := by
  by_cases hsmall : size.toNat < 2 ^ 47
  · obtain ⟨t, l', ht, hinv', hruns⟩ := @Heap.kmalloc_keeps slabAlloc slabFree _ _ _ _ hinv ⟨hlarge, hsmall, hfresh⟩
    exact ⟨t, l', ht, hinv', hinv.kmalloc_sameOff ⟨hlarge, hsmall, hfresh⟩ ht, hruns⟩
  · obtain rfl : newFrames = 0 := by
      by_contra hne
      exact not_fresh (by omega) hwrap (hfresh hne)
    refine ⟨h, l, ?_, hinv, .refl, .inl rfl⟩
    rw [Heap.step, Heap.kmalloc_large hlarge]
    rcases hinv.rep.search (align16 size) with ⟨_, b, _, rfl, -, hfit, -⟩ | hsearch
    · have hsize := (hinv.rep.sane b (by simp)).size_lt
      have hge := (align16_ge size (by omega)).1
      rw [BitVec.le_def] at hfit
      omega
    · simp only [hsearch, bind_some, Heap.grant, if_true, map_some]

variable {frame ptr : Word} {i : Fin 8}

lemma slabCacheFor_spec (hsize : size ≤ 2048) : ∃ i, slabCacheFor size = some i ∧ size.toNat ≤ SlabCaches.objSize i := by
  cases hfind : slabCacheFor size with
  | none =>
    have hlast := List.find?_eq_none.mp hfind 7 (mem_finRange 7)
    exact absurd (decide_eq_true hsize) hlast
  | some i =>
    have hfits := List.find?_some hfind
    exact ⟨i, rfl, BitVec.le_def.mp (of_decide_eq_true hfits)⟩

lemma not_asked (hlarge : 2048 < size.toNat) : ¬ Asked size := fun hasked => absurd hasked.2 (by bv_omega)

lemma kmalloc_asked {P : Type} (slabAlloc : Mem → Word → Word × Mem) (alloc : P → Word → Word × P) (h : KHeap) (p : P)
    (hasked : Asked size) (hptr : (slabAlloc h.mem size).1 ≠ 0) :
    Memory.kmalloc slabAlloc alloc h p size = some ((slabAlloc h.mem size).1,
      { h with mem := (slabAlloc h.mem size).2.fill (slabAlloc h.mem size).1.toNat size.toNat 0 }, p) := by
  simp only [Memory.kmalloc, if_neg hasked.1, if_pos hasked.2, ne_eq, hptr, not_false_eq_true, if_true]

lemma apart_grown (h : Inv s) (hfresh : SlabCaches.Grows s.slabs i → s.FreshPage frame) : ∀ a, Heap.InRuns s.runs a →
    ¬ InPages (if SlabCaches.Grows s.slabs i then (physToVirt frame, i) :: s.pages else s.pages) a := by
  rintro a hrun ⟨p, hp, hin⟩
  split_ifs at hp with hgrows
  · rcases mem_cons.mp hp with rfl | hp
    · obtain ⟨r, hr, _⟩ := hrun
      have happart := (hfresh hgrows).2 r hr
      dsimp only at hin
      omega
    · exact h.apart a hrun ⟨p, hp, hin⟩
  · exact h.apart a hrun ⟨p, hp, hin⟩

lemma kmalloc_object {ls : Fin 8 × SlabList → List Word} {fl : Word → List Word}
    (hrep : SlabCaches.CachesRep s.slabs s.pages s.small ls fl) (hranked : SlabCaches.AllRanked ls fl) (hasked : Asked size)
    (hfresh : ∀ i ∈ slabCacheFor size, SlabCaches.Grows s.slabs i → SlabCaches.Fresh s.caches frame) (newFrames : Word) :
    ∃ i ls' fl', slabAlloc s.slabs size frame = slabCacheAlloc s.slabs i frame ∧ slabCacheFor size = some i ∧
      size.toNat ≤ SlabCaches.objSize i ∧
      SlabCaches.CachesRep (slabCacheAlloc s.slabs i frame).2 (s.pagesWith size frame)
        (((slabCacheAlloc s.slabs i frame).1, i) :: s.small) ls' fl' ∧ SlabCaches.AllRanked ls' fl' ∧
      s.kmalloc size frame newFrames = some ⟨{ (slabCacheAlloc s.slabs i frame).2 with
          mem := (slabCacheAlloc s.slabs i frame).2.mem.fill (slabCacheAlloc s.slabs i frame).1.toNat size.toNat 0 },
        s.heapStart, s.pagesWith size frame, s.runs, ((slabCacheAlloc s.slabs i frame).1, i) :: s.small, s.large⟩ := by
  obtain ⟨i, hi, hfits⟩ := slabCacheFor_spec hasked.2
  have hframe : SlabCaches.Grows s.slabs i → SlabCaches.IsPage (physToVirt frame) ∧ ∀ j, (physToVirt frame, j) ∉ s.pages := by
    intro hgrows
    obtain ⟨hpage, hnew⟩ := hfresh i hi hgrows
    exact ⟨hpage, fun j hj => hnew _ hj rfl⟩
  obtain ⟨ls', fl', hrep', hranked'⟩ := SlabCaches.slabCacheAlloc_spec hrep hranked.but hframe
  have hpages : s.pagesWith size frame = if SlabCaches.Grows s.slabs i then (physToVirt frame, i) :: s.pages else s.pages := by
    rw [pagesWith, hi]
  have hsmall : ∀ ptr, s.smallWith size ptr = (ptr, i) :: s.small := by
    intro ptr
    rw [smallWith, hi]
  have hserved : slabAlloc s.slabs size frame = slabCacheAlloc s.slabs i frame := by rw [slabAlloc, hi]
  rw [← hpages] at hrep'
  refine ⟨i, ls', fl', hserved, hi, hfits, hrep', hranked'.ranked, ?_⟩
  generalize slabCacheAlloc s.slabs i frame = r at *
  obtain ⟨p, hp, hobj⟩ := hrep'.owner r.1 i mem_cons_self
  have hptr := (SlabCaches.isObj_of_mem (hrep'.slab p i hp).page hobj).ne_zero
  have hkmalloc := kmalloc_asked (fun _ _ => (r.1, r.2.mem)) (Heap.grant newFrames) s.heap.heap s.runs hasked hptr
  simp only [kmalloc, hserved, hkmalloc, map_some, hasked, hsmall, hptr, if_true, ne_eq, not_false_eq_true, and_self,
    or_true]
  rfl

lemma Inv.kmalloc_small (h : Inv s) (hasked : Asked size) (hc : Call.Proper s (.kmalloc size frame newFrames)) :
    ∃ t, s.kmalloc size frame newFrames = some t ∧ Inv t := by
  obtain ⟨l, hheap⟩ := h.heap
  obtain ⟨ls, fl, hrep, hranked⟩ := h.caches
  change SlabCaches.CachesRep s.slabs s.pages s.small ls fl at hrep
  obtain ⟨i, ls', fl', -, hi, hfits, hrep', hranked', heq⟩ :=
    kmalloc_object hrep hranked hasked (fun i hi hgrows => (hc.2.1 i hi hasked hgrows).1) newFrames
  have hfresh := hc.2.1 i hi hasked
  have hframe : SlabCaches.Grows s.slabs i → SlabCaches.IsPage (physToVirt frame) ∧ ∀ j, (physToVirt frame, j) ∉ s.pages := by
    intro hgrows
    obtain ⟨⟨hpage, hnew⟩, -⟩ := hfresh hgrows
    exact ⟨hpage, fun j hj => hnew _ hj rfl⟩
  have hapart := apart_grown h hfresh
  have hoff := SlabCaches.slabCacheAlloc_sameOff hrep hranked.but hframe spans_pages
  have hpages : s.pagesWith size frame = if SlabCaches.Grows s.slabs i then (physToVirt frame, i) :: s.pages else s.pages := by
    rw [pagesWith, hi]
  rw [← hpages] at hapart hoff
  generalize s.pagesWith size frame = pages at *
  generalize slabCacheAlloc s.slabs i frame = r at *
  -- the object lies in a page of the caches
  obtain ⟨p, hp, hobj⟩ := hrep'.owner r.1 i mem_cons_self
  obtain ⟨-, _, _⟩ := SlabCaches.inside (hrep'.slab p i hp).page hobj
  have hcleared : SameOff (InPages pages) r.2.mem (r.2.mem.fill r.1.toNat size.toNat 0) :=
    .fill ((spans_pages (p, i) hp).sub (by dsimp only; omega) (by dsimp only; omega)) 0
  refine ⟨_, heq, ⟨l, ?_⟩, ?_, hapart⟩
  · exact heap_off_pages hheap (fun q hq => (hrep'.slab q.1 q.2 hq).page.1) hapart (hoff.trans hcleared)
  · refine (hrep'.inv hranked').write fun q hq a ha ha' hfree => ?_
    have hout := hfree (r.1, i) mem_cons_self
    dsimp only at hout ⊢
    rw [Mem.fill, if_neg (by omega)]

lemma Inv.kmalloc_large (h : Inv s) (hlarge : 2048 < size.toNat) (hc : Call.Proper s (.kmalloc size frame newFrames)) :
    ∃ t, s.kmalloc size frame newFrames = some t ∧ Inv t := by
  obtain ⟨_, hheap⟩ := h.heap
  have hfresh := hc.2.2 hlarge
  obtain ⟨_, l', ht, hinv, hoff, hruns⟩ := kmalloc_heap (fun _ _ =>
    ((slabAlloc s.slabs size frame).1, (slabAlloc s.slabs size frame).2.mem)) (fun m _ => m) hheap hlarge hc.1
    fun hne => (hfresh hne).1
  obtain ⟨⟨ptr, heap, runs⟩, hkmalloc, heq⟩ := map_eq_some_iff.mp ht
  subst heq
  change runs = s.runs ∨ newFrames ≠ 0 ∧ runs = s.runs ++ [Heap.frameRun newFrames (numFrames (align16 size))] at hruns
  have hapart : ∀ a, Heap.InRuns runs a → ¬ InPages s.pages a := by
    rintro a ⟨r, hr, hin⟩ hpage
    rcases hruns with hruns | ⟨hne, hruns⟩
    · exact h.apart a ⟨r, hruns ▸ hr, hin⟩ hpage
    · rcases mem_append.mp (hruns ▸ hr) with hr' | hr'
      · exact h.apart a ⟨r, hr', hin⟩ hpage
      · obtain ⟨p, hp, _⟩ := hpage
        obtain rfl := mem_singleton.mp hr'
        have hoff := (hfresh hne).2 p hp
        omega
  have hkmalloc' : Memory.kmalloc (fun _ _ => ((slabAlloc s.slabs size frame).1, (slabAlloc s.slabs size frame).2.mem))
    (Heap.grant newFrames) s.heap.heap s.runs size = some (ptr, heap, runs) := hkmalloc
  have hnot := not_asked hlarge
  have hstep : s.kmalloc size frame newFrames = some ⟨{ s.slabs with mem := heap.mem }, heap.heapStart, s.pages, runs, s.small,
      if ptr = 0 then s.large else (ptr, size) :: s.large⟩ := by
    simp only [kmalloc, hkmalloc', map_some, hnot, if_false, false_and, or_false]
  exact ⟨_, hstep, ⟨l', hinv⟩, caches_off_runs h.caches hapart hoff, hapart⟩

lemma kmalloc_zero : s.kmalloc 0 frame newFrames = some s := by
  simp only [kmalloc]
  rfl

lemma Inv.kmalloc_step (h : Inv s) (hc : Call.Proper s (.kmalloc size frame newFrames)) :
    ∃ t, s.kmalloc size frame newFrames = some t ∧ Inv t := by
  by_cases hlarge : 2048 < size.toNat
  · exact h.kmalloc_large hlarge hc
  · by_cases hzero : size = 0
    · rw [hzero]
      exact ⟨s, kmalloc_zero, h⟩
    · exact h.kmalloc_small ⟨hzero, by bv_omega⟩ hc

lemma load32_eq_iff {m : Mem} {p : Word} : m.load32 p.toNat = slabMagic ↔ slabT.get m p .magic = slabMagic.setWidth 64 := by
  have hlt := Mem.readLE_lt m p.toNat 4
  have hmagic : slabMagic.toNat = 0x51AB51AB := rfl
  have hwide : (slabMagic.setWidth 64).toNat = 0x51AB51AB := rfl
  have hget : slabT.get m p .magic = BitVec.ofNat 64 (m.readLE p.toNat 4) := rfl
  rw [Mem.load32, hget]
  constructor
  · intro heq
    have hnat := congrArg BitVec.toNat heq
    rw [BitVec.toNat_ofNat, hmagic] at hnat
    apply BitVec.eq_of_toNat_eq
    rw [BitVec.toNat_ofNat, hwide]
    omega
  · intro heq
    have hnat := congrArg BitVec.toNat heq
    rw [BitVec.toNat_ofNat, hwide] at hnat
    apply BitVec.eq_of_toNat_eq
    rw [BitVec.toNat_ofNat, hmagic]
    omega

lemma Inv.routes (h : Inv s) : Routes s := by
  obtain ⟨_, _, hrep, -⟩ := h.caches
  obtain ⟨_, hheap⟩ := h.heap
  constructor
  · intro o i ho
    obtain ⟨p, hp, hobj⟩ := hrep.owner o i ho
    have hslab := hrep.slab p i hp
    rw [ToSlab, SlabCaches.slabOf_eq hslab.page hobj]
    exact ⟨⟨(SlabCaches.isObj_of_mem hslab.page hobj).ne_zero, load32_eq_iff.mpr hslab.magic⟩, hp, hslab.parent⟩
  · intro x hx
    obtain ⟨b, hb, haddr, hused, hlarge⟩ := hheap.live x hx
    have hback : b.addr = x.1 - headerSize := by
      rw [← haddr]
      bv_omega
    refine ⟨fun hslab => ?_, ?_, b, ?_, hback, hused, hlarge⟩
    · rw [ToSlab, ← haddr] at hslab
      exact hheap.unmarked hb hslab.2
    · rw [← hback]
      exact (hheap.rep.stored b hb).magic
    · rwa [hheap.blocks_eq]

lemma Inv.kfree_step (h : Inv s) (hc : Call.Proper s (.kfree ptr)) : ∃ t, s.kfree ptr = some t ∧ Inv t := by
  obtain ⟨l, hheap⟩ := h.heap
  rcases hc with rfl | ⟨⟨o, i⟩, ho, rfl⟩ | ⟨x, hx, rfl⟩
  · have hnot : ¬ s.ToSlab 0 := fun hslab => hslab.1 rfl
    have hstep : s.kfree 0 = some { s with large := s.large.filter (·.1 ≠ 0) } := by
      rw [kfree, if_neg hnot]
      rfl
    exact ⟨_, hstep, ⟨l, { hheap with live := fun x hx => hheap.live x (mem_of_mem_filter hx) }⟩, h.caches, h.apart⟩
  · have hslab := (h.routes.small o i ho).1
    obtain ⟨ls, fl, hrep, hranked⟩ := h.caches
    change SlabCaches.CachesRep s.slabs s.pages s.small ls fl at hrep
    obtain ⟨_, _, hrep', hranked'⟩ := SlabCaches.slabCacheFree_spec hrep hranked.but ho fun _ => trivial
    have hoff := SlabCaches.slabCacheFree_sameOff hrep hranked ho spans_pages
    have hstep : s.kfree o = some { s with slabs := slabCacheFree s.slabs i o, small := s.small.filter (·.1 ≠ o) } := by
      rw [kfree, if_pos hslab, SlabCaches.slabFree_eq hrep ho, map_some]
    have hheap' := heap_off_pages hheap (pages_aligned h.caches) h.apart hoff
    exact ⟨_, hstep, .of_parts hheap' (hrep'.inv hranked'.ranked) h.apart⟩
  · have hnot := (h.routes.large x hx).1
    obtain ⟨b, hb, haddr, hused, -⟩ := hheap.live x hx
    have hkfree : Memory.kfree (fun m _ => m) s.heap.heap (b.addr + headerSize) =
        .ok ⟨kfreeSection s.slabs.mem b.addr, s.heapStart⟩ :=
      hheap.kfree_eq _ hb hused
    obtain ⟨l₁, l₂, rfl⟩ := append_of_mem hb
    have hfreed := hheap.freed
    rw [haddr] at hkfree hfreed
    have hstep : s.kfree x.1 = some
        ⟨⟨kfreeSection s.slabs.mem b.addr, s.slabs.kmallocCaches, s.slabs.lists⟩, s.heapStart, s.pages,
        s.runs, s.small, s.large.filter (·.1 ≠ x.1)⟩ := by
      rw [kfree, if_neg hnot, hkfree]
    have hcaches := caches_off_runs h.caches h.apart hheap.freed_sameOff
    refine ⟨_, hstep, .of_parts (l := freeBlock l₁ b l₂) ?_ hcaches h.apart⟩
    dsimp only
    exact hfreed

lemma Inv.not_metadata (h : Inv s) (ha : s.Owned a) : ¬ s.Metadata a := by
  obtain ⟨_, hheap⟩ := h.heap
  obtain ⟨ls, fl, hrep, -⟩ := h.caches
  change SlabCaches.CachesRep s.slabs s.pages s.small ls fl at hrep
  rw [Metadata, hheap.blocks_eq]
  rcases ha with ⟨x, hx, hlow, hhigh⟩ | ⟨x, hx, hlow, hhigh⟩
  · rintro (⟨b, hb, hin, hin'⟩ | ⟨p, hp, hheader | ⟨o, ho, hlink⟩⟩)
    · obtain ⟨p, hp, hobj⟩ := hrep.owner x.1 x.2 hx
      obtain ⟨-, hinside⟩ := SlabCaches.inside (hrep.slab p x.2 hp).page hobj
      exact h.apart a (hheap.headed b.addr (List.mem_map_of_mem hb) a hin hin') ⟨(p, x.2), hp, by dsimp only; omega⟩
    · have hoff := hrep.live_off_header hx hp
      omega
    · rw [(hrep.slab p.1 p.2 hp).freeObjects_eq] at ho
      have hoff := hrep.live_off_free hx hp ho
      obtain ⟨h16, hpos, -⟩ := SlabCaches.objSize_spec p.2
      omega
  · obtain ⟨b, hb, haddr, -, _⟩ := hheap.live x hx
    have hpayload := (hheap.payload hb).1
    rw [haddr] at hpayload
    have hrun := hheap.spans hb a (by omega) (by omega)
    rintro (⟨c, hc, hin⟩ | ⟨p, hp, hslab⟩)
    · by_cases hcb : c = b
      · rw [hcb] at hin
        omega
      · have : Std.Symm Block.Apart := ⟨fun _ _ => Block.Apart.symm⟩
        have happart := hheap.rep.apart.forall hc hb hcb
        simp only [Block.Apart, Block.stop] at happart
        omega
    · refine h.apart a hrun ⟨p, hp, ?_⟩
      rcases hslab with hheader | ⟨o, ho, hlink⟩
      · omega
      · rw [(hrep.slab p.1 p.2 hp).freeObjects_eq] at ho
        obtain ⟨-, _⟩ := SlabCaches.inside (hrep.slab p.1 p.2 hp).page ((hrep.slab p.1 p.2 hp).objects o ho)
        obtain ⟨_, _, -⟩ := SlabCaches.objSize_spec p.2
        omega

lemma place_ne {m : Mem} {x : ℕ} {bytes : List Byte} (hx : m.place a bytes x ≠ m x) : ∃ k < bytes.length, x = a + k := by
  rw [Mem.place] at hx
  split at hx
  · exact absurd rfl hx
  · by_cases hlt : x - a < bytes.length
    · exact ⟨x - a, hlt, by omega⟩
    · rw [List.getElem?_eq_none (by omega)] at hx
      exact absurd rfl hx

lemma Inv.write_step (h : Inv s) {bytes : List Byte} (hc : Call.Proper s (.write a bytes))
    (hunmarked : Call.Unmarked s (.write a bytes)) :
    Inv { s with slabs := { s.slabs with mem := s.slabs.mem.place a bytes } } := by
  obtain ⟨l, hheap⟩ := h.heap
  obtain ⟨ls, fl, hrep, hranked⟩ := h.caches
  change SlabCaches.CachesRep s.slabs s.pages s.small ls fl at hrep
  have hmeta : ∀ x, s.Metadata x → s.slabs.mem.place a bytes x = s.slabs.mem x := by
    intro x hx
    by_contra hne
    obtain ⟨k, hk, rfl⟩ := place_ne hne
    rcases hc k hk with howned | hnot
    · exact h.not_metadata howned hx
    · exact hnot hx
  refine ⟨⟨l, heap_written hheap (fun b hb x hlow hhigh => ?_) ?_⟩, ?_, h.apart⟩
  · refine hmeta x (.inl ⟨b, ?_, hlow, hhigh⟩)
    rwa [hheap.blocks_eq]
  · intro page hpage hrun
    by_cases hkept : (s.slabs.mem.place a bytes).readLE page 4 = s.slabs.mem.readLE page 4
    · rw [Mem.load32, hkept]
      exact hheap.clean page hpage hrun
    · obtain ⟨x, hlow, hhigh, hne⟩ : ∃ x, page ≤ x ∧ x < page + 4 ∧ s.slabs.mem.place a bytes x ≠ s.slabs.mem x := by
        by_contra hall
        push Not at hall
        exact hkept (Mem.readLE_congr hall)
      obtain ⟨k, hk, rfl⟩ := place_ne hne
      have hstart : (a + k) / 4096 * 4096 = page := by omega
      have hword := hunmarked k hk
      rw [hstart] at hword
      exact hword hrun
  · refine ⟨ls, fl, hrep.congr (fun p i hp x hlow hhigh => ?_) (fun p i hp o ho x hlow hhigh => ?_), hranked⟩
    · exact hmeta x (.inr ⟨(p, i), hp, .inl ⟨hlow, hhigh⟩⟩)
    · refine hmeta x (.inr ⟨(p, i), hp, .inr ⟨o, ?_, hlow, hhigh⟩⟩)
      rwa [(hrep.slab p i hp).freeObjects_eq]

lemma Inv.step {c : Call} (h : Inv s) (hc : c.Proper s ∧ c.Unmarked s) : ∃ t, step s c = some t ∧ Inv t := by
  cases c with
  | kmalloc => exact h.kmalloc_step hc.1
  | kfree => exact h.kfree_step hc.1
  | write => exact ⟨_, rfl, h.write_step hc.1 hc.2⟩

variable {kmallocCaches firstFrame : Word} {frames : Fin 8 → Word}

lemma slabInit_sameOff (mem : Mem) (kmallocCaches : Word) (hpage : ∀ i, SlabCaches.IsPage (physToVirt (frames i)))
    (hinj : Injective frames) :
    SlabCaches.Inv (SlabCaches.slabInit mem kmallocCaches frames) ∧
    SameOff (InPages (SlabCaches.slabInit mem kmallocCaches frames).pages) mem
      (SlabCaches.slabInit mem kmallocCaches frames).slabs.mem ∧
    ∀ x ∈ (SlabCaches.slabInit mem kmallocCaches frames).pages, ∃ i, x.1 = physToVirt (frames i) := by
  refine (SlabCaches.slabInit_rule (fun _ => True) (P := fun h => SameOff (InPages h.pages) mem h.slabs.mem ∧
    ∀ x ∈ h.pages, ∃ i, x.1 = physToVirt (frames i)) hpage hinj ?_ ⟨.refl, forall_mem_nil _⟩).imp_left fun hinv => hinv.inv
  rintro h ls fl i hrep ⟨hsame, hframes⟩
  refine ⟨?_, forall_mem_cons.mpr ⟨⟨i, rfl⟩, hframes⟩⟩
  have hmore : SameOff (InPages ((physToVirt (frames i), i) :: h.pages)) mem h.slabs.mem :=
    hsame.mono fun a ⟨p, hp, hin⟩ => ⟨p, mem_cons_of_mem _ hp, hin⟩
  refine hmore.trans (hrep.grow_sameOff (hpage i) (fun x hx => ?_) ?_)
  · exact spans_pages x (mem_cons_of_mem _ hx)
  · exact spans_pages (physToVirt (frames i), i) mem_cons_self

lemma Inv.of_boot {heap : KHeap} {caches : SlabCaches.Heap} (hheap : Heap.Inv (Heap.booted heap firstFrame) l)
    (hcaches : SlabCaches.Inv caches) (hsame : SameOff (InPages caches.pages) heap.mem caches.slabs.mem)
    (hframes : ∀ x ∈ caches.pages, ∃ i, x.1 = physToVirt (frames i)) (haligned : firstFrame.toNat % 4096 = 0)
    (hlow : firstFrame.toNat + 4096 ≤ 2 ^ 47) (hpage : ∀ i, SlabCaches.IsPage (physToVirt (frames i)))
    (hnew : ∀ i, frames i ≠ firstFrame) :
    Inv ⟨caches.slabs, heap.heapStart, caches.pages, [Heap.frameRun firstFrame 1], caches.live, []⟩ := by
  have hfirst : (physToVirt firstFrame).toNat = firstFrame.toNat + 0xFFFF800000000000 := Heap.physToVirt_toNat (by omega)
  have hpages : ∀ p ∈ caches.pages, p.1.toNat % 4096 = 0 := by
    intro p hp
    obtain ⟨i, hi⟩ := hframes p hp
    rw [hi]
    exact (hpage i).1
  have hapart : ∀ a, Heap.InRuns [Heap.frameRun firstFrame 1] a → ¬ InPages caches.pages a := by
    rintro a ⟨r, hr, hin⟩ ⟨p, hp, hin'⟩
    obtain rfl := mem_singleton.mp hr
    obtain ⟨i, hi⟩ := hframes p hp
    have hmod := hpages p hp
    have hne : p.1.toNat ≠ (physToVirt firstFrame).toNat := by
      rw [hi]
      exact fun heq => hnew i (SlabCaches.physToVirt_injective (BitVec.eq_of_toNat_eq heq))
    have hrun : (Heap.frameRun firstFrame 1).2 = (physToVirt firstFrame).toNat + 4096 := rfl
    have hstart : (Heap.frameRun firstFrame 1).1 = (physToVirt firstFrame).toNat := rfl
    omega
  exact .of_parts (heap_off_pages hheap hpages hapart hsame) hcaches hapart

lemma inv_boot (hboot : boot mem kmallocCaches firstFrame frames = some s) (haligned : firstFrame.toNat % 4096 = 0)
    (hlow : firstFrame.toNat + 4096 ≤ 2 ^ 47) (hpage : ∀ i, SlabCaches.IsPage (physToVirt (frames i))) (hinj : Injective frames)
    (hnew : ∀ i, frames i ≠ firstFrame) : Inv s := by
  obtain ⟨heap, hinit, rfl⟩ := map_eq_some_iff.mp hboot
  obtain ⟨hcaches, hsame, hframes⟩ := slabInit_sameOff heap.mem kmallocCaches hpage hinj
  exact .of_boot (Heap.inv_booted hinit haligned hlow) hcaches hsame hframes haligned hlow hpage hnew

def Call.Lawful (s : Allocator) : Call → Prop
  | .kmalloc size frame newFrames => Call.Proper s (.kmalloc size frame newFrames)
  | .kfree ptr => Call.Proper s (.kfree ptr)
  | .write a bytes => ∀ k < bytes.length, s.Owned (a + k)

lemma Call.Lawful.proper {c : Call} (h : c.Lawful s) : c.Proper s := by
  cases c with
  | kmalloc => exact h
  | kfree => exact h
  | write => exact fun k hk => .inl (h k hk)

instance (s : Allocator) (frame : Word) : Decidable (s.FreshPage frame) :=
  @instDecidableAnd _ _ inferInstance (List.decidableBAll _ s.runs)

instance (s : Allocator) (newFrames frames : Word) : Decidable (s.FreshRun newFrames frames) :=
  @instDecidableAnd _ _ (@instDecidableAnd _ _ inferInstance (@instDecidableAnd _ _ inferInstance
      (List.decidableBAll _ s.runs)))
    (List.decidableBAll _ s.pages)

instance (s : Allocator) (a : ℕ) : Decidable (s.Owned a) :=
  @instDecidableOr _ _ (List.decidableBEx _ s.small) (List.decidableBEx _ s.large)

instance (s : Allocator) (c : Call) : Decidable (c.Lawful s) :=
  match c with
  | .kmalloc size frame _ =>
    have : Decidable (∀ i ∈ slabCacheFor size, Asked size → SlabCaches.Grows s.slabs i → s.FreshPage frame) :=
      Option.decidableForallMem _
    inferInstanceAs (Decidable (_ ∧ _ ∧ _))
  | .kfree _ => @instDecidableOr _ _ inferInstance (@instDecidableOr _ _ (List.decidableBEx _ s.small)
      (List.decidableBEx _ s.large))
  | .write a bytes => inferInstanceAs (Decidable (∀ k < bytes.length, s.Owned (a + k)))

instance (runs : List (ℕ × ℕ)) (a : ℕ) : Decidable (Heap.InRuns runs a) := List.decidableBEx _ runs

instance (s : Allocator) (c : Call) : Decidable (c.Unmarked s) :=
  match c with
  | .kmalloc .. => .isTrue trivial
  | .kfree _ => .isTrue trivial
  | .write a bytes => inferInstanceAs (Decidable (∀ k < bytes.length, Heap.InRuns s.runs ((a + k) / 4096 * 4096) →
      (s.slabs.mem.place a bytes).load32 ((a + k) / 4096 * 4096) ≠ slabMagic))

theorem kfree_routes {mem : Mem} {kmallocCaches firstFrame : Word} {frames : Fin 8 → Word} {s : Allocator}
    (hboot : boot mem kmallocCaches firstFrame frames = some s) (haligned : firstFrame.toNat % 4096 = 0)
    (hlow : firstFrame.toNat + 4096 ≤ 2 ^ 47) (hpage : ∀ i, SlabCaches.IsPage (physToVirt (frames i))) (hinj : Injective frames)
    (hnew : ∀ i, frames i ≠ firstFrame) (calls : List Call)
    (hcalls : Runs.Guarded step (fun s c => c.Proper s ∧ c.Unmarked s) s calls) :
    (∃ t, Runs.run step s calls = some t) ∧ Runs.Always step Routes s calls := by
  have hinit := inv_boot hboot haligned hlow hpage hinj hnew
  refine ⟨Runs.progress (fun s c h hc => h.step hc) hinit hcalls, ?_⟩
  exact (Runs.progress_invariant (fun s c h hc => h.step hc) hinit hcalls).mono fun s h => h.routes

def booted : Option Allocator := boot (fun _ => 0) 0xFFFFFFFF80000000 0x10A000 SlabCaches.bootFrames

def mark : List Byte := [0xAB, 0x51, 0xAB, 0x51]

def takeAndFree : List Call :=
  [.kmalloc 100 0 0, .write 0xFFFF800000103040 mark, .kfree 0xFFFF800000103040,
    .kmalloc 4000 0 0, .write 0xFFFF80000010A028 mark, .kfree 0xFFFF80000010A028]

theorem kfree_routes_takeAndFree :
    ∃ s, booted = some s ∧ (∃ t, Runs.run step s takeAndFree = some t) ∧ Runs.Always step Routes s takeAndFree := by
  refine Runs.exists_of_check (Runs.Guarded step (fun s c => c.Lawful s ∧ c.Unmarked s) · takeAndFree) (by decide +kernel)
    fun s hboot hlawful => kfree_routes hboot (by decide) (by decide) ?_ ?_ ?_ takeAndFree ?_
  · decide +kernel
  · decide
  · decide +kernel
  · exact hlawful.mono fun s c hc => ⟨hc.1.proper, hc.2⟩

def markPage : List Call :=
  [.kmalloc 4000 0 0, .kmalloc 4080 0 0x110000, .write 0xFFFF800000111000 mark, .kmalloc 3000 0 0]

theorem kfree_misroutes :
    ∃ s t, booted = some s ∧ Runs.Guarded step (fun s c => c.Lawful s) s markPage ∧ Runs.run step s markPage = some t ∧
      ¬ Routes t := by
  obtain ⟨s, hboot, hlawful, t, ht, x, hx, hslab⟩ : ∃ s ∈ booted, Runs.Guarded step (fun s c => c.Lawful s) s markPage ∧
      ∃ t ∈ Runs.run step s markPage, ∃ x ∈ t.large, t.ToSlab x.1 := by
    decide +kernel
  exact ⟨s, t, hboot, hlawful, ht, fun hroutes => (hroutes.large x hx).1 hslab⟩

end Allocator

end KernelSmp.Memory
