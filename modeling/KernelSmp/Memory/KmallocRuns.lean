import KernelSmp.Base.Runs
import KernelSmp.Base.Stretches
import KernelSmp.Memory.KmallocCoalesce

/-! Runs of `kmalloc` and `kfree` on the large-block heap, one call at a time. -/

namespace KernelSmp.Memory

open Base LinkedList Stretches List Option

section clean

def Clean (runs : List (ℕ × ℕ)) (m : Mem) : Prop :=
  ∀ page, page % 4096 = 0 → (∃ r ∈ runs, r.1 ≤ page ∧ page < r.2) → m.load32 page ≠ slabMagic

def Aligned8 (v : Word) : Prop := v.toNat % 8 = 0

def Tame (v : Word) : Prop := v.toNat % 2 = 0 ∨ v = 1

variable {v : Word}

lemma Aligned8.tame (h : Aligned8 v) : Tame v := by
  rw [Aligned8] at h
  exact .inl (by omega)

lemma Aligned8.add {w : Word} (hv : Aligned8 v) (hw : Aligned8 w) : Aligned8 (v + w) := by
  simp only [Aligned8] at *
  bv_omega

lemma Aligned8.sub {w : Word} (hv : Aligned8 v) (hw : Aligned8 w) : Aligned8 (v - w) := by
  simp only [Aligned8] at *
  bv_omega

lemma aligned8_header : Aligned8 headerSize := rfl

lemma tame_zero : Tame 0 := Or.inl rfl
lemma tame_one : Tame 1 := Or.inr rfl
lemma tame_magic : Tame kmallocMagic := Or.inl rfl

variable {runs : List (ℕ × ℕ)} {m : Mem}

lemma Tame.ne_slabMagic (h : Tame v) : BitVec.ofNat 32 (v.toNat % 256 ^ 4) ≠ slabMagic := by
  rw [slabMagic]
  rcases h with h | rfl
  · intro heq
    have hnat := congrArg BitVec.toNat heq
    rw [BitVec.toNat_ofNat] at hnat
    change _ = 0x51AB51AB at hnat
    omega
  · decide

lemma Clean.set (h : Clean runs m) {a : Word} (f : HeaderField) (ha : Aligned8 a) (hv : Tame v) :
    Clean runs (mHeader.set m a f v) := by
  intro page hpage hrun
  have hfield : mHeader.offset f % 8 = 0 ∧ 4 ≤ mHeader.width f ∧ mHeader.width f ≤ 8 := by cases f <;> decide
  rw [Aligned8] at ha
  by_cases hhit : page = a.toNat + mHeader.offset f
  · have hread : Mem.readLE (mHeader.set m a f v) page 4 = v.toNat % 256 ^ 4 := by
      apply Mem.readLE_of_digits
      intro k hk
      rw [Layout.set, Mem.writeLE, hhit, if_pos (by omega), Nat.add_sub_cancel_left]
    rw [Mem.load32, hread]
    exact hv.ne_slabMagic
  · have hread : Mem.load32 (mHeader.set m a f v) page = m.load32 page := by
      rw [Mem.load32, Layout.set, Mem.readLE_writeLE_disjoint m (by omega), Mem.load32]
    rw [hread]
    exact h page hpage hrun

lemma Clean.fill (h : Clean runs m) {a n : ℕ} (ha : a % 8 = 0) (hn : n % 8 = 0) : Clean runs (m.fill a n 0) := by
  intro page hpage hrun
  by_cases hin : a ≤ page ∧ page < a + n
  · rw [Mem.load32, Mem.readLE_fill_zero m (by omega)]
    decide
  · rw [Mem.load32_fill_disjoint m 0 (by omega)]
    exact h page hpage hrun

lemma Clean.grow (h : Clean runs m) {a n : ℕ} (ha : a % 4096 = 0) (hn : n % 4096 = 0) :
    Clean (runs ++ [(a, a + n)]) (m.fill a n 0) := by
  rintro page hpage ⟨r, hr, hin⟩
  rcases mem_append.mp hr with hr | hr
  · exact h.fill (by omega) (by omega) page hpage ⟨r, hr, hin⟩
  · rw [mem_singleton.mp hr] at hin
    rw [Mem.load32, Mem.readLE_fill_zero m (by omega)]
    decide

variable {block : Word}

lemma Clean.backLink (h : Clean runs m) {next : Word} (hnext : Aligned8 next) (hblock : Aligned8 block) :
    Clean runs (backLink m next block) := by
  rw [Memory.backLink]
  split
  · exact h.set .prev hnext hblock.tame
  · exact h

variable {size : Word}

lemma Clean.splitBlock (h : Clean runs m) {current : Word} (hcurrent : Aligned8 current) (hsize : Aligned8 size)
    (hoff : mHeader.Off current (current + headerSize + size)) (hold : Aligned8 (mHeader.get m current .size))
    (hnext : Aligned8 (mHeader.get m current .next)) : Clean runs (splitBlock m current size) := by
  have hnew := (hcurrent.add aligned8_header).add hsize
  simp only [Memory.splitBlock, Layout.get_set_off hoff.symm, Layout.get_set_field (show HeaderField.prev ≠ .next by decide),
    get_set_next]
  apply Clean.set _ _ hcurrent hnew.tame
  apply Clean.set _ _ hcurrent hsize.tame
  apply Clean.backLink _ hnext hnew
  apply Clean.set _ _ hnew hcurrent.tame
  apply Clean.set _ _ hnew hnext.tame
  apply Clean.set _ _ hnew tame_one
  apply Clean.set _ _ hnew ((hold.sub hsize).sub aligned8_header).tame
  exact h.set _ hnew tame_magic

lemma Clean.absorb (h : Clean runs m) {behind : Word} (hblock : Aligned8 block) (hoff : mHeader.Off block behind)
    (hsize : Aligned8 (mHeader.get m block .size)) (hbehind : Aligned8 (mHeader.get m behind .size))
    (hnext : Aligned8 (mHeader.get m behind .next)) : Clean runs (absorb m block behind) := by
  simp only [Memory.absorb, Layout.get_set_off hoff]
  apply Clean.backLink _ hnext hblock
  apply Clean.set _ _ hblock hnext.tame
  exact h.set _ hblock (hsize.add (hbehind.add aligned8_header)).tame

lemma Clean.newRun {last : Word} (h : Clean runs m) (hblock : block.toNat % 4096 = 0) (hsize : Aligned8 size)
    (hlast : Aligned8 last) (hoff : mHeader.Off block (block + headerSize + size)) :
    Clean (runs ++ [(block.toNat, block.toNat + (numFrames size * 4096).toNat)]) (newRun m block size last) := by
  have hb : Aligned8 block := by
    rw [Aligned8]
    omega
  have hframes : (numFrames size * 4096).toNat % 4096 = 0 := by bv_omega
  have hrun : Aligned8 (numFrames size * 4096 - headerSize) := by
    apply Aligned8.sub _ aligned8_header
    rw [Aligned8]
    omega
  have hnew := (hb.add aligned8_header).add hsize
  have hfirst := ((((h.grow hblock hframes).set .magic hb tame_magic).set .size hb hrun.tame).set .isFree hb tame_zero).set
      .next
    hb tame_zero |>.set .prev hb hlast.tame
  simp only [Memory.newRun]
  split
  · have hget := (newBlock_get (m.fill block.toNat (numFrames size * 4096).toNat 0) block size last).2.1
    simp only [splitNew, Layout.get_set_off hoff.symm, hget]
    apply Clean.set _ _ hnew hb.tame
    apply Clean.set _ _ hb hnew.tame
    apply Clean.set _ _ hb hsize.tame
    apply Clean.set _ _ hnew tame_zero
    apply Clean.set _ _ hnew tame_one
    apply Clean.set _ _ hnew ((hrun.sub hsize).sub aligned8_header).tame
    exact hfirst.set _ hnew tame_magic
  · exact hfirst

variable {start : Word} {l₁ l₂ : List Block} {b : Block}

lemma Rep.next_aligned (h : Rep ⟨m, start⟩ (l₁ ++ b :: l₂)) : Aligned8 (mHeader.get m b.addr .next) := by
  rcases h.next_cases with ⟨hnext, -⟩ | ⟨d, l₃, rfl, hnext, -⟩
  · rw [hnext]
    rfl
  · rw [hnext]
    exact (h.sane d (by simp)).addr8

lemma Rep.size_aligned (h : Rep ⟨m, start⟩ (l₁ ++ b :: l₂)) : Aligned8 (mHeader.get m b.addr .size) := by
  rw [(h.stored b (by simp)).size]
  exact (h.sane b (by simp)).size8

lemma Clean.takeBlock (hc : Clean runs m) (h : Rep ⟨m, start⟩ (l₁ ++ b :: l₂)) (hsize : Aligned8 size)
    (hfit : size.toNat ≤ b.size.toNat) : Clean runs (takeBlock m b.addr size) := by
  have hb := h.sane b (by simp)
  rw [Memory.takeBlock]
  apply Clean.set _ _ hb.addr8 tame_zero
  split_ifs with hrest
  · rw [hasRest, (h.stored b (by simp)).size, decide_eq_true_eq] at hrest
    obtain ⟨_, -⟩ := hb.rest (hb.room hfit hrest)
    refine hc.splitBlock hb.addr8 hsize (.inl ?_) h.size_aligned h.next_aligned
    change b.addr.toNat + 40 ≤ _
    omega
  · exact hc

lemma Clean.mergeNext (hc : Clean runs m) (h : Rep ⟨m, start⟩ (l₁ ++ b :: l₂)) : Clean runs (mergeNext m b.addr) := by
  simp only [Memory.mergeNext]
  split_ifs with htouch
  · rcases h.next_cases with ⟨hnext, -⟩ | ⟨c, l₃, rfl, hnext, -⟩
    · rw [hnext] at htouch
      simp [touches] at htouch
    · have hlist : l₁ ++ b :: c :: l₃ = (l₁ ++ [b]) ++ c :: l₃ := by simp
      have h' := hlist ▸ h
      have hoff := ((pairwise_apart_middle.mp h.apart).1 c (by simp)).off
      rw [hnext]
      exact hc.absorb (h.sane b (by simp)).addr8 hoff h.size_aligned h'.size_aligned h'.next_aligned
  · exact hc

lemma Clean.mergePrev (hc : Clean runs m) (h : Rep ⟨m, start⟩ (l₁ ++ b :: l₂)) : Clean runs (mergePrev m b.addr) := by
  have hprev := h.prev
  simp only [Memory.mergePrev]
  split_ifs with htouch
  · induction l₁ using List.reverseRecOn with
    | nil =>
      have hzero := pointer_eq_none.mp hprev
      rw [hzero] at htouch
      simp [touches] at htouch
    | append_singleton l₁ p =>
      rw [map_append, map_singleton, lastOr_concat] at hprev
      have hlist : (l₁ ++ [p]) ++ b :: l₂ = l₁ ++ p :: b :: l₂ := by simp
      have h' := hlist ▸ h
      have hoff := ((pairwise_apart_middle.mp h'.apart).1 b (by simp)).off
      rw [(pointer_eq_some.mp hprev).1]
      exact hc.absorb (h.sane p (by simp)).addr8 hoff h'.size_aligned h.size_aligned h.next_aligned
  · exact hc

lemma Clean.kfreeSection (hc : Clean runs m) (h : Rep ⟨m, start⟩ (l₁ ++ b :: l₂)) : Clean runs (kfreeSection m b.addr) := by
  have hfree := h.set_isFree true rfl
  have hnext := hfree.mergeNext
  have hcnext := (hc.set .isFree (h.sane b (by simp)).addr8 tame_one).mergeNext hfree
  have hcprev := hcnext.mergePrev hnext
  rwa [mergeBehind_addr] at hcprev

end clean

namespace Heap

/-- The heap with the frame runs that it got, as the direct map shows them, and with the pointers handed out and not
freed, each with the requested size. -/
structure State where
  heap : KHeap
  runs : List (ℕ × ℕ)
  live : List (Word × Word)

/-- `newFrames` is what `pmm_alloc_frames` answers if it is called. -/
inductive Call
  | kmalloc (size newFrames : Word)
  | kfree (ptr : Word)

def frameRun (newFrames frames : Word) : ℕ × ℕ :=
  ((physToVirt newFrames).toNat, (physToVirt newFrames).toNat + (frames * 4096).toNat)

def grant (newFrames : Word) (runs : List (ℕ × ℕ)) (frames : Word) : Word × List (ℕ × ℕ) :=
  if newFrames = 0 then (0, runs) else (newFrames, runs ++ [frameRun newFrames frames])

def booted (heap : KHeap) (firstFrame : Word) : State := ⟨heap, [frameRun firstFrame 1], []⟩

section calls

variable (slabAlloc : Mem → Word → Word × Mem) (slabFree : Mem → Word → Mem)

def step (s : State) : Call → Option State
  | .kmalloc size newFrames =>
    (kmalloc slabAlloc (grant newFrames) s.heap s.runs size).map fun (ptr, heap, runs) =>
      ⟨heap, runs, if ptr = 0 then s.live else (ptr, size) :: s.live⟩
  | .kfree ptr =>
    match kfree slabFree s.heap ptr with
    | .ok heap => some ⟨heap, s.runs, s.live.filter (·.1 ≠ ptr)⟩
    | .error _ => none

end calls

def Fresh (runs : List (ℕ × ℕ)) (newFrames frames : Word) : Prop :=
  newFrames.toNat % 4096 = 0 ∧ newFrames.toNat + frames.toNat * 4096 ≤ 2 ^ 47 ∧
    ∀ r ∈ runs, r.2 ≤ (frameRun newFrames frames).1 ∨ (frameRun newFrames frames).2 ≤ r.1

def Allowed (s : State) : Call → Prop
  | .kmalloc size newFrames =>
    2048 < size.toNat ∧ size.toNat < 2 ^ 47 ∧ (newFrames ≠ 0 → Fresh s.runs newFrames (numFrames (align16 size)))
  | .kfree ptr => ∃ x ∈ s.live, x.1 = ptr

def Upward (s : State) : Call → Prop
  | .kmalloc size newFrames =>
    newFrames ≠ 0 → (stretches (s.runs ++ [frameRun newFrames (numFrames (align16 size))])).IsChain fun g g' => g'.2 ≠ g.1
  | .kfree _ => True

section wellFormed

def blocksFrom (m : Mem) : ℕ → Word → List Block
  | 0, _ => []
  | fuel + 1, a =>
    if a = 0 then []
    else ⟨a, mHeader.get m a .size, mHeader.get m a .isFree ≠ 0⟩ :: blocksFrom m fuel (mHeader.get m a .next)

def blocks (h : KHeap) : List Block := blocksFrom h.mem (2 ^ 64) h.heapStart

def Merged (a b : Block) : Prop := ¬ (a.free ∧ b.free ∧ (a.stop = b.addr.toNat ∨ b.stop = a.addr.toNat))

structure WellFormed (s : State) : Prop where
  links : DList (nextIn s.heap.mem) (prevIn s.heap.mem) (pointer s.heap.heapStart) ((blocks s.heap).map Block.addr)
  tiles : (blocks s.heap).flatMap Block.bytes = s.runs.flatMap points
  nodup : ((blocks s.heap).flatMap Block.bytes).Nodup
  live : ∀ x ∈ s.live, ∃ b ∈ blocks s.heap, b.addr + headerSize = x.1 ∧ b.free = false ∧ x.2.toNat ≤ b.size.toNat ∧
    ∀ c ∈ blocks s.heap, c.addr + headerSize = x.1 → c = b
  merged : (blocks s.heap).IsChain Merged

end wellFormed

section sizes

lemma align16_toNat {size : Word} (h : size.toNat < 2 ^ 47) :
    (align16 size).toNat % 16 = 0 ∧ size.toNat ≤ (align16 size).toNat ∧ (align16 size).toNat ≤ 2 ^ 47 := by
  have hmask : align16 size = (size + 15) &&& BitVec.ofNat 64 ((2 ^ 60 - 1) * 2 ^ 4) := rfl
  have hsum : (size + 15).toNat = size.toNat + 15 := by bv_omega
  rw [hmask, Word.toNat_and_field _ 4 60 (by decide), hsum]
  omega

lemma numFrames_toNat {size : Word} (h : size.toNat ≤ 2 ^ 47) : (numFrames size).toNat = (size.toNat + 4135) / 4096 ∧
    (numFrames size * 4096).toNat = (size.toNat + 4135) / 4096 * 4096 := by
  have hsum : (size + headerSize + 4095).toNat = size.toNat + 4135 := by
    rw [headerSize]
    bv_omega
  have hframes : (numFrames size).toNat = (size.toNat + 4135) / 4096 := by
    rw [numFrames, BitVec.toNat_udiv, hsum]
    rfl
  refine ⟨hframes, ?_⟩
  rw [BitVec.toNat_mul, hframes]
  change _ * 4096 % _ = _
  omega

lemma physToVirt_toNat {phys : Word} (h : phys.toNat < 2 ^ 47) : (physToVirt phys).toNat = phys.toNat + 0xFFFF800000000000 := by
  rw [physToVirt, hhdmOffset]
  bv_omega

end sizes

structure Inv (s : State) (l : List Block) : Prop where
  rep : Rep s.heap l
  nonempty : l ≠ []
  tiles : l.flatMap Block.bytes = s.runs.flatMap points
  runs : ∀ r ∈ s.runs, r.1 % 4096 = 0 ∧ r.1 < r.2 ∧ r.2 ≤ 2 ^ 64
  inside : ∀ b ∈ l, ∃ r ∈ s.runs, r.1 ≤ b.addr.toNat + 40 ∧ b.addr.toNat + 40 < r.2
  live : ∀ x ∈ s.live, ∃ b ∈ l, b.addr + headerSize = x.1 ∧ b.free = false ∧ x.2.toNat ≤ b.size.toNat
  coalesced : Coalesced l
  clean : Clean s.runs s.heap.mem

section inv

variable {s : State} {l l₁ l₂ : List Block} {b : Block} {size newFrames : Word}

lemma mem_bytes {p : ℕ} : p ∈ b.bytes ↔ b.addr.toNat ≤ p ∧ p < b.stop := by
  rw [Block.bytes, mem_range'_1, Block.stop]
  omega

lemma mem_of_ne {d : Block} (hd : d ∈ l₁ ++ b :: l₂) (hne : d ≠ b) (mid : List Block) : d ∈ l₁ ++ l₂ ∧ d ∈ l₁ ++ mid ++ l₂ := by
  simp only [mem_append, mem_cons] at hd ⊢
  tauto

lemma mem_or_mid {d : Block} {mid : List Block} (hd : d ∈ l₁ ++ mid ++ l₂) : d ∈ l₁ ++ b :: l₂ ∨ d ∈ mid := by
  simp only [mem_append] at hd ⊢
  tauto

lemma Inv.run_of_byte (h : Inv s l) (hb : b ∈ l) {p : ℕ} (hp : p ∈ b.bytes) : ∃ r ∈ s.runs, r.1 ≤ p ∧ p < r.2 := by
  have hmem := h.tiles ▸ mem_flatMap.mpr ⟨b, hb, hp⟩
  obtain ⟨r, hr, hpr⟩ := mem_flatMap.mp hmem
  rw [points, mem_range'_1] at hpr
  exact ⟨r, hr, by omega⟩

def runBlock (newFrames size : Word) : Block := ⟨physToVirt newFrames, numFrames size * 4096 - headerSize, false⟩

lemma runBlock_sane (hsize : size.toNat ≤ 2 ^ 47) (haligned : newFrames.toNat % 4096 = 0)
    (hhigh : newFrames.toNat + (numFrames size).toNat * 4096 ≤ 2 ^ 47) :
    (runBlock newFrames size).Sane ∧ size.toNat ≤ (runBlock newFrames size).size.toNat ∧
    (runBlock newFrames size).stop = (runBlock newFrames size).addr.toNat + (numFrames size * 4096).toNat := by
  obtain ⟨hframes, _⟩ := numFrames_toNat hsize
  have haddr : (runBlock newFrames size).addr.toNat = newFrames.toNat + 0xFFFF800000000000 :=
    physToVirt_toNat (by omega)
  have hblock : (runBlock newFrames size).size.toNat = (size.toNat + 4135) / 4096 * 4096 - 40 := by
    change (numFrames size * 4096 - headerSize).toNat = _
    rw [headerSize]
    bv_omega
  have hlow : hhdmOffset.toNat = 0xFFFF800000000000 := rfl
  refine ⟨⟨?_, ?_, ?_, ?_⟩, ?_, ?_⟩
  · omega
  · rw [Block.stop]
    omega
  · omega
  · omega
  · omega
  · rw [Block.stop]
    omega

lemma Inv.apart_fresh (h : Inv s l) (hb : b ∈ l) {c : Block} (hc : 0 < c.stop - c.addr.toNat)
    (hfresh : ∀ r ∈ s.runs, r.2 ≤ c.addr.toNat ∨ c.stop ≤ r.1) : b.Apart c := by
  by_contra hshare
  simp only [Block.Apart] at hshare
  have hstop : b.addr.toNat < b.stop := by
    rw [Block.stop]
    omega
  have hp : max b.addr.toNat c.addr.toNat ∈ b.bytes := mem_bytes.mpr (by omega)
  obtain ⟨r, hr, _⟩ := h.run_of_byte hb hp
  have hapart := hfresh r hr
  omega

lemma cutBlock_first (hfit : size.toNat ≤ b.size.toNat) :
    ∃ c ∈ cutBlock b size, c.addr = b.addr ∧ c.free = false ∧ size.toNat ≤ c.size.toNat := by
  rw [cutBlock]
  split
  · exact ⟨_, mem_cons_self, rfl, rfl, le_rfl⟩
  · exact ⟨_, mem_cons_self, rfl, rfl, hfit⟩

lemma kmalloc_large {P : Type} {slabAlloc : Mem → Word → Word × Mem} {alloc : P → Word → Word × P} {h : KHeap} {p : P}
    (hlarge : 2048 < size.toNat) :
    kmalloc slabAlloc alloc h p size = (kmallocSearch h (align16 size)).bind fun
      | .found current h => some (current + headerSize, kmallocClear h current, p)
      | .missing last =>
        if (alloc p (numFrames (align16 size))).1 = 0 then some (0, h, (alloc p (numFrames (align16 size))).2)
        else some (physToVirt (alloc p (numFrames (align16 size))).1 + headerSize,
          kmallocAppend h last (align16 size) (alloc p (numFrames (align16 size))).1,
          (alloc p (numFrames (align16 size))).2) := by
  have hzero : size ≠ 0 := by
    rintro rfl
    exact absurd hlarge (by decide)
  have hnot : ¬ size ≤ 2048 := by bv_omega
  simp only [kmalloc, if_neg hzero, if_neg hnot]
  rfl

lemma cutBlock_payload (hb : b.Sane) (hfit : size.toNat ≤ b.size.toNat) {c : Block} (hc : c ∈ cutBlock b size) :
    c.addr = b.addr ∨ c.addr.toNat + 40 ∈ b.bytes := by
  rw [cutBlock] at hc
  split_ifs at hc with hrest
  · have hroom := hb.room hfit hrest
    obtain ⟨hnew, -⟩ := hb.rest hroom
    have hlarge : size.toNat + 56 ≤ b.size.toNat := by
      have hsmall := hb.size_lt
      rw [headerSize, heapMinBlockSize] at hrest
      bv_omega
    simp only [mem_cons, not_mem_nil, or_false] at hc
    rcases hc with rfl | rfl
    · exact .inl rfl
    · right
      rw [mem_bytes, hnew, Block.stop]
      omega
  · left
    rw [mem_singleton.mp hc]

lemma Inv.taken (h : Inv s (l₁ ++ b :: l₂)) (hfree : b.free) {request : Word} (hrequest : request.toNat ≤ size.toNat)
    (hsize8 : size.toNat % 8 = 0) (hfit : size.toNat ≤ b.size.toNat) :
    Inv ⟨⟨takeBlock s.heap.mem b.addr size, s.heap.heapStart⟩, s.runs, (b.addr + headerSize, request) :: s.live⟩
      (l₁ ++ cutBlock b size ++ l₂) := by
  have hb := h.rep.sane b (by simp)
  obtain ⟨c, hc, hcaddr, hcfree, hcsize⟩ := cutBlock_first hfit
  have hmem : c ∈ l₁ ++ cutBlock b size ++ l₂ := by simp [hc]
  constructor
  · exact h.rep.take hsize8 hfit
  · exact ne_nil_of_mem hmem
  · rw [← h.tiles]
    simp only [flatMap_append, flatMap_cons, cutBlock_bytes hb hfit, append_assoc]
  · exact h.runs
  · intro y hy
    rcases mem_or_mid hy with hy | hy
    · exact h.inside y hy
    · rcases cutBlock_payload hb hfit hy with haddr | hbyte
      · rw [haddr]
        exact h.inside b (by simp)
      · exact h.run_of_byte (by simp) hbyte
  · refine forall_mem_cons.mpr ⟨⟨c, hmem, ?_, hcfree, hrequest.trans hcsize⟩, fun x hx => ?_⟩
    · rw [hcaddr]
    · obtain ⟨d, hd, haddr, hused, hlarge⟩ := h.live x hx
      have hdb : d ≠ b := by
        rintro rfl
        simp [hused] at hfree
      exact ⟨d, (mem_of_ne hd hdb _).2, haddr, hused, hlarge⟩
  · exact coalesced_cut h.coalesced hfree hb hfit
  · simp only
    exact h.clean.takeBlock h.rep hsize8 hfit

lemma Inv.cleared (h : Inv s l) (hb : b ∈ l) : Inv ⟨kmallocClear s.heap b.addr, s.runs, s.live⟩ l := by
  obtain ⟨_, _, rfl⟩ := append_of_mem hb
  have hsane := h.rep.sane b hb
  have hpayload := Aligned8.add hsane.addr8 aligned8_header
  refine ⟨h.rep.clear, h.nonempty, h.tiles, h.runs, h.inside, h.live, h.coalesced, ?_⟩
  exact h.clean.fill hpayload h.rep.size_aligned

lemma frameRun_eq (hsize : size.toNat ≤ 2 ^ 47) (hfresh : Fresh s.runs newFrames (numFrames size)) :
    frameRun newFrames (numFrames size) = ((runBlock newFrames size).addr.toNat, (runBlock newFrames size).stop) := by
  rw [(runBlock_sane hsize hfresh.1 hfresh.2.1).2.2]
  rfl

lemma Inv.apart_run (h : Inv s l) (hsize : size.toNat ≤ 2 ^ 47) (hfresh : Fresh s.runs newFrames (numFrames size)) :
    ∀ x ∈ l, x.Apart (runBlock newFrames size) := by
  intro x hx
  have hapart := hfresh.2.2
  rw [frameRun_eq hsize hfresh] at hapart
  refine h.apart_fresh hx ?_ hapart
  rw [Block.stop]
  omega

lemma Inv.append (h : Inv s l) {last request : Word} (hlast : (l.map Block.addr).getLast? = some last)
    (hrequest : request.toNat ≤ size.toNat) (hsize8 : size.toNat % 8 = 0) (hsize : size.toNat ≤ 2 ^ 47)
    (hfresh : Fresh s.runs newFrames (numFrames size)) :
    Inv ⟨kmallocAppend s.heap last size newFrames, s.runs ++ [frameRun newFrames (numFrames size)],
      (physToVirt newFrames + headerSize, request) :: s.live⟩ (l ++ cutBlock (runBlock newFrames size) size) := by
  have hrun := frameRun_eq hsize hfresh
  have hothers := h.apart_run hsize hfresh
  obtain ⟨haligned, hhigh, -⟩ := hfresh
  obtain ⟨hsane, hfit, hstop⟩ := runBlock_sane hsize haligned hhigh
  obtain ⟨_, _⟩ := numFrames_toNat hsize
  obtain ⟨c, hc, hcaddr, hcfree, hcsize⟩ := cutBlock_first hfit
  have haddr : (runBlock newFrames size).addr = physToVirt newFrames := rfl
  obtain ⟨l', t, rfl⟩ : ∃ l' t, l = l' ++ [t] := ⟨_, _, (dropLast_append_getLast h.nonempty).symm⟩
  obtain rfl : t.addr = last := by simpa using hlast
  have hrep := h.rep.append haddr rfl hsane hstop hsize8 hfit hothers
  rw [append_cons] at hrep
  have hpage : (physToVirt newFrames).toNat % 4096 = 0 := by
    rw [physToVirt_toNat (by omega)]
    omega
  constructor
  · exact hrep
  · simp
  · rw [flatMap_append, h.tiles, cutBlock_bytes hsane hfit, hrun, flatMap_append, flatMap_singleton, Block.bytes,
      points, Block.stop, Nat.add_assoc, Nat.add_sub_cancel_left]
  · refine forall_mem_append.mpr ⟨h.runs, forall_mem_singleton.mpr ?_⟩
    rw [hrun]
    exact ⟨hpage, by simp only; omega, hsane.high⟩
  · refine forall_mem_append.mpr ⟨fun x hx => ?_, fun y hy => ?_⟩
    · obtain ⟨r, hr, hin⟩ := h.inside x hx
      exact ⟨r, mem_append_left _ hr, hin⟩
    · refine ⟨_, mem_append_right _ (mem_singleton_self _), ?_⟩
      rw [hrun]
      rcases cutBlock_payload hsane hfit hy with hsame | hbyte
      · rw [hsame]
        simp only
        omega
      · exact mem_bytes.mp hbyte
  · refine forall_mem_cons.mpr ⟨⟨c, ?_, ?_, hcfree, hrequest.trans hcsize⟩, fun x hx => ?_⟩
    · exact mem_append_right _ hc
    · rw [hcaddr, haddr]
    · obtain ⟨d, hd, hlive⟩ := h.live x hx
      exact ⟨d, mem_append_left _ hd, hlive⟩
  · exact coalesced_append h.coalesced
  · have ht := h.rep.sane t (by simp)
    have hoff : mHeader.Off (physToVirt newFrames) (physToVirt newFrames + headerSize + size) := by
      change _ + 40 ≤ _ ∨ _ + 40 ≤ _
      rw [headerSize]
      bv_omega
    have hclean := h.clean.newRun hpage hsize8 ht.addr8 hoff
    simp only [kmallocAppend, ne_eq, ht.ne_zero]
    exact hclean.set .next ht.addr8 (Aligned8.tame hsane.addr8)

lemma Inv.freed (h : Inv s (l₁ ++ b :: l₂)) :
    Inv ⟨⟨kfreeSection s.heap.mem b.addr, s.heap.heapStart⟩, s.runs, s.live.filter (·.1 ≠ b.addr + headerSize)⟩
      (freeBlock l₁ b l₂) := by
  constructor
  · exact h.rep.kfree
  · intro hnil
    have htiles := h.rep.free_bytes
    rw [hnil] at htiles
    have hb : b.addr.toNat ∈ (l₁ ++ b :: l₂).flatMap Block.bytes := by
      refine mem_flatMap.mpr ⟨b, by simp, mem_bytes.mpr ⟨le_rfl, ?_⟩⟩
      rw [Block.stop]
      omega
    rw [← htiles, flatMap_nil] at hb
    exact not_mem_nil hb
  · exact h.rep.free_bytes.trans h.tiles
  · exact h.runs
  · intro y hy
    obtain ⟨x, hx, haddr⟩ := List.mem_map.mp (freeBlock_addr (List.mem_map_of_mem hy))
    rw [← haddr]
    exact h.inside x hx
  · intro x hx
    obtain ⟨hx, hne⟩ := mem_filter.mp hx
    obtain ⟨c, hc, haddr, hused, hlarge⟩ := h.live x hx
    have hcb : c ≠ b := by
      rintro rfl
      exact of_decide_eq_true hne haddr.symm
    exact ⟨c, mem_freeBlock (mem_of_ne hc hcb []).1 hused, haddr, hused, hlarge⟩
  · exact h.rep.free_coalesced h.coalesced
  · simp only
    exact h.clean.kfreeSection h.rep

end inv

section steps

variable {slabAlloc : Mem → Word → Word × Mem} {slabFree : Mem → Word → Mem} {s : State} {l : List Block}
  {size newFrames ptr : Word}

variable {b : Block}

lemma Inv.payload (h : Inv s l) (hb : b ∈ l) : (b.addr + headerSize).toNat = b.addr.toNat + 40 ∧ b.addr + headerSize ≠ 0 := by
  obtain ⟨r, hr, _⟩ := h.inside b hb
  have hhigh := (h.runs r hr).2.2
  rw [headerSize]
  constructor
  · bv_omega
  · bv_omega

lemma kmalloc_keeps (h : Inv s l) (hallowed : Allowed s (.kmalloc size newFrames)) :
    ∃ t l', step slabAlloc slabFree s (.kmalloc size newFrames) = some t ∧ Inv t l' ∧
      (t.runs = s.runs ∨ newFrames ≠ 0 ∧ t.runs = s.runs ++ [frameRun newFrames (numFrames (align16 size))]) := by
  obtain ⟨hlarge, hsmall, hfresh⟩ := hallowed
  obtain ⟨_, hrequest, hhigh⟩ := align16_toNat hsmall
  simp only [step, kmalloc_large hlarge]
  rcases h.rep.search (align16 size) with ⟨_, b, _, rfl, hfree, hfit, hsearch⟩ | hsearch
  · have hptr := (h.payload (b := b) (by simp)).2
    have htaken := h.taken hfree hrequest (by omega) hfit
    obtain ⟨c, hc, hcaddr, -⟩ := cutBlock_first hfit
    have hcleared := htaken.cleared (b := c) (by simp [hc])
    rw [hcaddr] at hcleared
    simp only [hsearch, bind_some, map_some, if_neg hptr]
    exact ⟨_, _, rfl, hcleared, .inl rfl⟩
  · simp only [hsearch, bind_some, grant]
    by_cases hnone : newFrames = 0
    · simp only [hnone]
      exact ⟨_, l, rfl, h, .inl rfl⟩
    · have hlast : (l.map Block.addr).getLast? = some ((l.map Block.addr).getLastD 0) := by
        rw [List.getLastD_eq_getLast?, List.getLast?_eq_getLast_of_ne_nil (by simpa using h.nonempty)]
        rfl
      have happend := h.append hlast hrequest (by omega) hhigh (hfresh hnone)
      obtain ⟨_, hc, hcaddr, -⟩ := cutBlock_first
        (runBlock_sane hhigh (hfresh hnone).1 (hfresh hnone).2.1).2.1
      have hptr := (happend.payload (mem_append_right l hc)).2
      rw [hcaddr] at hptr
      have hptr' : physToVirt newFrames + headerSize ≠ 0 := hptr
      simp only [if_neg hnone, map_some, if_neg hptr']
      exact ⟨_, _, rfl, happend, .inr ⟨hnone, rfl⟩⟩

lemma Inv.unmarked (h : Inv s l) (hb : b ∈ l) : s.heap.mem.load32 ((b.addr + headerSize) &&& ~~~0xFFF).toNat ≠ slabMagic := by
  have hmask : (b.addr + headerSize) &&& ~~~0xFFF = (b.addr + headerSize) &&& BitVec.ofNat 64 ((2 ^ 52 - 1) * 2 ^ 12) := rfl
  obtain ⟨r, hr, _⟩ := h.inside b hb
  obtain ⟨_, -, _⟩ := h.runs r hr
  rw [hmask, Word.toNat_and_field _ 12 52 (by decide), (h.payload hb).1]
  apply h.clean
  · omega
  · exact ⟨r, hr, by omega⟩

variable (slabFree) in
lemma kfree_used {m : Mem} {start : Word} (h : Rep ⟨m, start⟩ l) (hb : b ∈ l) (hused : b.free = false)
    (hptr : b.addr + headerSize ≠ 0) (hunmarked : m.load32 ((b.addr + headerSize) &&& ~~~0xFFF).toNat ≠ slabMagic) :
    kfree slabFree ⟨m, start⟩ (b.addr + headerSize) = .ok ⟨kfreeSection m b.addr, start⟩ := by
  have hstored := h.stored b hb
  have hback : b.addr + headerSize - headerSize = b.addr := by bv_omega
  simp only [kfree, if_neg hptr, if_neg hunmarked, hback, hstored.magic, hstored.free, hused, ne_eq, not_true_eq_false,
    if_false, Bool.false_eq_true]

variable (slabFree) in
lemma Inv.kfree_eq (h : Inv s l) (hb : b ∈ l) (hused : b.free = false) :
    kfree slabFree s.heap (b.addr + headerSize) = .ok ⟨kfreeSection s.heap.mem b.addr, s.heap.heapStart⟩ :=
  kfree_used slabFree h.rep hb hused (h.payload hb).2 (h.unmarked hb)

lemma kfree_keeps (h : Inv s l) (hallowed : Allowed s (.kfree ptr)) :
    ∃ t l', step slabAlloc slabFree s (.kfree ptr) = some t ∧ Inv t l' ∧ t.runs = s.runs := by
  obtain ⟨x, hx, rfl⟩ := hallowed
  obtain ⟨_, hb, haddr, hused, -⟩ := h.live x hx
  have hkfree := h.kfree_eq slabFree hb hused
  obtain ⟨_, _, rfl⟩ := append_of_mem hb
  simp only [step, ← haddr, hkfree]
  exact ⟨_, _, rfl, h.freed, rfl⟩

end steps

section wellFormed

variable {s : State} {l : List Block}

lemma blocksFrom_eq {m : Mem} {fuel : ℕ} {before : Option Word} {a : Word}
    (hseg : Seg (nextIn m) (prevIn m) before (pointer a) (l.map Block.addr) none) (hstored : ∀ b ∈ l, b.Stored m)
    (hfuel : l.length < fuel) : blocksFrom m fuel a = l := by
  induction l generalizing fuel before a with
  | nil =>
    cases fuel with
    | zero => cases hfuel
    | succ => exact if_pos (pointer_eq_none.mp hseg)
  | cons b l ih =>
    obtain ⟨ha, -, hrest⟩ := hseg
    obtain ⟨rfl, hzero⟩ := pointer_eq_some.mp ha
    have hb := hstored b mem_cons_self
    have hfree : decide (mHeader.get m b.addr .isFree ≠ 0) = b.free := by
      rw [hb.free]
      cases b.free <;> rfl
    cases fuel with
    | zero => cases hfuel
    | succ =>
      rw [blocksFrom, if_neg hzero, hb.size, hfree,
        ih hrest (fun c hc => hstored c (mem_cons_of_mem b hc)) (Nat.lt_of_succ_lt_succ hfuel)]

lemma Inv.blocks_eq (h : Inv s l) : blocks s.heap = l := blocksFrom_eq h.rep.links h.rep.stored h.rep.length_lt

lemma Inv.nodup (h : Inv s l) : (l.flatMap Block.bytes).Nodup := by
  refine nodup_flatMap.mpr ⟨fun b _ => nodup_range', ?_⟩
  apply h.rep.apart.imp
  intro a b hab p ha hb
  rw [mem_bytes] at ha hb
  rw [Block.Apart] at hab
  omega

def Block.span (b : Block) : ℕ × ℕ := (b.addr.toNat, b.stop)

lemma span_points (b : Block) : points (Block.span b) = b.bytes := by
  rw [points, Block.span, Block.stop, Block.bytes]
  congr 1
  omega

lemma Inv.not_below (h : Inv s l) (hup : (stretches s.runs).IsChain fun g g' => g'.2 ≠ g.1) :
    l.IsChain fun a b => b.stop ≠ a.addr.toNat := by
  have hpoints : (l.map Block.span).flatMap points = l.flatMap Block.bytes := by
    rw [flatMap_map]
    exact flatMap_congr fun b _ => span_points b
  have hspan : ∀ i ∈ l.map Block.span, i.1 < i.2 := by
    refine List.forall_mem_map.mpr fun b _ => ?_
    rw [Block.span, Block.stop]
    omega
  have heq := stretches_congr hspan (fun r hr => (h.runs r hr).2.1) (hpoints.trans h.tiles)
  have hchain := chain_of_stretches hspan (hpoints ▸ h.nodup) (heq ▸ hup)
  rwa [isChain_map] at hchain

lemma Inv.wellFormed (h : Inv s l) (hup : (stretches s.runs).IsChain fun g g' => g'.2 ≠ g.1) : WellFormed s := by
  have hl := h.blocks_eq
  constructor
  · exact hl.symm ▸ h.rep.links
  · exact hl.symm ▸ h.tiles
  · exact hl.symm ▸ h.nodup
  · rw [hl]
    intro x hx
    obtain ⟨b, hb, haddr, hused, hlarge⟩ := h.live x hx
    refine ⟨b, hb, haddr, hused, hlarge, fun c hc hsame => ?_⟩
    apply inj_on_of_nodup_map h.rep.nodup hc hb
    bv_omega
  · rw [hl]
    rw [isChain_iff_forall_rel_of_append_cons_cons]
    rintro a b l₁ l₂ hab ⟨ha, hb, hadjacent⟩
    rcases hadjacent with hforward | hbackward
    · exact isChain_iff_forall_rel_of_append_cons_cons.mp h.coalesced hab ⟨ha, hb, hforward⟩
    · exact isChain_iff_forall_rel_of_append_cons_cons.mp (h.not_below hup) hab hbackward

end wellFormed

section boot

variable {mem : Mem} {firstFrame : Word} {heap : KHeap}

lemma inv_booted (hinit : kmallocInit mem firstFrame = some heap) (haligned : firstFrame.toNat % 4096 = 0)
    (hlow : firstFrame.toNat + 4096 ≤ 2 ^ 47) :
    Inv (booted heap firstFrame) [⟨physToVirt firstFrame, 4096 - headerSize, true⟩] := by
  have haddr : (physToVirt firstFrame).toNat = _ := physToVirt_toNat (by omega)
  have hsize : (4096 - headerSize).toNat = 4056 := rfl
  have hzero : physToVirt firstFrame ≠ 0 := by bv_omega
  have hpage : (physToVirt firstFrame).toNat % 4096 = 0 := by omega
  have hb8 : Aligned8 (physToVirt firstFrame) := by
    rw [Aligned8]
    omega
  rw [kmallocInit] at hinit
  split at hinit
  · cases hinit
  · cases hinit
    refine ⟨⟨?_, ?_, pairwise_singleton _ _, ?_⟩, by simp, ?_, ?_, ?_, forall_mem_nil _,
      isChain_singleton _, ?_⟩
    · refine ⟨pointer_of_ne hzero, ?_, ?_⟩
      · exact congrArg pointer get_set_prev
      · apply pointer_eq_none.mpr
        simp [booted, Layout.get_set_field]
    · refine forall_mem_singleton.mpr ⟨?_, ?_, ?_⟩
      · simp [booted, Layout.get_set_field]
      · simp [booted, Layout.get_set_field]
      · simp [booted, Layout.get_set_field]
    · refine forall_mem_singleton.mpr ⟨?_, ?_, ?_, ?_⟩
      · change 0xFFFF800000000000 ≤ (physToVirt firstFrame).toNat
        omega
      · change (physToVirt firstFrame).toNat + 40 + 4056 ≤ 2 ^ 64
        omega
      · exact hb8
      · simp only [hsize]
    · simp only [booted, flatMap_singleton, points, frameRun, Nat.add_sub_cancel_left]
      rfl
    · refine forall_mem_singleton.mpr ⟨hpage, ?_, ?_⟩
      · simp [frameRun]
      · change (physToVirt firstFrame).toNat + 4096 ≤ 2 ^ 64
        omega
    · refine forall_mem_singleton.mpr ⟨_, mem_singleton_self _, ?_, ?_⟩
      · simp [frameRun]
      · simp [frameRun]
    · have hnone : Clean [] mem := fun page _ hrun => by
        obtain ⟨_, hr, -⟩ := hrun
        cases hr
      have hgrown := hnone.grow hpage (show 4096 % 4096 = 0 from rfl)
      apply Clean.set _ _ hb8 tame_zero
      apply Clean.set _ _ hb8 tame_zero
      apply Clean.set _ _ hb8 tame_one
      apply Clean.set _ _ hb8 (.inl rfl)
      exact hgrown.set _ hb8 tame_magic

end boot

section runs

variable {slabAlloc : Mem → Word → Word × Mem} {slabFree : Mem → Word → Mem}

def Sound (s : State) : Prop := ∃ l, Inv s l ∧ (stretches s.runs).IsChain fun g g' => g'.2 ≠ g.1

lemma Sound.wellFormed {s : State} (h : Sound s) : WellFormed s := by
  obtain ⟨_, hinv, hup⟩ := h
  exact hinv.wellFormed hup

lemma step_sound {s : State} {c : Call} (h : Sound s) (hallowed : Allowed s c ∧ Upward s c) :
    ∃ t, step slabAlloc slabFree s c = some t ∧ Sound t := by
  obtain ⟨_, hinv, hup⟩ := h
  cases c with
  | kmalloc =>
    obtain ⟨t, l', ht, hinv', hruns⟩ := kmalloc_keeps hinv hallowed.1
    refine ⟨t, ht, l', hinv', ?_⟩
    rcases hruns with hruns | ⟨hsome, hruns⟩
    · exact hruns ▸ hup
    · exact hruns ▸ hallowed.2 hsome
  | kfree =>
    obtain ⟨t, l', ht, hinv', hruns⟩ := kfree_keeps hinv hallowed.1
    exact ⟨t, ht, l', hinv', hruns ▸ hup⟩

theorem heap_well_formed {mem : Mem} {firstFrame : Word} {heap : KHeap} (hinit : kmallocInit mem firstFrame = some heap)
    (haligned : firstFrame.toNat % 4096 = 0) (hlow : firstFrame.toNat + 4096 ≤ 2 ^ 47) {calls : List Call}
    (hallowed : Runs.Guarded (step slabAlloc slabFree) Allowed (booted heap firstFrame) calls)
    (hup : Runs.Guarded (step slabAlloc slabFree) Upward (booted heap firstFrame) calls) :
    (∃ s, Runs.run (step slabAlloc slabFree) (booted heap firstFrame) calls = some s) ∧
    Runs.Always (step slabAlloc slabFree) WellFormed (booted heap firstFrame) calls := by
  have hstart : Sound (booted heap firstFrame) := ⟨_, inv_booted hinit haligned hlow, isChain_singleton _⟩
  have hboth := hallowed.and hup
  constructor
  · exact Runs.progress (fun s c hs hc => step_sound hs hc) hstart hboth
  · apply Runs.Always.mono fun s hs => Sound.wellFormed hs
    apply Runs.invariant _ hstart hboth
    intro s c t hs hc ht
    obtain ⟨t', ht', hsound⟩ := step_sound hs hc
    cases ht.symm.trans ht'
    exact hsound

section small

instance (runs : List (ℕ × ℕ)) (newFrames frames : Word) : Decidable (Fresh runs newFrames frames) := by
  unfold Fresh
  infer_instance

instance (s : State) (c : Call) : Decidable (Allowed s c) :=
  match c with
  | .kmalloc _ newFrames => inferInstanceAs (Decidable (_ ∧ _ ∧ (newFrames ≠ 0 → Fresh s.runs newFrames _)))
  | .kfree ptr => (List.decidableBEx (fun x : Word × Word => x.1 = ptr) s.live : Decidable (∃ x ∈ s.live, x.1 = ptr))

instance (s : State) (c : Call) : Decidable (Upward s c) :=
  match c with
  | .kmalloc size newFrames =>
    inferInstanceAs (Decidable (newFrames ≠ 0 →
      (stretches (s.runs ++ [frameRun newFrames (numFrames (align16 size))])).IsChain fun g g' => g'.2 ≠ g.1))
  | .kfree _ => inferInstanceAs (Decidable True)

def smallHeap : KHeap := (kmallocInit (fun _ => 0) 0x105000).getD ⟨fun _ => 0, 0⟩

def smallStep : State → Call → Option State := step (fun m _ => (0, m)) (fun m _ => m)

def growAbove : List Call := [.kmalloc 4080 0x106000, .kfree 0xFFFF800000106028]
def growBelow : List Call := [.kmalloc 4080 0x103000, .kfree 0xFFFF800000103028]

theorem heap_well_formed_above : kmallocInit (fun _ => 0) 0x105000 = some smallHeap ∧
    Runs.Guarded smallStep Allowed (booted smallHeap 0x105000) growAbove ∧
    Runs.Guarded smallStep Upward (booted smallHeap 0x105000) growAbove ∧
    Runs.Always smallStep WellFormed (booted smallHeap 0x105000) growAbove := by
  have hallowed : Runs.Guarded smallStep Allowed (booted smallHeap 0x105000) growAbove := by decide +kernel
  have hup : Runs.Guarded smallStep Upward (booted smallHeap 0x105000) growAbove := by decide +kernel
  have hinit : kmallocInit (fun _ => 0) 0x105000 = some smallHeap := rfl
  exact ⟨hinit, hallowed, hup, (heap_well_formed hinit (by decide) (by decide) hallowed hup).2⟩

/-- The new frames lie directly below the first one. Once they are free again, two free blocks are neighbours in the list
and in memory, but `kfree` compares only the end of the first with the beginning of the second. -/
theorem heap_not_merged_below : Runs.Guarded smallStep Allowed (booted smallHeap 0x105000) growBelow ∧
    ∃ s, Runs.run smallStep (booted smallHeap 0x105000) growBelow = some s ∧ ¬ WellFormed s := by
  refine ⟨by decide +kernel, Runs.exists_of_check (fun s => blocks s.heap =
    [⟨0xFFFF800000105000, 4056, true⟩, ⟨0xFFFF800000103000, 8152, true⟩]) (by decide +kernel) fun s hrun hs hwell => ?_⟩
  have hmerged := hwell.merged
  rw [hs, isChain_pair] at hmerged
  exact hmerged ⟨rfl, rfl, .inr rfl⟩

end small

end runs

end Heap

end KernelSmp.Memory
