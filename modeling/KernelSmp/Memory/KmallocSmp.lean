import KernelSmp.Memory.KmallocRuns

/-! `kmalloc` and `kfree` on several CPUs. Each section under `heap_lock_` is one step; between its
two sections `kmalloc` holds on to the tail that the first one found. -/

namespace KernelSmp.Memory.HeapSmp

open Base LinkedList Heap List

variable {Cpu : Type} [DecidableEq Cpu]

inductive Pc
  | idle
  | clearing (current : Word)
  | expanding (last size : Word)
deriving DecidableEq

structure State (Cpu : Type) where
  shared : Heap.State
  created : List Word
  pc : Cpu → Pc

inductive Action (Cpu : Type)
  | search (cpu : Cpu) (size : Word)
  | clear (cpu : Cpu)
  | append (cpu : Cpu) (newFrames : Word)
  | kfree (cpu : Cpu) (ptr : Word)

def splitOff (m : Mem) (block size : Word) : List Word :=
  if hasRest m block size then [block + headerSize + size] else []

def newBlocks (m : Mem) (block size last : Word) : List Word :=
  block :: splitOff (newBlock (m.fill block.toNat (numFrames size * 4096).toNat 0) block size last) block size

def mergedAway (m : Mem) (header : Word) : List Word :=
  let m := mHeader.set m header .isFree 1
  let next := mHeader.get m header .next
  let m' := mergeNext m header
  let prev := mHeader.get m' header .prev
  (if touches m header next next then [next] else []) ++ if touches m' prev header prev then [header] else []

def step (slabFree : Mem → Word → Mem) (s : State Cpu) : Action Cpu → Option (State Cpu)
  | .search cpu size =>
    match s.pc cpu with
    | .idle =>
      if size = 0 then some s
      else (kmallocSearch s.shared.heap (align16 size)).map fun
        | .found current heap =>
          { shared := ⟨heap, s.shared.runs, (current + headerSize, align16 size) :: s.shared.live⟩
            created := splitOff s.shared.heap.mem current (align16 size) ++ s.created
            pc := Function.update s.pc cpu (.clearing current) }
        | .missing last => { s with pc := Function.update s.pc cpu (.expanding last (align16 size)) }
    | _ => none
  | .clear cpu =>
    match s.pc cpu with
    | .clearing current =>
      some { s with
        shared := ⟨kmallocClear s.shared.heap current, s.shared.runs, s.shared.live⟩
        pc := Function.update s.pc cpu .idle }
    | _ => none
  | .append cpu newFrames =>
    match s.pc cpu with
    | .expanding last size =>
      if newFrames = 0 then some { s with pc := Function.update s.pc cpu .idle }
      else
        some {
          shared := ⟨kmallocAppend s.shared.heap last size newFrames,
            s.shared.runs ++ [frameRun newFrames (numFrames size)],
            (physToVirt newFrames + headerSize, size) :: s.shared.live⟩
          created := newBlocks s.shared.heap.mem (physToVirt newFrames) size last ++ s.created
          pc := Function.update s.pc cpu .idle }
    | _ => none
  | .kfree cpu ptr =>
    match s.pc cpu, kfree slabFree s.shared.heap ptr with
    | .idle, .ok heap =>
      some { s with
        shared := ⟨heap, s.shared.runs, s.shared.live.filter (·.1 ≠ ptr)⟩
        created := s.created.filter (· ∉ mergedAway s.shared.heap.mem (ptr - headerSize)) }
    | _, _ => none

def Pc.Served (runs : List (ℕ × ℕ)) (newFrames : Word) : Pc → Prop
  | .expanding _ size => newFrames ≠ 0 → numFrames size ≠ 0 ∧ Fresh runs newFrames (numFrames size)
  | _ => True

def Pc.AtTail (heap : KHeap) (newFrames : Word) : Pc → Prop
  | .expanding last size =>
    newFrames ≠ 0 → ((blocks heap).map Block.addr).getLast? = some last ∧ size.toNat + 40 < 2 ^ 64
  | _ => True

def Allowed (s : State Cpu) : Action Cpu → Prop
  | .append cpu newFrames => (s.pc cpu).Served s.shared.runs newFrames
  | .kfree _ ptr => (∃ x ∈ s.shared.live, x.1 = ptr) ∧ ∀ cpu, s.pc cpu ≠ .clearing (ptr - headerSize)
  | _ => True

def TailKept (s : State Cpu) : Action Cpu → Prop
  | .append cpu newFrames => (s.pc cpu).AtTail s.shared.heap newFrames
  | _ => True

structure NoneLost (s : State Cpu) : Prop where
  links : DList (nextIn s.shared.heap.mem) (prevIn s.shared.heap.mem) (pointer s.shared.heap.heapStart)
    ((blocks s.shared.heap).map Block.addr)
  reached : ∀ a ∈ s.created, a ∈ (blocks s.shared.heap).map Block.addr

def booted (heap : KHeap) (firstFrame : Word) : State Cpu :=
    ⟨Heap.booted heap firstFrame, [physToVirt firstFrame], fun _ => .idle⟩

variable {m : Mem} {start a : Word} {l₁ l₂ : List Block} {b : Block}

lemma mem_mergeNext (h : Rep ⟨m, start⟩ (l₁ ++ b :: l₂)) (ha : a ∈ (l₁ ++ b :: l₂).map Block.addr)
    (hkept : touches m b.addr (mHeader.get m b.addr .next) (mHeader.get m b.addr .next) → a ≠ mHeader.get m b.addr .next) :
    a ∈ (l₁ ++ (mergeBehind b l₂).1 :: (mergeBehind b l₂).2).map Block.addr := by
  rw [map_append, mem_append] at ha ⊢
  rcases ha with ha | ha
  · exact .inl ha
  · rcases mem_mergeBehind_or ha with ha | ⟨c, l, rfl, hmerge, ha⟩
    · exact .inr ha
    · have hnext := (pointer_eq_some.mp h.next).1
      rw [hnext, h.touches c (by simp)] at hkept
      exact absurd ha (hkept hmerge)

lemma mem_mergePrev (h : Rep ⟨m, start⟩ (l₁ ++ b :: l₂)) (ha : a ∈ (l₁ ++ b :: l₂).map Block.addr)
    (hkept : touches m (mHeader.get m b.addr .prev) b.addr (mHeader.get m b.addr .prev) → a ≠ b.addr) :
    a ∈ (mergeBefore l₁ b l₂).map Block.addr := by
  rcases mem_mergeBefore_or ha with ha | ⟨l, p, rfl, hmerge, ha⟩
  · exact ha
  · have hprev := h.prev
    rw [map_append, map_singleton, lastOr_concat] at hprev
    have hlist : (l ++ [p]) ++ b :: l₂ = l ++ p :: b :: l₂ := by simp
    have h' := hlist ▸ h
    rw [(pointer_eq_some.mp hprev).1, h'.touches p (by simp)] at hkept
    exact absurd ha (hkept hmerge)

lemma mem_kfree (h : Rep ⟨m, start⟩ (l₁ ++ b :: l₂)) (ha : a ∈ (l₁ ++ b :: l₂).map Block.addr)
    (hkept : a ∉ mergedAway m b.addr) : a ∈ (freeBlock l₁ b l₂).map Block.addr := by
  simp only [mergedAway, mem_append, not_or] at hkept
  have hfree : Rep ⟨mHeader.set m b.addr .isFree 1, start⟩ (l₁ ++ ⟨b.addr, b.size, true⟩ :: l₂) := h.set_isFree true rfl
  have hnext := mem_mergeNext hfree (by simpa using ha) fun htouch hsame =>
    hkept.1 (by simp only [htouch, hsame, if_true, mem_singleton])
  have hprev := hfree.mergeNext
  refine mem_mergePrev hprev hnext ?_
  rw [mergeBehind_addr]
  exact fun htouch hsame => hkept.2 (by simp only [htouch, hsame, if_true, mem_singleton])

variable {size : Word}

lemma splitOff_mem (hsize : mHeader.get m b.addr .size = b.size) :
    ∀ a ∈ splitOff m b.addr size, a ∈ (cutBlock b size).map Block.addr := by
  intro a ha
  rw [splitOff, hasRest, hsize] at ha
  rw [cutBlock]
  split_ifs at ha with hrest
  · rw [if_pos (of_decide_eq_true hrest)]
    simp [ha]
  · cases ha

variable {slabFree : Mem → Word → Mem} {s t : State Cpu} {l l' : List Block} {cpu : Cpu}

def PcGood (l : List Block) : Pc → Prop
  | .idle => True
  | .clearing current => ∃ b ∈ l, b.addr = current ∧ b.free = false
  | .expanding _ size => size.toNat % 16 = 0

structure Good (s : State Cpu) (l : List Block) : Prop where
  inv : Inv s.shared l
  created : ∀ a ∈ s.created, a ∈ l.map Block.addr
  pcs : ∀ cpu, PcGood l (s.pc cpu)

omit [DecidableEq Cpu] in
lemma Good.pcs_mono (h : Good s l) (hkept : ∀ b ∈ l, b.free = false → b ∈ l') (other : Cpu) : PcGood l' (s.pc other) := by
  have hpc := h.pcs other
  cases hcase : s.pc other with
  | idle => trivial
  | clearing =>
    rw [hcase] at hpc
    obtain ⟨b, hb, haddr, hused⟩ := hpc
    exact ⟨b, hkept b hb hused, haddr, hused⟩
  | expanding =>
    rwa [hcase] at hpc

lemma pcGood_update {pc : Cpu → Pc} {v : Pc} (hv : PcGood l v) (h : ∀ other, PcGood l (pc other)) :
    ∀ other, PcGood l (Function.update pc cpu v other) := by
  apply (Function.forall_update_iff pc fun _ p => PcGood l p).mpr
  exact ⟨hv, fun other _ => h other⟩

lemma align16_mod (size : Word) : (align16 size).toNat % 16 = 0 := by
  have hmask : align16 size = (size + 15) &&& BitVec.ofNat 64 ((2 ^ 60 - 1) * 2 ^ 4) := rfl
  rw [hmask, Word.toNat_and_field _ 4 60 (by decide)]
  omega

lemma search_good (h : Good s l) (hstep : step slabFree s (.search cpu size) = some t) : ∃ l', Good t l' := by
  simp only [step] at hstep
  split at hstep
  · split at hstep
    · cases hstep
      exact ⟨l, h⟩
    · have h16 := align16_mod size
      rcases h.inv.rep.search (align16 size) with ⟨l₁, b, l₂, rfl, hfree, hfit, hsearch⟩ | hsearch
      · rw [hsearch] at hstep
        cases hstep
        obtain ⟨c, hc, hcaddr, hcfree, -⟩ := cutBlock_first hfit
        have hmem : c ∈ l₁ ++ cutBlock b (align16 size) ++ l₂ := by simp [hc]
        refine ⟨_, h.inv.taken hfree le_rfl (by omega) hfit, fun a ha => ?_, ?_⟩
        · rcases mem_append.mp ha with ha | ha
          · have hpiece := splitOff_mem (h.inv.rep.stored b (by simp)).size a ha
            simp [hpiece]
          · obtain ⟨d, hd, rfl⟩ := mem_map.mp (h.created a ha)
            by_cases hdb : d = b
            · exact mem_map.mpr ⟨c, hmem, hcaddr.trans (congrArg Block.addr hdb.symm)⟩
            · exact mem_map_of_mem (mem_of_ne hd hdb _).2
        · refine pcGood_update ⟨c, hmem, hcaddr, hcfree⟩ (h.pcs_mono ?_)
          intro d hd hused
          have hdb : d ≠ b := by
            rintro rfl
            simp [hused] at hfree
          exact (mem_of_ne hd hdb _).2
      · rw [hsearch] at hstep
        cases hstep
        exact ⟨l, h.inv, h.created, pcGood_update h16 h.pcs⟩
  · cases hstep

lemma clear_good (h : Good s l) (hstep : step slabFree s (.clear cpu) = some t) : Good t l := by
  simp only [step] at hstep
  split at hstep
  · rename_i current hpc
    have hgood := h.pcs cpu
    rw [hpc] at hgood
    obtain ⟨_, hb, rfl, -⟩ := hgood
    cases hstep
    exact ⟨h.inv.cleared hb, h.created, pcGood_update trivial h.pcs⟩
  · cases hstep

lemma small_of_fresh {runs : List (ℕ × ℕ)} {newFrames : Word} (hframes : numFrames size ≠ 0)
    (hfresh : Fresh runs newFrames (numFrames size)) (hsize : size.toNat + 40 < 2 ^ 64) : size.toNat ≤ 2 ^ 47 := by
  have hhigh := hfresh.2.1
  have hcount : (numFrames size).toNat = (size.toNat + 4135) % 2 ^ 64 / 4096 := by
    rw [numFrames, headerSize, BitVec.toNat_udiv, BitVec.toNat_add, BitVec.toNat_add, Nat.mod_add_mod]
    rfl
  have hpos : (numFrames size).toNat ≠ 0 := fun hzero => hframes (BitVec.eq_of_toNat_eq hzero)
  omega

lemma append_good (h : Good s l) {newFrames : Word} (hallowed : Allowed s (.append cpu newFrames))
    (htail : TailKept s (.append cpu newFrames)) (hstep : step slabFree s (.append cpu newFrames) = some t) :
    ∃ l', Good t l' := by
  simp only [step] at hstep
  split at hstep
  · rename_i last size hpc
    split_ifs at hstep with hsome
    · cases hstep
      exact ⟨l, h.inv, h.created, pcGood_update trivial h.pcs⟩
    · cases hstep
      simp only [Allowed, TailKept, hpc] at hallowed htail
      obtain ⟨hframes, hfresh⟩ := hallowed hsome
      obtain ⟨hlast, hsize⟩ := htail hsome
      have hsmall := small_of_fresh hframes hfresh hsize
      have hrounded : size.toNat % 16 = 0 := by
        have hgood := h.pcs cpu
        rwa [hpc] at hgood
      rw [h.inv.blocks_eq] at hlast
      refine ⟨_, h.inv.append hlast le_rfl (by omega) hsmall hfresh, fun a ha => ?_, ?_⟩
      · rw [map_append, mem_append]
        rcases mem_append.mp ha with ha | ha
        · right
          rw [newBlocks, mem_cons] at ha
          rcases ha with rfl | ha
          · obtain ⟨c, hc, hcaddr, -⟩ := cutBlock_first (runBlock_sane hsmall hfresh.1 hfresh.2.1).2.1
            exact mem_map.mpr ⟨c, hc, hcaddr⟩
          · exact splitOff_mem (newBlock_get _ _ _ _).2.1 a ha
        · exact .inl (h.created a ha)
      · exact pcGood_update trivial (h.pcs_mono fun b hb _ => mem_append_left _ hb)
  · cases hstep

lemma kfree_good (h : Good s l) {ptr : Word} (hallowed : Allowed s (.kfree cpu ptr))
    (hstep : step slabFree s (.kfree cpu ptr) = some t) : ∃ l', Good t l' := by
  obtain ⟨⟨x, hx, rfl⟩, hreturned⟩ := hallowed
  obtain ⟨b, hb, haddr, hused, -⟩ := h.inv.live x hx
  have hback : x.1 - headerSize = b.addr := by
    rw [← haddr]
    bv_omega
  have hkfree := h.inv.kfree_eq slabFree hb hused
  obtain ⟨_, _, rfl⟩ := append_of_mem hb
  simp only [step, ← haddr, hkfree] at hstep
  cases hpc : s.pc cpu with
  | idle =>
    simp only [hpc, Option.some.injEq] at hstep
    subst hstep
    refine ⟨_, h.inv.freed, fun a ha => ?_, fun other => ?_⟩
    · obtain ⟨ha, hkept⟩ := mem_filter.mp ha
      rw [haddr, hback, decide_eq_true_eq] at hkept
      exact mem_kfree h.inv.rep (h.created a ha) hkept
    · have hgood := h.pcs other
      cases hother : s.pc other with
      | idle => trivial
      | clearing =>
        rw [hother] at hgood
        obtain ⟨d, hd, hda, hdused⟩ := hgood
        have hdb : d ≠ b := by
          rintro rfl
          exact hreturned other (by rw [hother, hback, hda])
        exact ⟨d, mem_freeBlock (mem_of_ne hd hdb []).1 hdused, hda, hdused⟩
      | expanding =>
        rwa [hother] at hgood
  | clearing =>
    simp only [hpc] at hstep
    cases hstep
  | expanding =>
    simp only [hpc] at hstep
    cases hstep

lemma step_good (h : Good s l) {a : Action Cpu} (hallowed : Allowed s a ∧ TailKept s a) (hstep : step slabFree s a = some t) :
    ∃ l', Good t l' := by
  cases a with
  | search => exact search_good h hstep
  | clear => exact ⟨l, clear_good h hstep⟩
  | append => exact append_good h hallowed.1 hallowed.2 hstep
  | kfree => exact kfree_good h hallowed.1 hstep

omit [DecidableEq Cpu] in
lemma Good.noneLost (h : Good s l) : NoneLost s := by
  have hl := h.inv.blocks_eq
  constructor
  · exact hl.symm ▸ h.inv.rep.links
  · exact hl.symm ▸ h.created

theorem no_block_lost {mem : Mem} {firstFrame : Word} {heap : KHeap} (hinit : kmallocInit mem firstFrame = some heap)
    (haligned : firstFrame.toNat % 4096 = 0) (hlow : firstFrame.toNat + 4096 ≤ 2 ^ 47) {actions : List (Action Cpu)}
    (hallowed : Runs.Guarded (step slabFree) Allowed (booted heap firstFrame) actions)
    (htail : Runs.Guarded (step slabFree) TailKept (booted heap firstFrame) actions) :
    Runs.Always (step slabFree) NoneLost (booted heap firstFrame) actions := by
  have hstart : ∃ l, Good (booted heap firstFrame : State Cpu) l := by
    refine ⟨_, inv_booted hinit haligned hlow, ?_, fun _ => trivial⟩
    simp [booted]
  have hgood : Runs.Always (step slabFree) (fun s => ∃ l, Good s l) (booted heap firstFrame) actions := by
    apply Runs.invariant (I := fun s => ∃ l, Good s l) _ hstart (hallowed.and htail)
    rintro s a t ⟨l, hgood⟩ hguards hstep
    exact step_good hgood hguards hstep
  apply hgood.mono
  rintro s ⟨l, hgood⟩
  exact hgood.noneLost

instance (runs : List (ℕ × ℕ)) (newFrames : Word) (pc : Pc) : Decidable (pc.Served runs newFrames) :=
  match pc with
  | .expanding _ _ => inferInstanceAs (Decidable (_ → _))
  | .idle | .clearing _ => .isTrue trivial

instance (heap : KHeap) (newFrames : Word) (pc : Pc) : Decidable (pc.AtTail heap newFrames) :=
  match pc with
  | .expanding _ _ => inferInstanceAs (Decidable (_ → _))
  | .idle | .clearing _ => .isTrue trivial

instance [Fintype Cpu] (s : State Cpu) (a : Action Cpu) : Decidable (Allowed s a) :=
  match a with
  | .append cpu newFrames => inferInstanceAs (Decidable ((s.pc cpu).Served s.shared.runs newFrames))
  | .kfree _ ptr =>
    have : Decidable (∃ x ∈ s.shared.live, x.1 = ptr) := List.decidableBEx (fun x : Word × Word => x.1 = ptr) s.shared.live
    inferInstanceAs (Decidable ((∃ x ∈ s.shared.live, x.1 = ptr) ∧ ∀ cpu, s.pc cpu ≠ .clearing (ptr - headerSize)))
  | .search _ _ | .clear _ => .isTrue trivial

instance (s : State Cpu) (a : Action Cpu) : Decidable (TailKept s a) :=
  match a with
  | .append cpu newFrames => inferInstanceAs (Decidable ((s.pc cpu).AtTail s.shared.heap newFrames))
  | .kfree _ _ | .search _ _ | .clear _ => .isTrue trivial

def smallStep : State Bool → Action Bool → Option (State Bool) := step fun m _ => m

def inTurn : List (Action Bool) :=
  [.search false 4080, .append false 0x110000, .search true 4080, .append true 0x120000, .kfree true 0xFFFF800000110028]

def atOnce : List (Action Bool) := [.search false 4080, .search true 4080, .append false 0x110000, .append true 0x120000]

def nearlyAll : List (Action Bool) := [.search false (-40), .append false 0x110000]

theorem no_block_lost_in_turn : kmallocInit (fun _ => 0) 0x105000 = some smallHeap ∧
    Runs.Guarded smallStep Allowed (booted smallHeap 0x105000) inTurn ∧
    Runs.Guarded smallStep TailKept (booted smallHeap 0x105000) inTurn ∧
    Runs.Always smallStep NoneLost (booted smallHeap 0x105000) inTurn := by
  have hallowed : Runs.Guarded smallStep Allowed (booted smallHeap 0x105000) inTurn := by decide +kernel
  have htail : Runs.Guarded smallStep TailKept (booted smallHeap 0x105000) inTurn := by decide +kernel
  have hinit : kmallocInit (fun _ => 0) 0x105000 = some smallHeap := rfl
  exact ⟨hinit, hallowed, htail, no_block_lost hinit (by decide) (by decide) hallowed htail⟩

theorem block_lost :
    (Runs.Guarded smallStep Allowed (booted smallHeap 0x105000) atOnce ∧
      ∃ s, Runs.run smallStep (booted smallHeap 0x105000) atOnce = some s ∧ ¬ NoneLost s) ∧
    Runs.Guarded smallStep Allowed (booted smallHeap 0x105000) nearlyAll ∧
      ∃ s, Runs.run smallStep (booted smallHeap 0x105000) nearlyAll = some s ∧ ¬ NoneLost s := by
  refine ⟨⟨by decide +kernel, ?_⟩, by decide +kernel, ?_⟩
  · exact Runs.exists_of_check (fun s => 0xFFFF800000110000 ∈ s.created ∧
      0xFFFF800000110000 ∉ (blocks s.shared.heap).map Block.addr) (by decide +kernel)
      fun s hrun hs hnone => hs.2 (hnone.reached _ hs.1)
  · refine Runs.exists_of_check (fun s => prevIn s.shared.heap.mem 0xFFFF800000110000 = none ∧
      (blocks s.shared.heap).map Block.addr = [0xFFFF800000105000, 0xFFFF800000110000, 0xFFFF800000110008]) (by decide +kernel)
      fun s hrun hs hnone => ?_
    have hlinks := hnone.links
    rw [hs.2] at hlinks
    have hback := hlinks.2.2.2.1
    rw [hs.1] at hback
    cases hback

end KernelSmp.Memory.HeapSmp
