import KernelSmp.Base.Runs
import KernelSmp.Memory.PmmSpec

/-! Runs of the frame allocator: the frames handed out and not yet given back are distinct, and
together with those reserved at boot they are exactly the set bits of the bitmap. -/

namespace KernelSmp.Memory.PmmRuns

open Base Base.Runs List

structure State where
  pmm : Pmm
  held : List ℕ

inductive Action
  | allocFrame (cpu : Option ℕ)
  | allocFrames (count : ℕ)
  | freeFrame (cpu : Option ℕ) (frame : ℕ)

def step (s : State) : Action → Option State
  | .allocFrame cpu =>
    let r := pmmAllocFrame s.pmm cpu
    some ⟨r.2, if r.1 = 0 then s.held else frameIndex r.1 :: s.held⟩
  | .allocFrames count =>
    let r := pmmAllocFrames s.pmm count
    some ⟨r.2, if r.1 = 0 then s.held else (List.range count).map (frameIndex r.1 + ·) ++ s.held⟩
  | .freeFrame cpu k =>
    if k ∈ s.held then some ⟨pmmFreeFrame s.pmm cpu (frameAddr k), s.held.erase k⟩ else none

def Reserved (p : Pmm) (k : ℕ) : Prop := p.isSet k = true

structure Accounted (p : Pmm) (s : State) : Prop where
  size : s.pmm.bitmapSize = p.bitmapSize
  distinct : s.held.Nodup
  nonzero : ∀ k ∈ s.held, k ≠ 0
  bounded : ∀ k ∈ s.held, k < 8 * p.bitmapSize
  unreserved : ∀ k ∈ s.held, ¬ Reserved p k
  bits : ∀ k < 8 * p.bitmapSize, s.pmm.isSet k = true ↔ Reserved p k ∨ k ∈ s.held

section init

open PmmInit

variable {p : Pmm}

lemma setFrame_keeps {k : ℕ} (h : p.isSet k = true) (a : Word) : (pmmSetFrame p a).isSet k = true := by
  rw [pmmSetFrame, Pmm.isSet_setBit, h, Bool.true_or]

lemma lockLow_zero (p : Pmm) : (lockLow p).isSet 0 = true := by
  rw [lockLow, show 0x100000 / pageSize = 255 + 1 from rfl, range_succ_eq_map, foldl_cons]
  refine List.foldlRecOn (motive := fun q : Pmm => q.isSet 0 = true) _ _ ?_ fun q hq i _ => setFrame_keeps hq _
  rw [pmmSetFrame, Pmm.isSet_setBit]
  simp [frameIndex]

lemma lockLow_size (p : Pmm) : (lockLow p).bitmapSize = p.bitmapSize :=
  List.foldlRecOn (motive := fun q : Pmm => q.bitmapSize = p.bitmapSize) _ _ rfl fun _ hq _ _ => hq

lemma unlockDescriptor_size (p : Pmm) (d : EfiMemoryDescriptor) : (unlockDescriptor p d).bitmapSize = p.bitmapSize := by
  rw [unlockDescriptor]
  split
  · refine List.foldlRecOn (motive := fun q : Pmm => q.bitmapSize = p.bitmapSize) _ _ rfl fun q hq j _ => ?_
    dsimp only
    split <;> exact hq
  · rfl

lemma lockBitmap_zero (h : p.isSet 0 = true) : (lockBitmap p).isSet 0 = true :=
  List.foldlRecOn (motive := fun q : Pmm => q.isSet 0 = true) _ _ h fun _ hq _ _ => setFrame_keeps hq _

lemma lockBitmap_size (p : Pmm) : (lockBitmap p).bitmapSize = p.bitmapSize :=
  List.foldlRecOn (motive := fun q : Pmm => q.bitmapSize = p.bitmapSize) _ _ rfl fun _ hq _ _ => hq

lemma placeBitmap_size (phys : Mem) (size : ℕ) (hints : ℕ → ℕ) (descs : List EfiMemoryDescriptor) :
    (placeBitmap phys size hints descs).bitmapSize = size := by
  rw [placeBitmap]
  split <;> rfl

lemma bitmapSize_fits (descs : List EfiMemoryDescriptor) : bitmapSize descs * 8 * pageSize ≤ 2 ^ 64 := by
  rw [bitmapSize, pageSize]
  omega

lemma pmmInit_spec {phys : Mem} {hints : ℕ → ℕ} {bi : BootInfo} (h : pmmInit phys hints bi = some p) :
    p.isSet 0 = true ∧ p.Fits := by
  simp only [pmmInit, Option.map_eq_some_iff] at h
  obtain ⟨q, hq, rfl⟩ := h
  have hz : q.isSet 0 = true := by
    refine Word.forBelow_invariant (I := fun q : Pmm => q.isSet 0 = true) (Q := fun _ => True) ?_ ?_ ?_ ?_ hq
    · exact fun _ _ _ => trivial
    · exact fun _ a _ _ hs => setFrame_keeps hs a
    · trivial
    · exact lockLow_zero _
  have hsize : q.bitmapSize = bitmapSize bi.memoryMap := by
    refine Word.forBelow_invariant (I := fun q : Pmm => q.bitmapSize = bitmapSize bi.memoryMap) (Q := fun _ => True)
      ?_ ?_ ?_ ?_ hq
    · exact fun _ _ _ => trivial
    · exact fun _ _ _ _ hs => hs
    · trivial
    · rw [lockLow_size]
      exact List.foldlRecOn (motive := fun q : Pmm => q.bitmapSize = bitmapSize bi.memoryMap) _ _
        (placeBitmap_size _ _ _ _) fun q hq d _ => (unlockDescriptor_size q d).trans hq
  refine ⟨lockBitmap_zero hz, ?_⟩
  rw [Pmm.Fits, lockBitmap_size, hsize]
  exact bitmapSize_fits _

end init

variable {p : Pmm}

lemma accounted_initial : Accounted p ⟨p, []⟩ :=
  ⟨rfl, nodup_nil, by simp, by simp, by simp, by simp [Reserved]⟩

variable {s : State}

lemma take_accounted (h : Accounted p s) {q : Pmm} {new : List ℕ} (hsize : q.bitmapSize = s.pmm.bitmapSize) (hnew : new.Nodup)
    (hfree : ∀ k ∈ new, k ≠ 0 ∧ k < s.pmm.bitmapSize * 8 ∧ s.pmm.isSet k = false) (hbits : ∀ k, q.isSet k = true ↔
    s.pmm.isSet k = true ∨ k ∈ new) : Accounted p ⟨q, new ++ s.held⟩ := by
  have hlt : ∀ k ∈ new, k < 8 * p.bitmapSize := by
    intro k hk
    have hb := (hfree k hk).2.1
    rw [h.size] at hb
    omega
  have hclean : ∀ k ∈ new, ¬ Reserved p k ∧ k ∉ s.held := by
    intro k hk
    have hs := (hfree k hk).2.2
    rw [← not_or, ← h.bits k (hlt k hk), hs]
    simp
  refine ⟨hsize.trans h.size, ?_, ?_, ?_, ?_, ?_⟩
  · exact List.Nodup.append hnew h.distinct fun k hk hh => (hclean k hk).2 hh
  · intro k hk
    rcases mem_append.mp hk with hk | hk
    · exact (hfree k hk).1
    · exact h.nonzero k hk
  · intro k hk
    rcases mem_append.mp hk with hk | hk
    · exact hlt k hk
    · exact h.bounded k hk
  · intro k hk
    rcases mem_append.mp hk with hk | hk
    · exact (hclean k hk).1
    · exact h.unreserved k hk
  · intro k hk
    rw [hbits, h.bits k hk, mem_append]
    tauto

lemma frame_bound (hfit : p.Fits) {k : ℕ} (hk : k < p.bitmapSize * 8) : k * pageSize < 2 ^ 64 := by
  rw [Pmm.Fits, pageSize] at hfit
  rw [pageSize]
  omega

lemma allocFrame_accounted (hfit : p.Fits) (h : Accounted p s) (cpu : Option ℕ) :
    Accounted p ⟨(pmmAllocFrame s.pmm cpu).2, if (pmmAllocFrame s.pmm cpu).1 = 0 then s.held
      else frameIndex (pmmAllocFrame s.pmm cpu).1 :: s.held⟩ := by
  obtain he | ⟨k, q, he, hne, hk, hfree, hsize, _, hbits⟩ := pmmAllocFrame_spec s.pmm cpu
  · rwa [he, if_pos rfl]
  · have hb := frame_bound hfit (by rw [← h.size]; exact hk)
    rw [he, if_neg hne, frameIndex_frameAddr hb]
    apply take_accounted h hsize (nodup_singleton k)
    · intro j hj
      rw [mem_singleton] at hj
      subst hj
      exact ⟨fun hz => hne (by rw [hz]; rfl), hk, hfree⟩
    · intro j
      simp [hbits]

lemma allocFrames_accounted (hfit : p.Fits) (hzero : Reserved p 0) (h : Accounted p s) (count : ℕ) :
    Accounted p ⟨(pmmAllocFrames s.pmm count).2, if (pmmAllocFrames s.pmm count).1 = 0 then s.held
      else (List.range count).map (frameIndex (pmmAllocFrames s.pmm count).1 + ·) ++ s.held⟩ := by
  obtain he | ⟨start, q, he, hpos, hrun, hsize, _, hbits⟩ := pmmAllocFrames_spec s.pmm count
  · rwa [he, if_pos rfl]
  · have hlt := (hrun 0 hpos).1
    have hb : start * pageSize < 2 ^ 64 := frame_bound hfit (by rw [← h.size]; exact hlt)
    -- frame 0 is reserved, so the run cannot start there and the address is not `NULL`
    have hset := (h.bits 0 (by rw [h.size] at hlt; omega)).mpr (.inl hzero)
    have hs : start ≠ 0 := by
      rintro rfl
      have hf := (hrun 0 hpos).2
      simp [hset] at hf
    rw [he, if_neg (frameAddr_ne_zero hb hs), frameIndex_frameAddr hb]
    refine take_accounted h hsize ?_ ?_ ?_
    · exact List.Nodup.map (fun a b hab => by simpa using hab) nodup_range
    · intro k hk
      obtain ⟨j, hj, rfl⟩ := mem_map.mp hk
      exact ⟨by omega, hrun j (mem_range.mp hj)⟩
    · intro k
      rw [hbits, Bool.or_eq_true, decide_eq_true_eq, mem_map]
      refine or_congr_right ⟨fun hk => ⟨k - start, mem_range.mpr (by omega), by omega⟩, ?_⟩
      rintro ⟨_, hj, rfl⟩
      have := mem_range.mp hj
      exact ⟨by omega, by omega⟩

lemma freeFrame_accounted (hfit : p.Fits) (h : Accounted p s) (cpu : Option ℕ) {k : ℕ}
    (hk : k ∈ s.held) : Accounted p ⟨pmmFreeFrame s.pmm cpu (frameAddr k), s.held.erase k⟩ := by
  have hb : k * pageSize < 2 ^ 64 := frame_bound hfit (by have := h.bounded k hk; omega)
  have hsub : ∀ j ∈ s.held.erase k, j ∈ s.held := fun j hj => mem_of_mem_erase hj
  refine ⟨(pmmFreeFrame_size _ _ _).trans h.size, h.distinct.erase k, fun j hj => h.nonzero j (hsub j hj),
    fun j hj => h.bounded j (hsub j hj), fun j hj => h.unreserved j (hsub j hj), ?_⟩
  intro j hj
  rw [isSet_pmmFreeFrame s.pmm cpu hb (h.nonzero k hk), Bool.and_eq_true, decide_eq_true_eq, h.bits j hj,
    h.distinct.mem_erase_iff]
  constructor
  · rintro ⟨hr | hh, hne⟩
    · exact .inl hr
    · exact .inr ⟨hne, hh⟩
  · rintro (hr | ⟨hne, hh⟩)
    · exact ⟨.inl hr, by rintro rfl; exact h.unreserved _ hk hr⟩
    · exact ⟨.inr hh, hne⟩

lemma step_accounted (hfit : p.Fits) (hzero : Reserved p 0) {t : State} (h : Accounted p s) {a : Action}
    (hs : step s a = some t) : Accounted p t := by
  cases a with
  | allocFrame cpu =>
    cases hs
    exact allocFrame_accounted hfit h cpu
  | allocFrames count =>
    cases hs
    exact allocFrames_accounted hfit hzero h count
  | freeFrame cpu =>
    simp only [step, Option.ite_none_right_eq_some, Option.some.injEq] at hs
    obtain ⟨hk, rfl⟩ := hs
    exact freeFrame_accounted hfit h cpu hk

theorem frames_accounted (phys : Mem) (hints : ℕ → ℕ) (bi : BootInfo) (p : Pmm)
    (hinit : pmmInit phys hints bi = some p) (calls : List Action) :
    Always step (Accounted p) ⟨p, []⟩ calls := by
  obtain ⟨hzero, hfit⟩ := pmmInit_spec hinit
  exact invariant (fun s a t hs _ ht => step_accounted hfit hzero hs ht) accounted_initial (unguarded _ calls)

def smallBoot : BootInfo := ⟨[⟨7, 0x100000, 256⟩], 0x100000, 0x1000⟩

theorem frames_accounted_small :
    ∃ p, pmmInit (fun _ => 0) (fun _ => 0) smallBoot = some p ∧
      Always step (Accounted p) ⟨p, []⟩ [.allocFrame none, .allocFrames 3, .freeFrame (some 1) 258] :=
  ⟨_, rfl, frames_accounted (fun _ => 0) (fun _ => 0) smallBoot _ rfl _⟩

end KernelSmp.Memory.PmmRuns
