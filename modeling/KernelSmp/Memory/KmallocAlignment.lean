import KernelSmp.Memory.KmallocCapacity

/-! The alignment of the pointers that `kmalloc` returns. Objects of slabs are aligned to 16 bytes. A block of the heap is
so exactly if its header, which has 40 bytes, begins at an odd multiple of 8. -/

namespace KernelSmp.Memory.Allocator

open Base LinkedList Heap Option BitVec

variable {s : Allocator} {l : List Block} {size frame newFrames : Word} {c : Call}

def Call.Sensible (s : Allocator) : Call → Prop
  | .kmalloc size frame newFrames =>
    size.toNat + 48 ≤ 2 ^ 64 ∧
      (∀ i ∈ slabCacheFor size, Asked size → SlabCaches.Grows s.slabs i → s.FreshPage frame) ∧
      (2048 < size.toNat → newFrames ≠ 0 → numFrames (align16 size) ≠ 0 ∧ s.FreshRun newFrames (numFrames (align16 size)))
  | .kfree ptr => Call.Proper s (.kfree ptr)
  | .write a bytes => Call.Proper s (.write a bytes)

def Call.Aligned (s : Allocator) : Call → Prop
  | .kmalloc size frame newFrames => ∀ r ∈ s.served size frame newFrames, r.1.toNat % 16 = 0
  | _ => True

def Call.OddHeader (s : Allocator) : Call → Prop
  | .kmalloc size _ newFrames =>
    2048 < size.toNat → match (blocks s.heap.heap).find? (Block.fits (align16 size)) with
      | some b => b.addr.toNat % 16 = 8
      | none => newFrames = 0
  | _ => True

lemma Call.Proper.sensible (hc : c.Proper s) : c.Sensible s := by
  cases c with
  | kmalloc size =>
    obtain ⟨_, hframe, hnew⟩ := hc
    refine ⟨by omega, hframe, fun hlarge hsome => ⟨fun hzero => ?_, hnew hlarge hsome⟩⟩
    have hwrapped : size.toNat + 48 ≤ 2 ^ 64 := by omega
    have hframes := numFrames_eq hwrapped
    have hnone : (numFrames (align16 size)).toNat = 0 := congrArg BitVec.toNat hzero
    omega
  | kfree => exact hc
  | write => exact hc

lemma Inv.granted (hinv : Heap.Inv s.heap l) (hsize : size.toNat + 48 ≤ 2 ^ 64)
    (hnew : newFrames ≠ 0 → numFrames (align16 size) ≠ 0 ∧ s.FreshRun newFrames (numFrames (align16 size))) :
    Granted l newFrames (align16 size) := by
  intro hsome
  obtain ⟨hframes, hfresh, -⟩ := hnew hsome
  refine ⟨hframes, hfresh.1, hfresh.2.1, hinv.apart_run ?_ hfresh⟩
  -- for larger requests the frames would not fit in the direct map
  by_contra hhuge
  have hround := align16_eq size (by omega)
  have hlarge : 2 ^ 47 ≤ size.toNat := by omega
  have hcount := numFrames_huge hlarge hsize
  have hpos : (numFrames (align16 size)).toNat ≠ 0 := fun hzero => hframes (eq_of_toNat_eq hzero)
  have hbound := hfresh.2.1
  omega

lemma Inv.kmalloc_sensible (h : Inv s) (hc : Call.Sensible s (.kmalloc size frame newFrames)) :
    ∃ t, s.kmalloc size frame newFrames = some t ∧ Inv t := by
  obtain ⟨hsize, hframe, hnew⟩ := hc
  by_cases hwrap : size.toNat + 4150 < 2 ^ 64
  · exact h.kmalloc_step ⟨hwrap, hframe, fun hlarge hsome => (hnew hlarge hsome).2⟩
  · obtain ⟨_, hheap⟩ := h.heap
    obtain ⟨-, -, hserved⟩ := served_huge hheap.rep (by omega) hsize frame (Inv.granted hheap hsize (hnew (by omega)))
    refine ⟨s, ?_, h⟩
    rw [served] at hserved
    simp only [kmalloc, hserved, map_some, not_asked (show 2048 < size.toNat by omega), if_false, true_or,
      if_true, false_and]
    rfl

lemma Inv.sensible_step (h : Inv s) (hc : c.Sensible s ∧ c.Unmarked s) : ∃ t, Allocator.step s c = some t ∧ Inv t := by
  cases c with
  | kmalloc => exact h.kmalloc_sensible hc.1
  | kfree => exact h.kfree_step hc.1
  | write => exact ⟨_, rfl, h.write_step hc.1 hc.2⟩

lemma odd_payload {b : Block} (hb : b.Sane) (hsize : 0 < b.size.toNat) :
    (b.addr + headerSize).toNat % 16 = 0 ↔ b.addr.toNat % 16 = 8 := by
  rw [(sane_payload hb hsize).1]
  omega

lemma Inv.aligned_small (h : Inv s) (hsmall : ¬ 2048 < size.toNat) (hframe : ∀ i ∈ slabCacheFor size, Asked size →
    SlabCaches.Grows s.slabs i → s.FreshPage frame) : ∀ r ∈ s.served size frame newFrames, r.1.toNat % 16 = 0 := by
  by_cases hzero : size = 0
  · have hserved : s.served size frame newFrames = some (0, s.heap.heap, s.runs) := by
      rw [served, hzero]
      rfl
    simp [hserved]
  · have hasked : Asked size := ⟨hzero, by bv_omega⟩
    obtain ⟨ptr, h', runs, t, hserved, -, -, -, -, halign⟩ :=
      served_object h.caches hasked (fun i hi hgrows => (hframe i hi hasked hgrows).1) newFrames
    simpa [hserved] using halign

lemma page_payload (haligned : newFrames.toNat % 4096 = 0) (hlow : newFrames.toNat < 2 ^ 47) :
    (physToVirt newFrames + headerSize).toNat % 16 = 8 := by
  have hvirt := physToVirt_toNat hlow
  rw [headerSize]
  bv_omega

lemma Inv.aligned_large (h : Heap.Inv s.heap l) (hlarge : 2048 < size.toNat) (hsize : size.toNat + 48 ≤ 2 ^ 64)
    (hnew : newFrames ≠ 0 → numFrames (align16 size) ≠ 0 ∧ s.FreshRun newFrames (numFrames (align16 size))) :
    (∀ r ∈ s.served size frame newFrames, r.1.toNat % 16 = 0) ↔
      match l.find? (Block.fits (align16 size)) with
      | some b => b.addr.toNat % 16 = 8
      | none => newFrames = 0 := by
  have hgranted := Inv.granted h hsize hnew
  have hge := (align16_ge size (by omega)).1
  obtain ⟨ptr, _, _, hserved, hcases⟩ := served_large h.rep h.nonempty hlarge hsize frame hgranted
  simp only [hserved, mem_some_iff, forall_eq']
  rcases hcases with ⟨rfl, hrefused, hnone⟩ | ⟨-, -, hplace⟩
  · rw [hnone]
    exact iff_of_true rfl hrefused
  · cases hfirst : l.find? (Block.fits (align16 size)) with
    | some b =>
      rw [hfirst] at hplace
      obtain ⟨_, _, rfl, -, hfit⟩ := mem_of_find hfirst
      obtain rfl : ptr = b.addr + headerSize := hplace
      rw [le_def] at hfit
      exact odd_payload (h.rep.sane b (by simp)) (by omega)
    | none =>
      rw [hfirst] at hplace
      obtain ⟨hsome, rfl⟩ := hplace
      obtain ⟨hframes, haligned, _, -⟩ := hgranted hsome
      have hpos : (numFrames (align16 size)).toNat ≠ 0 := fun hzero => hframes (eq_of_toNat_eq hzero)
      refine iff_of_false ?_ hsome
      rw [page_payload haligned (by omega)]
      decide

lemma Inv.aligned_iff (h : Inv s) (hc : c.Sensible s) : c.Aligned s ↔ c.OddHeader s := by
  cases c with
  | kfree => exact Iff.rfl
  | write => exact Iff.rfl
  | kmalloc size =>
    obtain ⟨hsize, hframe, hnew⟩ := hc
    obtain ⟨_, hheap⟩ := h.heap
    by_cases hlarge : 2048 < size.toNat
    · rw [Call.Aligned, Call.OddHeader, hheap.blocks_eq, Inv.aligned_large hheap hlarge hsize (hnew hlarge)]
      simp only [hlarge, forall_const]
    · exact iff_of_true (h.aligned_small hlarge hframe) fun h => absurd h hlarge

theorem kmalloc_aligned {mem : Mem} {kmallocCaches firstFrame : Word} {frames : Fin 8 → Word} {s : Allocator}
    (hboot : boot mem kmallocCaches firstFrame frames = some s) (haligned : firstFrame.toNat % 4096 = 0)
    (hlow : firstFrame.toNat + 4096 ≤ 2 ^ 47) (hpage : ∀ i, SlabCaches.IsPage (physToVirt (frames i)))
    (hinj : Function.Injective frames) (hnew : ∀ i, frames i ≠ firstFrame) (calls : List Call)
    (hcalls : Runs.Guarded step (fun s c => c.Sensible s ∧ c.Unmarked s) s calls) :
    (∃ t, Runs.run step s calls = some t) ∧ Runs.Guarded step (fun s c => c.Aligned s ↔ c.OddHeader s) s calls := by
  have hinit := inv_boot hboot haligned hlow hpage hinj hnew
  refine ⟨Runs.progress (fun s c h hc => h.sensible_step hc) hinit hcalls, ?_⟩
  have halways : Runs.Always step Inv s calls := by
    exact Runs.progress_invariant (fun s c h hc => h.sensible_step hc) hinit hcalls
  exact halways.guarded (fun s c h hc => h.aligned_iff hc.1) hcalls

def twoPages : List Call := [.kmalloc 4000 0 0, .kmalloc 4096 0 0x110000, .kmalloc 3000 0 0]

theorem kmalloc_aligned_twoPages :
    ∃ s, booted = some s ∧ (∃ t, Runs.run step s twoPages = some t) ∧
      Runs.Guarded step (fun s c => c.Aligned s ↔ c.OddHeader s) s twoPages := by
  refine Runs.exists_of_check (Runs.Guarded step (fun s c => c.Lawful s ∧ c.Unmarked s) · twoPages) (by decide +kernel)
    fun s hboot hlawful => kmalloc_aligned hboot (by decide) (by decide) ?_ ?_ ?_ twoPages ?_
  · decide +kernel
  · decide
  · decide +kernel
  · exact hlawful.mono fun s c hc => ⟨hc.1.proper.sensible, hc.2⟩

theorem kmalloc_misaligned :
    ∃ s r, booted = some s ∧ Call.Lawful s (.kmalloc 4000 0 0) ∧ s.served 4000 0 0 = some r ∧ r.1 ≠ 0 ∧ r.1.toNat % 16 = 8 := by
  simp only [exists_and_left]
  decide +kernel

end KernelSmp.Memory.Allocator
