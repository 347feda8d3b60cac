import KernelSmp.Base.Runs
import KernelSmp.Memory.Kernel

/-! Isolation of the tasks' memory. Each call of `vma.c` is one step, the kernel heap takes frames and
writes to its own frames at any time, and every frame plays at most one part in the user halves. -/

namespace KernelSmp.Memory.Isolation

open Base Base.Radix Function List Option

inductive Call
  | create (t : ℕ) (cpu : Option ℕ)
  | map (t : ℕ) (cpu : Option ℕ) (kmalloc : Option Word) (addr size : Word) (flags : BitVec 32)
  | unmap (t : ℕ) (cpu : Option ℕ) (addr size : Word)
  | destroyAll (t : ℕ) (cpu : Option ℕ)
  | heapFrame (cpu : Option ℕ)
  | heapFrames (count : ℕ)
  | heapWrite (frame : ℕ) (offset : Fin 4096) (value : Byte)

def step (k : Kernel) : Call → Option Kernel
  | .create t cpu => if (k.tasks t).cr3 = 0 then some (k.create t cpu) else none
  | .map t cpu kmalloc addr size flags =>
    if (k.tasks t).cr3 = 0 then none
    else (vmaMap (k.vm t) cpu kmalloc addr size flags).map fun res => k.put t res.2
  | .unmap t cpu addr size =>
    if (k.tasks t).cr3 = 0 then none else (vmaUnmap (k.vm t) cpu addr size).map fun res => k.put t res.2
  | .destroyAll t cpu => if (k.tasks t).cr3 = 0 then none else (vmaDestroyAll (k.vm t) cpu).map (k.put t)
  | .heapFrame cpu =>
    let (frame, pmm) := pmmAllocFrame k.pmm cpu
    some (if frame = 0 then { k with pmm } else { k with pmm, heap := frameIndex frame :: k.heap })
  | .heapFrames count =>
    let (frames, pmm) := pmmAllocFrames k.pmm count
    some (if frames = 0 then { k with pmm }
      else { k with pmm, heap := (List.range count).map (frameIndex frames + ·) ++ k.heap })
  | .heapWrite frame offset value =>
    if frame ∈ k.heap then some { k with mem := update k.mem (pageSize * frame + offset) value } else none

def Call.Allowed : Call → Prop
  | .map _ _ _ addr size _ => addr.toNat + size.toNat ≤ 2 ^ 47
  | .unmap _ _ addr size => addr.toNat % pageSize = 0 ∧ addr.toNat + size.toNat ≤ 2 ^ 47
  | _ => True

def HasRole (k : Kernel) (t : ℕ) (p : List Index) (f : ℕ) : Prop :=
  UserPath p ∧ role k.roots (tables k.mem) t p = some f

structure Isolated (k : Kernel) : Prop where
  unique : ∀ t p t' p' f, HasRole k t p f → HasRole k t' p' f → t = t' ∧ p = p'
  used : ∀ t p f, HasRole k t p f → k.pmm.isSet f = true

structure Booted (k : Kernel) : Prop where
  noTask : ∀ t, (k.tasks t).cr3 = 0
  kernel : ∃ g, g < 2 ^ 52 ∧ k.kernelPml4 = frameAddr g ∧ k.pmm.isSet g = true
  heap : ∀ f ∈ k.heap, k.pmm.isSet f = true

variable {k k' : Kernel}

lemma isolated_of_sound (h : k.Sound) : Isolated k where
  unique t p t' p' f hp hp' := h.spaces.wired.separate t p t' p' f hp.1 hp'.1 hp.2 hp'.2
  used t p f hp := h.spaces.wired.used t p f hp.1 hp.2

lemma booted_sound (h : Booted k) (hsmall : k.pmm.Small) : k.Sound := by
  have hroots : ∀ t, k.roots t = none := fun t => if_pos (h.noTask t)
  have hunlinked : ∀ f, Unlinked k.roots UserPath (tables k.mem) f := by
    intro f t p _ hr
    simp [role_of_noRoot (hroots t)] at hr
  refine ⟨⟨hsmall, wired_of_noRoots hroots UserPath.tail⟩, fun t => ⟨0, by decide, h.noTask t⟩, ?_, ?_⟩
  · obtain ⟨g, hg, hkernel, hused⟩ := h.kernel
    exact ⟨g, hg, hkernel, hused, hunlinked g⟩
  · exact fun f hf => ⟨h.heap f hf, hunlinked f⟩

structure HeapGrows (k k' : Kernel) (q : Pmm) (new : List ℕ) : Prop where
  eq : k' = { k with pmm := q, heap := new ++ k.heap }
  small : q.Small
  mono : usedFrames k.pmm ⊆ usedFrames q
  fresh : ∀ f ∈ new, f ∉ usedFrames k.pmm ∧ f ∈ usedFrames q

lemma heapFrame_cases (h : k.Sound) {cpu : Option ℕ} (hstep : step k (.heapFrame cpu) = some k') :
    ∃ q new, HeapGrows k k' q new := by
  have hok := (pmmSource cpu).alloc_ok k.pmm h.spaces.small
  have hspec := (pmmSource cpu).alloc_spec k.pmm h.spaces.small
  simp only [pmmSource] at hok hspec
  rcases halloc : pmmAllocFrame k.pmm cpu with ⟨w, q⟩
  simp only [step, halloc, Option.some.injEq] at hstep
  rw [halloc] at hok hspec
  rcases hspec with ⟨hnull, hsame⟩ | ⟨g, hpos, hg, haddr, hfresh, hused⟩
  · rw [if_pos hnull] at hstep
    exact ⟨q, [], hstep.symm, hok, hsame.ge, fun f hf => by cases hf⟩
  · change w = frameAddr g at haddr
    rw [haddr, if_neg (frameAddr_ne_zero (by rw [pageSize]; omega) (by omega)), frameIndex_frameAddr' (by omega)] at hstep
    refine ⟨q, [g], hstep.symm, hok, ?_, fun f hf => ?_⟩
    · rw [hused]
      exact Set.subset_insert _ _
    · rw [mem_singleton] at hf
      subst hf
      exact ⟨hfresh, by rw [hused]; exact Set.mem_insert _ _⟩

lemma heapFrames_cases (h : k.Sound) {count : ℕ} (hstep : step k (.heapFrames count) = some k') :
    ∃ q new, HeapGrows k k' q new := by
  rcases halloc : pmmAllocFrames k.pmm count with ⟨_, q⟩
  simp only [step, halloc, Option.some.injEq] at hstep
  obtain ⟨hok, ⟨hnull, hsame⟩ | ⟨start, haddr, hstart, -, hfree, hused⟩⟩ := pmmAllocFrames_frames h.spaces.small halloc
  · rw [if_pos hnull] at hstep
    exact ⟨q, [], hstep.symm, hok, hsame.ge, fun f hf => by cases hf⟩
  · have hmono : usedFrames k.pmm ⊆ usedFrames q := by
      rw [hused]
      exact Set.subset_union_left
    split at hstep
    · exact ⟨q, [], hstep.symm, hok, hmono, fun f hf => by cases hf⟩
    · refine ⟨q, _, hstep.symm, hok, hmono, fun f hf => ?_⟩
      obtain ⟨j, hj, rfl⟩ := List.mem_map.mp hf
      rw [mem_range] at hj
      rw [haddr, frameIndex_frameAddr' (by omega), hused]
      exact ⟨hfree j hj, .inr ⟨by omega, by omega⟩⟩

lemma HeapGrows.sound {q : Pmm} {new : List ℕ} (hg : HeapGrows k k' q new) (h : k.Sound) : k'.Sound := by
  obtain ⟨rfl, hsmall, hmono, hnew⟩ := hg
  refine ⟨h.spaces.more hsmall hmono, h.aligned, ?_, fun f hf => ?_⟩
  · obtain ⟨g, hg, hkernel, hused, hun⟩ := h.kernel
    exact ⟨g, hg, hkernel, hmono hused, hun⟩
  · rcases mem_append.mp hf with hf | hf
    · exact ⟨(hnew f hf).2, h.spaces.wired.unlinked (hnew f hf).1⟩
    · exact ⟨hmono (h.heap f hf).1, (h.heap f hf).2⟩

lemma tables_update_other (m : Mem) {f g : ℕ} (h : g ≠ f) (offset : Fin 4096) (v : Byte) (j : Index) :
    tables (update m (pageSize * f + offset) v) g j = tables m g j := by
  rw [tables, tables, Mem.load64, Mem.load64, Mem.readLE_congr]
  intro x hx hx'
  rw [update_of_ne]
  rw [pageSize] at *
  omega

lemma heapWrite_sound (h : k.Sound) {f : ℕ} {offset : Fin 4096} {v : Byte}
    (hstep : step k (.heapWrite f offset v) = some k') : k'.Sound := by
  simp only [step, ite_none_right_eq_some, Option.some.injEq] at hstep
  obtain ⟨hf, rfl⟩ := hstep
  obtain ⟨_, hun⟩ := h.heap f hf
  have hrows : ∀ r p g j, UserPath (j :: p) → role k.roots (tables k.mem) r p = some g →
      tables (update k.mem (pageSize * f + offset) v) g j = tables k.mem g j := by
    intro r p g j hjp hr
    apply tables_update_other
    rintro rfl
    exact hun r p (UserPath.tail j p hjp) hr
  have hunlinked : ∀ g, Unlinked k.roots UserPath (tables k.mem) g →
      Unlinked k.roots UserPath (tables (update k.mem (pageSize * f + offset) v)) g := by
    intro g hg r p hp hr
    rw [role_congr UserPath.tail hrows r hp] at hr
    exact hg r p hp hr
  refine ⟨⟨h.spaces.small, h.spaces.wired.congr hrows⟩, h.aligned, ?_, fun g hg => ?_⟩
  · obtain ⟨g, hg, hkernel, hgused, hgun⟩ := h.kernel
    exact ⟨g, hg, hkernel, hgused, hunlinked g hgun⟩
  · exact ⟨(h.heap g hg).1, hunlinked g (h.heap g hg).2⟩

lemma step_sound (h : k.Sound) {c : Call} (hc : c.Allowed) (hstep : step k c = some k') : k'.Sound := by
  cases c with
  | create t cpu =>
    simp only [step, ite_none_right_eq_some, Option.some.injEq] at hstep
    obtain ⟨ht, rfl⟩ := hstep
    exact create_sound h ht cpu
  | map =>
    simp only [step, ite_none_left_eq_some, map_eq_some_iff, Prod.exists] at hstep
    obtain ⟨ht, code, s, hmap, rfl⟩ := hstep
    exact h.put (vmaMap_updates h ht hc hmap)
  | unmap =>
    simp only [step, ite_none_left_eq_some, map_eq_some_iff, Prod.exists] at hstep
    obtain ⟨ht, _, s, hunmap, rfl⟩ := hstep
    exact h.put (vmaUnmap_updates h ht hc.2 hunmap)
  | destroyAll =>
    simp only [step, ite_none_left_eq_some, map_eq_some_iff] at hstep
    obtain ⟨ht, _, hdestroy, rfl⟩ := hstep
    exact vmaDestroyAll_sound h ht hdestroy
  | heapFrame =>
    obtain ⟨q, new, hgrows⟩ := heapFrame_cases h hstep
    exact hgrows.sound h
  | heapFrames =>
    obtain ⟨_, _, hgrows⟩ := heapFrames_cases h hstep
    exact hgrows.sound h
  | heapWrite => exact heapWrite_sound h hstep

theorem isolated_below_mask {calls : List Call} (hboot : Booted k) (hsmall : k.pmm.bitmapSize * 8 ≤ 2 ^ 28)
    (hcalls : ∀ c ∈ calls, c.Allowed) : Runs.Always step Isolated k calls := by
  have hsound : Runs.Always step Kernel.Sound k calls :=
    Runs.invariant (fun _ _ _ h hc hstep => step_sound h hc hstep) (booted_sound hboot hsmall)
      (Runs.guarded_of_forall hcalls k)
  exact hsound.mono fun _ => isolated_of_sound

def bootedWith (low high : Byte) (bytes : ℕ) : Kernel where
  mem := fun _ => 0
  pmm := ⟨0x1000, fun i => if i = 32 then ~~~low else if i = 2 ^ 25 + 32 then ~~~high else 0xFF, bytes,
    fun cpu => if cpu = 0 then 0 else 2 ^ 25 + 32⟩
  areas := fun _ => newArea 0 0 0
  tasks := fun _ => ⟨none, none, 0, 0, 0, 0, 0⟩
  kernelPml4 := frameAddr 2
  heap := []

lemma bootedWith_booted (low high : Byte) (bytes : ℕ) : Booted (bootedWith low high bytes) where
  noTask _ := rfl
  kernel := ⟨2, by decide, rfl, by simp [bootedWith, Pmm.isSet]⟩
  heap f hf := by cases hf

theorem isolated_below_mask_two_tasks :
    ∃ k', Runs.run step (bootedWith 0xFF 0 64) [.create 0 (some 0), .map 0 (some 0) (some 0x8000) 0x400000 0x1800 2,
        .create 1 none, .unmap 0 (some 0) 0x400000 0x1000] = some k' ∧
      k'.roots 0 = some 256 ∧ k'.roots 1 = some 262 ∧ Isolated k' := by
  have hcalls : ∀ c ∈ [Call.create 0 (some 0), .map 0 (some 0) (some 0x8000) 0x400000 0x1800 2,
      .create 1 none, .unmap 0 (some 0) 0x400000 0x1000], c.Allowed := by
    simp only [mem_cons, not_mem_nil, or_false, forall_eq_or_imp, forall_eq, Call.Allowed]
    decide
  exact Runs.exists_of_check (fun k' => k'.roots 0 = some 256 ∧ k'.roots 1 = some 262) (by decide +kernel) fun k' hrun hroots =>
    ⟨hroots.1, hroots.2, (isolated_below_mask (bootedWith_booted 0xFF 0 64) (by decide) hcalls).last hrun⟩

theorem isolated_fails_above_mask :
    ∃ k', Runs.run step (bootedWith 0x09 0x3C (2 ^ 25 + 40)) [.create 0 (some 1),
        .map 0 (some 1) (some 0x8000) 0x400000 0x1000 2, .create 1 (some 0)] = some k' ∧
      ¬ Isolated k' := by
  refine Runs.exists_of_check (fun k' => role k'.roots (tables k'.mem) 0 [0] = some 259 ∧
    role k'.roots (tables k'.mem) 1 [] = some 259) (by decide +kernel) fun k' hrun hroles hisolated => ?_
  have hsame := hisolated.unique 0 [0] 1 [] 259 ⟨userPath_singleton.mpr (by decide), hroles.1⟩ ⟨userPath_nil, hroles.2⟩
  exact absurd hsame.1 (by decide)

end KernelSmp.Memory.Isolation
