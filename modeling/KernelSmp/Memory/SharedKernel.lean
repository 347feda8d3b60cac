import KernelSmp.Memory.KernelTree

/-! The kernel half of every address space: `vmm_create_user_pml4` copies the upper entries of `kernel_pml4` once, and the
tables below them are shared from then on. -/

namespace KernelSmp.Memory.SharedKernel

open Base Base.Radix VmmRefinement List Option

structure State where
  paging : Paging Pmm
  kernelPml4 : Word
  userPml4s : List Word

inductive Call
  | map (cpu : Option ℕ) (virt phys flags : Word)
  | mapRange (cpu : Option ℕ) (virt phys size flags : Word)
  | mapDevice (cpu : Option ℕ) (virt phys size : Word)
  | createUser (cpu : Option ℕ)

def createUser (s : State) (cpu : Option ℕ) : State :=
  let (pml4, mem, pmm) := vmmCreateUserPml4 s.paging.mem s.paging.frames cpu s.kernelPml4
  { s with paging := ⟨mem, pmm⟩, userPml4s := if pml4 = 0 then s.userPml4s else pml4 :: s.userPml4s }

/-- A call on `kernel_pml4`; `none` is a panic. -/
def step (s : State) : Call → Option State
  | .map cpu virt phys flags =>
    (vmmMap (fun p => pmmAllocFrame p cpu) s.paging s.kernelPml4 virt phys flags).map fun t => { s with paging := t }
  | .mapRange cpu virt phys size flags =>
    (vmmMapRange (fun p => pmmAllocFrame p cpu) s.paging s.kernelPml4 virt phys size flags).map fun t => { s with paging := t }
  | .mapDevice cpu virt phys size =>
    (vmmMapDevice (fun p => pmmAllocFrame p cpu) s.paging s.kernelPml4 virt phys size).map fun r => { s with paging := r.2 }
  | .createUser cpu => some (createUser s cpu)

def Call.pages : Call → Word × ℕ
  | .map _ virt _ _ => (virt, 1)
  | .mapRange _ virt _ size _ => (virt, numPages size)
  | .mapDevice _ virt phys size => (virt, numPages (pageAlignUp (size + (phys - pageAlignDown phys))))
  | .createUser _ => (hhdmOffset, 0)

def Call.InKernelHalf (c : Call) : Prop := c.pages.1 ≥ hhdmOffset

instance (c : Call) : Decidable c.InKernelHalf := inferInstanceAs (Decidable (_ ≤ _))

def Call.Anchored (s : State) (c : Call) : Prop :=
  s.userPml4s = [] ∨ ∀ k < c.pages.2, isPresent (entry s.paging.mem s.kernelPml4 (pml4Idx (c.pages.1 + pageOffset k)))

instance (s : State) (c : Call) : Decidable (c.Anchored s) := inferInstanceAs (Decidable (_ ∨ _))

def Shared (s : State) : Prop :=
  ∀ pml4 ∈ s.userPml4s, ∀ virt ≥ hhdmOffset,
    vmmVirtualToPhysical s.paging.mem pml4 virt = vmmVirtualToPhysical s.paging.mem s.kernelPml4 virt

structure Copied (f : ℕ) (s : State) (pml4 : Word) : Prop where
  frame : ∃ g < 2 ^ 52, pml4 = frameAddr g ∧ g ∈ usedFrames s.paging.frames ∧ Beside f s.paging.mem g ∧
    ∀ j : Index, 256 ≤ (j : ℕ) → tables s.paging.mem g j = tables s.paging.mem f j

structure Sound (f : ℕ) (s : State) : Prop where
  kernel : s.kernelPml4 = frameAddr f
  tree : KernelTree f s.paging
  users : ∀ pml4 ∈ s.userPml4s, Copied f s pml4

variable {f : ℕ} {s s' : State} {t : Paging Pmm} {c : Call} {cpu : Option ℕ} {virt phys size flags : Word}

lemma pml4Idx_of_kernelHalf (h : virt ≥ hhdmOffset) : 256 ≤ (pml4Idx virt : ℕ) := by
  have hle := BitVec.le_def.mp h
  rw [show hhdmOffset.toNat = 0xFFFF800000000000 from rfl] at hle
  rw [pml4Idx, indexAt_val]
  omega

lemma virtualToPhysical_congr {m : Mem} {a b : Word} (h : entry m a (pml4Idx virt) = entry m b (pml4Idx virt)) :
    vmmVirtualToPhysical m a virt = vmmVirtualToPhysical m b virt := by
  rw [vmmVirtualToPhysical, vmmVirtualToPhysical, h]

lemma Sound.shared (h : Sound f s) : Shared s := by
  intro pml4 hpml4 virt hvirt
  obtain ⟨_, hg, rfl, -, -, hrow⟩ := (h.users pml4 hpml4).frame
  apply virtualToPhysical_congr
  rw [h.kernel, entry_frameAddr _ hg, entry_frameAddr _ h.tree.root_lt]
  exact hrow _ (pml4Idx_of_kernelHalf hvirt)

lemma Sound.extend (h : Sound f s) (hext : Extends f (fun _ => s.userPml4s ≠ []) s.paging t) :
    Sound f { s with paging := t } := by
  refine ⟨h.kernel, hext.tree, fun pml4 hpml4 => ?_⟩
  obtain ⟨g, hg, hpml4', hused, hbeside, hrow⟩ := (h.users pml4 hpml4).frame
  obtain ⟨hsame, hbeside'⟩ := hext.beside g hused hbeside
  refine ⟨g, hg, hpml4', hext.used hused, hbeside', fun j hj => ?_⟩
  rw [hsame, hext.row j (ne_nil_of_mem hpml4)]
  exact hrow j hj

lemma Sound.kept (h : Sound f s) (hc : c.Anchored s) (k : ℕ) (hk : k < c.pages.2) (j : Index) (hj : s.userPml4s ≠ []) :
    j ≠ pml4Idx (c.pages.1 + pageOffset k) ∨ tables s.paging.mem f j ≠ 0 := by
  by_cases hidx : j = pml4Idx (c.pages.1 + pageOffset k)
  · right
    have hpresent := hc.resolve_left hj k hk
    rw [h.kernel, entry_frameAddr _ h.tree.root_lt, ← hidx] at hpresent
    intro hzero
    rw [hzero] at hpresent
    cases hpresent
  · exact .inl hidx

lemma Sound.mapRange (h : Sound f s) (hvirt : virt ≥ hhdmOffset) (hc : (Call.mapRange cpu virt phys size flags).Anchored s)
    (hmap : vmmMapRange (fun p => pmmAllocFrame p cpu) s.paging s.kernelPml4 virt phys size flags = some t) :
    Sound f { s with paging := t } := by
  obtain ⟨hres, rfl⟩ := checkMapped_some hvirt hmap
  apply h.extend
  rw [h.kernel] at hres ⊢
  refine (h.tree.mapPages _ (fun k _ hk j hj => h.kept hc k ?_ j hj) hres).1
  rwa [Nat.zero_add] at hk

lemma Sound.create (h : Sound f s) (cpu : Option ℕ) : Sound f (createUser s cpu) := by
  obtain ⟨hsmall, hcases⟩ := vmmCreateUserPml4_spec s.paging.mem cpu h.tree.small h.tree.root_lt h.tree.root_used
  rw [← h.kernel] at hsmall hcases
  rcases hres : vmmCreateUserPml4 s.paging.mem s.paging.frames cpu s.kernelPml4 with ⟨pml4, m, p⟩
  rw [hres] at hsmall hcases
  have hs' : createUser s cpu = ⟨⟨m, p⟩, s.kernelPml4, if pml4 = 0 then s.userPml4s else pml4 :: s.userPml4s⟩ := by
    rw [createUser, hres]
  rw [hs']
  rcases hcases with ⟨hzero, hmem, hused⟩ | ⟨g, hpos, hg, hpml4, hfresh, hused, hsame, hrow⟩
  · obtain ⟨rfl, rfl⟩ : pml4 = 0 ∧ m = s.paging.mem := ⟨hzero, hmem⟩
    refine ⟨h.kernel, ⟨hsmall, by rw [hused]; exact h.tree.wired⟩, fun u hu => ?_⟩
    obtain ⟨g, hg, hu', hgused, hrest⟩ := (h.users u hu).frame
    exact ⟨g, hg, hu', by rw [hused]; exact hgused, hrest⟩
  · obtain rfl : pml4 = frameAddr g := hpml4
    rw [if_neg (frameAddr_ne_zero (by rw [pageSize]; omega) (by omega))]
    have hne : ∀ g' ∈ usedFrames s.paging.frames, g' ≠ g := by
      rintro g' hg' rfl
      exact hfresh hg'
    have hmore : usedFrames s.paging.frames ⊆ usedFrames p := by
      rw [hused]
      exact Set.subset_insert _ _
    have hrows : ∀ r p g' j, TablePath (j :: p) → role (fun _ : Unit => some f) (tables s.paging.mem) r p = some g' →
        tables m g' j = tables s.paging.mem g' j :=
      fun r p g' j hjp hr => congrFun (hsame g' (hne g' (h.tree.wired.used r p g' (TablePath.tail j p hjp) hr))) j
    have hbeside : ∀ g', Beside f s.paging.mem g' → Beside f m g' := by
      intro g' hg' r q hq hr
      rw [role_congr h.tree.wired.closed hrows r hq] at hr
      exact hg' r q hq hr
    have htree : KernelTree f ⟨m, p⟩ :=
      ⟨hsmall, (h.tree.wired.congr hrows).mono fun r q g' hq hr => hmore
        (h.tree.wired.used r q g' hq ((role_congr h.tree.wired.closed hrows r hq).symm.trans hr))⟩
    refine ⟨h.kernel, htree, fun u hu => ?_⟩
    rcases mem_cons.mp hu with rfl | hold
    · refine ⟨g, by omega, rfl, hused ▸ Set.mem_insert g _, hbeside g (h.tree.wired.unlinked hfresh), fun j hj => ?_⟩
      rw [hrow, if_pos hj, hsame f (hne f h.tree.root_used)]
    · obtain ⟨g', hg', hu', hgused, hbeside', hrow'⟩ := (h.users u hold).frame
      refine ⟨g', hg', hu', hmore hgused, hbeside g' hbeside', fun j hj => ?_⟩
      rw [hsame g' (hne g' hgused), hsame f (hne f h.tree.root_used)]
      exact hrow' j hj

lemma step_sound (h : Sound f s) (hhalf : c.InKernelHalf) (hc : c.Anchored s) (hstep : step s c = some s') : Sound f s' := by
  cases c with
  | map cpu virt phys flags =>
    obtain ⟨t, hmap, rfl⟩ := map_eq_some_iff.mp hstep
    obtain ⟨_, rfl⟩ := checkMapped_some hhalf hmap
    apply h.extend
    rw [h.kernel]
    refine (h.tree.map cpu virt phys flags).mono fun j hj => ?_
    have hkept := h.kept hc 0 Nat.one_pos j hj
    rwa [Call.pages, pageOffset_zero] at hkept
  | mapRange =>
    obtain ⟨t, hmap, rfl⟩ := map_eq_some_iff.mp hstep
    exact h.mapRange hhalf hc hmap
  | mapDevice =>
    obtain ⟨_, hdevice, rfl⟩ := map_eq_some_iff.mp hstep
    obtain ⟨_, hmap, rfl⟩ := map_eq_some_iff.mp hdevice
    refine h.mapRange hhalf ?_ hmap
    exact hc
  | createUser cpu =>
    cases hstep
    exact h.create cpu

theorem kernel_half_shared {f : ℕ} {s : State} {calls : List Call} (hkernel : s.kernelPml4 = frameAddr f)
    (htree : KernelTree f s.paging)
    (hstart : s.userPml4s = []) (hhalf : ∀ c ∈ calls, c.InKernelHalf)
    (hanchored : Runs.Guarded step (fun s c => c.Anchored s) s calls) : Runs.Always step Shared s calls := by
  have hsound : Sound f s := ⟨hkernel, htree, by rw [hstart]; exact fun _ h => by cases h⟩
  have hrun : Runs.Always step (Sound f) s calls := by
    refine Runs.invariant ?_ hsound (hanchored.and (Runs.guarded_of_forall hhalf s))
    rintro u c u' hu ⟨hc, hc'⟩ hstep
    exact step_sound hu hc' hc hstep
  exact hrun.mono fun u hu => hu.shared

def blank : State where
  paging := ⟨fun _ => 0, ⟨0x1000, fun i => if i < 32 then 0xFF else 0, 64, fun _ => 0⟩⟩
  kernelPml4 := frameAddr 2
  userPml4s := []

lemma blank_tree : KernelTree 2 blank.paging := by
  refine ⟨show 64 * 8 ≤ 2 ^ 28 by decide, (tableTree_empty (by decide) (fun i => ?_) (show blank.paging.frames.isSet 2 = true by decide)).1⟩
  simp [tables, blank, Mem.load64, Mem.readLE]

def mapThenCreate : List Call :=
  [.map none 0xFFFF800000001000 0x5000 3, .createUser none, .mapRange none 0xFFFF800000200000 0x6000 0x2000 3]

theorem kernel_half_shared_mapThenCreate : ∃ s, Runs.run step blank mapThenCreate = some s ∧ s.userPml4s = [0x103000] ∧
    vmmVirtualToPhysical s.paging.mem s.kernelPml4 0xFFFF800000201000 = 0x7000 ∧ Shared s := by
  refine Runs.exists_of_check (fun s => s.userPml4s = [0x103000] ∧
    vmmVirtualToPhysical s.paging.mem s.kernelPml4 0xFFFF800000201000 = 0x7000) (by decide +kernel) fun s hs hmapped =>
      ⟨hmapped.1, hmapped.2, (kernel_half_shared rfl blank_tree rfl ?_ (by decide +kernel)).last hs⟩
  simp only [mapThenCreate, forall_mem_cons]
  exact ⟨by decide, by decide, by decide, forall_mem_nil _⟩

theorem kernel_half_differs : ∃ s, Runs.run step blank [.createUser none, .map none 0xFFFF800000001000 0x5000 3] = some s ∧
    vmmVirtualToPhysical s.paging.mem s.kernelPml4 0xFFFF800000001000 = 0x5000 ∧
    ∃ pml4 ∈ s.userPml4s, vmmVirtualToPhysical s.paging.mem pml4 0xFFFF800000001000 = 0 := by
  refine Runs.exists_of_check (fun s => s.userPml4s = [0x100000] ∧
    vmmVirtualToPhysical s.paging.mem s.kernelPml4 0xFFFF800000001000 = 0x5000 ∧
    vmmVirtualToPhysical s.paging.mem 0x100000 0xFFFF800000001000 = 0) (by decide +kernel) fun s hrun hs =>
      ⟨hs.2.1, 0x100000, ?_, hs.2.2⟩
  rw [hs.1]
  exact mem_singleton_self _

end KernelSmp.Memory.SharedKernel
