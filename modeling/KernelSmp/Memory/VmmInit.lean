import KernelSmp.Memory.KernelTree
import KernelSmp.Memory.PmmSupply

/-! `vmm_init`: the kernel address space that is built at boot, and its direct map of the physical memory. -/

namespace KernelSmp.Memory.VmmInit

open Base Base.Radix VmmRefinement List Option BitVec

def kernelPhysBase : Word := 0x2000000
def kernelVirtBase : Word := 0xFFFFFFFF80000000

structure KernelImage where
  textStart : Word
  textEnd : Word
  rodataStart : Word
  rodataEnd : Word
  dataStart : Word
  dataEnd : Word

structure Boot where
  bi : Word
  memoryMap : List EfiMemoryDescriptor
  framebufferBase : Word
  framebufferSize : Word
  kernel : KernelImage
  rsp : Word

def sizeofBootInfo : Word := 128

inductive MapCall
  | page (virt phys flags : Word)
  | range (virt phys size flags : Word)

def identityCalls : List MapCall :=
  (List.range ((kernelPhysBase.toNat + 0x400000) / pageSize)).map fun i =>
    .page (pageOffset i) (pageOffset i) (ptePresent ||| pteWritable)

def directCalls (memoryMap : List EfiMemoryDescriptor) : List MapCall :=
  (memoryMap.filter fun d => d.type ≠ 0 ∧ d.numPages > 0).map fun d =>
    .range (d.physicalStart + hhdmOffset) d.physicalStart (d.numPages * BitVec.ofNat 64 pageSize) (ptePresent ||| pteWritable)

def kernelCalls (k : KernelImage) : List MapCall :=
  [.range k.textStart (kernelPhysBase + (k.textStart - kernelVirtBase)) (k.textEnd - k.textStart) ptePresent,
    .range k.rodataStart (kernelPhysBase + (k.rodataStart - kernelVirtBase)) (k.rodataEnd - k.rodataStart)
      (ptePresent ||| pteNx),
    .range k.dataStart (kernelPhysBase + (k.dataStart - kernelVirtBase)) (k.dataEnd - k.dataStart)
      (ptePresent ||| pteWritable ||| pteNx)]

def stackCalls (rsp : Word) : List MapCall :=
  (List.range 16).flatMap fun i =>
    let physAddr := pageAlignDown rsp - pageOffset i
    [.page (physToVirt physAddr) physAddr (ptePresent ||| pteWritable ||| pteNx),
      .page physAddr physAddr (ptePresent ||| pteWritable ||| pteNx)]

def bootInfoCalls (bi : Word) : List MapCall :=
  [.range (pageAlignDown (physToVirt bi)) (pageAlignDown bi) sizeofBootInfo (ptePresent ||| pteWritable ||| pteNx)]

def framebufferCall (base size : Word) : MapCall :=
  .range (physToVirt base) (pageAlignDown base) (pageAlignUp (size + (base - pageAlignDown base)))
    (ptePresent ||| pteWritable ||| pteNx ||| (1#64 <<< 7))

section init

variable {σ : Type} (alloc : σ → Word × σ)

def MapCall.run (pml4 : Word) (s : Paging σ) : MapCall → Bool × Paging σ
  | .page virt phys flags => vmmMapUnlocked alloc s pml4 virt phys flags
  | .range virt phys size flags => vmmMapRangeUnlocked alloc s pml4 virt phys size flags

def mapAll (pml4 : Word) : Paging σ → List MapCall → Bool × Paging σ
  | s, [] => (true, s)
  | s, c :: cs =>
    let (ok, t) := c.run alloc pml4 s
    let (oks, u) := mapAll pml4 t cs
    (ok && oks, u)

structure Result (σ : Type) where
  kernelPml4 : Word
  framebufferBase : Word
  paging : Paging σ
  /-- No frame was refused, which the code does not look at. -/
  supplied : Bool

def vmmInit (boot : Boot) (s : Paging σ) : Option (Result σ) :=
  let localPml4 := (alloc s.frames).1
  let early := mapAll alloc localPml4 ⟨zeroPage s.mem localPml4, (alloc s.frames).2⟩
    (identityCalls ++ directCalls boot.memoryMap ++ kernelCalls boot.kernel ++ stackCalls boot.rsp)
  let fbVirt := physToVirt boot.framebufferBase
  let okFb := ((framebufferCall boot.framebufferBase boot.framebufferSize).run alloc localPml4 early.2).1
  (vmmMapDevice alloc early.2 localPml4 fbVirt boot.framebufferBase boot.framebufferSize).map fun fb =>
    let late := mapAll alloc localPml4 fb.2 (bootInfoCalls boot.bi)
    ⟨localPml4, fbVirt, late.2, localPml4 ≠ 0 && early.1 && okFb && late.1⟩

end init

namespace MapCall

def virt : MapCall → Word
  | .page virt _ _ | .range virt _ _ _ => virt

def phys : MapCall → Word
  | .page _ phys _ | .range _ phys _ _ => phys

def flags : MapCall → Word
  | .page _ _ flags | .range _ _ _ flags => flags

def count : MapCall → ℕ
  | .page _ _ _ => 1
  | .range _ _ size _ => numPages size

def virtPage (c : MapCall) : ℕ := c.virt.toNat / pageSize
def physPage (c : MapCall) : ℕ := c.phys.toNat / pageSize

structure Agrees (c : MapCall) : Prop where
  flags : c.flags &&& vmmAddrMask = 0
  pages : ∀ k < c.count, ∀ x < 2 ^ 34, x + 2 ^ 35 = (c.virtPage + k) % 2 ^ 36 → (c.physPage + k) % 2 ^ 28 = x % 2 ^ 28

lemma Agrees.of_straight {c : MapCall} (hflags : c.flags &&& vmmAddrMask = 0)
    (hvirt : c.virtPage % 2 ^ 36 = (c.physPage + 2 ^ 35) % 2 ^ 36) : c.Agrees := by
  refine ⟨hflags, fun k hk x hx heq => ?_⟩
  omega

lemma Agrees.of_away {c : MapCall} (hflags : c.flags &&& vmmAddrMask = 0)
    (haway : ∀ k < c.count, (c.virtPage + k) % 2 ^ 36 < 2 ^ 35 ∨ 2 ^ 35 + 2 ^ 34 ≤ (c.virtPage + k) % 2 ^ 36) : c.Agrees := by
  refine ⟨hflags, fun k hk x hx heq => ?_⟩
  have := haway k hk
  omega

end MapCall

structure DirectMap (f : ℕ) (s : Paging Pmm) : Prop where
  tree : KernelTree f s
  exact : ∀ a e : Word, a.toNat < 2 ^ 46 → leafAt f (tables s.mem) (physToVirt a) = some e →
    frameOf e = a.toNat / 4096 % 2 ^ 28

section calls

variable {f : ℕ} {s t : Paging Pmm} {cpu : Option ℕ} {c : MapCall} {cs : List MapCall}

lemma pageOf_add (v : Word) (k : ℕ) : pageOf (v + pageOffset k) = (v.toNat / pageSize + k) % 2 ^ 36 := by
  rw [pageOf, pageOffset, pageSize, BitVec.toNat_add, toNat_ofNat]
  omega

lemma frame_add (v : Word) (k : ℕ) : (v + pageOffset k).toNat / 4096 % 2 ^ 28 = (v.toNat / pageSize + k) % 2 ^ 28 := by
  rw [pageOffset, pageSize, BitVec.toNat_add, toNat_ofNat]
  omega

lemma physToVirt_page (a : Word) : (physToVirt a).toNat / 4096 % 2 ^ 36 = (a.toNat / 4096 + 2 ^ 35) % 2 ^ 36 := by
  rw [physToVirt, BitVec.toNat_add, show hhdmOffset.toNat = 2 ^ 64 - 2 ^ 47 from rfl]
  omega

lemma pageOf_physToVirt {a : Word} (ha : a.toNat < 2 ^ 47) : pageOf (physToVirt a) = a.toNat / 4096 + 2 ^ 35 := by
  rw [pageOf, pageSize, physToVirt_page]
  omega

lemma frameOf_leafEntry' (phys : Word) {flags : Word} (hflags : flags &&& vmmAddrMask = 0) :
    frameOf (leafEntry phys flags) = phys.toNat / 4096 % 2 ^ 28 := by
  have hmask : (phys &&& vmmAddrMask) &&& vmmAddrMask = phys &&& vmmAddrMask := by
    rw [BitVec.and_assoc, BitVec.and_self]
  rw [frameOf, leafEntry, or_and_addrMask _ (by decide), or_and_addrMask _ hflags, hmask, frameIndex,
    and_addrMask_toNat, pageSize]
  omega

lemma MapCall.run_written (h : KernelTree f s) (hres : (c.run (fun p => pmmAllocFrame p cpu) (frameAddr f) s).1 = true) :
    KernelTree f (c.run (fun p => pmmAllocFrame p cpu) (frameAddr f) s).2 ∧
    Written f c.virt c.phys c.flags 0 c.count s (c.run (fun p => pmmAllocFrame p cpu) (frameAddr f) s).2 := by
  cases c with
  | page virt phys flags =>
    refine ⟨(h.map cpu virt phys flags).tree, fun w => ?_⟩
    rw [MapCall.run, h.map_leaf cpu virt phys flags hres w]
    split_ifs with hpage
    · refine .inr ⟨0, le_refl 0, Nat.one_pos, ?_, ?_⟩
      · rwa [MapCall.virt, pageOffset_zero]
      · rw [MapCall.phys, pageOffset_zero, MapCall.flags]
    · refine .inl ⟨fun k _ hk => ?_, rfl⟩
      obtain rfl : k = 0 := Nat.lt_one_iff.mp hk
      rwa [MapCall.virt, pageOffset_zero]
  | range virt phys size =>
    obtain ⟨hext, hwritten⟩ : Extends f (fun _ => False) s _ ∧ _ := h.mapPages (numPages size) (fun _ _ _ _ hj => hj.elim) hres
    rw [Nat.zero_add] at hwritten
    exact ⟨hext.tree, hwritten⟩

lemma DirectMap.run (h : DirectMap f s) (hc : c.Agrees)
    (hres : (c.run (fun p => pmmAllocFrame p cpu) (frameAddr f) s).1 = true) :
    DirectMap f (c.run (fun p => pmmAllocFrame p cpu) (frameAddr f) s).2 ∧
    ∀ w, ((leafAt f (tables s.mem) w).isSome ∨ ∃ k < c.count, pageOf w = (c.virtPage + k) % 2 ^ 36) →
      (leafAt f (tables (c.run (fun p => pmmAllocFrame p cpu) (frameAddr f) s).2.mem) w).isSome := by
  obtain ⟨htree, hwritten⟩ := MapCall.run_written h.tree hres
  refine ⟨⟨htree, fun a e ha he => ?_⟩, fun w hw => ?_⟩
  · rcases hwritten (physToVirt a) with ⟨-, hsame⟩ | ⟨k, -, hk, hpage, hleaf⟩
    · exact h.exact a e ha (hsame.symm.trans he)
    · cases hleaf.symm.trans he
      rw [pageOf_physToVirt (by omega), pageOf_add] at hpage
      rw [frameOf_leafEntry' _ hc.flags, frame_add]
      exact hc.pages k hk _ (by omega) hpage
  · rcases hwritten w with ⟨hout, hsame⟩ | ⟨k, -, hk, hpage, hleaf⟩
    · rw [hsame]
      refine hw.resolve_right ?_
      rintro ⟨k, hk, _⟩
      refine hout k (Nat.zero_le k) hk ?_
      rwa [pageOf_add]
    · rw [hleaf]
      rfl

lemma DirectMap.mapAll (h : DirectMap f s) (hcs : ∀ c ∈ cs, c.Agrees)
    (hres : (mapAll (fun p => pmmAllocFrame p cpu) (frameAddr f) s cs).1 = true) :
    DirectMap f (mapAll (fun p => pmmAllocFrame p cpu) (frameAddr f) s cs).2 ∧
    ∀ w, ((leafAt f (tables s.mem) w).isSome ∨ ∃ c ∈ cs, ∃ k < c.count, pageOf w = (c.virtPage + k) % 2 ^ 36) →
      (leafAt f (tables (VmmInit.mapAll (fun p => pmmAllocFrame p cpu) (frameAddr f) s cs).2.mem) w).isSome := by
  induction cs generalizing s with
  | nil =>
    refine ⟨h, fun w hw => hw.resolve_right ?_⟩
    rintro ⟨c, hc, -⟩
    cases hc
  | cons c cs ih =>
    simp only [VmmInit.mapAll, Bool.and_eq_true] at hres ⊢
    obtain ⟨hfirst, hmapped⟩ := h.run (hcs c mem_cons_self) hres.1
    obtain ⟨hrest, hmapped'⟩ := ih hfirst (fun c' hc' => hcs c' (mem_cons_of_mem _ hc')) hres.2
    refine ⟨hrest, fun w hw => hmapped' w ?_⟩
    rcases hw with hw | ⟨c', hc', hk⟩
    · exact .inl (hmapped w (.inl hw))
    · rcases mem_cons.mp hc' with rfl | hc'
      · exact .inl (hmapped w (.inr hk))
      · exact .inr ⟨c', hc', hk⟩

end calls

section boot

variable {boot : Boot} {s : Paging Pmm} {r : Result Pmm} {cpu : Option ℕ} {c : MapCall}

def Boot.calls (boot : Boot) : List MapCall :=
  (identityCalls ++ directCalls boot.memoryMap ++ kernelCalls boot.kernel ++ stackCalls boot.rsp) ++
    framebufferCall boot.framebufferBase boot.framebufferSize :: bootInfoCalls boot.bi

structure KernelImage.Linked (k : KernelImage) : Prop where
  text : kernelVirtBase ≤ k.textStart ∧ k.textStart ≤ k.textEnd
  rodata : kernelVirtBase ≤ k.rodataStart ∧ k.rodataStart ≤ k.rodataEnd
  data : kernelVirtBase ≤ k.dataStart ∧ k.dataStart ≤ k.dataEnd

lemma pageAlignDown_page (a : Word) : (pageAlignDown a).toNat / 4096 = a.toNat / 4096 := by
  have hmask : a &&& ~~~0xFFF = a &&& BitVec.ofNat 64 ((2 ^ 52 - 1) * 2 ^ 12) := rfl
  rw [pageAlignDown, hmask, Word.toNat_and_field _ 12 52 (by decide)]
  omega

lemma dataFlags : (ptePresent ||| pteWritable) &&& vmmAddrMask = 0 := by decide

lemma noExecuteFlags : (ptePresent ||| pteWritable ||| pteNx) &&& vmmAddrMask = 0 := by decide

lemma agrees_identity (hc : c ∈ identityCalls) : c.Agrees := by
  obtain ⟨i, hi, rfl⟩ := List.mem_map.mp hc
  have hi' : i < 9216 := mem_range.mp hi
  refine .of_away dataFlags fun k hk => ?_
  obtain rfl : k = 0 := Nat.lt_one_iff.mp hk
  rw [MapCall.virtPage, MapCall.virt, pageOffset, pageSize, toNat_ofNat]
  omega

lemma agrees_direct (hc : c ∈ directCalls boot.memoryMap) : c.Agrees := by
  obtain ⟨d, -, rfl⟩ := List.mem_map.mp hc
  exact .of_straight dataFlags (physToVirt_page d.physicalStart)

lemma agrees_section {start stop flags : Word} (phys : Word) (hplace : kernelVirtBase ≤ start ∧ start ≤ stop)
    (hflags : flags &&& vmmAddrMask = 0) : (MapCall.range start phys (stop - start) flags).Agrees := by
  refine .of_away hflags fun k hk => ?_
  have hbase : 2 ^ 64 - 2 ^ 31 ≤ start.toNat := le_def.mp hplace.1
  have hsize := toNat_sub_of_le hplace.2
  have hcount : k < ((stop - start) + BitVec.ofNat 64 pageSize - 1).toNat / pageSize := hk
  rw [pageSize, toNat_sub, BitVec.toNat_add, hsize, toNat_ofNat, show (1 : Word).toNat = 1 from rfl] at hcount
  rw [MapCall.virtPage, MapCall.virt, pageSize]
  omega

lemma agrees_kernel (hk : boot.kernel.Linked) (hc : c ∈ kernelCalls boot.kernel) : c.Agrees := by
  simp only [kernelCalls, mem_cons, not_mem_nil, or_false] at hc
  rcases hc with rfl | rfl | rfl
  · exact agrees_section _ hk.text (by decide)
  · exact agrees_section _ hk.rodata (by decide)
  · exact agrees_section _ hk.data (by decide)

lemma agrees_stack (hrsp : boot.rsp.toNat < 2 ^ 47) (hc : c ∈ stackCalls boot.rsp) : c.Agrees := by
  obtain ⟨i, hi, hc⟩ := mem_flatMap.mp hc
  have hi' := mem_range.mp hi
  simp only [mem_cons, not_mem_nil, or_false] at hc
  rcases hc with rfl | rfl
  · exact .of_straight noExecuteFlags (physToVirt_page _)
  · refine .of_away noExecuteFlags fun k hk => ?_
    obtain rfl : k = 0 := Nat.lt_one_iff.mp hk
    have hpage := pageAlignDown_page boot.rsp
    rw [MapCall.virtPage, MapCall.virt, toNat_sub, pageOffset, pageSize, toNat_ofNat]
    omega

lemma agrees_framebuffer (base size : Word) : (framebufferCall base size).Agrees := by
  refine .of_straight (show (ptePresent ||| pteWritable ||| pteNx ||| (1#64 <<< 7)) &&& vmmAddrMask = 0 by decide) ?_
  change (physToVirt base).toNat / 4096 % 2 ^ 36 = ((pageAlignDown base).toNat / 4096 + 2 ^ 35) % 2 ^ 36
  rw [physToVirt_page, pageAlignDown_page]

lemma agrees_bootInfo (hc : c ∈ bootInfoCalls boot.bi) : c.Agrees := by
  obtain rfl := mem_singleton.mp hc
  refine .of_straight noExecuteFlags ?_
  change (pageAlignDown (physToVirt boot.bi)).toNat / 4096 % 2 ^ 36 = ((pageAlignDown boot.bi).toNat / 4096 + 2 ^ 35) % 2 ^ 36
  rw [pageAlignDown_page, pageAlignDown_page, physToVirt_page]

lemma agrees_calls (hkernel : boot.kernel.Linked) (hrsp : boot.rsp.toNat < 2 ^ 47) : ∀ c ∈ boot.calls, c.Agrees := by
  intro c hc
  simp only [Boot.calls, mem_append, mem_cons] at hc
  rcases hc with (((hc | hc) | hc) | hc) | rfl | hc
  · exact agrees_identity hc
  · exact agrees_direct hc
  · exact agrees_kernel hkernel hc
  · exact agrees_stack hrsp hc
  · exact agrees_framebuffer _ _
  · exact agrees_bootInfo hc

lemma mapAll_append {σ : Type} (alloc : σ → Word × σ) (pml4 : Word) (s : Paging σ) (cs cs' : List MapCall) :
    mapAll alloc pml4 s (cs ++ cs') = ((mapAll alloc pml4 s cs).1 && (mapAll alloc pml4 (mapAll alloc pml4 s cs).2 cs').1,
      (mapAll alloc pml4 (mapAll alloc pml4 s cs).2 cs').2) := by
  induction cs generalizing s with
  | nil => rfl
  | cons c cs ih => simp only [List.cons_append, mapAll, ih, Bool.and_assoc]

lemma vmmInit_calls (hinit : vmmInit (fun p => pmmAllocFrame p cpu) boot s = some r) (hsupplied : r.supplied = true) :
    ∃ frames, pmmAllocFrame s.frames cpu = (r.kernelPml4, frames) ∧ r.kernelPml4 ≠ 0 ∧
      mapAll (fun p => pmmAllocFrame p cpu) r.kernelPml4 ⟨zeroPage s.mem r.kernelPml4, frames⟩ boot.calls =
        (true, r.paging) := by
  rw [Boot.calls]
  simp only [vmmInit] at hinit
  -- the first calls stay folded: there are thousands of them
  generalize identityCalls ++ directCalls boot.memoryMap ++ kernelCalls boot.kernel ++ stackCalls boot.rsp = cs at hinit ⊢
  obtain ⟨⟨_, _⟩, hdevice, rfl⟩ := map_eq_some_iff.mp hinit
  obtain ⟨_, hmap, ⟨⟩⟩ := map_eq_some_iff.mp hdevice
  obtain rfl := checkMapped_eq hmap
  simp only [Bool.and_eq_true, decide_eq_true_eq] at hsupplied
  obtain ⟨⟨⟨hpml4, hok⟩, hokFb⟩, hokBi⟩ := hsupplied
  refine ⟨_, rfl, hpml4, ?_⟩
  rw [mapAll_append]
  refine Prod.ext ?_ rfl
  simp only [mapAll, Bool.and_eq_true]
  exact ⟨hok, hokFb, hokBi⟩

lemma directMap_start (cpu : Option ℕ) {frames : Pmm} {pml4 : Word} (hsmall : s.frames.Small)
    (halloc : pmmAllocFrame s.frames cpu = (pml4, frames))
    (hpml4 : pml4 ≠ 0) : ∃ f, pml4 = frameAddr f ∧ DirectMap f ⟨zeroPage s.mem pml4, frames⟩ := by
  have hok := (pmmSource cpu).alloc_ok s.frames hsmall
  have hspec := (pmmSource cpu).alloc_spec s.frames hsmall
  simp only [pmmSource, halloc] at hok hspec
  obtain ⟨f, -, _, rfl, -, hused⟩ := hspec.resolve_left fun h => hpml4 h.1
  have hrow : ∀ i, tables (zeroPage s.mem (frameAddr f)) f i = 0 := by
    intro i
    rw [tables_zeroPage _ (by omega), setRow, Function.update_self]
  obtain ⟨htree, hleaf⟩ := tableTree_empty (by omega) hrow (hused ▸ Set.mem_insert f _)
  refine ⟨f, rfl, ⟨hok, htree⟩, fun a e _ he => ?_⟩
  cases (hleaf (physToVirt a)).symm.trans he

lemma numPages_mul {n : Word} (h : n.toNat * 4096 ≤ 2 ^ 46) : numPages (n * BitVec.ofNat 64 pageSize) = n.toNat := by
  have hsize : (n * BitVec.ofNat 64 pageSize).toNat = n.toNat * 4096 := by
    rw [toNat_mul, toNat_ofNat, pageSize]
    omega
  rw [numPages, toNat_sub, BitVec.toNat_add, hsize, toNat_ofNat, pageSize, show (1 : Word).toNat = 1 from rfl]
  omega

lemma directMap_translates (hsmall : s.frames.Small) (hkernel : boot.kernel.Linked) (hrsp : boot.rsp.toNat < 2 ^ 47)
    (hinit : vmmInit (fun p => pmmAllocFrame p cpu) boot s = some r) (hsupplied : r.supplied = true) {d : EfiMemoryDescriptor}
    (hd : d ∈ boot.memoryMap) (htype : d.type ≠ 0) (haligned : d.physicalStart.toNat % 4096 = 0)
    (hbelow : d.physicalStart.toNat + d.numPages.toNat * 4096 ≤ 2 ^ 46) {a : Word} (hlow : d.physicalStart.toNat ≤ a.toNat)
    (hhigh : a.toNat < d.physicalStart.toNat + d.numPages.toNat * 4096) :
    vmmVirtualToPhysical r.paging.mem r.kernelPml4 (physToVirt a) = BitVec.ofNat 64 (a.toNat % 2 ^ 40) := by
  obtain ⟨_, halloc, hpml4, hcalls⟩ := vmmInit_calls hinit hsupplied
  obtain ⟨_, hf, hstart⟩ := directMap_start cpu hsmall halloc hpml4
  rw [hf] at hcalls hstart
  have hres := congrArg Prod.fst hcalls
  obtain ⟨hdirect, hmapped⟩ := hstart.mapAll (agrees_calls hkernel hrsp) hres
  rw [hcalls] at hdirect hmapped
  have hcall : MapCall.range (d.physicalStart + hhdmOffset) d.physicalStart (d.numPages * BitVec.ofNat 64 pageSize)
      (ptePresent ||| pteWritable) ∈ boot.calls := by
    have hpos : d.numPages > 0 := by
      rw [gt_iff_lt, lt_def, show (0 : Word).toNat = 0 from rfl]
      omega
    simp only [Boot.calls, mem_append]
    exact .inl (.inl (.inl (.inr (List.mem_map.mpr ⟨d, mem_filter.mpr ⟨hd, decide_eq_true ⟨htype, hpos⟩⟩, rfl⟩))))
  have hsome := hmapped (physToVirt a) (.inr ⟨_, hcall, a.toNat / 4096 - d.physicalStart.toNat / 4096, ?_, ?_⟩)
  · rcases hdirect.tree.wired.walk_cases (r := ()) rfl
      (show TablePath (upperPath (physToVirt a)) from le_refl 3) with ⟨hnone, -⟩ | ⟨e, he, hphys, -⟩
    · simp [leafAt, hnone] at hsome
    · have hframe := hdirect.exact a e (by omega) he
      have hoffset : (physToVirt a).toNat % 4096 = a.toNat % 4096 := by
        rw [physToVirt, BitVec.toNat_add, show hhdmOffset.toNat = 2 ^ 64 - 2 ^ 47 from rfl]
        omega
      rw [hf, hphys, and_addrMask, translate_some (frameOf_lt e), hframe, pageSize, hoffset]
      exact congrArg (BitVec.ofNat 64) (by omega)
  · change _ < numPages (d.numPages * BitVec.ofNat 64 pageSize)
    rw [numPages_mul (by omega)]
    omega
  · have hpage := physToVirt_page d.physicalStart
    rw [physToVirt] at hpage
    rw [pageOf_physToVirt (by omega), MapCall.virtPage, MapCall.virt, pageSize]
    omega

end boot

section supply

variable {boot : Boot} {s : Paging Pmm} {n : ℕ} {pml4 : Word}

def pageCount (cs : List MapCall) : ℕ := (cs.map MapCall.count).sum

variable (pml4) in
lemma available_mapAll (cs : List MapCall) (h : Available (n + 3 * pageCount cs) s.frames) :
    (mapAll (fun p => pmmAllocFrame p none) pml4 s cs).1 = true ∧
      Available n (mapAll (fun p => pmmAllocFrame p none) pml4 s cs).2.frames := by
  induction cs generalizing s with
  | nil => exact ⟨rfl, h⟩
  | cons c cs ih =>
    have hsum : n + 3 * pageCount (c :: cs) = n + 3 * pageCount cs + 3 * c.count := by
      rw [pageCount, map_cons, sum_cons, ← pageCount]
      omega
    rw [hsum] at h
    have hone : (c.run (fun p => pmmAllocFrame p none) pml4 s).1 = true ∧
        Available (n + 3 * pageCount cs) (c.run (fun p => pmmAllocFrame p none) pml4 s).2.frames := by
      cases c with
      | page virt phys flags => exact h.map pml4 virt phys flags
      | range virt phys size flags => exact h.mapPages pml4 virt phys flags (numPages size) 0
    obtain ⟨hrest, hleft⟩ := ih hone.2
    simp only [mapAll, Bool.and_eq_true]
    exact ⟨⟨hone.1, hrest⟩, hleft⟩

lemma vmmMapDevice_framebuffer {alloc : Pmm → Word × Pmm} {base size : Word}
    (h : ((framebufferCall base size).run alloc pml4 s).1 = true) :
    vmmMapDevice alloc s pml4 (physToVirt base) base size =
      some (physToVirt base + (base - pageAlignDown base), ((framebufferCall base size).run alloc pml4 s).2) := by
  rw [framebufferCall, MapCall.run] at h
  simp only [vmmMapDevice, vmmMapRange, checkMapped, h]
  rfl

lemma vmmInit_supplied (h : Available (3 * pageCount boot.calls + 1) s.frames) :
    ∃ r, vmmInit (fun p => pmmAllocFrame p none) boot s = some r ∧ r.supplied = true := by
  obtain ⟨hpml4, hleft⟩ := h.alloc
  rw [← Nat.zero_add (3 * pageCount boot.calls)] at hleft
  have hcalls := available_mapAll (pmmAllocFrame s.frames none).1
    (s := ⟨zeroPage s.mem (pmmAllocFrame s.frames none).1, (pmmAllocFrame s.frames none).2⟩) boot.calls hleft
  rw [Boot.calls, mapAll_append] at hcalls
  simp only [vmmInit]
  generalize identityCalls ++ directCalls boot.memoryMap ++ kernelCalls boot.kernel ++ stackCalls boot.rsp = cs at hcalls ⊢
  simp only [mapAll, Bool.and_eq_true] at hcalls
  obtain ⟨⟨hearly, hfb, hlate⟩, -⟩ := hcalls
  refine ⟨_, map_eq_some_iff.mpr ⟨_, vmmMapDevice_framebuffer hfb, rfl⟩, ?_⟩
  simp only [Bool.and_eq_true, decide_eq_true_eq]
  exact ⟨⟨⟨hpml4, hearly⟩, hfb⟩, hlate⟩

end supply

section machines

def smallKernel : KernelImage where
  textStart := kernelVirtBase
  textEnd := kernelVirtBase + 0x3000
  rodataStart := kernelVirtBase + 0x3000
  rodataEnd := kernelVirtBase + 0x4000
  dataStart := kernelVirtBase + 0x4000
  dataEnd := kernelVirtBase + 0x5800

lemma smallKernel_linked : smallKernel.Linked := ⟨by decide, by decide, by decide⟩

def machine (start : Word) : Boot where
  bi := 0x7000
  memoryMap := [⟨efiConventionalMemory, start, 0x100⟩]
  framebufferBase := 0x80000010
  framebufferSize := 0x4000
  kernel := smallKernel
  rsp := 0x90FF8

def emptyMemory : Paging Pmm := ⟨fun _ => 0, ⟨0x1000, fun i => if i = 0 then 0xFF else 0, 2 ^ 16, fun _ => 0⟩⟩

lemma emptyMemory_available : Available (2 ^ 18) emptyMemory.frames := by
  refine ⟨by decide, show 2 ^ 16 * 8 ≤ 2 ^ 28 by decide, Finset.Ico 8 (2 ^ 19), ?_, fun k hk => ?_⟩
  · rw [Nat.card_Ico]
    decide
  · obtain ⟨hlow, hhigh⟩ := Finset.mem_Ico.mp hk
    have hbyte : emptyMemory.frames.bitmap (k / 8) = 0 := if_neg (by omega)
    refine ⟨hlow, hhigh, ?_⟩
    rw [Pmm.isSet_eq, hbyte]
    exact getLsbD_zero

lemma pageCount_append (cs cs' : List MapCall) : pageCount (cs ++ cs') = pageCount cs + pageCount cs' := by
  rw [pageCount, map_append, sum_append, ← pageCount, ← pageCount]

lemma pageCount_identity : pageCount identityCalls = 9216 := by
  rw [pageCount, identityCalls, List.map_map, show MapCall.count ∘ _ = Function.const ℕ 1 from rfl, map_const,
    sum_replicate,
    length_range]
  decide

lemma machine_supplied (start : Word) :
    ∃ r, vmmInit (fun p => pmmAllocFrame p none) (machine start) emptyMemory = some r ∧ r.supplied = true := by
  have hdirect : pageCount (directCalls (machine start).memoryMap) = numPages (0x100 * BitVec.ofNat 64 pageSize) := by
    rw [machine, directCalls, filter_cons_of_pos (by simp [efiConventionalMemory])]
    rfl
  have hkernel : pageCount (kernelCalls smallKernel) = 6 := by decide
  have hstack : pageCount (stackCalls 0x90FF8) = 32 := by decide
  have hlate : pageCount (framebufferCall 0x80000010 0x4000 :: bootInfoCalls 0x7000) = 6 := by decide
  have hpages : pageCount (machine start).calls = 9516 := by
    rw [Boot.calls, pageCount_append, pageCount_append, pageCount_append, pageCount_append, pageCount_identity, hdirect]
    exact congrArg₂ (· + ·) (congrArg₂ (· + ·) (congrArg _ hkernel) hstack) hlate
  apply vmmInit_supplied
  rw [hpages]
  exact emptyMemory_available.mono (by decide)

end machines

end KernelSmp.Memory.VmmInit
