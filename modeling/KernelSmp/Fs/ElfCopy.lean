import KernelSmp.Fs.ElfImage

/-! Where `elf_copy_segment` puts the bytes of a segment in physical memory. -/

namespace KernelSmp.Fs.ElfCopy

open Base Memory Memory.VmaRanges Option BitVec

def frameAt (m : Mem) (root v : Word) : Option ℕ :=
  match walkEntries m root v with
  | some [_, _, _, e] => some (frameOf e)
  | _ => none

def physAt (m : Mem) (root v : Word) : Option ℕ := (frameAt m root v).map fun f => pageSize * f + v.toNat % pageSize

def walkSlots (m : Mem) (root v : Word) : List ℕ :=
  let pdpt := entry m root (pml4Idx v) &&& vmmAddrMask
  let pd := entry m pdpt (pdptIdx v) &&& vmmAddrMask
  let pt := entry m pd (pdIdx v) &&& vmmAddrMask
  [root.toNat + 8 * pml4Idx v, pdpt.toNat + 8 * pdptIdx v, pd.toNat + 8 * pdIdx v, pt.toNat + 8 * ptIdx v]

structure Placed (m : Mem) (root vaddr : Word) (n : ℕ) (frame : ℕ → ℕ) : Prop where
  mapped : ∀ k < n, frameAt m root (vaddr + BitVec.ofNat 64 k) = some (frame k)
  distinct : ∀ j < n, ∀ k < n, frame j = frame k →
    (vaddr + BitVec.ofNat 64 j).toNat / pageSize = (vaddr + BitVec.ofNat 64 k).toNat / pageSize
  outside : ∀ j < n, ∀ k < n, ∀ a ∈ walkSlots m root (vaddr + BitVec.ofNat 64 j), ∀ x < 8, (a + x) / pageSize ≠ frame k

section walks

variable {m m' : Mem} {root v w : Word} {f : ℕ}

lemma walkEntries_congr (h : ∀ a ∈ walkSlots m root v, ∀ x < 8, m' (a + x) = m (a + x)) : walkEntries m' root v =
    walkEntries m root v := by
  have hload : ∀ (table : Word) (i : Fin 512), table.toNat + 8 * i ∈ walkSlots m root v → entry m' table i =
      entry m table i := by
    intro table i hslot
    rw [entry, entry, Mem.load64, Mem.load64, Mem.readLE_congr]
    intro x hlow hhigh
    obtain ⟨y, rfl⟩ := Nat.exists_eq_add_of_le hlow
    exact h _ hslot y (by omega)
  have h₁ := hload root (pml4Idx v) (by simp [walkSlots])
  have h₂ := hload (entry m root (pml4Idx v) &&& vmmAddrMask) (pdptIdx v) (by simp [walkSlots])
  have h₃ := hload (entry m (entry m root (pml4Idx v) &&& vmmAddrMask) (pdptIdx v) &&& vmmAddrMask) (pdIdx v)
    (by simp [walkSlots])
  have h₄ := hload (entry m (entry m (entry m root (pml4Idx v) &&& vmmAddrMask) (pdptIdx v) &&& vmmAddrMask) (pdIdx v)
    &&& vmmAddrMask)
    (ptIdx v) (by simp [walkSlots])
  -- each entry names the table of the next one
  simp only [walkEntries, h₁]
  generalize entry m root (pml4Idx v) = e₁ at *
  simp only [h₂]
  generalize entry m (e₁ &&& vmmAddrMask) (pdptIdx v) = e₂ at *
  simp only [h₃]
  generalize entry m (e₂ &&& vmmAddrMask) (pdIdx v) = e₃ at *
  simp only [h₄]

lemma frameAt_congr (h : ∀ a ∈ walkSlots m root v, ∀ x < 8, m' (a + x) = m (a + x)) : frameAt m' root v = frameAt m root v := by
  rw [frameAt, walkEntries_congr h, frameAt]

lemma frameAt_page (m : Mem) (root : Word) (h : v.toNat / pageSize = w.toNat / pageSize) : frameAt m root v =
    frameAt m root w := by
  have hidx : pml4Idx v = pml4Idx w ∧ pdptIdx v = pdptIdx w ∧ pdIdx v = pdIdx w ∧ ptIdx v = ptIdx w := by
    simp only [pml4Idx, pdptIdx, pdIdx, ptIdx, Fin.ext_iff, indexAt_val]
    rw [pageSize] at h
    omega
  obtain ⟨h₁, h₂, h₃, h₄⟩ := hidx
  rw [frameAt, frameAt, walkEntries, walkEntries, h₁, h₂, h₃, h₄]

lemma virtualToPhysical_of_frameAt (h : frameAt m root v = some f) : vmmVirtualToPhysical m root v =
    frameAddr f + (v &&& 0xFFF) := by
  simp only [frameAt, walkEntries] at h
  rw [vmmVirtualToPhysical]
  split_ifs at h with h₁ h₂ hhuge h₃ hhuge' h₄
  all_goals simp only [Option.some.injEq] at h
  subst h
  simp only [if_neg h₁, if_neg h₂, if_neg h₃, if_neg hhuge', if_neg h₄]
  rw [and_addrMask]

lemma frameAt_lt (h : frameAt m root v = some f) : f < 2 ^ 28 := by
  rw [frameAt] at h
  split at h
  · cases h
    exact frameOf_lt _
  · cases h

end walks

structure Copied (image : Mem) (b : ℕ) (place : ℕ → ℕ) (c : ℕ) (m m' : Mem) : Prop where
  bytes : ∀ k < c, m' (place k) = image (b + k)
  frame : ∀ a, (∀ k < c, place k ≠ a) → m' a = m a

section copy

variable {image m m' : Mem} {b c n : ℕ} {place : ℕ → ℕ}

lemma Copied.nil (image m : Mem) (b : ℕ) (place : ℕ → ℕ) : Copied image b place 0 m m :=
    ⟨fun _ hk => absurd hk (by omega), fun _ _ => rfl⟩

lemma Copied.chunk (h : Copied image b place c m m') (hinj : ∀ j < c + n, ∀ k < c + n, place j = place k → j = k)
    (hrun : ∀ x < n, place (c + x) = place c + x) : Copied image b place (c + n) m (m'.copy (place c) image (b + c) n) := by
  refine ⟨fun k hk => ?_, fun a ha => ?_⟩
  · by_cases hnew : c ≤ k
    · obtain ⟨x, rfl⟩ := Nat.exists_eq_add_of_le hnew
      rw [hrun x (by omega), Mem.copy, if_pos ⟨by omega, by omega⟩, Nat.add_sub_cancel_left, Nat.add_assoc]
    · rw [Mem.copy, if_neg]
      · exact h.bytes k (by omega)
      · rintro ⟨hlow, hhigh⟩
        -- a byte of the chunk would share its place with an earlier one
        obtain ⟨x, hx⟩ := Nat.exists_eq_add_of_le hlow
        have := hinj k hk (c + x) (by omega) (hx.trans (hrun x (by omega)).symm)
        omega
  · rw [Mem.copy, if_neg]
    · exact h.frame a fun k hk => ha k (by omega)
    · rintro ⟨hlow, _⟩
      obtain ⟨x, rfl⟩ := Nat.exists_eq_add_of_le hlow
      exact ha (c + x) (by omega) (hrun x (by omega))

end copy

section segment

variable {image m m' : Mem} {root vaddr src filesz : Word} {n c b : ℕ} {frame : ℕ → ℕ} {s : Vm}

def place (vaddr : Word) (frame : ℕ → ℕ) (k : ℕ) : ℕ := pageSize * frame k + (vaddr + BitVec.ofNat 64 k).toNat % pageSize

lemma place_div (vaddr : Word) (frame : ℕ → ℕ) (k : ℕ) : place vaddr frame k / pageSize = frame k := by
  rw [place, Nat.mul_add_div (by decide), Nat.div_eq_of_lt (Nat.mod_lt _ (by decide)), Nat.add_zero]

lemma offset_toNat {k : ℕ} (hk : k < 2 ^ 64) (vaddr : Word) : (vaddr + BitVec.ofNat 64 k).toNat =
    (vaddr.toNat + k) % 2 ^ 64 := by
  rw [BitVec.toNat_add, toNat_ofNat, Nat.mod_eq_of_lt hk]

lemma Placed.inj (h : Placed m root vaddr n frame) (hn : n ≤ 2 ^ 64) {j k : ℕ} (hj : j < n) (hk : k < n)
    (heq : place vaddr frame j = place vaddr frame k) : j = k := by
  have hframe : frame j = frame k := by rw [← place_div vaddr frame j, heq, place_div]
  have hpage := h.distinct j hj k hk hframe
  rw [place, place, hframe, Nat.add_left_cancel_iff, offset_toNat (by omega), offset_toNat (by omega), pageSize] at heq
  rw [offset_toNat (by omega), offset_toNat (by omega), pageSize] at hpage
  omega

lemma Placed.run (h : Placed m root vaddr n frame) (hn : n ≤ 2 ^ 64) (haligned : vaddr.toNat % pageSize = 0)
    (hc : c % pageSize = 0) {x : ℕ}
    (hx : x < pageSize) (hcx : c + x < n) : place vaddr frame (c + x) = place vaddr frame c + x := by
  rw [pageSize] at haligned hc hx
  have hpage : (vaddr + BitVec.ofNat 64 (c + x)).toNat / pageSize = (vaddr + BitVec.ofNat 64 c).toNat / pageSize := by
    rw [offset_toNat (by omega), offset_toNat (by omega), pageSize]
    omega
  have hframe : frame (c + x) = frame c := by
    rw [← Option.some.injEq, ← h.mapped (c + x) hcx, ← h.mapped c (by omega), frameAt_page m root hpage]
  rw [place, place, hframe, offset_toNat (by omega), offset_toNat (by omega), pageSize]
  omega

lemma Placed.frameAt (h : Placed m root vaddr n frame) (hm' : Copied image b (place vaddr frame) c m m') (hc : c ≤ n) {k : ℕ}
    (hk : k < n) : frameAt m' root (vaddr + BitVec.ofNat 64 k) = some (frame k) := by
  rw [← h.mapped k hk]
  apply frameAt_congr
  intro a ha x hx
  apply hm'.frame
  rintro j hj heq
  exact h.outside k hk j (by omega) a ha x hx (by rw [← heq, place_div])

lemma elfCopySegment_run (image : Mem) (h : Placed s.mem s.task.cr3 vaddr filesz.toNat frame)
    (haligned : vaddr.toNat % pageSize = 0)
    (hzero : ∀ k < filesz.toNat, frame k ≠ 0) (hsrc : src.toNat + filesz.toNat ≤ 2 ^ 64) :
    ∃ m', elfCopySegment image vaddr src filesz walkFuel s 0 = some { s with mem := m' } ∧
      Copied image src.toNat (place vaddr frame) filesz.toNat s.mem m' := by
  have hbound := filesz.isLt
  have hphys : ∀ (m : Mem) (c : Word), Copied image src.toNat (place vaddr frame) c.toNat s.mem m → c.toNat < filesz.toNat →
      (vaddr + c).toNat % pageSize = 0 → vmmVirtualToPhysical m s.task.cr3 (vaddr + c) = frameAddr (frame c.toNat) ∧
        frame c.toNat < 2 ^ 28 ∧ (frameAddr (frame c.toNat)).toNat = place vaddr frame c.toNat := by
    intro m c hcopied hlt hpage
    have haddr : vaddr + c = vaddr + BitVec.ofNat 64 c.toNat := by rw [ofNat_toNat, setWidth_eq]
    have hframe := h.frameAt hcopied hlt.le hlt
    rw [← haddr] at hframe
    have hsmall := frameAt_lt hframe
    have hlow : (vaddr + c) &&& 0xFFF = 0#64 := (Word.and_low_eq_zero 12 (by decide)).mpr hpage
    refine ⟨?_, hsmall, ?_⟩
    · rw [virtualToPhysical_of_frameAt hframe, hlow, BitVec.add_zero]
    · rw [frameAddr_toNat (by omega), place, ← haddr, hpage, Nat.add_zero]
  have hrule := elfCopySegment_rule image src filesz haligned (I := fun s' c => s' = { s with mem := s'.mem } ∧
    Copied image src.toNat (place vaddr frame) c.toNat s.mem s'.mem) ?_ ⟨rfl, Copied.nil image s.mem src.toNat _⟩
  · obtain ⟨s', c, hs', ⟨hrest, hcopied⟩, _, hstop⟩ := hrule
    have hend : c.toNat = filesz.toNat := by
      by_contra hne
      have hlt : c.toNat < filesz.toNat := by omega
      obtain ⟨hpage, hnone⟩ := hstop hlt
      obtain ⟨haddr, _, -⟩ := hphys s'.mem c hcopied hlt hpage
      rw [show s'.task = s.task by rw [hrest], haddr] at hnone
      exact frameAddr_ne_zero (by rw [pageSize]; omega) (hzero _ hlt) hnone
    rw [hend] at hcopied
    exact ⟨s'.mem, hs'.trans (congrArg some hrest), hcopied⟩
  · rintro s' c n ⟨hrest, hcopied⟩ hlt hpage hc hchunk hnext -
    obtain ⟨haddr, -, hplace⟩ := hphys s'.mem c hcopied hlt hpage
    refine ⟨by rw [hrest], ?_⟩
    have hfrom : (src + c).toNat = src.toNat + c.toNat := toNat_add_of_lt (by omega)
    rw [show s'.task = s.task by rw [hrest], haddr, hplace, hfrom, hnext]
    exact hcopied.chunk (fun j hj k hk => h.inj hbound.le (by omega) (by omega))
      fun x hx => h.run hbound.le haligned hc (by omega) (by omega)

end segment

section entries

local instance neZeroEntries : NeZero 512 := ⟨by decide⟩

def onePage (f : ℕ) : Vm :=
  { blankVm with
    mem := setEntry (setEntry (setEntry (setEntry (fun _ => 0) (frameAddr 2) 0 (tableEntry 3)) (frameAddr 3) 0 (tableEntry 4))
      (frameAddr 4) 2 (tableEntry 5)) (frameAddr 5) 0 (leafEntry (frameAddr f) (pteWritable ||| pteUser)) }

end entries

end KernelSmp.Fs.ElfCopy
