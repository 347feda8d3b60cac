import KernelSmp.Memory.KmallocBlocks

/-! What `kfree` does to the list of blocks, and what the sections keep of it: the bytes that the
blocks cover, the blocks in use, and that free neighbours are merged. -/

namespace KernelSmp.Memory

open Base LinkedList List

def joined (b c : Block) : Block := ⟨b.addr, b.size + (c.size + headerSize), b.free⟩

def mergeBehind (b : Block) : List Block → Block × List Block
  | [] => (b, [])
  | c :: l => if c.free ∧ b.stop = c.addr.toNat then (joined b c, l) else (b, c :: l)

def mergeBefore (l₁ : List Block) (b : Block) (l₂ : List Block) : List Block :=
  match l₁.getLast? with
  | none => b :: l₂
  | some p => if p.free ∧ p.stop = b.addr.toNat then l₁.dropLast ++ joined p b :: l₂ else l₁ ++ b :: l₂

def freeBlock (l₁ : List Block) (b : Block) (l₂ : List Block) : List Block :=
  mergeBefore l₁ (mergeBehind ⟨b.addr, b.size, true⟩ l₂).1 (mergeBehind ⟨b.addr, b.size, true⟩ l₂).2

variable {m : Mem} {start : Word} {l₁ l₂ : List Block} {b c : Block}

lemma stop_eq_iff (hb : b.Sane) (hc : c.Sane) : b.addr + headerSize + b.size = c.addr ↔ b.stop = c.addr.toNat := by
  have hhigh := hb.high
  have hlow : (0xFFFF800000000000 : ℕ) ≤ c.addr.toNat := hc.low
  have hheader : headerSize.toNat = 40 := rfl
  rw [Block.stop] at hhigh
  rw [Block.stop, ← BitVec.toNat_inj, BitVec.toNat_add, BitVec.toNat_add]
  omega

lemma isFree_ne_zero (h : b.Stored m) : mHeader.get m b.addr .isFree ≠ 0 ↔ b.free := by
  rw [h.free]
  cases b.free <;> simp

lemma Rep.touches (h : Rep ⟨m, start⟩ (l₁ ++ b :: c :: l₂)) (other : Block) (hother : other ∈ l₁ ++ b :: c :: l₂) :
    touches m b.addr c.addr other.addr ↔ other.free ∧ b.stop = c.addr.toNat := by
  have hb := h.sane b (by simp)
  have hc := h.sane c (by simp)
  rw [Memory.touches, decide_eq_true_eq, (h.stored b (by simp)).size, stop_eq_iff hb hc,
    isFree_ne_zero (h.stored other hother)]
  exact and_iff_right (h.sane other hother).ne_zero

lemma Rep.mergeNext (h : Rep ⟨m, start⟩ (l₁ ++ b :: l₂)) :
    Rep ⟨mergeNext m b.addr, start⟩ (l₁ ++ (mergeBehind b l₂).1 :: (mergeBehind b l₂).2) := by
  rw [Memory.mergeNext]
  rcases h.next_cases with ⟨hnext, rfl⟩ | ⟨c, l₃, rfl, hnext, -⟩
  · simp only [hnext]
    have hnone : ¬ Memory.touches m b.addr 0 0 := by simp [Memory.touches]
    rwa [if_neg hnone]
  · simp only [hnext, mergeBehind]
    by_cases hmerge : c.free ∧ b.stop = c.addr.toNat
    · rw [if_pos ((h.touches c (by simp)).mpr hmerge), if_pos hmerge]
      exact h.absorb hmerge.2
    · rwa [if_neg (mt (h.touches c (by simp)).mp hmerge), if_neg hmerge]

lemma Rep.mergePrev (h : Rep ⟨m, start⟩ (l₁ ++ b :: l₂)) : Rep ⟨mergePrev m b.addr, start⟩ (mergeBefore l₁ b l₂) := by
  have hprev := h.prev
  rw [Memory.mergePrev]
  induction l₁ using List.reverseRecOn with
  | nil =>
    have hzero := pointer_eq_none.mp hprev
    have hnone : ¬ Memory.touches m 0 b.addr 0 := by simp [Memory.touches]
    simp only [hzero]
    rwa [if_neg hnone]
  | append_singleton l₁ p =>
    rw [map_append, map_singleton, lastOr_concat] at hprev
    obtain ⟨hp, -⟩ := pointer_eq_some.mp hprev
    have hlist : (l₁ ++ [p]) ++ b :: l₂ = l₁ ++ p :: b :: l₂ := by simp
    have h' := hlist ▸ h
    simp only [hp, mergeBefore, List.getLast?_concat, dropLast_concat]
    by_cases hmerge : p.free ∧ p.stop = b.addr.toNat
    · rw [if_pos ((h'.touches p (by simp)).mpr hmerge), if_pos hmerge]
      exact h'.absorb hmerge.2
    · rwa [if_neg (mt (h'.touches p (by simp)).mp hmerge), if_neg hmerge]

lemma mergeBehind_addr (b : Block) (l : List Block) : (mergeBehind b l).1.addr = b.addr := by
  cases l with
  | nil => rfl
  | cons =>
    rw [mergeBehind]
    split
    · rfl
    · rfl

theorem Rep.kfree (h : Rep ⟨m, start⟩ (l₁ ++ b :: l₂)) : Rep ⟨kfreeSection m b.addr, start⟩ (freeBlock l₁ b l₂) := by
  have hfree := h.set_isFree true rfl
  have hnext := hfree.mergeNext
  have hprev := hnext.mergePrev
  rwa [mergeBehind_addr] at hprev

variable {size : Word}

def Block.bytes (b : Block) : List ℕ := List.range' b.addr.toNat (40 + b.size.toNat)

lemma joined_size (hc : c.Sane) (htouch : b.stop = c.addr.toNat) :
    (joined b c).size.toNat = b.size.toNat + (40 + c.size.toNat) := by
  have hhigh := hc.high
  rw [Block.stop] at hhigh htouch
  rw [joined, headerSize]
  bv_omega

lemma joined_bytes (hc : c.Sane) (htouch : b.stop = c.addr.toNat) : (joined b c).bytes = b.bytes ++ c.bytes := by
  have hsplit := @range'_append_1 b.addr.toNat (40 + b.size.toNat) (40 + c.size.toNat)
  rw [Block.bytes, joined_size hc htouch, Block.bytes, Block.bytes, ← htouch, Block.stop, Nat.add_assoc b.addr.toNat, hsplit,
    Nat.add_assoc 40]
  rfl

lemma cutBlock_bytes (hb : b.Sane) (hfit : size.toNat ≤ b.size.toNat) : (cutBlock b size).flatMap Block.bytes = b.bytes := by
  rw [cutBlock]
  split_ifs with hrest
  · have hroom := hb.room hfit hrest
    obtain ⟨hnew, hleft⟩ := hb.rest hroom
    have hsplit := @range'_append_1 b.addr.toNat (40 + size.toNat) (40 + (b.size.toNat - size.toNat - 40))
    have hsum : 40 + size.toNat + (40 + (b.size.toNat - size.toNat - 40)) = 40 + b.size.toNat := by omega
    rw [hsum] at hsplit
    simp only [flatMap_cons, flatMap_nil, append_nil, Block.bytes, hnew, hleft, Nat.add_assoc]
    exact hsplit
  · simp [Block.bytes]

lemma mergeBehind_bytes (h : ∀ x ∈ b :: l₂, x.Sane) :
    (mergeBehind b l₂).1.bytes ++ (mergeBehind b l₂).2.flatMap Block.bytes = b.bytes ++ l₂.flatMap Block.bytes := by
  cases l₂ with
  | nil => rfl
  | cons c =>
    rw [mergeBehind]
    split_ifs with hmerge
    · rw [joined_bytes (h c (by simp)) hmerge.2, flatMap_cons, append_assoc]
    · rfl

lemma mergeBefore_bytes (h : ∀ x ∈ l₁ ++ b :: l₂, x.Sane) :
    (mergeBefore l₁ b l₂).flatMap Block.bytes = (l₁ ++ b :: l₂).flatMap Block.bytes := by
  induction l₁ using List.reverseRecOn with
  | nil => rfl
  | append_singleton =>
    simp only [mergeBefore, List.getLast?_concat]
    split_ifs with hmerge
    · have hjoin := joined_bytes (h b (by simp)) hmerge.2
      simp [hjoin]
    · rfl

lemma Rep.free_bytes (h : Rep ⟨m, start⟩ (l₁ ++ b :: l₂)) :
    (freeBlock l₁ b l₂).flatMap Block.bytes = (l₁ ++ b :: l₂).flatMap Block.bytes := by
  have hfree := h.set_isFree true rfl
  have hsane : ∀ x ∈ (⟨b.addr, b.size, true⟩ : Block) :: l₂, x.Sane := fun x hx => hfree.sane x (mem_append_right l₁ hx)
  rw [freeBlock, mergeBefore_bytes hfree.mergeNext.sane, flatMap_append, flatMap_cons, mergeBehind_bytes hsane,
    flatMap_append]
  rfl

variable {x : Block}

lemma mem_mergeBehind (hx : x ∈ l₂) (hused : x.free = false) : x ∈ (mergeBehind b l₂).2 := by
  cases l₂ with
  | nil => cases hx
  | cons =>
    rw [mergeBehind]
    split_ifs with hmerge
    · rcases mem_cons.mp hx with rfl | hx
      · simp [hused] at hmerge
      · exact hx
    · exact hx

lemma mem_mergeBefore (hx : x ∈ l₁ ++ l₂) (hused : x.free = false) : x ∈ mergeBefore l₁ b l₂ := by
  induction l₁ using List.reverseRecOn with
  | nil => exact mem_cons_of_mem b hx
  | append_singleton l₁ p =>
    simp only [mergeBefore, List.getLast?_concat, dropLast_concat]
    split_ifs with hmerge
    · have hxp : x ≠ p := by
        rintro rfl
        simp [hused] at hmerge
      simp only [mem_append, mem_cons] at hx ⊢
      tauto
    · simp only [mem_append] at hx ⊢
      tauto

lemma mem_freeBlock (hx : x ∈ l₁ ++ l₂) (hused : x.free = false) : x ∈ freeBlock l₁ b l₂ := by
  apply mem_mergeBefore _ hused
  rcases mem_append.mp hx with hx | hx
  · exact mem_append_left _ hx
  · exact mem_append_right l₁ (mem_mergeBehind hx hused)

variable {a : Word}

lemma mergeBehind_mem (ha : a ∈ ((mergeBehind b l₂).1 :: (mergeBehind b l₂).2).map Block.addr) :
    a ∈ (b :: l₂).map Block.addr := by
  cases l₂ with
  | nil => exact ha
  | cons =>
    rw [mergeBehind] at ha
    split at ha
    · simp only [map_cons, mem_cons] at ha ⊢
      tauto
    · exact ha

lemma mergeBefore_mem (ha : a ∈ (mergeBefore l₁ b l₂).map Block.addr) : a ∈ (l₁ ++ b :: l₂).map Block.addr := by
  induction l₁ using List.reverseRecOn with
  | nil => exact ha
  | append_singleton =>
    simp only [mergeBefore, List.getLast?_concat, dropLast_concat] at ha
    split at ha
    · simp only [map_append, map_cons, mem_append, mem_cons] at ha ⊢
      tauto
    · exact ha

lemma freeBlock_addr (ha : a ∈ (freeBlock l₁ b l₂).map Block.addr) : a ∈ (l₁ ++ b :: l₂).map Block.addr := by
  have hbefore := mergeBefore_mem ha
  rw [map_append, mem_append] at hbefore ⊢
  rcases hbefore with hl | hr
  · exact .inl hl
  · have hbehind := mergeBehind_mem hr
    exact .inr hbehind

lemma mem_mergeBehind_or (ha : a ∈ (b :: l₂).map Block.addr) :
    a ∈ ((mergeBehind b l₂).1 :: (mergeBehind b l₂).2).map Block.addr ∨
    ∃ c l, l₂ = c :: l ∧ (c.free ∧ b.stop = c.addr.toNat) ∧ a = c.addr := by
  cases l₂ with
  | nil => exact .inl ha
  | cons c l =>
    rw [mergeBehind]
    split_ifs with hmerge
    · rw [map_cons, map_cons, mem_cons, mem_cons] at ha
      rcases ha with ha | ha | ha
      · exact .inl (ha ▸ mem_cons_self)
      · exact .inr ⟨c, l, rfl, hmerge, ha⟩
      · exact .inl (mem_cons_of_mem _ ha)
    · exact .inl ha

lemma mem_mergeBefore_or (ha : a ∈ (l₁ ++ b :: l₂).map Block.addr) :
    a ∈ (mergeBefore l₁ b l₂).map Block.addr ∨
    ∃ l p, l₁ = l ++ [p] ∧ (p.free ∧ p.stop = b.addr.toNat) ∧ a = b.addr := by
  induction l₁ using List.reverseRecOn with
  | nil => exact .inl ha
  | append_singleton l p =>
    simp only [mergeBefore, List.getLast?_concat, dropLast_concat]
    split_ifs with hmerge
    · rw [map_append, mem_append, map_append, map_singleton, mem_append, mem_singleton,
        map_cons, mem_cons] at ha
      rw [map_append, map_cons, mem_append, mem_cons]
      rcases ha with (ha | ha) | ha | ha
      · exact .inl (.inl ha)
      · exact .inl (.inr (.inl ha))
      · exact .inr ⟨l, p, rfl, hmerge, ha⟩
      · exact .inl (.inr (.inr ha))
    · exact .inl ha

variable {a : Block}

def Block.Split (a b : Block) : Prop := ¬ (a.free ∧ b.free ∧ a.stop = b.addr.toNat)

def Coalesced (l : List Block) : Prop := l.IsChain Block.Split

lemma split_of_used (h : a.free = false ∨ b.free = false) : a.Split b := by
  rintro ⟨ha, hb, -⟩
  rcases h with h | h
  · simp [h] at ha
  · simp [h] at hb

lemma coalesced_middle : Coalesced (l₁ ++ b :: l₂) ↔
    Coalesced l₁ ∧ Coalesced l₂ ∧ (∀ x ∈ l₁.getLast?, x.Split b) ∧ ∀ y ∈ l₂.head?, b.Split y := by
  simp only [Coalesced, isChain_append, isChain_cons, List.head?_cons, Option.mem_def, Option.some.injEq,
    forall_eq']
  tauto

lemma coalesced_cut (h : Coalesced (l₁ ++ b :: l₂)) (hfree : b.free) (hb : b.Sane) (hfit : size.toNat ≤ b.size.toNat) :
    Coalesced (l₁ ++ cutBlock b size ++ l₂) := by
  obtain ⟨h₁, h₂, -, hnext⟩ := coalesced_middle.mp h
  rw [cutBlock]
  split_ifs with hrest
  · have hroom := hb.room hfit hrest
    obtain ⟨hnew, hleft⟩ := hb.rest hroom
    rw [append_assoc, cons_append]
    refine coalesced_middle.mpr ⟨h₁, ?_, fun x _ => split_of_used (.inr rfl), fun y _ => split_of_used (.inl rfl)⟩
    refine isChain_cons.mpr ⟨fun y hy => ?_, h₂⟩
    rintro ⟨-, hyfree, hstop⟩
    apply hnext y hy
    refine ⟨hfree, hyfree, ?_⟩
    simp only [Block.stop] at hstop ⊢
    omega
  · rw [append_assoc, singleton_append]
    exact coalesced_middle.mpr ⟨h₁, h₂, fun x _ => split_of_used (.inr rfl), fun y _ => split_of_used (.inl rfl)⟩

lemma coalesced_append (h : Coalesced l₁) : Coalesced (l₁ ++ cutBlock b size) := by
  rw [cutBlock]
  split
  · refine coalesced_middle.mpr ⟨h, isChain_singleton _, fun x _ => split_of_used (.inr rfl), fun y _ => ?_⟩
    exact split_of_used (.inl rfl)
  · exact coalesced_middle.mpr ⟨h, isChain_nil, fun x _ => split_of_used (.inr rfl), fun y hy => by cases hy⟩

lemma joined_stop (hc : c.Sane) (htouch : b.stop = c.addr.toNat) : (joined b c).stop = c.stop := by
  have hsize := joined_size hc htouch
  have haddr : (joined b c).addr = b.addr := rfl
  rw [Block.stop] at htouch
  rw [Block.stop, Block.stop, hsize, haddr]
  omega

lemma mergeBehind_free (b : Block) (l : List Block) : (mergeBehind b l).1.free = b.free := by
  cases l with
  | nil => rfl
  | cons =>
    rw [mergeBehind]
    split
    · rfl
    · rfl

lemma mergeBehind_coalesced (h : Coalesced l₂) (hsane : ∀ x ∈ l₂, x.Sane) :
    Coalesced ((mergeBehind b l₂).1 :: (mergeBehind b l₂).2) := by
  cases l₂ with
  | nil => exact isChain_singleton _
  | cons c =>
    obtain ⟨hnext, hrest⟩ := isChain_cons.mp h
    rw [mergeBehind]
    split_ifs with hmerge
    · refine isChain_cons.mpr ⟨fun y hy => ?_, hrest⟩
      rintro ⟨-, hyfree, hstop⟩
      rw [joined_stop (hsane c (by simp)) hmerge.2] at hstop
      exact hnext y hy ⟨hmerge.1, hyfree, hstop⟩
    · refine isChain_cons.mpr ⟨fun y hy => ?_, h⟩
      obtain rfl : c = y := by simpa using hy
      rintro ⟨-, hcfree, hstop⟩
      exact hmerge ⟨hcfree, hstop⟩

lemma mergeBefore_coalesced (h₁ : Coalesced l₁) (h₂ : Coalesced (b :: l₂)) (hb : b.Sane) (hfree : b.free) :
    Coalesced (mergeBefore l₁ b l₂) := by
  obtain ⟨hnext, hrest⟩ := isChain_cons.mp h₂
  induction l₁ using List.reverseRecOn with
  | nil => exact h₂
  | append_singleton l₁ p =>
    obtain ⟨hl, -, hp, -⟩ := coalesced_middle.mp h₁
    simp only [mergeBefore, List.getLast?_concat, dropLast_concat]
    split_ifs with hmerge
    · refine coalesced_middle.mpr ⟨hl, hrest, hp, fun y hy => ?_⟩
      rintro ⟨-, hyfree, hstop⟩
      rw [joined_stop hb hmerge.2] at hstop
      exact hnext y hy ⟨hfree, hyfree, hstop⟩
    · refine coalesced_middle.mpr ⟨h₁, hrest, fun x hx => ?_, hnext⟩
      obtain rfl : p = x := by simpa using hx
      rintro ⟨hpfree, -, hstop⟩
      exact hmerge ⟨hpfree, hstop⟩

theorem Rep.free_coalesced (h : Rep ⟨m, start⟩ (l₁ ++ b :: l₂)) (hc : Coalesced (l₁ ++ b :: l₂)) :
    Coalesced (freeBlock l₁ b l₂) := by
  obtain ⟨h₁, h₂, -⟩ := coalesced_middle.mp hc
  have hnext := (h.set_isFree true rfl).mergeNext
  apply mergeBefore_coalesced h₁ (mergeBehind_coalesced h₂ fun x hx => h.sane x (by simp [hx]))
  · exact hnext.sane _ (by simp)
  · exact mergeBehind_free _ _

end KernelSmp.Memory
