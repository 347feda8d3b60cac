import KernelSmp.Base.Gluing
import KernelSmp.Memory.KmallocRouting

/-! `kfree` as a way to a normal form: the list of blocks in which no two free neighbours touch. -/

namespace KernelSmp.Memory

open Base LinkedList Heap List Option

variable {l l₁ l₂ : List Block} {b c : Block} {size : Word}

def Block.touch (b c : Block) : Bool := b.free ∧ c.free ∧ b.stop = c.addr.toNat

lemma Block.touch_iff : Block.touch b c = true ↔ b.free ∧ c.free ∧ b.stop = c.addr.toNat := decide_eq_true_iff

lemma joined_sane (hb : b.Sane) (hc : c.Sane) (htouch : b.stop = c.addr.toNat) : (joined b c).Sane := by
  have hsize := joined_size hc htouch
  have hb8 := hb.size8
  have hc8 := hc.size8
  refine ⟨hb.low, ?_, hb.addr8, ?_⟩
  · rw [joined_stop hc htouch]
    exact hc.high
  · rw [hsize]
    omega

def gluing : Gluing Block where
  touch := Block.touch
  join := joined
  Ok := Block.Sane
  ok_join hb hc htouch := joined_sane hb hc (Block.touch_iff.mp htouch).2.2
  touch_join {b c} d hb hc htouch := by
    obtain ⟨hfree, hfree', hstop⟩ := Block.touch_iff.mp htouch
    have hjoined : (joined b c).free = b.free := rfl
    rw [Bool.eq_iff_iff, Block.touch_iff, Block.touch_iff, joined_stop hc hstop, hjoined, hfree, hfree']
  join_touch d hb hc htouch := rfl
  join_assoc {b c d} _ _ := by
    have hsize : b.size + (c.size + headerSize) + (d.size + headerSize) =
        b.size + (c.size + (d.size + headerSize) + headerSize) := by
      rw [BitVec.add_assoc, BitVec.add_assoc c.size, BitVec.add_comm headerSize, ← BitVec.add_assoc c.size]
    simp only [joined, hsize]

lemma touch_gluing : gluing.touch b c = true ↔ b.free ∧ c.free ∧ b.stop = c.addr.toNat := Block.touch_iff

lemma apart_iff : gluing.Apart l ↔ Coalesced l := by
  have hsplit : ∀ b c : Block, gluing.touch b c = false ↔ b.Split c := by
    intro b c
    rw [← Bool.not_eq_true]
    exact not_congr touch_gluing
  rw [Gluing.Apart, Coalesced]
  exact ⟨fun h => h.imp fun b c => (hsplit b c).mp, fun h => h.imp fun b c => (hsplit b c).mpr⟩

def freed (b : Block) : Block := ⟨b.addr, b.size, true⟩

lemma freed_eq_self (hfree : b.free) : freed b = b := by
  rw [freed, ← hfree]

lemma cons_eq_mergeBehind (hfree : b.free) : gluing.cons b l = (mergeBehind b l).1 :: (mergeBehind b l).2 := by
  cases l with
  | nil => rfl
  | cons c =>
    rw [Gluing.cons, mergeBehind]
    by_cases hmerge : c.free ∧ b.stop = c.addr.toNat
    · rw [if_pos hmerge, if_pos (touch_gluing.mpr ⟨hfree, hmerge⟩)]
      rfl
    · rw [if_neg hmerge, if_neg fun htouch => hmerge (touch_gluing.mp htouch).2]

lemma foldr_eq_mergeBefore (h₁ : Coalesced l₁) (hfree : b.free) : l₁.foldr gluing.cons (b :: l₂) = mergeBefore l₁ b l₂ := by
  induction l₁ using List.reverseRecOn with
  | nil => rfl
  | append_singleton l p =>
    obtain ⟨-, -, hp, -⟩ := coalesced_middle.mp h₁
    have happart := apart_iff.mpr h₁
    simp only [mergeBefore, List.getLast?_concat, dropLast_concat]
    rw [foldr_append, foldr_cons, foldr_nil, Gluing.cons]
    by_cases hmerge : p.free ∧ p.stop = b.addr.toNat
    · rw [if_pos hmerge, if_pos (touch_gluing.mpr ⟨hmerge.1, hfree, hmerge.2⟩)]
      refine Gluing.foldr_of_apart (apart_iff.mpr (coalesced_middle.mpr ⟨?_, isChain_nil, ?_, fun y hy => by cases hy⟩))
      · exact (coalesced_middle.mp h₁).1
      · exact hp
    · rw [if_neg hmerge, if_neg fun htouch => hmerge ⟨(touch_gluing.mp htouch).1, (touch_gluing.mp htouch).2.2⟩,
        Gluing.foldr_of_apart happart, append_assoc]
      rfl

lemma freeBlock_eq_norm (hc : Coalesced (l₁ ++ b :: l₂)) : freeBlock l₁ b l₂ = gluing.norm (l₁ ++ freed b :: l₂) := by
  obtain ⟨h₁, h₂, -⟩ := coalesced_middle.mp hc
  rw [Gluing.norm_append, Gluing.norm_cons, Gluing.norm_of_apart (apart_iff.mpr h₂), cons_eq_mergeBehind rfl,
    foldr_eq_mergeBefore h₁ (mergeBehind_free _ _)]
  rfl

variable {m : Mem} {start : Word}

lemma norm_cut (l₁ l₂ : List Block) (hb : b.Sane) (hsize8 : size.toNat % 8 = 0) (hfit : size.toNat ≤ b.size.toNat)
    (hl₂ : ∀ x ∈ l₂, x.Sane) : ∃ c rest, cutBlock b size = c :: rest ∧ c.addr = b.addr ∧ c.free = false ∧
    size.toNat ≤ c.size.toNat ∧ gluing.norm (l₁ ++ freed c :: (rest ++ l₂)) = gluing.norm (l₁ ++ freed b :: l₂) := by
  obtain ⟨-, hinside⟩ := cutBlock_inside hb hsize8 hfit
  rw [cutBlock] at hinside ⊢
  split
  next hrest =>
    rw [if_pos hrest] at hinside
    obtain ⟨hnew, _⟩ := hb.rest (hb.room hfit hrest)
    refine ⟨_, _, rfl, rfl, rfl, le_rfl, ?_⟩
    have hjoin : gluing.join (freed ⟨b.addr, size, false⟩)
        ⟨b.addr + headerSize + size, b.size - size - headerSize, true⟩ = freed b := by
      have hsize : size + (b.size - size - headerSize + headerSize) = b.size := by bv_omega
      change (⟨b.addr, size + (b.size - size - headerSize + headerSize), true⟩ : Block) = _
      rw [hsize]
      rfl
    have hfirst : (freed ⟨b.addr, size, false⟩).Sane := by
      obtain ⟨hlow, hhigh, haddr8, hs8⟩ := (hinside ⟨b.addr, size, false⟩ (by simp)).1
      exact ⟨hlow, hhigh, haddr8, hs8⟩
    rw [singleton_append, Gluing.norm_join hl₂ hfirst (hinside _ (by simp)).1 ?_, hjoin]
    refine touch_gluing.mpr ⟨rfl, rfl, ?_⟩
    rw [hnew]
    rfl
  next => exact ⟨_, _, rfl, rfl, rfl, hfit, rfl⟩

lemma sane_payload (hb : b.Sane) (hsize : 0 < b.size.toNat) :
    (b.addr + headerSize).toNat = b.addr.toNat + 40 ∧ b.addr + headerSize ≠ 0 := by
  have hhigh := hb.high
  rw [Block.stop] at hhigh
  rw [headerSize]
  constructor
  · bv_omega
  · bv_omega

lemma Rep.kfree_ok (slabFree : Mem → Word → Mem) (h : Rep ⟨m, start⟩ (l₁ ++ b :: l₂)) (hused : b.free = false)
    (hsize : 0 < b.size.toNat) (hunmarked : m.load32 ((b.addr + headerSize) &&& ~~~0xFFF).toNat ≠ slabMagic) :
    Memory.kfree slabFree ⟨m, start⟩ (b.addr + headerSize) = .ok ⟨kfreeSection m b.addr, start⟩ := by
  exact kfree_used slabFree h (by simp) hused (sane_payload (h.sane b (by simp)) hsize).2 hunmarked

lemma Rep.clear_mem (h : Rep ⟨m, start⟩ l) (hb : b ∈ l) : Rep (kmallocClear ⟨m, start⟩ b.addr) l := by
  obtain ⟨_, _, rfl⟩ := append_of_mem hb
  exact h.clear

lemma Rep.kfree_cut (slabFree : Mem → Word → Mem) (h : Rep ⟨m, start⟩ (l₁ ++ cutBlock b size ++ l₂))
    (hc : Coalesced (l₁ ++ cutBlock b size ++ l₂)) (hb : b.Sane) (hsize8 : size.toNat % 8 = 0)
    (hfit : size.toNat ≤ b.size.toNat) (hpos : 0 < size.toNat)
    (hunmarked : m.load32 ((b.addr + headerSize) &&& ~~~0xFFF).toNat ≠ slabMagic) :
    ∃ h', Memory.kfree slabFree ⟨m, start⟩ (b.addr + headerSize) = .ok h' ∧ Rep h' (gluing.norm (l₁ ++ freed b :: l₂)) := by
  obtain ⟨c, rest, hcut, haddr, hused, hcsize, hnorm⟩ :=
    norm_cut l₁ l₂ hb hsize8 hfit fun x hx => h.sane x (mem_append_right _ hx)
  rw [hcut, append_assoc, cons_append] at h hc
  rw [← haddr] at hunmarked ⊢
  refine ⟨_, h.kfree_ok slabFree hused (hpos.trans_le hcsize) hunmarked, ?_⟩
  rw [← hnorm, ← freeBlock_eq_norm hc]
  exact h.kfree

def granted {P : Type} (alloc : P → Word → Word × P) (p : P) (size : Word) : Word := (alloc p (numFrames (align16 size))).1

def FreshRun (l : List Block) (newFrames size : Word) : Prop :=
  newFrames.toNat % 4096 = 0 ∧ newFrames.toNat + (numFrames size).toNat * 4096 ≤ 2 ^ 47 ∧
    ∀ b ∈ l, b.Apart (runBlock newFrames size)

def Cleared (m : Mem) (ptr size : Word) : Prop := ∀ k < size.toNat, m (ptr.toNat + k) = 0

lemma cleared_clear {h : KHeap} (hstored : mHeader.get h.mem b.addr .size = b.size) (hsize : size.toNat ≤ b.size.toNat) :
    Cleared (kmallocClear h b.addr).mem (b.addr + headerSize) size := by
  intro k hk
  simp only [kmallocClear, hstored]
  rw [Mem.fill, if_pos]
  omega

lemma cleared_append {t newFrames : Word} (hrun : (runBlock newFrames size).Sane)
    (hfit : size.toNat ≤ (runBlock newFrames size).size.toNat)
    (hstop : (runBlock newFrames size).stop = (runBlock newFrames size).addr.toNat + (numFrames size * 4096).toNat)
    (ht : t ≠ 0) (hoff : t.toNat + 40 ≤ (physToVirt newFrames).toNat ∨ (runBlock newFrames size).stop ≤ t.toNat) :
    ∀ a, (physToVirt newFrames).toNat + 40 ≤ a → a < (physToVirt newFrames).toNat + 40 + size.toNat →
      (kmallocAppend ⟨m, start⟩ t size newFrames).mem a = 0 := by
  intro a hlow hhigh
  have haddr : (runBlock newFrames size).addr = physToVirt newFrames := rfl
  have hend : (runBlock newFrames size).stop = (physToVirt newFrames).toNat + 40 + (runBlock newFrames size).size.toNat := rfl
  rw [haddr] at hstop
  let S : ℕ → Prop := fun a => a < (physToVirt newFrames).toNat + 40 ∨ (physToVirt newFrames).toNat + 40 + size.toNat ≤ a
  have hblock : Spans S (physToVirt newFrames).toNat 40 := fun a _ ha => .inl ha
  have hheaders : SameOff S (m.fill (physToVirt newFrames).toNat (numFrames size * 4096).toNat 0)
      (newRun m (physToVirt newFrames) size t) := by
    refine newRun_headers hblock fun hroom => ?_
    obtain ⟨hplace, -⟩ := hrun.rest (hrun.room hfit hroom)
    rw [haddr] at hplace
    intro a ha _
    right
    omega
  have hlink : Spans S t.toNat 40 := by
    intro a ha ha'
    rcases hoff with hbefore | hbehind
    · left
      omega
    · right
      omega
  have hsame := hheaders.trans (.set hlink (L := mHeader) (f := .next) (v := physToVirt newFrames)) a
    (by simp only [S]; omega)
  simp only [kmallocAppend, if_pos ht]
  rw [hsame, Mem.fill, if_pos]
  omega

lemma Rep.kmalloc_cases {P : Type} (slabAlloc : Mem → Word → Word × Mem) (alloc : P → Word → Word × P) {h : KHeap} (p : P)
    (hrep : Rep h l) (hne : l ≠ []) (hlarge : 2048 < size.toNat) (hsmall : size.toNat < 2 ^ 47)
    (hfresh : granted alloc p size ≠ 0 → FreshRun l (granted alloc p size) (align16 size)) :
    (∃ l₁ b l₂ h', l.find? (Block.fits (align16 size)) = some b ∧ l = l₁ ++ b :: l₂ ∧ b.free ∧
      (align16 size).toNat ≤ b.size.toNat ∧ Memory.kmalloc slabAlloc alloc h p size = some (b.addr + headerSize, h', p) ∧
      Rep h' (l₁ ++ cutBlock b (align16 size) ++ l₂) ∧ Cleared h'.mem (b.addr + headerSize) size) ∨
    l.find? (Block.fits (align16 size)) = none ∧ ∃ h' p', Memory.kmalloc slabAlloc alloc h p size =
      some (if granted alloc p size = 0 then 0 else physToVirt (granted alloc p size) + headerSize, h', p') ∧
      if granted alloc p size = 0 then h' = h
      else Rep h' (l ++ cutBlock (runBlock (granted alloc p size) (align16 size)) (align16 size)) ∧
        Cleared h'.mem (physToVirt (granted alloc p size) + headerSize) size := by
  obtain ⟨_, hrequest, hhigh⟩ := align16_toNat hsmall
  have hkmalloc : Memory.kmalloc slabAlloc alloc h p size = _ := kmalloc_large hlarge
  obtain ⟨_, _⟩ := h
  rcases hrep.firstFit (align16 size) with ⟨b, hfirst, hsearch⟩ | ⟨hnone, hsearch⟩
  · left
    obtain ⟨l₁, l₂, rfl, hfree, hfit⟩ := mem_of_find hfirst
    rw [hsearch, bind_some] at hkmalloc
    have htake := hrep.take (by omega) hfit
    obtain ⟨c, hc, hcaddr, -, hcsize⟩ := cutBlock_first hfit
    have hmem : c ∈ l₁ ++ cutBlock b (align16 size) ++ l₂ := by simp [hc]
    have hcleared := cleared_clear (htake.stored c hmem).size (hrequest.trans hcsize)
    have hclear := htake.clear_mem hmem
    rw [hcaddr] at hcleared hclear
    exact ⟨l₁, b, l₂, _, hfirst, rfl, hfree, hfit, hkmalloc, hclear, hcleared⟩
  · right
    refine ⟨hnone, ?_⟩
    rw [hsearch, bind_some] at hkmalloc
    rw [← granted] at hkmalloc
    by_cases hrefused : granted alloc p size = 0
    · simp only [if_pos hrefused] at hkmalloc ⊢
      exact ⟨_, _, hkmalloc, rfl⟩
    · simp only [if_neg hrefused] at hkmalloc ⊢
      obtain ⟨haligned, hbound, hothers⟩ := hfresh hrefused
      obtain ⟨hsane, hfit, hstop⟩ := runBlock_sane hhigh haligned hbound
      obtain ⟨l', t, rfl⟩ : ∃ l' t, l = l' ++ [t] := ⟨_, _, (dropLast_append_getLast hne).symm⟩
      have hlast : ((l' ++ [t]).map Block.addr).getLastD 0 = t.addr := by simp
      rw [hlast] at hkmalloc
      have happend := hrep.append (b := runBlock (granted alloc p size) (align16 size)) rfl rfl hsane hstop
        (by omega) hfit hothers
      rw [append_cons] at happend
      refine ⟨_, _, hkmalloc, happend, ?_⟩
      have hpayload : (physToVirt (granted alloc p size) + headerSize).toNat = (physToVirt (granted alloc p size)).toNat + 40 :=
        (sane_payload hsane (by omega)).1
      intro k hk
      rw [hpayload]
      refine cleared_append hsane hfit hstop (hrep.sane t (by simp)).ne_zero ?_ _ (by omega) (by omega)
      have happart := hothers t (by simp)
      simp only [Block.Apart, Block.stop] at happart ⊢
      change _ ≤ (physToVirt (granted alloc p size)).toNat ∨ _ at happart
      omega

theorem kfree_undoes_kmalloc {P : Type} (slabAlloc : Mem → Word → Word × Mem) (slabFree : Mem → Word → Mem)
    (alloc : P → Word → Word × P) (h : KHeap) (p : P) (l : List Block) (size : Word) (hrep : Rep h l) (hne : l ≠ [])
    (hcoalesced : Coalesced l) (hlarge : 2048 < size.toNat) (hsmall : size.toNat < 2 ^ 47)
    (hfresh : granted alloc p size ≠ 0 → FreshRun l (granted alloc p size) (align16 size))
    (hunmarked : ∀ ptr h' p', kmalloc slabAlloc alloc h p size = some (ptr, h', p') → ptr ≠ 0 →
      h'.mem.load32 (ptr &&& ~~~0xFFF).toNat ≠ slabMagic) :
    ∃ ptr h' p', kmalloc slabAlloc alloc h p size = some (ptr, h', p') ∧
      ((∃ b ∈ l, b.free ∧ ptr = b.addr + headerSize ∧ ∃ h'', kfree slabFree h' ptr = .ok h'' ∧ Rep h'' l) ∨
       (ptr = 0 ∧ h' = h ∧ granted alloc p size = 0) ∨
       (ptr = physToVirt (granted alloc p size) + headerSize ∧ ∃ h'', kfree slabFree h' ptr = .ok h'' ∧
        Rep h'' (mergeBefore l (freed (runBlock (granted alloc p size) (align16 size))) []))) := by
  obtain ⟨h16, hrequest, hhigh⟩ := align16_toNat hsmall
  have hpos : 0 < (align16 size).toNat := by omega
  have h8 : (align16 size).toNat % 8 = 0 := by omega
  rcases hrep.kmalloc_cases slabAlloc alloc p hne hlarge hsmall hfresh with
    ⟨l₁, b, l₂, ⟨m', start'⟩, -, rfl, hfree, hfit, hkmalloc, hrep', -⟩ | ⟨-, ⟨m', start'⟩, p', hkmalloc, hrep'⟩
  · have hb := hrep.sane b (by simp)
    obtain ⟨h'', hkfree, hback⟩ := hrep'.kfree_cut slabFree (coalesced_cut hcoalesced hfree hb hfit) hb h8 hfit hpos
      (hunmarked _ _ _ hkmalloc (sane_payload hb (hpos.trans_le hfit)).2)
    refine ⟨_, _, _, hkmalloc, .inl ⟨b, by simp, hfree, rfl, h'', hkfree, ?_⟩⟩
    rwa [freed_eq_self hfree, Gluing.norm_of_apart (apart_iff.mpr hcoalesced)] at hback
  · by_cases hnone : granted alloc p size = 0
    · rw [if_pos hnone] at hkmalloc hrep'
      exact ⟨_, _, _, hkmalloc, .inr (.inl ⟨rfl, hrep', hnone⟩)⟩
    · rw [if_neg hnone] at hkmalloc hrep'
      obtain ⟨haligned, hbound, -⟩ := hfresh hnone
      obtain ⟨hsane, hfit, -⟩ := runBlock_sane hhigh haligned hbound
      have hptr : physToVirt (granted alloc p size) + headerSize ≠ 0 := (sane_payload hsane (hpos.trans_le hfit)).2
      have hcut : Coalesced (l ++ cutBlock (runBlock (granted alloc p size) (align16 size)) (align16 size)) :=
        coalesced_append hcoalesced
      rw [← append_nil (_ ++ cutBlock _ _)] at hcut
      rw [← append_nil (_ ++ cutBlock _ _)] at hrep'
      obtain ⟨h'', hkfree, hback⟩ := hrep'.1.kfree_cut slabFree hcut hsane h8 hfit hpos (hunmarked _ _ _ hkmalloc hptr)
      refine ⟨_, _, _, hkmalloc, .inr (.inr ⟨rfl, h'', hkfree, ?_⟩)⟩
      have hwhole : Coalesced (l ++ runBlock (granted alloc p size) (align16 size) :: []) := by
        refine coalesced_middle.mpr ⟨hcoalesced, isChain_nil, ?_, fun y hy => nomatch hy⟩
        exact fun x _ => split_of_used (.inr rfl)
      rwa [← freeBlock_eq_norm hwhole] at hback

def firstBlock : Block := ⟨0xFFFF800000105000, 4056, true⟩

lemma smallHeap_inv : Inv (booted smallHeap 0x105000) [firstBlock] := by
  have hinit : kmallocInit (fun _ => 0) 0x105000 = some smallHeap := rfl
  exact inv_booted hinit (by decide) (by decide)

theorem kfree_undoes_kmalloc_smallHeap :
    ∃ ptr h' p', kmalloc (fun m _ => (0, m)) (grant 0x106000) smallHeap [] 3000 = some (ptr, h', p') ∧
      ((∃ b ∈ [firstBlock], b.free ∧ ptr = b.addr + headerSize ∧
        ∃ h'', kfree (fun m _ => m) h' ptr = .ok h'' ∧ Rep h'' [firstBlock]) ∨
       (ptr = 0 ∧ h' = smallHeap ∧ granted (grant 0x106000) [] 3000 = 0) ∨
       (ptr = physToVirt (granted (grant 0x106000) [] 3000) + headerSize ∧ ∃ h'', kfree (fun m _ => m) h' ptr = .ok h'' ∧
        Rep h'' (mergeBefore [firstBlock] (freed (runBlock (granted (grant 0x106000) [] 3000) (align16 3000))) []))) := by
  have hall : ∀ r ∈ kmalloc (fun m _ => (0, m)) (grant 0x106000) smallHeap [] 3000, r.1 ≠ 0 →
      r.2.1.mem.load32 (r.1 &&& ~~~0xFFF).toNat ≠ slabMagic := by
    decide +kernel
  refine kfree_undoes_kmalloc _ _ _ smallHeap [] _ 3000 smallHeap_inv.rep (by simp) (isChain_singleton _) (by decide)
    (by decide) (fun _ => ?_) fun ptr h' p' hk => hall (ptr, h', p') (mem_def.mpr hk)
  refine ⟨by decide, by decide, forall_mem_singleton.mpr (.inl (by decide))⟩

variable {h : KHeap} {ptr : Word} {ptrs : List Word}

def kfreeAll (slabFree : Mem → Word → Mem) (h : KHeap) (ptrs : List Word) : Except String KHeap :=
  ptrs.foldlM (kfree slabFree) h

section marks

local instance lawfulWord : LawfulBEq Word := inferInstance

def markFree (ptrs : List Word) (b : Block) : Block := if b.addr + headerSize ∈ ptrs then freed b else b

end marks

def Live (l : List Block) (ptr : Word) : Prop := ∃ b ∈ l, b.addr + headerSize = ptr ∧ b.free = false ∧ 0 < b.size.toNat

lemma markFree_eq_self (hfree : b.free) (ptrs : List Word) : markFree ptrs b = b := by
  rw [markFree]
  split
  · exact freed_eq_self hfree
  · rfl

lemma markFree_sane (hb : b.Sane) (ptrs : List Word) : (markFree ptrs b).Sane := by
  rw [markFree]
  split
  · exact ⟨hb.low, hb.high, hb.addr8, hb.size8⟩
  · exact hb

lemma markFree_cons (ptr : Word) (ptrs : List Word) (b : Block) :
    markFree ptrs (markFree [ptr] b) = markFree (ptr :: ptrs) b := by
  simp only [markFree]
  by_cases hptr : b.addr + headerSize = ptr
  · simp [hptr, freed]
  · simp [hptr]

lemma norm_markFree (hsane : ∀ b ∈ l, b.Sane) (ptrs : List Word) :
    gluing.norm ((gluing.norm l).map (markFree ptrs)) = gluing.norm (l.map (markFree ptrs)) := by
  refine Gluing.norm_map_norm (fun b hb => markFree_sane hb ptrs) (fun b c htouch => ?_) hsane
  obtain ⟨hb, hc, -⟩ := touch_gluing.mp htouch
  exact ⟨markFree_eq_self hb ptrs, markFree_eq_self hc ptrs, markFree_eq_self (b := joined b c) hb ptrs⟩

lemma Rep.mark_one (hrep : Rep h (l₁ ++ b :: l₂)) :
    (l₁ ++ b :: l₂).map (markFree [b.addr + headerSize]) = l₁ ++ freed b :: l₂ := by
  have hothers : ∀ x ∈ l₁ ++ l₂, markFree [b.addr + headerSize] x = x := by
    intro x hx
    have happart := (pairwise_apart_middle.mp hrep.apart).1 x hx
    rw [markFree, if_neg]
    rw [mem_singleton]
    intro heq
    have haddr : x.addr = b.addr := by bv_omega
    rw [Block.Apart, Block.stop, Block.stop, haddr] at happart
    omega
  have hself : markFree [b.addr + headerSize] b = freed b := if_pos (mem_singleton_self _)
  rw [map_append, map_cons, hself]
  congr 1
  · exact (map_congr_left fun x hx => hothers x (mem_append_left _ hx)).trans (List.map_id l₁)
  · exact congrArg _ ((map_congr_left fun x hx => hothers x (mem_append_right _ hx)).trans (List.map_id l₂))

def Unmarked (m : Mem) (ptrs : List Word) : Prop := ∀ ptr ∈ ptrs, m.load32 (ptr &&& ~~~0xFFF).toNat ≠ slabMagic

lemma unmarked_iff :
    Unmarked m ptrs ↔ Clean (ptrs.map fun ptr => ((ptr &&& ~~~0xFFF).toNat, (ptr &&& ~~~0xFFF).toNat + 1)) m := by
  have hpage : ∀ ptr : Word, (ptr &&& ~~~0xFFF).toNat % 4096 = 0 := by
    intro ptr
    have hmask : ptr &&& ~~~0xFFF = ptr &&& BitVec.ofNat 64 ((2 ^ 52 - 1) * 2 ^ 12) := rfl
    rw [hmask, Word.toNat_and_field _ 12 52 (by decide)]
    exact Nat.mul_mod_left _ _
  constructor
  · rintro h page - ⟨r, hr, hlow, hhigh⟩
    obtain ⟨ptr, hptr, rfl⟩ := List.mem_map.mp hr
    obtain rfl : page = (ptr &&& ~~~0xFFF).toNat := by
      omega
    exact h ptr hptr
  · intro h ptr hptr
    exact h _ (hpage ptr) ⟨_, List.mem_map_of_mem hptr, le_rfl, Nat.lt_succ_self _⟩

lemma Rep.kfreeAll (slabFree : Mem → Word → Mem) (hrep : Rep h l) (hcoalesced : Coalesced l) (hnodup : ptrs.Nodup)
    (hlive : ∀ ptr ∈ ptrs, Live l ptr) (hunmarked : Unmarked h.mem ptrs) :
    ∃ h', Memory.kfreeAll slabFree h ptrs = .ok h' ∧ Rep h' (gluing.norm (l.map (markFree ptrs))) := by
  induction ptrs generalizing h l with
  | nil =>
    refine ⟨h, rfl, ?_⟩
    have hmap : l.map (markFree []) = l := (map_congr_left fun b _ => if_neg not_mem_nil).trans (List.map_id l)
    rwa [hmap, Gluing.norm_of_apart (apart_iff.mpr hcoalesced)]
  | cons ptr ptrs ih =>
    obtain ⟨hfirst, hrest⟩ := forall_mem_cons.mp hlive
    obtain ⟨hnew, hnodup'⟩ := nodup_cons.mp hnodup
    obtain ⟨b, hb, rfl, hused, hsize⟩ := hfirst
    obtain ⟨l₁, l₂, rfl⟩ := append_of_mem hb
    obtain ⟨m, _⟩ := h
    have hkfree := hrep.kfree_ok slabFree hused hsize (hunmarked _ mem_cons_self)
    have hnorm : freeBlock l₁ b l₂ = gluing.norm ((l₁ ++ b :: l₂).map (markFree [b.addr + headerSize])) := by
      rw [hrep.mark_one, freeBlock_eq_norm hcoalesced]
    have hlive' : ∀ ptr ∈ ptrs, Live (freeBlock l₁ b l₂) ptr := by
      intro ptr hptr
      obtain ⟨x, hx, hxptr, hxused, hxsize⟩ := hrest ptr hptr
      have hne : x ≠ b := by
        rintro rfl
        exact hnew (hxptr ▸ hptr)
      exact ⟨x, mem_freeBlock (mem_of_ne hx hne []).1 hxused, hxptr, hxused, hxsize⟩
    have hkept : Unmarked (kfreeSection m b.addr) ptrs := by
      have hbefore : Unmarked m ptrs := fun ptr hptr => hunmarked ptr (mem_cons_of_mem _ hptr)
      exact unmarked_iff.mpr ((unmarked_iff.mp hbefore).kfreeSection hrep)
    have hrepFreed := hrep.kfree
    generalize kfreeSection m b.addr = m₁ at hkfree hkept hrepFreed
    obtain ⟨h', _, hrep'⟩ := ih hrepFreed (hrep.free_coalesced hcoalesced) hnodup' hlive' hkept
    refine ⟨h', ?_, ?_⟩
    · rwa [Memory.kfreeAll, foldlM_cons, hkfree]
    · have hsane : ∀ x ∈ (l₁ ++ b :: l₂).map (markFree [b.addr + headerSize]), x.Sane :=
        List.forall_mem_map.mpr fun x hx => markFree_sane (hrep.sane x hx) _
      rw [hnorm, norm_markFree hsane, List.map_map] at hrep'
      have hcompose : markFree ptrs ∘ markFree [b.addr + headerSize] = markFree ((b.addr + headerSize) :: ptrs) :=
        funext fun x => markFree_cons _ ptrs x
      rwa [hcompose] at hrep'

lemma Rep.blocks_eq (hrep : Rep h l) : blocks h = l := by
  obtain ⟨_, _⟩ := h
  exact blocksFrom_eq hrep.links hrep.stored hrep.length_lt

theorem free_order_irrelevant (slabFree : Mem → Word → Mem) (h : KHeap) (l : List Block) (ptrs ptrs' : List Word)
    (hrep : Rep h l) (hcoalesced : Coalesced l) (hnodup : ptrs.Nodup) (hlive : ∀ ptr ∈ ptrs, Live l ptr)
    (hperm : ptrs.Perm ptrs') (hunmarked : Unmarked h.mem ptrs) :
    ∃ h₁ h₂, kfreeAll slabFree h ptrs = .ok h₁ ∧ kfreeAll slabFree h ptrs' = .ok h₂ ∧ blocks h₁ = blocks h₂ ∧
      Rep h₁ (blocks h₁) ∧ Rep h₂ (blocks h₂) := by
  obtain ⟨h₁, hfree₁, hrep₁⟩ := hrep.kfreeAll slabFree hcoalesced hnodup hlive hunmarked
  obtain ⟨h₂, hfree₂, hrep₂⟩ := hrep.kfreeAll slabFree hcoalesced (hperm.nodup_iff.mp hnodup)
    (fun ptr hptr => hlive ptr (hperm.mem_iff.mpr hptr)) (fun ptr hptr => hunmarked ptr (hperm.mem_iff.mpr hptr))
  have hmark : markFree ptrs' = markFree ptrs := by
    funext b
    simp only [markFree, hperm.mem_iff]
  rw [hmark] at hrep₂
  refine ⟨h₁, h₂, hfree₁, hfree₂, hrep₁.blocks_eq.trans hrep₂.blocks_eq.symm, ?_, ?_⟩
  · rwa [hrep₁.blocks_eq]
  · rwa [hrep₂.blocks_eq]

def takeTwo : List Heap.Call := [.kmalloc 3000 0, .kmalloc 4080 0x106000]

theorem free_order_irrelevant_takeTwo :
    ∃ s, Runs.run smallStep (booted smallHeap 0x105000) takeTwo = some s ∧
      ∃ h₁ h₂, kfreeAll (fun m _ => m) s.heap [0xFFFF800000105028, 0xFFFF800000106028] = .ok h₁ ∧
        kfreeAll (fun m _ => m) s.heap [0xFFFF800000106028, 0xFFFF800000105028] = .ok h₂ ∧ blocks h₁ = blocks h₂ ∧
        Rep h₁ (blocks h₁) ∧ Rep h₂ (blocks h₂) := by
  refine Runs.exists_of_check (·.live = [(0xFFFF800000106028, 4080), (0xFFFF800000105028, 3000)]) (by decide +kernel)
    fun s hs hcheck => ?_
  have hallowed : Runs.Guarded smallStep Allowed (booted smallHeap 0x105000) takeTwo := by decide +kernel
  have hup : Runs.Guarded smallStep Upward (booted smallHeap 0x105000) takeTwo := by decide +kernel
  have hstart : Sound (booted smallHeap 0x105000) := ⟨_, smallHeap_inv, isChain_singleton _⟩
  obtain ⟨l, hinv, -⟩ := (Runs.progress_invariant (fun _ _ => step_sound) hstart (hallowed.and hup)).last hs
  have htaken : ∀ ptr ∈ [(0xFFFF800000105028 : Word), 0xFFFF800000106028], ∃ x ∈ s.live, x.1 = ptr ∧ 0 < x.2.toNat := by
    rw [hcheck]
    simp
  have hlive : ∀ ptr ∈ [(0xFFFF800000105028 : Word), 0xFFFF800000106028], Live l ptr := by
    intro ptr hptr
    obtain ⟨x, hx, rfl, hpos⟩ := htaken ptr hptr
    obtain ⟨b, hb, haddr, hused, hsize⟩ := hinv.live x hx
    exact ⟨b, hb, haddr, hused, hpos.trans_le hsize⟩
  have hunmarked : Unmarked s.heap.mem [0xFFFF800000105028, 0xFFFF800000106028] := by
    intro ptr hptr
    obtain ⟨b, hb, rfl, -⟩ := hlive ptr hptr
    exact hinv.unmarked hb
  exact free_order_irrelevant _ _ l _ _ hinv.rep hinv.coalesced (by decide) hlive (List.Perm.swap _ _ []) hunmarked

namespace Allocator

def forgeSlab : List Call :=
  [.kmalloc 4000 0 0, .kmalloc 4096 0 0x110000,
    .write 0xFFFF800000111000 (mark ++ [0, 0, 0, 0] ++ [0, 0, 0, 0x80, 0xFF, 0xFF, 0xFF, 0xFF] ++ List.replicate 8 0 ++ [5])]

theorem kfree_does_not_undo :
    ∃ s t u v, booted = some s ∧ Runs.Guarded step (fun s c => c.Lawful s) s forgeSlab ∧ Runs.run step s forgeSlab = some t ∧
      step t (.kmalloc 3000 0 0) = some u ∧ (0xFFFF800000111050, 3000) ∈ u.large ∧ u.runs = t.runs ∧
      step u (.kfree 0xFFFF800000111050) = some v ∧ Heap.blocks v.heap.heap ≠ Heap.blocks t.heap.heap := by
  obtain ⟨s, hboot, hlawful, t, ht, u, hu, hlive, hruns, v, hv, hblocks⟩ : ∃ s ∈ booted,
      Runs.Guarded step (fun s c => c.Lawful s) s forgeSlab ∧ ∃ t ∈ Runs.run step s forgeSlab, ∃ u ∈ step t (.kmalloc 3000 0 0),
        (0xFFFF800000111050, 3000) ∈ u.large ∧ u.runs = t.runs ∧ ∃ v ∈ step u (.kfree 0xFFFF800000111050),
          (Heap.blocks v.heap.heap).length ≠ (Heap.blocks t.heap.heap).length := by
    decide +kernel
  exact ⟨s, t, u, v, hboot, hlawful, ht, hu, hlive, hruns, hv, fun heq => hblocks (congrArg List.length heq)⟩

/-- Three blocks in a row; the owner of the first forges a slab header whose `prev` points to the size of the third. -/
def forgeLinks : List Call :=
  [.kmalloc 4000 0 0, .kmalloc 16000 0 0x110000, .kfree 0xFFFF800000110028, .kmalloc 4112 0 0, .kmalloc 4096 0 0,
    .kmalloc 2064 0 0,
    .write 0xFFFF800000111000 (mark ++ [0, 0, 0, 0] ++ [0, 0, 0, 0x80, 0xFF, 0xFF, 0xFF, 0xFF] ++ List.replicate 24 0 ++
      [0x48, 0x20, 0x11, 0, 0, 0x80, 0xFF, 0xFF])]

theorem free_order_matters :
    ∃ s t u v, booted = some s ∧ Runs.Guarded step (fun s c => c.Lawful s) s forgeLinks ∧ Runs.run step s forgeLinks = some t ∧
      (0xFFFF800000111060, 4096) ∈ t.large ∧ (0xFFFF800000112088, 2064) ∈ t.large ∧
      Runs.run step t [.kfree 0xFFFF800000111060, .kfree 0xFFFF800000112088] = some u ∧
      Runs.run step t [.kfree 0xFFFF800000112088, .kfree 0xFFFF800000111060] = some v ∧
      Heap.blocks u.heap.heap ≠ Heap.blocks v.heap.heap := by
  simp only [exists_and_left]
  decide +kernel

end Allocator

end KernelSmp.Memory
