import KernelSmp.Base.LinkedList
import KernelSmp.Memory.Kmalloc

/-! The heap as a list of blocks: what each section of `kmalloc.c` does to it. -/

namespace KernelSmp.Memory

open Base LinkedList List

structure Block where
  addr : Word
  size : Word
  free : Bool
deriving DecidableEq, Repr

namespace Block

def stop (b : Block) : ℕ := b.addr.toNat + 40 + b.size.toNat

def Apart (a b : Block) : Prop := a.stop ≤ b.addr.toNat ∨ b.stop ≤ a.addr.toNat

structure Sane (b : Block) : Prop where
  low : hhdmOffset.toNat ≤ b.addr.toNat
  high : b.stop ≤ 2 ^ 64
  addr8 : b.addr.toNat % 8 = 0
  size8 : b.size.toNat % 8 = 0

structure Stored (m : Mem) (b : Block) : Prop where
  magic : mHeader.get m b.addr .magic = kmallocMagic
  size : mHeader.get m b.addr .size = b.size
  free : mHeader.get m b.addr .isFree = if b.free then 1 else 0

variable {b : Block}

lemma Apart.symm {a : Block} (h : a.Apart b) : b.Apart a := Or.symm h

lemma Apart.off {a : Block} (h : a.Apart b) : mHeader.Off a.addr b.addr := by
  rcases h with h | h
  · exact .inl (by rw [stop] at h; change a.addr.toNat + 40 ≤ _; omega)
  · exact .inr (by rw [stop] at h; change b.addr.toNat + 40 ≤ _; omega)

lemma Sane.ne_zero (h : b.Sane) : b.addr ≠ 0 := by
  intro hzero
  have hlow := h.low
  rw [hzero] at hlow
  exact absurd hlow (by decide)

lemma Sane.size_lt (h : b.Sane) : b.size.toNat + 40 ≤ 2 ^ 47 := by
  have hlow : 0xFFFF800000000000 ≤ b.addr.toNat := h.low
  have hhigh := h.high
  rw [stop] at hhigh
  omega

lemma Sane.rest (h : b.Sane) {size : Word} (hroom : size.toNat + 40 ≤ b.size.toNat) :
    (b.addr + headerSize + size).toNat = b.addr.toNat + 40 + size.toNat ∧
    (b.size - size - headerSize).toNat = b.size.toNat - size.toNat - 40 := by
  have hhigh := h.high
  rw [stop] at hhigh
  rw [headerSize]
  constructor <;> bv_omega

lemma Sane.room (h : b.Sane) {size : Word} (hfit : size.toNat ≤ b.size.toNat)
    (hrest : b.size ≥ size + headerSize + heapMinBlockSize) : size.toNat + 40 ≤ b.size.toNat := by
  have hsmall := h.size_lt
  rw [headerSize, heapMinBlockSize] at hrest
  bv_omega

lemma Stored.congr {m m' : Mem} (h : b.Stored m)
    (heq : ∀ f ≠ HeaderField.prev, f ≠ .next → mHeader.get m' b.addr f = mHeader.get m b.addr f) : b.Stored m' :=
  ⟨(heq .magic (by decide) (by decide)).trans h.magic, (heq .size (by decide) (by decide)).trans h.size,
    (heq .isFree (by decide) (by decide)).trans h.free⟩

end Block

section fields

variable {m : Mem} {a v : Word}

@[simp] lemma get_set_size : mHeader.get (mHeader.set m a .size v) a .size = v := Layout.get_set_self v.isLt
@[simp] lemma get_set_next : mHeader.get (mHeader.set m a .next v) a .next = v := Layout.get_set_self v.isLt
@[simp] lemma get_set_prev : mHeader.get (mHeader.set m a .prev v) a .prev = v := Layout.get_set_self v.isLt

@[simp] lemma get_set_magic : mHeader.get (mHeader.set m a .magic kmallocMagic) a .magic = kmallocMagic :=
  Layout.get_set_self (by decide)

variable {next block : Word}

lemma backLink_off {x : Word} {f : HeaderField} (h : next = 0 ∨ mHeader.Off next x) :
    mHeader.get (backLink m next block) x f = mHeader.get m x f := by
  rw [backLink]
  split_ifs with hnext
  · exact Layout.get_set_off (h.resolve_left hnext)
  · rfl

lemma backLink_field {f : HeaderField} (hf : f ≠ .prev) :
    mHeader.get (backLink m next block) next f = mHeader.get m next f := by
  rw [backLink]
  split
  · exact Layout.get_set_field hf.symm
  · rfl

lemma backLink_prev (h : next ≠ 0) : mHeader.get (backLink m next block) next .prev = block := by
  rw [backLink, if_pos h]
  exact get_set_prev

@[simp] lemma get_set_free : mHeader.get (mHeader.set m a .isFree 1#64) a .isFree = 1#64 := Layout.get_set_self (by decide)
@[simp] lemma get_set_used : mHeader.get (mHeader.set m a .isFree 0#64) a .isFree = 0#64 := Layout.get_set_self (by decide)

end fields

section links

def pointer (w : Word) : Option Word := if w = 0 then none else some w

def nextIn (m : Mem) (a : Word) : Option Word := pointer (mHeader.get m a .next)
def prevIn (m : Mem) (a : Word) : Option Word := pointer (mHeader.get m a .prev)

variable {w : Word}

lemma pointer_of_ne (h : w ≠ 0) : pointer w = some w := if_neg h

lemma pointer_eq_some {a : Word} : pointer w = some a ↔ w = a ∧ a ≠ 0 := by
  rw [pointer]
  split_ifs with hw
  · constructor
    · intro h
      cases h
    · rintro ⟨rfl, ha⟩
      exact absurd hw ha
  · rw [Option.some.injEq]
    constructor
    · rintro rfl
      exact ⟨rfl, hw⟩
    · exact fun h => h.1

lemma pointer_eq_none : pointer w = none ↔ w = 0 := by
  rw [pointer]
  split_ifs with hw
  · exact ⟨fun _ => hw, fun _ => rfl⟩
  · constructor
    · intro h
      cases h
    · exact fun h => absurd h hw

end links

structure Rep (h : KHeap) (l : List Block) : Prop where
  links : DList (nextIn h.mem) (prevIn h.mem) (pointer h.heapStart) (l.map Block.addr)
  stored : ∀ b ∈ l, b.Stored h.mem
  apart : l.Pairwise Block.Apart
  sane : ∀ b ∈ l, b.Sane

section rep

variable {m m' : Mem} {start : Word} {l l₁ l₂ : List Block} {b b' c : Block}

lemma forall_mem_middle {p : Block → Prop} : (∀ x ∈ l₁ ++ b :: l₂, p x) ↔ p b ∧ ∀ x ∈ l₁ ++ l₂, p x := by
  simp only [forall_mem_append, forall_mem_cons]
  tauto

lemma pairwise_apart_middle : (l₁ ++ b :: l₂).Pairwise Block.Apart ↔
    (∀ x ∈ l₁ ++ l₂, b.Apart x) ∧ (l₁ ++ l₂).Pairwise Block.Apart := by
  rw [pairwise_middle fun h => h.symm, pairwise_cons]

lemma Rep.next (h : Rep ⟨m, start⟩ (l₁ ++ b :: l₂)) : nextIn m b.addr = (l₂.map Block.addr).head? := by
  have hlinks := h.links
  rw [map_append, map_cons] at hlinks
  obtain ⟨_, -, -, -, h₂⟩ := seg_append.mp hlinks
  cases l₂ with
  | nil => exact h₂
  | cons => exact h₂.1

lemma Rep.prev (h : Rep ⟨m, start⟩ (l₁ ++ b :: l₂)) : prevIn m b.addr = lastOr none (l₁.map Block.addr) := by
  have hlinks := h.links
  rw [map_append, map_cons] at hlinks
  obtain ⟨_, -, -, hprev, -⟩ := seg_append.mp hlinks
  exact hprev

lemma Rep.change (h : Rep ⟨m, start⟩ (l₁ ++ b :: l₂)) (haddr : b'.addr = b.addr) (hsize : b'.size = b.size)
    (hothers : ∀ x ∈ l₁ ++ l₂, ∀ f, mHeader.get m' x.addr f = mHeader.get m x.addr f)
    (hnext : mHeader.get m' b.addr .next = mHeader.get m b.addr .next)
    (hprev : mHeader.get m' b.addr .prev = mHeader.get m b.addr .prev) (hstored : b'.Stored m') :
    Rep ⟨m', start⟩ (l₁ ++ b' :: l₂) := by
  have hstop : b'.stop = b.stop := by rw [Block.stop, haddr, hsize, Block.stop]
  have hfields : ∀ x ∈ l₁ ++ b :: l₂, nextIn m' x.addr = nextIn m x.addr ∧ prevIn m' x.addr = prevIn m x.addr := by
    refine forall_mem_middle.mpr ⟨⟨congrArg pointer hnext, congrArg pointer hprev⟩, fun x hx => ?_⟩
    exact ⟨congrArg pointer (hothers x hx .next), congrArg pointer (hothers x hx .prev)⟩
  have hmap : (l₁ ++ b' :: l₂).map Block.addr = (l₁ ++ b :: l₂).map Block.addr := by simp [haddr]
  obtain ⟨happart, hrest⟩ := pairwise_apart_middle.mp h.apart
  obtain ⟨hsaneb, hsane⟩ := forall_mem_middle.mp h.sane
  obtain ⟨-, hold⟩ := forall_mem_middle.mp h.stored
  constructor
  · rw [hmap]
    apply Seg.congr h.links
    · exact forall_mem_map.mpr fun x hx => (hfields x hx).1
    · exact forall_mem_map.mpr fun x hx => (hfields x hx).2
  · exact forall_mem_middle.mpr ⟨hstored, fun x hx => (hold x hx).congr fun f _ _ => hothers x hx f⟩
  · refine pairwise_apart_middle.mpr ⟨fun x hx => ?_, hrest⟩
    rw [Block.Apart, hstop, haddr]
    exact happart x hx
  · refine forall_mem_middle.mpr ⟨⟨?_, ?_, ?_, ?_⟩, hsane⟩
    · exact haddr ▸ hsaneb.low
    · exact hstop ▸ hsaneb.high
    · exact haddr ▸ hsaneb.addr8
    · exact hsize ▸ hsaneb.size8

lemma Rep.next_cases (h : Rep ⟨m, start⟩ (l₁ ++ b :: l₂)) :
    mHeader.get m b.addr .next = 0 ∧ l₂ = [] ∨ ∃ d l₃, l₂ = d :: l₃ ∧ mHeader.get m b.addr .next = d.addr ∧ d.addr ≠ 0 := by
  have hnext := h.next
  cases l₂ with
  | nil => exact .inl ⟨pointer_eq_none.mp hnext, rfl⟩
  | cons d l₃ => exact .inr ⟨d, l₃, rfl, pointer_eq_some.mp hnext⟩

lemma Rep.set_isFree (h : Rep ⟨m, start⟩ (l₁ ++ b :: l₂)) {v : Word} (free : Bool) (hv : v = if free then 1 else 0) :
    Rep ⟨mHeader.set m b.addr .isFree v, start⟩ (l₁ ++ ⟨b.addr, b.size, free⟩ :: l₂) := by
  obtain ⟨happart, -⟩ := pairwise_apart_middle.mp h.apart
  have hstored := h.stored b (by simp)
  refine h.change rfl rfl ?_ ?_ ?_ ?_
  · exact fun x hx f => Layout.get_set_off (happart x hx).off
  · exact Layout.get_set_field (by decide)
  · exact Layout.get_set_field (by decide)
  · refine ⟨?_, ?_, ?_⟩
    · exact (Layout.get_set_field (by decide)).trans hstored.magic
    · exact (Layout.get_set_field (by decide)).trans hstored.size
    · cases free with
      | false =>
        subst hv
        exact get_set_used
      | true =>
        subst hv
        exact get_set_free

lemma Rep.cut (h : Rep ⟨m, start⟩ (l₁ ++ b :: l₂)) (haddr : b'.addr = b.addr) (hmid : b'.stop = c.addr.toNat)
    (hstop : c.stop = b.stop) (hsize : b'.size.toNat % 8 = 0) (hb' : b'.Stored m') (hc : c.Stored m')
    (hnext : mHeader.get m' b.addr .next = c.addr) (hprev : mHeader.get m' b.addr .prev = mHeader.get m b.addr .prev)
    (hnextc : mHeader.get m' c.addr .next = mHeader.get m b.addr .next) (hprevc : mHeader.get m' c.addr .prev = b.addr)
    (hothers : ∀ x ∈ l₁ ++ l₂, ∀ f ≠ .prev, mHeader.get m' x.addr f = mHeader.get m x.addr f)
    (hprevs : ∀ x ∈ l₁ ++ l₂.tail, mHeader.get m' x.addr .prev = mHeader.get m x.addr .prev)
    (hfirst : ∀ x ∈ l₂.head?, mHeader.get m' x.addr .prev = c.addr) : Rep ⟨m', start⟩ (l₁ ++ b' :: c :: l₂) := by
  obtain ⟨happart, hrest⟩ := pairwise_apart_middle.mp h.apart
  obtain ⟨hsaneb, hsane⟩ := forall_mem_middle.mp h.sane
  obtain ⟨-, hstored⟩ := forall_mem_middle.mp h.stored
  have hlow := hsaneb.low
  have haddr8 := hsaneb.addr8
  have hsize8 := hsaneb.size8
  have hhigh := hsaneb.high
  simp only [Block.stop, haddr] at hmid hstop hhigh
  have hsaneb' : b'.Sane :=
    ⟨haddr ▸ hlow, by simp only [Block.stop, haddr]; omega, haddr ▸ haddr8, hsize⟩
  have hsanec : c.Sane := ⟨by omega, by simp only [Block.stop]; omega, by omega, by omega⟩
  have hbc : b'.Apart c := .inl (by simp only [Block.stop, haddr]; omega)
  have happart' : ∀ x ∈ l₁ ++ l₂, b'.Apart x ∧ c.Apart x := by
    intro x hx
    have hbx := happart x hx
    simp only [Block.Apart, Block.stop, haddr] at hbx ⊢
    omega
  constructor
  · have hlinks := h.links
    simp only [map_append, map_cons, haddr] at hlinks ⊢
    apply hlinks.insertAfter
    · rw [← map_append]
      exact forall_mem_map.mpr fun x hx => congrArg pointer (hothers x hx .next (by decide))
    · exact (congrArg pointer hnext).trans (pointer_of_ne hsanec.ne_zero)
    · exact congrArg pointer hnextc
    · rw [← map_tail]
      intro a ha
      rcases mem_append.mp ha with ha | ha
      · obtain ⟨x, hx, rfl⟩ := mem_map.mp ha
        exact congrArg pointer (hprevs x (mem_append_left _ hx))
      · rcases mem_cons.mp ha with rfl | ha
        · exact congrArg pointer hprev
        · obtain ⟨x, hx, rfl⟩ := mem_map.mp ha
          exact congrArg pointer (hprevs x (mem_append_right l₁ hx))
    · exact (congrArg pointer hprevc).trans (pointer_of_ne hsaneb.ne_zero)
    · intro a ha
      rw [List.head?_map] at ha
      obtain ⟨x, hx, rfl⟩ := Option.map_eq_some_iff.mp ha
      exact (congrArg pointer (hfirst x hx)).trans (pointer_of_ne hsanec.ne_zero)
  · have hold : ∀ x ∈ l₁ ++ l₂, x.Stored m' := fun x hx => (hstored x hx).congr fun f hf _ => hothers x hx f hf
    exact forall_mem_middle.mpr ⟨hb', forall_mem_middle.mpr ⟨hc, hold⟩⟩
  · refine pairwise_apart_middle.mpr ⟨?_, pairwise_apart_middle.mpr ⟨fun x hx => (happart' x hx).2, hrest⟩⟩
    exact forall_mem_middle.mpr ⟨hbc, fun x hx => (happart' x hx).1⟩
  · exact forall_mem_middle.mpr ⟨hsaneb', forall_mem_middle.mpr ⟨hsanec, hsane⟩⟩

lemma Rep.join (h : Rep ⟨m, start⟩ (l₁ ++ b :: c :: l₂)) (haddr : b'.addr = b.addr) (hmid : b.stop = c.addr.toNat)
    (hstop : b'.stop = c.stop) (hb' : b'.Stored m') (hnext : mHeader.get m' b.addr .next = mHeader.get m c.addr .next)
    (hprev : mHeader.get m' b.addr .prev = mHeader.get m b.addr .prev)
    (hothers : ∀ x ∈ l₁ ++ l₂, ∀ f ≠ .prev, mHeader.get m' x.addr f = mHeader.get m x.addr f)
    (hprevs : ∀ x ∈ l₁ ++ l₂.tail, mHeader.get m' x.addr .prev = mHeader.get m x.addr .prev)
    (hfirst : ∀ x ∈ l₂.head?, mHeader.get m' x.addr .prev = b.addr) : Rep ⟨m', start⟩ (l₁ ++ b' :: l₂) := by
  obtain ⟨happartb, hrest⟩ := pairwise_apart_middle.mp h.apart
  obtain ⟨happartc, hrest⟩ := pairwise_apart_middle.mp hrest
  obtain ⟨-, happartb⟩ := forall_mem_middle.mp happartb
  obtain ⟨hsaneb, hsane⟩ := forall_mem_middle.mp h.sane
  obtain ⟨hsanec, hsane⟩ := forall_mem_middle.mp hsane
  obtain ⟨-, hstored⟩ := forall_mem_middle.mp h.stored
  obtain ⟨-, hstored⟩ := forall_mem_middle.mp hstored
  have haddr8 := hsaneb.addr8
  have hbsize8 := hsaneb.size8
  have hcsize8 := hsanec.size8
  have hhigh := hsanec.high
  simp only [Block.stop, haddr] at hmid hstop hhigh
  have hsaneb' : b'.Sane :=
    ⟨haddr ▸ hsaneb.low, by simp only [Block.stop, haddr]; omega, haddr ▸ haddr8, by omega⟩
  constructor
  · have hlinks := h.links
    simp only [map_append, map_cons, haddr] at hlinks ⊢
    apply hlinks.bypass
    · rw [← map_append]
      exact forall_mem_map.mpr fun x hx => congrArg pointer (hothers x hx .next (by decide))
    · exact congrArg pointer hnext
    · rw [← map_tail]
      intro a ha
      rcases mem_append.mp ha with ha | ha
      · obtain ⟨x, hx, rfl⟩ := mem_map.mp ha
        exact congrArg pointer (hprevs x (mem_append_left _ hx))
      · rcases mem_cons.mp ha with rfl | ha
        · exact congrArg pointer hprev
        · obtain ⟨x, hx, rfl⟩ := mem_map.mp ha
          exact congrArg pointer (hprevs x (mem_append_right l₁ hx))
    · intro a ha
      rw [List.head?_map] at ha
      obtain ⟨x, hx, rfl⟩ := Option.map_eq_some_iff.mp ha
      exact (congrArg pointer (hfirst x hx)).trans (pointer_of_ne hsaneb.ne_zero)
  · refine forall_mem_middle.mpr ⟨hb', fun x hx => ?_⟩
    exact (hstored x hx).congr fun f hf _ => hothers x hx f hf
  · refine pairwise_apart_middle.mpr ⟨fun x hx => ?_, hrest⟩
    have hbx := happartb x hx
    have hcx := happartc x hx
    have hx40 : x.addr.toNat + 40 ≤ x.stop := by
      rw [Block.stop]
      omega
    simp only [Block.Apart, Block.stop, haddr] at hbx hcx hx40 ⊢
    omega
  · exact forall_mem_middle.mpr ⟨hsaneb', hsane⟩

end rep

section split

variable {m : Mem} {start current size x : Word} {l₁ l₂ : List Block} {b : Block}

lemma splitBlock_get (hoff : mHeader.Off current (current + headerSize + size))
    (hback : mHeader.get m current .next = 0 ∨ mHeader.Off (mHeader.get m current .next) current)
    (hrest : mHeader.get m current .next = 0 ∨ mHeader.Off (mHeader.get m current .next) (current + headerSize + size)) :
    (mHeader.get (splitBlock m current size) current .size = size ∧
     mHeader.get (splitBlock m current size) current .next = current + headerSize + size ∧
     ∀ f, f ≠ .size → f ≠ .next → mHeader.get (splitBlock m current size) current f = mHeader.get m current f) ∧
    mHeader.get (splitBlock m current size) (current + headerSize + size) .magic = kmallocMagic ∧
    mHeader.get (splitBlock m current size) (current + headerSize + size) .size =
      mHeader.get m current .size - size - headerSize ∧
    mHeader.get (splitBlock m current size) (current + headerSize + size) .isFree = 1 ∧
    mHeader.get (splitBlock m current size) (current + headerSize + size) .next = mHeader.get m current .next ∧
    mHeader.get (splitBlock m current size) (current + headerSize + size) .prev = current := by
  simp only [splitBlock]
  refine ⟨⟨?_, ?_, fun f hs hn => ?_⟩, ?_, ?_, ?_, ?_, ?_⟩
  · simp [Layout.get_set_field]
  · simp
  · simp [Layout.get_set_field hn.symm, Layout.get_set_field hs.symm, Layout.get_set_off hoff.symm, Layout.get_set_field,
      backLink_off hback]
  · simp [Layout.get_set_field, Layout.get_set_off hoff, Layout.get_set_off hoff.symm, backLink_off hrest]
  · simp [Layout.get_set_field, Layout.get_set_off hoff, Layout.get_set_off hoff.symm, backLink_off hrest]
  · simp [Layout.get_set_field, Layout.get_set_off hoff, Layout.get_set_off hoff.symm, backLink_off hrest]
  · simp [Layout.get_set_field, Layout.get_set_off hoff, Layout.get_set_off hoff.symm, backLink_off hrest]
  · simp [Layout.get_set_field, Layout.get_set_off hoff, Layout.get_set_off hoff.symm, backLink_off hrest]

lemma splitBlock_other (hoff : mHeader.Off current (current + headerSize + size)) (hx : mHeader.Off current x)
    (hx' : mHeader.Off (current + headerSize + size) x) :
    (mHeader.get m current .next = 0 ∨ mHeader.Off (mHeader.get m current .next) x →
      ∀ f, mHeader.get (splitBlock m current size) x f = mHeader.get m x f) ∧
    (mHeader.get m current .next = x → x ≠ 0 →
      mHeader.get (splitBlock m current size) x .prev = current + headerSize + size ∧
      ∀ f ≠ .prev, mHeader.get (splitBlock m current size) x f = mHeader.get m x f) := by
  simp only [splitBlock]
  refine ⟨fun hnext f => ?_, fun hnext hzero => ⟨?_, fun f hf => ?_⟩⟩
  · simp [Layout.get_set_off hx, Layout.get_set_off hx', Layout.get_set_off hoff.symm, Layout.get_set_field, backLink_off hnext]
  · simp [Layout.get_set_off hx, Layout.get_set_off hoff.symm, Layout.get_set_field, hnext, backLink_prev hzero]
  · simp [Layout.get_set_off hx, Layout.get_set_off hx', Layout.get_set_off hoff.symm, Layout.get_set_field, hnext,
      backLink_field hf]

lemma Rep.next_off (h : Rep ⟨m, start⟩ (l₁ ++ b :: l₂)) :
    (∀ x ∈ l₁ ++ b :: l₂.tail, mHeader.get m b.addr .next = 0 ∨ mHeader.Off (mHeader.get m b.addr .next) x.addr) ∧
    ∀ d ∈ l₂.head?, mHeader.get m b.addr .next = d.addr ∧ d.addr ≠ 0 := by
  rcases h.next_cases with ⟨hzero, rfl⟩ | ⟨d, l₃, rfl, hnext, hd⟩
  · exact ⟨fun x _ => .inl hzero, fun d hd => nomatch hd⟩
  · obtain ⟨happartb, hrest⟩ := pairwise_apart_middle.mp h.apart
    obtain ⟨happartd, -⟩ := pairwise_apart_middle.mp hrest
    rw [hnext]
    refine ⟨forall_mem_middle.mpr ⟨.inr ?_, fun x hx => .inr (happartd x hx).off⟩, ?_⟩
    · exact (happartb d (by simp)).symm.off
    · rintro d' hd'
      cases hd'
      exact ⟨rfl, hd⟩

lemma mem_tail_or_head {x : Block} (hx : x ∈ l₁ ++ l₂) : x ∈ l₁ ++ b :: l₂.tail ∨ x ∈ l₂.head? := by
  rcases mem_append.mp hx with hx | hx
  · exact .inl (mem_append_left _ hx)
  · cases l₂ with
    | nil => cases hx
    | cons =>
      rcases mem_cons.mp hx with rfl | hx
      · exact .inr rfl
      · exact .inl (mem_append_right l₁ (mem_cons_of_mem b hx))

lemma mem_middle {x : Block} (hx : x ∈ l₁ ++ l₂) : x ∈ l₁ ++ b :: l₂ :=
  mem_append.mpr ((mem_append.mp hx).imp_right (mem_cons_of_mem b))

lemma mem_of_tail {x : Block} (hx : x ∈ l₁ ++ l₂.tail) : x ∈ l₁ ++ l₂ :=
  mem_append.mpr ((mem_append.mp hx).imp_right mem_of_mem_tail)

lemma Rep.split (h : Rep ⟨m, start⟩ (l₁ ++ b :: l₂)) (hsize8 : size.toNat % 8 = 0) (hroom : size.toNat + 40 ≤ b.size.toNat) :
    Rep ⟨splitBlock m b.addr size, start⟩
      (l₁ ++ ⟨b.addr, size, b.free⟩ :: ⟨b.addr + headerSize + size, b.size - size - headerSize, true⟩ :: l₂) := by
  obtain ⟨happart, -⟩ := pairwise_apart_middle.mp h.apart
  obtain ⟨hstored, -⟩ := forall_mem_middle.mp h.stored
  obtain ⟨hnew, hleft⟩ := (h.sane b (by simp)).rest hroom
  have hoff : mHeader.Off b.addr (b.addr + headerSize + size) := .inl (by change b.addr.toNat + 40 ≤ _; omega)
  have hoffNew : ∀ x ∈ l₁ ++ l₂, mHeader.Off (b.addr + headerSize + size) x.addr := by
    intro x hx
    have hbx := happart x hx
    simp only [Block.Apart, Block.stop] at hbx
    change _ + 40 ≤ _ ∨ _ + 40 ≤ _
    omega
  obtain ⟨hfar, hnear⟩ := h.next_off
  have hnextNew : mHeader.get m b.addr .next = 0 ∨ mHeader.Off (mHeader.get m b.addr .next) (b.addr + headerSize + size) := by
    rcases h.next_cases with ⟨hzero, -⟩ | ⟨d, l₃, rfl, hd, -⟩
    · exact .inl hzero
    · rw [hd]
      exact .inr (hoffNew d (by simp)).symm
  obtain ⟨⟨hsize, hnext, hkept⟩, hmagicc, hsizec, hfreec, hnextc, hprevc⟩ :=
    splitBlock_get hoff (hfar b (by simp)) hnextNew
  refine h.cut rfl ?_ ?_ hsize8 ?_ ?_ hnext (hkept .prev (by decide) (by decide)) hnextc hprevc ?_ ?_ ?_
  · exact hnew.symm
  · simp only [Block.stop]
    omega
  · refine ⟨?_, hsize, ?_⟩
    · exact (hkept .magic (by decide) (by decide)).trans hstored.magic
    · exact (hkept .isFree (by decide) (by decide)).trans hstored.free
  · refine ⟨hmagicc, ?_, hfreec⟩
    rw [hsizec, hstored.size]
  · intro x hx f hf
    obtain ⟨hother, hfirst⟩ := splitBlock_other hoff (happart x hx).off (hoffNew x hx)
    rcases mem_tail_or_head hx with hx | hx
    · exact hother (hfar x hx) f
    · exact (hfirst (hnear x hx).1 (hnear x hx).2).2 f hf
  · intro x hx
    have hx' := mem_of_tail hx
    obtain ⟨hother, -⟩ := splitBlock_other hoff (happart x hx').off (hoffNew x hx')
    exact hother (hfar x (mem_middle hx)) .prev
  · intro x hx
    have hx' := mem_append_right l₁ (List.mem_of_mem_head? hx)
    obtain ⟨-, hfirst⟩ := splitBlock_other hoff (happart x hx').off (hoffNew x hx')
    exact (hfirst (hnear x hx).1 (hnear x hx).2).1

def cutBlock (b : Block) (size : Word) : List Block :=
  if b.size ≥ size + headerSize + heapMinBlockSize then
    [⟨b.addr, size, false⟩, ⟨b.addr + headerSize + size, b.size - size - headerSize, true⟩]
  else [⟨b.addr, b.size, false⟩]

lemma Rep.take (h : Rep ⟨m, start⟩ (l₁ ++ b :: l₂)) (hsize8 : size.toNat % 8 = 0) (hfit : size.toNat ≤ b.size.toNat) :
    Rep ⟨takeBlock m b.addr size, start⟩ (l₁ ++ cutBlock b size ++ l₂) := by
  have hstored := h.stored b (by simp)
  rw [takeBlock, cutBlock, hasRest, hstored.size]
  by_cases hrest : b.size ≥ size + headerSize + heapMinBlockSize
  · have hroom := (h.sane b (by simp)).room hfit hrest
    simp only [hrest]
    have hsplit := (h.split hsize8 hroom).set_isFree false rfl
    simpa using hsplit
  · simp only [hrest]
    have hset := h.set_isFree false rfl
    simpa using hset

lemma Rep.payload {m' : Mem} (h : Rep ⟨m, start⟩ (l₁ ++ b :: l₂))
    (hsame : ∀ x, x < b.addr.toNat + 40 ∨ b.stop ≤ x → m' x = m x) : Rep ⟨m', start⟩ (l₁ ++ b :: l₂) := by
  obtain ⟨happart, -⟩ := pairwise_apart_middle.mp h.apart
  have hself : ∀ f, mHeader.get m' b.addr f = mHeader.get m b.addr f := by
    intro f
    apply Layout.get_congr
    intro x _ hx
    exact hsame x (.inl hx)
  refine h.change rfl rfl ?_ (hself .next) (hself .prev) ?_
  · intro y hy f
    have hby := happart y hy
    apply Layout.get_congr
    intro x hx hx'
    apply hsame
    change x < y.addr.toNat + 40 at hx'
    simp only [Block.Apart, Block.stop] at hby ⊢
    omega
  · exact (h.stored b (by simp)).congr fun f _ _ => hself f

lemma Rep.clear (h : Rep ⟨m, start⟩ (l₁ ++ b :: l₂)) : Rep (kmallocClear ⟨m, start⟩ b.addr) (l₁ ++ b :: l₂) := by
  have hhigh : b.addr.toNat + 40 + b.size.toNat ≤ 2 ^ 64 := (h.sane b (by simp)).high
  apply h.payload
  intro x hx
  have hpayload : (b.addr + headerSize).toNat = (b.addr.toNat + 40) % 2 ^ 64 := BitVec.toNat_add ..
  rw [(h.stored b (by simp)).size, Mem.fill, if_neg]
  simp only [Block.stop] at hx
  omega

end split

section join

variable {m : Mem} {start block behind x : Word} {l₁ l₂ : List Block} {b c : Block}

lemma absorb_get (hoff : mHeader.Off block behind)
    (hback : mHeader.get m behind .next = 0 ∨ mHeader.Off (mHeader.get m behind .next) block) :
    mHeader.get (absorb m block behind) block .size =
      mHeader.get m block .size + (mHeader.get m behind .size + headerSize) ∧
    mHeader.get (absorb m block behind) block .next = mHeader.get m behind .next ∧
    ∀ f, f ≠ .size → f ≠ .next → mHeader.get (absorb m block behind) block f = mHeader.get m block f := by
  simp only [absorb]
  refine ⟨?_, ?_, fun f hs hn => ?_⟩
  · simp [Layout.get_set_off hoff, Layout.get_set_field, backLink_off hback]
  · simp [Layout.get_set_off hoff, backLink_off hback]
  · simp [Layout.get_set_off hoff, Layout.get_set_field hn.symm, Layout.get_set_field hs.symm, backLink_off hback]

lemma absorb_other (hoff : mHeader.Off block behind) (hx : mHeader.Off block x) :
    (mHeader.get m behind .next = 0 ∨ mHeader.Off (mHeader.get m behind .next) x →
      ∀ f, mHeader.get (absorb m block behind) x f = mHeader.get m x f) ∧
    (mHeader.get m behind .next = x → x ≠ 0 →
      mHeader.get (absorb m block behind) x .prev = block ∧
      ∀ f ≠ .prev, mHeader.get (absorb m block behind) x f = mHeader.get m x f) := by
  simp only [absorb]
  refine ⟨fun hnext f => ?_, fun hnext hzero => ⟨?_, fun f hf => ?_⟩⟩
  · simp [Layout.get_set_off hoff, Layout.get_set_off hx, backLink_off hnext]
  · simp [Layout.get_set_off hoff, hnext, backLink_prev hzero]
  · simp [Layout.get_set_off hoff, Layout.get_set_off hx, hnext, backLink_field hf]

lemma Rep.absorb (h : Rep ⟨m, start⟩ (l₁ ++ b :: c :: l₂)) (htouch : b.stop = c.addr.toNat) :
    Rep ⟨absorb m b.addr c.addr, start⟩ (l₁ ++ ⟨b.addr, b.size + (c.size + headerSize), b.free⟩ :: l₂) := by
  obtain ⟨happart, -⟩ := pairwise_apart_middle.mp h.apart
  obtain ⟨hbc, happart⟩ := forall_mem_middle.mp happart
  have hstoredb := h.stored b (by simp)
  have hstoredc := h.stored c (by simp)
  have hhigh : c.addr.toNat + 40 + c.size.toNat ≤ 2 ^ 64 := (h.sane c (by simp)).high
  have hshift : Rep ⟨m, start⟩ ((l₁ ++ [b]) ++ c :: l₂) := by simpa using h
  obtain ⟨hfar, hnear⟩ := hshift.next_off
  have hfar' : ∀ x ∈ l₁ ++ b :: l₂.tail,
      mHeader.get m c.addr .next = 0 ∨ mHeader.Off (mHeader.get m c.addr .next) x.addr := by
    intro x hx
    apply hfar
    simp only [mem_append, mem_cons] at hx ⊢
    tauto
  obtain ⟨hsize, hnext, hkept⟩ := absorb_get hbc.off (hfar' b (by simp))
  have hsum : (b.size + (c.size + headerSize)).toNat = b.size.toNat + c.size.toNat + 40 := by
    rw [Block.stop] at htouch
    rw [headerSize]
    bv_omega
  refine h.join rfl htouch ?_ ?_ hnext (hkept .prev (by decide) (by decide)) ?_ ?_ ?_
  · simp only [Block.stop] at htouch ⊢
    omega
  · refine ⟨?_, ?_, ?_⟩
    · exact (hkept .magic (by decide) (by decide)).trans hstoredb.magic
    · rw [hsize, hstoredb.size, hstoredc.size]
    · exact (hkept .isFree (by decide) (by decide)).trans hstoredb.free
  · intro x hx f hf
    obtain ⟨hother, hfirst⟩ := absorb_other hbc.off (happart x hx).off
    rcases mem_tail_or_head hx with hx | hx
    · exact hother (hfar' x hx) f
    · exact (hfirst (hnear x hx).1 (hnear x hx).2).2 f hf
  · intro x hx
    obtain ⟨hother, -⟩ := absorb_other hbc.off (happart x (mem_of_tail hx)).off
    exact hother (hfar' x (mem_middle hx)) .prev
  · intro x hx
    have hx' := mem_append_right l₁ (List.mem_of_mem_head? hx)
    obtain ⟨-, hfirst⟩ := absorb_other hbc.off (happart x hx').off
    exact (hfirst (hnear x hx).1 (hnear x hx).2).1

end join

section append

variable {m m' : Mem} {start : Word} {l new : List Block} {t : Block}

lemma Rep.extend (h : Rep ⟨m, start⟩ (l ++ [t])) (hothers : ∀ x ∈ l, ∀ f, mHeader.get m' x.addr f = mHeader.get m x.addr f)
    (ht : ∀ f ≠ .next, mHeader.get m' t.addr f = mHeader.get m t.addr f)
    (hseg : Seg (nextIn m') (prevIn m') (some t.addr) (nextIn m' t.addr) (new.map Block.addr) none)
    (hstored : ∀ b ∈ new, b.Stored m') (hsane : ∀ b ∈ new, b.Sane) (hnew : new.Pairwise Block.Apart)
    (hcross : ∀ x ∈ l ++ [t], ∀ y ∈ new, x.Apart y) : Rep ⟨m', start⟩ (l ++ t :: new) := by
  have hlist : l ++ t :: new = (l ++ [t]) ++ new := by simp
  constructor
  · have hlinks := h.links
    simp only [map_append] at hlinks ⊢
    apply hlinks.extend
    · exact forall_mem_map.mpr fun x hx => congrArg pointer (hothers x hx .next)
    · rw [forall_mem_append, forall_mem_singleton]
      refine ⟨?_, congrArg pointer (ht .prev (by decide))⟩
      exact forall_mem_map.mpr fun x hx => congrArg pointer (hothers x hx .prev)
    · exact hseg
  · rw [hlist, forall_mem_append, forall_mem_append, forall_mem_singleton]
    refine ⟨⟨fun x hx => ?_, ?_⟩, hstored⟩
    · exact (h.stored x (mem_append_left _ hx)).congr fun f _ _ => hothers x hx f
    · exact (h.stored t (by simp)).congr fun f _ hf => ht f hf
  · rw [hlist, pairwise_append]
    exact ⟨h.apart, hnew, hcross⟩
  · rw [hlist, forall_mem_append]
    exact ⟨h.sane, hsane⟩

lemma newBlock_get (m : Mem) (block size last : Word) :
    mHeader.get (newBlock m block size last) block .magic = kmallocMagic ∧
    mHeader.get (newBlock m block size last) block .size = numFrames size * 4096 - headerSize ∧
    mHeader.get (newBlock m block size last) block .isFree = 0 ∧
    mHeader.get (newBlock m block size last) block .next = 0 ∧
    mHeader.get (newBlock m block size last) block .prev = last := by
  simp [newBlock, Layout.get_set_field]

variable {size : Word}

lemma newBlock_other {block last x : Word} (hx : mHeader.Off block x) (f : HeaderField) :
    mHeader.get (newBlock m block size last) x f = mHeader.get m x f := by
  simp [newBlock, Layout.get_set_off hx]

lemma splitNew_get {block : Word} (hoff : mHeader.Off block (block + headerSize + size)) :
    (mHeader.get (splitNew m block size) block .size = size ∧
     mHeader.get (splitNew m block size) block .next = block + headerSize + size ∧
     ∀ f, f ≠ .size → f ≠ .next → mHeader.get (splitNew m block size) block f = mHeader.get m block f) ∧
    mHeader.get (splitNew m block size) (block + headerSize + size) .magic = kmallocMagic ∧
    mHeader.get (splitNew m block size) (block + headerSize + size) .size = mHeader.get m block .size - size - headerSize ∧
    mHeader.get (splitNew m block size) (block + headerSize + size) .isFree = 1 ∧
    mHeader.get (splitNew m block size) (block + headerSize + size) .next = 0 ∧
    mHeader.get (splitNew m block size) (block + headerSize + size) .prev = block := by
  simp only [splitNew]
  refine ⟨⟨?_, ?_, fun f hs hn => ?_⟩, ?_, ?_, ?_, ?_, ?_⟩
  · simp [Layout.get_set_field, Layout.get_set_off hoff.symm]
  · simp [Layout.get_set_off hoff.symm]
  · simp [Layout.get_set_field hn.symm, Layout.get_set_field hs.symm, Layout.get_set_off hoff.symm]
  · simp [Layout.get_set_field, Layout.get_set_off hoff]
  · simp [Layout.get_set_field, Layout.get_set_off hoff, Layout.get_set_off hoff.symm]
  · simp [Layout.get_set_field, Layout.get_set_off hoff]
  · simp [Layout.get_set_field, Layout.get_set_off hoff]
  · simp

lemma splitNew_other {block x : Word} (hx : mHeader.Off block x) (hx' : mHeader.Off (block + headerSize + size) x)
    (f : HeaderField) : mHeader.get (splitNew m block size) x f = mHeader.get m x f := by
  simp [splitNew, Layout.get_set_off hx, Layout.get_set_off hx']

variable {b : Block}

lemma cutBlock_inside (hb : b.Sane) (hsize8 : size.toNat % 8 = 0) (hfit : size.toNat ≤ b.size.toNat) :
    (cutBlock b size).Pairwise Block.Apart ∧ ∀ y ∈ cutBlock b size, y.Sane ∧ b.addr.toNat ≤ y.addr.toNat ∧ y.stop ≤ b.stop := by
  have hhigh := hb.high
  have hlow := hb.low
  have haddr8 := hb.addr8
  have hbsize8 := hb.size8
  rw [Block.stop] at hhigh
  rw [cutBlock]
  split_ifs with hrest
  · have hroom := hb.room hfit hrest
    obtain ⟨hnew, hleft⟩ := hb.rest hroom
    have hfirst : Block.Sane ⟨b.addr, size, false⟩ := ⟨hlow, by simp only [Block.stop]; omega, haddr8, hsize8⟩
    have hsecond : Block.Sane ⟨b.addr + headerSize + size, b.size - size - headerSize, true⟩ :=
      ⟨by simp only [hnew]; omega, by simp only [Block.stop]; omega, by simp only [hnew]; omega,
        by simp only [hleft]; omega⟩
    refine ⟨pairwise_pair.mpr (.inl hnew.ge), ?_⟩
    rw [forall_mem_cons, forall_mem_singleton]
    refine ⟨⟨hfirst, le_rfl, ?_⟩, hsecond, ?_, ?_⟩
    · simp only [Block.stop]
      omega
    · simp only [hnew]
      omega
    · simp only [Block.stop]
      omega
  · refine ⟨pairwise_singleton _ _, ?_⟩
    rw [forall_mem_singleton]
    exact ⟨⟨hlow, hhigh, haddr8, hbsize8⟩, le_rfl, le_rfl⟩

lemma newRun_chain (m : Mem) (last : Word) (hsize : b.size = numFrames size * 4096 - headerSize)
    (hsane : b.Sane) (hstop : b.stop = b.addr.toNat + (numFrames size * 4096).toNat) (hfit : size.toNat ≤ b.size.toNat) :
    (∀ y ∈ cutBlock b size, y.Stored (newRun m b.addr size last)) ∧
    Seg (nextIn (newRun m b.addr size last)) (prevIn (newRun m b.addr size last)) (pointer last) (some b.addr)
      ((cutBlock b size).map Block.addr) none ∧
    ∀ x : Word, x.toNat + 40 ≤ b.addr.toNat ∨ b.stop ≤ x.toNat →
      ∀ f, mHeader.get (newRun m b.addr size last) x f = mHeader.get m x f := by
  obtain ⟨m₁, hm₁⟩ : ∃ m₁, m₁ = newBlock (m.fill b.addr.toNat (numFrames size * 4096).toNat 0) b.addr size last := ⟨_, rfl⟩
  have hrun : newRun m b.addr size last = if hasRest m₁ b.addr size then splitNew m₁ b.addr size else m₁ := by
    rw [newRun, hm₁]
  obtain ⟨hmagic₁, hsize₁, hfree₁, hnext₁, hprev₁⟩ := newBlock_get (m.fill b.addr.toNat (numFrames size * 4096).toNat 0)
      b.addr size last
  rw [← hm₁] at hmagic₁ hsize₁ hfree₁ hnext₁ hprev₁
  have hstop' : b.stop = b.addr.toNat + 40 + b.size.toNat := rfl
  have hother : ∀ x : Word, x.toNat + 40 ≤ b.addr.toNat ∨ b.stop ≤ x.toNat → ∀ f, mHeader.get m₁ x f = mHeader.get m x f := by
    intro x hx f
    have hoff : mHeader.Off b.addr x := by
      change _ + 40 ≤ _ ∨ _ + 40 ≤ _
      omega
    rw [hm₁, newBlock_other hoff]
    apply Layout.get_congr
    intro y hy hy'
    change y < x.toNat + 40 at hy'
    rw [Mem.fill, if_neg (by omega)]
  rw [hrun, hasRest, hsize₁, ← hsize, cutBlock]
  by_cases hrest : b.size ≥ size + headerSize + heapMinBlockSize
  · simp only [hrest, decide_true, if_true]
    have hroom := hsane.room hfit hrest
    obtain ⟨hnew, -⟩ := hsane.rest hroom
    have hoff : mHeader.Off b.addr (b.addr + headerSize + size) := .inl (by change _ + 40 ≤ _; omega)
    have hne : b.addr + headerSize + size ≠ 0 := by
      intro hzero
      rw [hzero] at hnew
      change 0 = _ at hnew
      omega
    obtain ⟨⟨hsize₂, hnext₂, hkept₂⟩, hmagicS, hsizeS, hfreeS, hnextS, hprevS⟩ := splitNew_get hoff
    refine ⟨?_, ?_, fun x hx f => ?_⟩
    · rw [forall_mem_cons, forall_mem_singleton]
      refine ⟨⟨?_, hsize₂, ?_⟩, hmagicS, ?_, hfreeS⟩
      · exact (hkept₂ .magic (by decide) (by decide)).trans hmagic₁
      · exact (hkept₂ .isFree (by decide) (by decide)).trans hfree₁
      · rw [hsizeS, hsize₁, hsize]
    · refine ⟨rfl, ?_, ?_, ?_, ?_⟩
      · exact congrArg pointer ((hkept₂ .prev (by decide) (by decide)).trans hprev₁)
      · exact (congrArg pointer hnext₂).trans (pointer_of_ne hne)
      · exact (congrArg pointer hprevS).trans (pointer_of_ne hsane.ne_zero)
      · exact pointer_eq_none.mpr hnextS
    · have hoffx : mHeader.Off b.addr x ∧ mHeader.Off (b.addr + headerSize + size) x := by
        change (_ + 40 ≤ _ ∨ _ + 40 ≤ _) ∧ (_ + 40 ≤ _ ∨ _ + 40 ≤ _)
        omega
      rw [splitNew_other hoffx.1 hoffx.2, hother x hx]
  · simp only [hrest]
    refine ⟨?_, ?_, hother⟩
    · rw [if_neg (by decide), if_neg (by decide), forall_mem_singleton]
      exact ⟨hmagic₁, hsize₁.trans hsize.symm, hfree₁⟩
    · refine ⟨rfl, congrArg pointer hprev₁, pointer_eq_none.mpr hnext₁⟩

lemma Rep.append (h : Rep ⟨m, start⟩ (l ++ [t])) {newFrames : Word} (haddr : b.addr = physToVirt newFrames)
    (hsize : b.size = numFrames size * 4096 - headerSize) (hsane : b.Sane)
    (hstop : b.stop = b.addr.toNat + (numFrames size * 4096).toNat) (hsize8 : size.toNat % 8 = 0)
    (hfit : size.toNat ≤ b.size.toNat) (hfresh : ∀ x ∈ l ++ [t], x.Apart b) :
    Rep (kmallocAppend ⟨m, start⟩ t.addr size newFrames) (l ++ t :: cutBlock b size) := by
  have htzero := (h.sane t (by simp)).ne_zero
  obtain ⟨hstored, hseg, hout⟩ := newRun_chain m t.addr hsize hsane hstop hfit
  obtain ⟨hpieces, hinside⟩ := cutBlock_inside hsane hsize8 hfit
  have hcross : ∀ x ∈ l ++ [t], ∀ y ∈ cutBlock b size, x.Apart y := by
    intro x hx y hy
    have hxb := hfresh x hx
    have hyb := (hinside y hy).2
    simp only [Block.Apart] at hxb ⊢
    omega
  have hold : ∀ x ∈ l ++ [t], ∀ f, mHeader.get (newRun m b.addr size t.addr) x.addr f = mHeader.get m x.addr f := by
    intro x hx f
    have hxb := hfresh x hx
    simp only [Block.Apart, Block.stop] at hxb
    apply hout
    simp only [Block.stop]
    omega
  have hoff : ∀ y ∈ cutBlock b size, mHeader.Off t.addr y.addr := fun y hy => (hcross t (by simp) y hy).off
  rw [kmallocAppend, ← haddr]
  simp only [if_pos htzero]
  apply h.extend
  · intro x hx f
    have hxt := (pairwise_append.mp h.apart).2.2 x hx t mem_cons_self
    exact (Layout.get_set_off hxt.symm.off).trans (hold x (mem_append_left _ hx) f)
  · intro f hf
    exact (Layout.get_set_field hf.symm).trans (hold t (by simp) f)
  · rw [nextIn, get_set_next, pointer_of_ne hsane.ne_zero]
    rw [pointer_of_ne htzero] at hseg
    apply hseg.congr
    · exact forall_mem_map.mpr fun y hy => congrArg pointer (Layout.get_set_off (hoff y hy))
    · exact forall_mem_map.mpr fun y hy => congrArg pointer (Layout.get_set_off (hoff y hy))
  · exact fun y hy => (hstored y hy).congr fun f _ _ => Layout.get_set_off (hoff y hy)
  · exact fun y hy => (hinside y hy).1
  · exact hpieces
  · exact hcross

end append

section search

variable {m : Mem} {start size : Word} {l : List Block} {b : Block}

def Block.fits (size : Word) (b : Block) : Bool := b.free && decide (size ≤ b.size)

lemma findFit_spec {fuel : ℕ} {before : Option Word} {current : Word}
    (hseg : Seg (nextIn m) (prevIn m) before (pointer current) (l.map Block.addr) none) (hstored : ∀ b ∈ l, b.Stored m)
    (hfuel : l.length < fuel) (last : Word) :
    (∃ b last', l.find? (Block.fits size) = some b ∧ findFit m size fuel current last = some (some b.addr, last')) ∨
    l.find? (Block.fits size) = none ∧ findFit m size fuel current last = some (none, (l.map Block.addr).getLastD last) := by
  induction l generalizing fuel before current last with
  | nil =>
    have hzero := pointer_eq_none.mp hseg
    cases fuel with
    | zero => cases hfuel
    | succ => exact .inr ⟨rfl, if_pos hzero⟩
  | cons b l ih =>
    obtain ⟨hcurrent, -, hrest⟩ := hseg
    obtain ⟨rfl, hzero⟩ := pointer_eq_some.mp hcurrent
    have hb := hstored b mem_cons_self
    cases fuel with
    | zero => cases hfuel
    | succ =>
      have htest : ((if b.free then (1 : Word) else 0) ≠ 0 ∧ b.size ≥ size) ↔ Block.fits size b = true := by
        rw [Block.fits, Bool.and_eq_true, decide_eq_true_iff]
        cases b.free <;> simp
      rw [findFit, if_neg hzero, hb.size, hb.free, List.find?_cons]
      by_cases hfit : Block.fits size b = true
      · left
        rw [if_pos (htest.mpr hfit), hfit]
        exact ⟨b, last, rfl, rfl⟩
      · rw [if_neg fun h => hfit (htest.mp h), Bool.eq_false_of_not_eq_true hfit, map_cons, getLastD_cons]
        exact ih hrest (fun c hc => hstored c (mem_cons_of_mem b hc)) (Nat.lt_of_succ_lt_succ hfuel) b.addr

lemma Rep.nodup (h : Rep ⟨m, start⟩ l) : (l.map Block.addr).Nodup := by
  rw [List.Nodup, pairwise_map]
  apply h.apart.imp
  intro a b hab heq
  simp only [Block.Apart, Block.stop, heq] at hab
  omega

lemma Rep.length_lt (h : Rep ⟨m, start⟩ l) : l.length < 2 ^ 64 := by
  have hnodup : (0 :: l.map Block.addr).Nodup := by
    refine nodup_cons.mpr ⟨fun hzero => ?_, h.nodup⟩
    obtain ⟨b, hb, hzero⟩ := mem_map.mp hzero
    exact (h.sane b hb).ne_zero hzero
  have hlength := Word.length_le_of_nodup hnodup
  rwa [length_cons, length_map] at hlength

variable (size) in
lemma Rep.firstFit (h : Rep ⟨m, start⟩ l) :
    (∃ b, l.find? (Block.fits size) = some b ∧
      kmallocSearch ⟨m, start⟩ size = some (.found b.addr ⟨takeBlock m b.addr size, start⟩)) ∨
    l.find? (Block.fits size) = none ∧ kmallocSearch ⟨m, start⟩ size = some (.missing ((l.map Block.addr).getLastD 0)) := by
  rw [kmallocSearch]
  rcases findFit_spec h.links h.stored h.length_lt 0 with ⟨b, _, hfirst, hfind⟩ | ⟨hnone, hfind⟩
  · exact .inl ⟨b, hfirst, by rw [hfind]; rfl⟩
  · exact .inr ⟨hnone, by rw [hfind]; rfl⟩

lemma mem_of_find (hfind : l.find? (Block.fits size) = some b) : ∃ l₁ l₂, l = l₁ ++ b :: l₂ ∧ b.free ∧ size ≤ b.size := by
  obtain ⟨hfits, l₁, l₂, hl, -⟩ := List.find?_eq_some_iff_append.mp hfind
  rw [Block.fits, Bool.and_eq_true, decide_eq_true_iff] at hfits
  exact ⟨l₁, l₂, hl, hfits⟩

variable (size) in
lemma Rep.search (h : Rep ⟨m, start⟩ l) :
    (∃ l₁ b l₂, l = l₁ ++ b :: l₂ ∧ b.free ∧ size ≤ b.size ∧
      kmallocSearch ⟨m, start⟩ size = some (.found b.addr ⟨takeBlock m b.addr size, start⟩)) ∨
    kmallocSearch ⟨m, start⟩ size = some (.missing ((l.map Block.addr).getLastD 0)) := by
  rcases h.firstFit size with ⟨b, hfirst, hsearch⟩ | ⟨-, hsearch⟩
  · obtain ⟨l₁, l₂, hl, hfree, hfit⟩ := mem_of_find hfirst
    exact .inl ⟨l₁, b, l₂, hl, hfree, hfit, hsearch⟩
  · exact .inr hsearch

end search

end KernelSmp.Memory
