import KernelSmp.Memory.KmallocCapacity

/-! The three lists of a slab cache, and what becomes of the caches when the PMM has no frame left. -/

namespace KernelSmp.Memory

open Base LinkedList LinkedQueue Function List Option

namespace SlabCaches

structure Classified (h : Heap) (i : Fin 8) : Prop where
  empty : ∀ p, (p, i) ∈ h.pages →
    (p ∈ slabsOn h.slabs (i, .emptySlabs) ↔ ∀ o ∈ objectsAt i p, o ∈ freeObjects h.slabs p)
  full : ∀ p, (p, i) ∈ h.pages →
    (p ∈ slabsOn h.slabs (i, .fullSlabs) ↔ ∀ o ∈ objectsAt i p, o ∉ freeObjects h.slabs p)
  mixed : ∀ p, (p, i) ∈ h.pages →
    (p ∈ slabsOn h.slabs (i, .partialSlabs) ↔
      (∃ o ∈ objectsAt i p, o ∈ freeObjects h.slabs p) ∧ ∃ o ∈ objectsAt i p, (o, i) ∈ h.live)

variable {s : Slabs} {pages live : List (Word × Fin 8)} {ls : Fin 8 × SlabList → List Word} {fl : Word → List Word}
  {B : Fin 8 → Prop} {h : Heap} {i : Fin 8} {k : SlabList} {p : Word} {l : List Word}

lemma CachesRep.slabsOn_eq (hrep : CachesRep s pages live ls fl) : slabsOn s = ls := by
  funext k
  exact (seg_chain (hrep.listed.lists.dlist k)).follow_eq (Word.length_le_of_nodup (hrep.listed.lists.nodup k))

lemma CachesRep.mem_iff (hrep : CachesRep s pages live ls fl) (hk : p ∈ ls (i, k)) (m : SlabList) : p ∈ ls (i, m) ↔ m = k := by
  constructor
  · intro hm
    exact congrArg Prod.snd (hrep.listed.lists.apart _ _ p hm hk)
  · rintro rfl
    exact hk

lemma SlabRep.all_free_iff (hslab : SlabRep s p i l) : (∀ o ∈ objectsAt i p, o ∈ l) ↔ l.length = capacity i := by
  constructor
  · intro hall
    apply le_antisymm hslab.length_le
    rw [← objectsAt_length]
    exact ((objectsAt_nodup hslab.page).subperm hall).length_le
  · intro hlength o ho
    by_contra hout
    have hlt := hslab.length_lt ho hout
    omega

lemma SlabRep.none_free_iff (hslab : SlabRep s p i l) : (∀ o ∈ objectsAt i p, o ∉ l) ↔ l = [] := by
  constructor
  · intro hnone
    apply eq_nil_iff_forall_not_mem.mpr
    intro o ho
    exact hnone o (hslab.objects o ho) ho
  · rintro rfl o -
    exact not_mem_nil

lemma CachesRep.grows_iff (hrep : CachesRep s pages live ls fl) (hranked : AllRanked ls fl) :
    Grows s i ↔ ∀ p, (p, i) ∈ pages → fl p = [] := by
  constructor
  · intro hgrows p hp
    obtain ⟨k, hk⟩ := (hrep.placed p i).mp hp
    have hlist := ne_nil_of_mem hk
    cases k with
    | partialSlabs => exact absurd (hrep.listed.nil_of_zero hgrows.1) hlist
    | fullSlabs => exact hranked i .fullSlabs p hk
    | emptySlabs => exact absurd (hrep.listed.nil_of_zero hgrows.2) hlist
  · intro hout
    have hnone : ∀ k, s.lists (i, k) ≠ 0 → s.lists (i, k) ∈ ls (i, k) ∧ fl (s.lists (i, k)) = [] := by
      intro k hne
      have hmem := hrep.listed.mem_of_ne_zero hne
      exact ⟨hmem, hout _ ((hrep.placed _ i).mpr ⟨k, hmem⟩)⟩
    constructor
    · by_contra hne
      obtain ⟨hmem, hnil⟩ := hnone .partialSlabs hne
      exact hranked i .partialSlabs _ hmem hnil
    · by_contra hne
      obtain ⟨hmem, hnil⟩ := hnone .emptySlabs hne
      have hlength : (fl (s.lists (i, .emptySlabs))).length = capacity i := hranked i .emptySlabs _ hmem
      have hcap := (objSize_spec i).2.2.1
      rw [hnil, length_nil] at hlength
      omega

lemma InvBut.classified (hinv : InvBut B h) (hi : ¬ B i) : Classified h i := by
  obtain ⟨ls, fl, hrep, hranked⟩ := hinv
  have hcap := (objSize_spec i).2.2.1
  have hpage : ∀ p, (p, i) ∈ h.pages → freeObjects h.slabs p = fl p ∧
      (p ∈ ls (i, .emptySlabs) ↔ (fl p).length = capacity i) ∧ (p ∈ ls (i, .fullSlabs) ↔ fl p = []) ∧
      (p ∈ ls (i, .partialSlabs) ↔ fl p ≠ [] ∧ (fl p).length ≠ capacity i) := by
    intro p hp
    obtain ⟨k, hk⟩ := (hrep.placed p i).mp hp
    have hrank := hranked i k p hk
    refine ⟨(hrep.slab p i hp).freeObjects_eq, ?_⟩
    simp only [hrep.mem_iff hk]
    cases k with
    | partialSlabs =>
      obtain ⟨hne, hlt⟩ := hrank
      have hlt := hlt.resolve_right hi
      exact ⟨by simp; omega, by simp [hne], by simp [hne]; omega⟩
    | fullSlabs =>
      have hnil : fl p = [] := hrank
      simp [hnil]
      omega
    | emptySlabs =>
      have hall : (fl p).length = capacity i := hrank
      have hne : fl p ≠ [] := ne_nil_of_length_pos (by omega)
      simp [hall, hne]
  constructor
  case empty =>
    intro p hp
    obtain ⟨hfree, hempty, -⟩ := hpage p hp
    rw [hrep.slabsOn_eq, hfree, hempty]
    exact (hrep.slab p i hp).all_free_iff.symm
  case full =>
    intro p hp
    obtain ⟨hfree, -, hfull, -⟩ := hpage p hp
    rw [hrep.slabsOn_eq, hfree, hfull]
    exact (hrep.slab p i hp).none_free_iff.symm
  case mixed =>
    intro p hp
    obtain ⟨hfree, -, -, hmixed⟩ := hpage p hp
    have hslab := hrep.slab p i hp
    rw [hrep.slabsOn_eq, hfree, hmixed, ne_eq, ne_eq, ← hslab.none_free_iff, ← hslab.all_free_iff]
    push Not
    refine and_congr_right fun _ => exists_congr fun o => and_congr_right fun ho => ?_
    rw [hrep.free p i hp o ho, not_not]

def takeAndFree (i : Fin 8) : List Call := [.alloc i 0x108000, .free (slabCacheAlloc booted.slabs i 0x108000).1]

end SlabCaches

namespace Allocator

open SlabCaches (Grows slabsOn freeObjects objSize)

def Exhausted (s : Allocator) (i : Fin 8) : Prop := ∀ x ∈ s.pages, x.2 = i → freeObjects s.slabs x.1 = []

def Call.Small (s : Allocator) : Call → Prop
  | .kmalloc size frame _ => size ≤ 2048 ∧
      ∀ i ∈ slabCacheFor size, Asked size → Grows s.slabs i → frame = 0 ∨ s.FreshPage frame
  | .kfree ptr => Call.Lawful s (.kfree ptr)
  | .write a bytes => Call.Lawful s (.write a bytes)

def Call.Supplied (s : Allocator) : Call → Prop
  | .kmalloc size frame _ => Asked size → ∀ i ∈ slabCacheFor size, s.Exhausted i → frame ≠ 0
  | _ => True

def Call.NullWhenOut (s : Allocator) : Call → Prop
  | .kmalloc size frame _ => Asked size → ∀ i ∈ slabCacheFor size,
      ((slabCacheAlloc s.slabs i frame).1 = 0 ↔ s.Exhausted i ∧ frame = 0)
  | _ => True

structure Contained (s : Allocator) : Prop where
  inFrame : ∀ o i, (o, i) ∈ s.small → ∃ frame, frame ≠ 0 ∧ (physToVirt frame, i) ∈ s.pages ∧
    (physToVirt frame).toNat ≤ o.toNat ∧ o.toNat + objSize i ≤ (physToVirt frame).toNat + 4096
  unshared : ∀ p i j k k', p ∈ slabsOn s.slabs (i, k) → p ∈ slabsOn s.slabs (j, k') → i = j

structure Stocked (s : Allocator) : Prop where
  inv : Inv s
  large : s.large = []
  frames : ∀ x ∈ s.pages, ∃ frame, frame ≠ 0 ∧ x.1 = physToVirt frame

variable {s t : Allocator} {i : Fin 8} {size frame newFrames ptr : Word} {c : Call}

lemma grows_iff (h : SlabCaches.Inv s.caches) : Grows s.slabs i ↔ s.Exhausted i := by
  obtain ⟨ls, fl, hrep, hranked⟩ := h
  change SlabCaches.CachesRep s.slabs s.pages s.small ls fl at hrep
  rw [hrep.grows_iff hranked]
  constructor
  · rintro hout ⟨p, j⟩ hp rfl
    exact (hrep.slab p j hp).freeObjects_eq.trans (hout p hp)
  · intro hout p hp
    exact (hrep.slab p i hp).freeObjects_eq.symm.trans (hout (p, i) hp rfl)

lemma Stocked.contained (h : Stocked s) : Contained s := by
  obtain ⟨ls, _, hrep, -⟩ := h.inv.caches
  constructor
  · intro o i ho
    obtain ⟨p, hp, hobj⟩ := hrep.owner o i ho
    obtain ⟨frame, hframe, rfl⟩ := h.frames (p, i) hp
    obtain ⟨-, _, hhigh⟩ := SlabCaches.inside (hrep.slab _ i hp).page hobj
    exact ⟨frame, hframe, hp, by omega, hhigh⟩
  · intro p i j k k' hk hk'
    have hlists : slabsOn s.slabs = ls := hrep.slabsOn_eq
    rw [hlists] at hk hk'
    exact congrArg Prod.fst (hrep.listed.lists.apart _ _ p hk hk')

lemma Call.Small.proper (h : Stocked s) (hc : c.Small s) (hsupplied : c.Supplied s) : c.Proper s := by
  cases c with
  | kmalloc size =>
    obtain ⟨hsize, hframe⟩ := hc
    have hbound : size.toNat ≤ 2048 := hsize
    refine ⟨by omega, fun i hi hasked hgrows => ?_, fun hlarge => by omega⟩
    exact (hframe i hi hasked hgrows).resolve_left (hsupplied hasked i hi ((grows_iff h.inv.caches).mp hgrows))
  | kfree => exact Call.Lawful.proper hc
  | write => exact Call.Lawful.proper hc

lemma Call.Small.unmarked (h : Stocked s) (hc : c.Small s) : c.Unmarked s := by
  cases c with
  | kmalloc => trivial
  | kfree => trivial
  | write =>
    intro k hk hrun
    exfalso
    rcases hc k hk with ⟨⟨o, i⟩, ho, hlow, hhigh⟩ | ⟨x, hx, -⟩
    · obtain ⟨_, -, hp, _, _⟩ := h.contained.inFrame o i ho
      refine h.inv.apart _ hrun (.start (pages_aligned h.inv.caches) ⟨_, hp, ?_⟩)
      dsimp only at hlow hhigh ⊢
      omega
    · rw [h.large] at hx
      exact not_mem_nil hx

lemma kfree_ghosts (hstep : s.kfree ptr = some t) : t.pages = s.pages ∧ t.large ⊆ s.large := by
  rw [kfree] at hstep
  split at hstep
  · obtain ⟨_, -, rfl⟩ := map_eq_some_iff.mp hstep
    exact ⟨rfl, fun x hx => hx⟩
  · split at hstep
    · cases hstep
      exact ⟨rfl, fun x hx => mem_of_mem_filter hx⟩
    · cases hstep

lemma kmalloc_ghosts (h : Stocked s) (hc : Call.Proper s (.kmalloc size frame newFrames)) (hsize : size ≤ 2048)
    (hstep : s.kmalloc size frame newFrames = some t) :
    t.large = s.large ∧ ∀ x ∈ t.pages, x ∈ s.pages ∨ x.1 = physToVirt frame ∧ Asked size ∧ slabCacheFor size = some x.2 ∧
      Grows s.slabs x.2 := by
  by_cases hzero : size = 0
  · have hsame : s.kmalloc size frame newFrames = some s := by
      rw [hzero]
      exact kmalloc_zero
    rw [hsame] at hstep
    cases hstep
    exact ⟨rfl, fun x hx => .inl hx⟩
  · have hasked : Asked size := ⟨hzero, hsize⟩
    obtain ⟨_, _, hrep, hranked⟩ := h.inv.caches
    obtain ⟨i, -, -, -, hi, -, -, -, heq⟩ :=
      kmalloc_object hrep hranked hasked (fun i hi hgrows => (hc.2.1 i hi hasked hgrows).1) newFrames
    rw [heq] at hstep
    obtain rfl := Option.some.inj hstep
    refine ⟨rfl, fun x hx => ?_⟩
    dsimp only [pagesWith] at hx
    rw [hi] at hx
    dsimp only at hx
    split at hx
    next hgrows =>
      rcases mem_cons.mp hx with rfl | hx
      · exact .inr ⟨rfl, hasked, hi, hgrows⟩
      · exact .inl hx
    next => exact .inl hx

lemma Stocked.step (h : Stocked s) (hc : c.Small s ∧ c.Supplied s) : ∃ t, step s c = some t ∧ Stocked t := by
  have hproper := hc.1.proper h hc.2
  obtain ⟨t, hstep, hinv⟩ := h.inv.step ⟨hproper, hc.1.unmarked h⟩
  refine ⟨t, hstep, ?_⟩
  cases c with
  | kmalloc size frame =>
    obtain ⟨hlarge, hpages⟩ := kmalloc_ghosts h hproper hc.1.1 hstep
    refine ⟨hinv, hlarge.trans h.large, fun x hx => ?_⟩
    rcases hpages x hx with hold | ⟨hnew, hasked, hi, hgrows⟩
    · exact h.frames x hold
    · exact ⟨frame, hc.2 hasked x.2 hi ((grows_iff h.inv.caches).mp hgrows), hnew⟩
  | kfree =>
    obtain ⟨hpages, hlarge⟩ := kfree_ghosts hstep
    rw [h.large, subset_nil] at hlarge
    exact ⟨hinv, hlarge, hpages ▸ h.frames⟩
  | write =>
    cases hstep
    exact ⟨hinv, h.large, h.frames⟩

lemma Stocked.nullWhenOut (h : Stocked s) (hc : c.Small s ∧ c.Supplied s) : c.NullWhenOut s := by
  have hproper := hc.1.proper h hc.2
  cases c with
  | kmalloc size frame newFrames =>
    intro hasked i hi
    refine iff_of_false ?_ fun hout => hc.2 hasked i hi hout.1 hout.2
    obtain ⟨_, _, hrep, hranked⟩ := h.inv.caches
    obtain ⟨j, ls', fl', -, hj, -, hrep', -⟩ :=
      kmalloc_object hrep hranked hasked (fun i hi hgrows => (hproper.2.1 i hi hasked hgrows).1) newFrames
    cases hi.symm.trans hj
    obtain ⟨p, hp, hobj⟩ := hrep'.owner _ i mem_cons_self
    exact (SlabCaches.isObj_of_mem (hrep'.slab p i hp).page hobj).ne_zero
  | kfree => trivial
  | write => trivial

lemma stocked_boot {mem : Mem} {kmallocCaches firstFrame : Word} {frames : Fin 8 → Word}
    (hboot : boot mem kmallocCaches firstFrame frames = some s) (hinv : Inv s)
    (hpage : ∀ i, SlabCaches.IsPage (physToVirt (frames i))) (hinj : Injective frames) (hgiven : ∀ i, frames i ≠ 0) :
    Stocked s := by
  obtain ⟨heap, -, rfl⟩ := map_eq_some_iff.mp hboot
  obtain ⟨-, -, hframes⟩ := slabInit_sameOff heap.mem kmallocCaches hpage hinj
  refine ⟨hinv, rfl, fun x hx => ?_⟩
  obtain ⟨i, hi⟩ := hframes x hx
  exact ⟨frames i, hgiven i, hi⟩

theorem refusals_contained {mem : Mem} {kmallocCaches firstFrame : Word} {frames : Fin 8 → Word} {s : Allocator}
    (hboot : boot mem kmallocCaches firstFrame frames = some s) (haligned : firstFrame.toNat % 4096 = 0)
    (hlow : firstFrame.toNat + 4096 ≤ 2 ^ 47) (hpage : ∀ i, SlabCaches.IsPage (physToVirt (frames i))) (hinj : Injective frames)
    (hnew : ∀ i, frames i ≠ firstFrame) (hgiven : ∀ i, frames i ≠ 0) (calls : List Call)
    (hcalls : Runs.Guarded step (fun s c => c.Small s ∧ c.Supplied s) s calls) :
    (∃ t, Runs.run step s calls = some t) ∧ Runs.Always step Contained s calls ∧
      Runs.Guarded step (fun s c => c.NullWhenOut s) s calls := by
  have hinit : Stocked s := stocked_boot hboot (inv_boot hboot haligned hlow hpage hinj hnew) hpage hinj hgiven
  have halways := Runs.progress_invariant (fun s c h hc => h.step hc) hinit hcalls
  refine ⟨Runs.progress (fun s c h hc => h.step hc) hinit hcalls, halways.mono fun s h => h.contained, ?_⟩
  exact halways.guarded (fun s c h hc => h.nullWhenOut hc) hcalls

instance (s : Allocator) (c : Call) : Decidable (c.Small s) :=
  match c with
  | .kmalloc size frame _ =>
    have : Decidable (∀ i ∈ slabCacheFor size, Asked size → Grows s.slabs i → frame = 0 ∨ s.FreshPage frame) :=
      Option.decidableForallMem _
    inferInstanceAs (Decidable (_ ∧ _))
  | .kfree ptr => inferInstanceAs (Decidable (Call.Lawful s (.kfree ptr)))
  | .write a bytes => inferInstanceAs (Decidable (Call.Lawful s (.write a bytes)))

def supplied : List Call := [.kmalloc 2048 0x108000 0, .kmalloc 2048 0x109000 0, .kfree 0xFFFF800000109040]

theorem refusals_contained_supplied :
    ∃ s, booted = some s ∧ (∃ t, Runs.run step s supplied = some t) ∧ Runs.Always step Contained s supplied ∧
      Runs.Guarded step (fun s c => c.NullWhenOut s) s supplied := by
  refine Runs.exists_of_check (Runs.Guarded step (fun s c => c.Small s) · supplied) (by decide +kernel) fun s hboot hsmall => ?_
  have hframes : Runs.Guarded step (fun s c => c.Supplied s) s supplied := by
    refine ⟨fun _ _ _ _ => by decide, fun t _ => ⟨fun _ _ _ _ => by decide, fun u _ => ⟨trivial, fun _ _ => trivial⟩⟩⟩
  refine refusals_contained hboot (by decide) (by decide) ?_ (by decide) ?_ (by decide) supplied (hsmall.and hframes)
  · decide +kernel
  · decide +kernel

instance (s : Allocator) (i : Fin 8) : Decidable (s.Exhausted i) := List.decidableBAll _ s.pages

theorem refusals_escape :
    ∃ s, booted = some s ∧ Runs.Guarded step (fun s c => c.Small s) s refusals ∧
      (∃ u, Runs.run step s (refusals.take 3) = some u ∧ ¬ Call.NullWhenOut u (.kmalloc 1024 0 0)) ∧
      ∃ t, Runs.run step s refusals = some t ∧ ¬ Contained t := by
  obtain ⟨s, hboot, ⟨u, hu, hnone, hsome⟩, t, ht, hlarger, hsmaller⟩ : ∃ s ∈ booted,
      (∃ u ∈ Runs.run step s (refusals.take 3), u.Exhausted 6 ∧ (slabCacheAlloc u.slabs 6 0).1 ≠ 0) ∧
      ∃ t ∈ Runs.run step s refusals, physToVirt 0 ∈ slabsOn t.slabs (6, .partialSlabs) ∧
        physToVirt 0 ∈ slabsOn t.slabs (5, .partialSlabs) := by
    decide +kernel
  refine ⟨s, hboot, ?_, ⟨u, hu, fun hnull => ?_⟩, t, ht, fun hcontained => ?_⟩
  · have hall : ∀ c ∈ refusals, c = .kmalloc 1024 0 0 ∨ c = .kmalloc 512 0 0 := by
      intro c hc
      exact (mem_append.mp hc).imp (fun h => (mem_replicate.mp h).2) fun h => (mem_replicate.mp h).2
    refine (Runs.guarded_of_forall hall s).mono fun s c hc => ?_
    rcases hc with rfl | rfl
    · exact ⟨by decide, fun _ _ _ _ => .inl rfl⟩
    · exact ⟨by decide, fun _ _ _ _ => .inl rfl⟩
  · exact hsome ((hnull (by decide) 6 rfl).mpr ⟨hnone, rfl⟩)
  · exact absurd (hcontained.unshared _ 6 5 _ _ hlarger hsmaller) (by decide)

end Allocator

end KernelSmp.Memory
