import Mathlib.Data.List.Chain
import Mathlib.Data.List.Induction
import Mathlib.Data.List.Nodup
import Mathlib.Logic.Function.Basic

/-! Doubly linked lists in a store: `next` and `prev` are the links of the cells. -/

namespace KernelSmp.Base.LinkedList

open Function List

variable {α : Type*} {next prev next' prev' : α → Option α} {before link after head : Option α} {a : α} {l l₁ l₂ : List α}

/-- The cells `l` follow each other: `link` leads to the first, behind which lies `before`, and the
last one leads to `after`. -/
def Seg (next prev : α → Option α) : Option α → Option α → List α → Option α → Prop
  | _, link, [], after => link = after
  | before, link, a :: l, after => link = some a ∧ prev a = before ∧ Seg next prev (some a) (next a) l after

def DList (next prev : α → Option α) (head : Option α) (l : List α) : Prop := Seg next prev none head l none

def lastOr (before : Option α) (l : List α) : Option α := l.foldl (fun _ a => some a) before

@[simp] lemma lastOr_nil : lastOr before ([] : List α) = before := rfl

@[simp] lemma lastOr_cons : lastOr before (a :: l) = lastOr (some a) l := rfl

lemma lastOr_concat : lastOr before (l ++ [a]) = some a := by
  rw [lastOr, foldl_concat]

lemma mem_of_lastOr_none (h : lastOr none l = some a) : a ∈ l := by
  induction l using List.reverseRecOn with
  | nil => cases h
  | append_singleton =>
    rw [lastOr_concat, Option.some.injEq] at h
    rw [h]
    exact mem_concat_self

lemma seg_append : Seg next prev before link (l₁ ++ l₂) after ↔
    ∃ mid, Seg next prev before link l₁ mid ∧ Seg next prev (lastOr before l₁) mid l₂ after := by
  induction l₁ generalizing before link with
  | nil =>
    constructor
    · intro h
      exact ⟨link, rfl, h⟩
    · rintro ⟨mid, rfl, h⟩
      exact h
  | cons a l₁ ih =>
    simp only [cons_append, Seg, ih]
    constructor
    · rintro ⟨hlink, hprev, mid, h₁, h₂⟩
      exact ⟨mid, ⟨hlink, hprev, h₁⟩, h₂⟩
    · rintro ⟨mid, ⟨hlink, hprev, h₁⟩, h₂⟩
      exact ⟨hlink, hprev, mid, h₁, h₂⟩

lemma Seg.congr (h : Seg next prev before link l after) (hnext : ∀ a ∈ l, next' a = next a)
    (hprev : ∀ a ∈ l, prev' a = prev a) : Seg next' prev' before link l after := by
  induction l generalizing before link with
  | nil => exact h
  | cons a l ih =>
    obtain ⟨hlink, hbefore, hrest⟩ := h
    refine ⟨hlink, (hprev a mem_cons_self).trans hbefore, ?_⟩
    rw [hnext a mem_cons_self]
    exact ih hrest (fun b hb => hnext b (mem_cons_of_mem a hb)) fun b hb => hprev b (mem_cons_of_mem a hb)

lemma Seg.rebase (h : Seg next prev before link l after) {before' : Option α} (hnext : ∀ a ∈ l, next' a = next a)
    (hprev : ∀ a ∈ l.tail, prev' a = prev a) (hfirst : ∀ a ∈ l.head?, prev' a = before') :
    Seg next' prev' before' link l after := by
  cases l with
  | nil => exact h
  | cons a =>
    obtain ⟨hlink, -, hrest⟩ := h
    refine ⟨hlink, hfirst a rfl, ?_⟩
    rw [hnext a mem_cons_self]
    exact hrest.congr (fun b hb => hnext b (mem_cons_of_mem a hb)) hprev

lemma Seg.redirect (h : Seg next prev before link l after) {link' after' : Option α} (hprev : ∀ a ∈ l, prev' a = prev a)
    (hnext : ∀ a ∈ l.dropLast, next' a = next a) (hlast : ∀ a ∈ l.getLast?, next' a = after')
    (hlink : link' = if l = [] then after' else link) : Seg next' prev' before link' l after' := by
  induction l generalizing before link link' with
  | nil =>
    rw [hlink]
    exact if_pos rfl
  | cons a l ih =>
    obtain ⟨hfirst, hbefore, hrest⟩ := h
    refine ⟨hlink.trans hfirst, (hprev a mem_cons_self).trans hbefore, ?_⟩
    cases l with
    | nil => exact hlast a rfl
    | cons b l =>
      have hnexta := hnext a mem_cons_self
      apply ih hrest (fun c hc => hprev c (mem_cons_of_mem a hc)) (fun c hc => hnext c (mem_cons_of_mem a hc))
      · intro c hc
        exact hlast c (by rwa [List.getLast?_cons_cons])
      · rw [hnexta, if_neg (cons_ne_nil b l)]

lemma DList.prev_eq (h : DList next prev head (l₁ ++ a :: l₂)) : prev a = lastOr none l₁ := by
  obtain ⟨_, -, -, hprev, -⟩ := seg_append.mp h
  exact hprev

lemma DList.next_eq (h : DList next prev head (l₁ ++ a :: l₂)) : next a = l₂.head? := by
  obtain ⟨_, -, -, -, hrest⟩ := seg_append.mp h
  cases l₂ with
  | nil => exact hrest
  | cons => exact hrest.1

lemma DList.insertAfter {c : α} (h : DList next prev head (l₁ ++ a :: l₂)) (hnext : ∀ x ∈ l₁ ++ l₂, next' x = next x)
    (ha : next' a = some c) (hc : next' c = next a) (hprev : ∀ x ∈ l₁ ++ a :: l₂.tail, prev' x = prev x)
    (hback : prev' c = some a) (hfirst : ∀ x ∈ l₂.head?, prev' x = some c) : DList next' prev' head (l₁ ++ a :: c :: l₂) := by
  obtain ⟨mid, h₁, hmid, _, h₂⟩ := seg_append.mp h
  apply seg_append.mpr
  refine ⟨mid, h₁.congr ?_ ?_, hmid, ?_, ha, hback, ?_⟩
  · exact fun x hx => hnext x (mem_append_left l₂ hx)
  · exact fun x hx => hprev x (mem_append_left _ hx)
  · rwa [hprev a (mem_append_right l₁ mem_cons_self)]
  · rw [hc]
    apply h₂.rebase
    · exact fun x hx => hnext x (mem_append_right l₁ hx)
    · exact fun x hx => hprev x (mem_append_right l₁ (mem_cons_of_mem a hx))
    · exact hfirst

lemma DList.extend (h : DList next prev head (l₁ ++ [a])) (hnext : ∀ x ∈ l₁, next' x = next x)
    (hprev : ∀ x ∈ l₁ ++ [a], prev' x = prev x) (hrest : Seg next' prev' (some a) (next' a) l₂ none) :
    DList next' prev' head (l₁ ++ a :: l₂) := by
  obtain ⟨mid, h₁, hmid, _, -⟩ := seg_append.mp h
  apply seg_append.mpr
  refine ⟨mid, h₁.congr hnext ?_, hmid, ?_, hrest⟩
  · exact fun x hx => hprev x (mem_append_left _ hx)
  · rwa [hprev a (mem_append_right l₁ mem_cons_self)]

lemma DList.bypass {b : α} (h : DList next prev head (l₁ ++ a :: b :: l₂)) (hnext : ∀ x ∈ l₁ ++ l₂, next' x = next x)
    (ha : next' a = next b) (hprev : ∀ x ∈ l₁ ++ a :: l₂.tail, prev' x = prev x)
    (hfirst : ∀ x ∈ l₂.head?, prev' x = some a) : DList next' prev' head (l₁ ++ a :: l₂) := by
  obtain ⟨mid, h₁, hmid, _, -, -, h₂⟩ := seg_append.mp h
  apply seg_append.mpr
  refine ⟨mid, h₁.congr ?_ ?_, hmid, ?_, ?_⟩
  · exact fun x hx => hnext x (mem_append_left l₂ hx)
  · exact fun x hx => hprev x (mem_append_left _ hx)
  · rwa [hprev a (mem_append_right l₁ mem_cons_self)]
  · rw [ha]
    apply h₂.rebase
    · exact fun x hx => hnext x (mem_append_right l₁ hx)
    · exact fun x hx => hprev x (mem_append_right l₁ (mem_cons_of_mem a hx))
    · exact hfirst

section edit

variable [DecidableEq α]

lemma DList.push (h : DList next prev head l) (hnew : a ∉ l) (hnodup : l.Nodup) :
    DList (update next a head) (head.elim (update prev a none) fun b => update (update prev a none) b (some a)) (some a)
      (a :: l) := by
  have hfirst : head = l.head? := by
    cases l with
    | nil => exact h
    | cons => exact h.1
  have hne : ∀ b ∈ l, b ≠ a := by
    rintro b hb rfl
    exact hnew hb
  refine ⟨rfl, ?_, ?_⟩
  · cases l with
    | nil =>
      rw [hfirst]
      exact update_self ..
    | cons b =>
      rw [hfirst]
      exact (update_of_ne (hne b mem_cons_self).symm _ _).trans (update_self ..)
  · rw [update_self]
    refine Seg.rebase h (fun b hb => update_of_ne (hne b hb) _ _) (fun c hc => ?_) (fun b hb => ?_)
    · cases l with
      | nil => cases hc
      | cons b =>
        have hcb : c ≠ b := by
          rintro rfl
          exact (nodup_cons.mp hnodup).1 hc
        rw [hfirst]
        exact (update_of_ne hcb _ _).trans (update_of_ne (hne c (mem_cons_of_mem b hc)) _ _)
    · rw [hfirst, show l.head? = some b from hb]
      exact update_self ..

lemma elim_update (o : Option α) (f : α → Option α) (v : Option α) (b : α) :
    (o.elim f fun c => update f c v) b = if o = some b then v else f b := by
  cases o with
  | none => simp
  | some => simp [update_apply, eq_comm]

def unlinkNext (next prev : α → Option α) (a : α) : α → Option α :=
  (prev a).elim next fun p => update next p (next a)

def unlinkPrev (next prev : α → Option α) (a : α) : α → Option α :=
  (next a).elim prev fun n => update prev n (prev a)

lemma DList.remove (h : DList next prev head (l₁ ++ a :: l₂)) (hnodup : (l₁ ++ a :: l₂).Nodup) :
    DList (unlinkNext next prev a) (unlinkPrev next prev a) (if head = some a then next a else head) (l₁ ++ l₂) := by
  have hnext₂ := h.next_eq
  obtain ⟨_, h₁, hmid, hprev, h₂⟩ := seg_append.mp h
  subst hmid
  obtain ⟨-, hnodup₂, hdisj⟩ := nodup_append'.mp hnodup
  -- the cell before `a` is in `l₁` and the cell behind it in `l₂`
  have hkeepNext : ∀ b, b ∉ l₁ → unlinkNext next prev a b = next b := by
    intro b hb
    rw [unlinkNext, hprev]
    cases hlast : lastOr none l₁ with
    | none => rfl
    | some =>
      refine update_of_ne ?_ _ _
      rintro rfl
      exact hb (mem_of_lastOr_none hlast)
  have hkeepPrev : ∀ b, b ∉ l₂.head? → unlinkPrev next prev a b = prev b := by
    intro b hb
    rw [unlinkPrev, hnext₂]
    cases hfirst : l₂.head? with
    | none => rfl
    | some =>
      refine update_of_ne (fun hbn => hb ?_) _ _
      rw [hfirst, hbn]
      rfl
  have hout : ∀ b ∈ l₂, b ∉ l₁ := fun b hb hb₁ => hdisj hb₁ (mem_cons_of_mem a hb)
  apply seg_append.mpr
  refine ⟨next a, ?_, ?_⟩
  · apply h₁.redirect
    · intro b hb
      apply hkeepPrev
      intro hfirst
      exact hout b (List.mem_of_mem_head? hfirst) hb
    · intro b hb
      rw [unlinkNext, hprev]
      induction l₁ using List.reverseRecOn with
      | nil => cases hb
      | append_singleton =>
        rw [dropLast_concat] at hb
        rw [lastOr_concat]
        refine update_of_ne ?_ _ _
        rintro rfl
        rw [append_assoc, nodup_append'] at hnodup
        exact hnodup.2.2 hb mem_cons_self
    · intro b hb
      rw [unlinkNext, hprev]
      induction l₁ using List.reverseRecOn with
      | nil => cases hb
      | append_singleton =>
        rw [List.getLast?_concat, Option.mem_some_iff] at hb
        rw [lastOr_concat, ← hb]
        exact update_self ..
    · cases l₁ with
      | nil =>
        have hhead : head = some a := h₁
        rw [if_pos hhead, if_pos rfl]
      | cons b l₁ =>
        have hba : b ≠ a := by
          rintro rfl
          exact hdisj mem_cons_self mem_cons_self
        have hhead := h₁.1
        rw [if_neg (by rw [hhead, Option.some.injEq]; exact hba), if_neg (cons_ne_nil b l₁)]
  · apply h₂.rebase
    · intro b hb
      exact hkeepNext b (hout b hb)
    · intro b hb
      apply hkeepPrev
      intro hfirst
      cases l₂ with
      | nil => cases hb
      | cons =>
        rw [List.head?_cons, Option.mem_some_iff] at hfirst
        subst hfirst
        exact (nodup_cons.mp (nodup_cons.mp hnodup₂).2).1 hb
    · intro b hb
      rw [unlinkPrev, hnext₂, show l₂.head? = some b from hb, ← hprev]
      exact update_self ..

end edit

section lists

structure DLists {ι : Type*} (next prev : α → Option α) (head : ι → Option α) (ls : ι → List α) : Prop where
  dlist : ∀ i, DList next prev (head i) (ls i)
  nodup : ∀ i, (ls i).Nodup
  apart : ∀ i j a, a ∈ ls i → a ∈ ls j → i = j

variable {ι : Type*} {heads heads' : ι → Option α} {ls : ι → List α} {i : ι}

lemma DLists.congr (h : DLists next prev heads ls) (hnext : ∀ i, ∀ a ∈ ls i, next' a = next a)
    (hprev : ∀ i, ∀ a ∈ ls i, prev' a = prev a) (hhead : ∀ i, heads' i = heads i) : DLists next' prev' heads' ls := by
  refine ⟨fun i => ?_, h.nodup, h.apart⟩
  rw [hhead]
  exact Seg.congr (h.dlist i) (hnext i) (hprev i)

variable [DecidableEq ι]

lemma DLists.edit (h : DLists next prev heads ls) (hl : DList next' prev' head l) (hnodup : l.Nodup)
    (hapart : ∀ j ≠ i, ∀ a ∈ l, a ∉ ls j) (hsame : ∀ j ≠ i, ∀ a ∈ ls j, next' a = next a ∧ prev' a = prev a) :
    DLists next' prev' (update heads i head) (update ls i l) := by
  refine ⟨fun j => ?_, fun j => ?_, fun j k a hj hk => ?_⟩
  · by_cases hij : j = i
    · rwa [hij, update_self, update_self]
    · rw [update_of_ne hij, update_of_ne hij]
      exact Seg.congr (h.dlist j) (fun a ha => (hsame j hij a ha).1) fun a ha => (hsame j hij a ha).2
  · by_cases hij : j = i
    · rwa [hij, update_self]
    · rw [update_of_ne hij]
      exact h.nodup j
  · by_cases hij : j = i
    · by_cases hik : k = i
      · rw [hij, hik]
      · rw [hij, update_self] at hj
        rw [update_of_ne hik] at hk
        exact absurd hk (hapart k hik a hj)
    · rw [update_of_ne hij] at hj
      by_cases hik : k = i
      · rw [hik, update_self] at hk
        exact absurd hj (hapart j hij a hk)
      · rw [update_of_ne hik] at hk
        exact h.apart j k a hj hk

variable [DecidableEq α]

lemma DLists.push (h : DLists next prev heads ls) (ha : ∀ j, a ∉ ls j) (i : ι) :
    DLists (update next a (heads i)) ((heads i).elim (update prev a none) fun b => update (update prev a none) b (some a))
      (update heads i (some a)) (update ls i (a :: ls i)) := by
  have hne : ∀ j, ∀ b ∈ ls j, b ≠ a := by
    rintro j b hb rfl
    exact ha j hb
  refine h.edit ((h.dlist i).push (ha i) (h.nodup i)) (nodup_cons.mpr ⟨ha i, h.nodup i⟩) ?_ ?_
  · intro j hj b hb hbj
    rcases mem_cons.mp hb with rfl | hb
    · exact ha j hbj
    · exact hj (h.apart j i b hbj hb)
  · intro j hj b hb
    refine ⟨update_of_ne (hne j b hb) _ _, ?_⟩
    have hother : update prev a none b = prev b := update_of_ne (hne j b hb) _ _
    cases hhead : heads i with
    | none => exact hother
    | some =>
      refine (update_of_ne ?_ _ _).trans hother
      rintro rfl
      have hlist := h.dlist i
      rw [hhead] at hlist
      cases hli : ls i with
      | nil =>
        rw [hli] at hlist
        cases hlist
      | cons =>
        rw [hli] at hlist
        cases hlist.1
        exact hj (h.apart j i b hb (by rw [hli]; exact mem_cons_self))

lemma DLists.remove (h : DLists next prev heads ls) (hi : ls i = l₁ ++ a :: l₂) :
    DLists (unlinkNext next prev a) (unlinkPrev next prev a)
      (update heads i (if heads i = some a then next a else heads i)) (update ls i (l₁ ++ l₂)) := by
  have hlist := hi ▸ h.dlist i
  have hnodup := hi ▸ h.nodup i
  have hmem : ∀ j ≠ i, ∀ b ∈ ls j, b ∉ l₁ ++ a :: l₂ := fun j hj b hb hin => hj (h.apart j i b hb (hi ▸ hin))
  refine h.edit (hlist.remove hnodup) (hnodup.sublist ((sublist_cons_self a l₂).append_left l₁)) ?_ ?_
  · intro j hj b hb hbj
    apply hmem j hj b hbj
    rcases mem_append.mp hb with hb | hb
    · exact mem_append_left _ hb
    · exact mem_append_right _ (mem_cons_of_mem a hb)
  · intro j hj b hb
    have hout := hmem j hj b hb
    constructor
    · rw [unlinkNext, hlist.prev_eq]
      cases hlast : lastOr none l₁ with
      | none => rfl
      | some =>
        refine update_of_ne ?_ _ _
        rintro rfl
        exact hout (mem_append_left _ (mem_of_lastOr_none hlast))
    · rw [unlinkPrev, hlist.next_eq]
      cases l₂ with
      | nil => rfl
      | cons =>
        refine update_of_ne ?_ _ _
        rintro rfl
        exact hout (mem_append_right _ (mem_cons_of_mem a mem_cons_self))

end lists

section circles

variable {b p n x z : α}

def Linked (next prev : α → Option α) (a b : α) : Prop := next a = some b ∧ prev b = some a

structure Circle (next prev : α → Option α) (a : α) (l : List α) : Prop where
  chain : List.IsChain (Linked next prev) (a :: (l ++ [a]))
  nodup : (a :: l).Nodup

lemma exists_before {R : α → α → Prop} (h : List.IsChain R (a :: l)) (hb : b ∈ l) : ∃ c, R c b := by
  induction l generalizing a with
  | nil => cases hb
  | cons d l ih =>
    rw [isChain_cons_cons] at h
    rcases mem_cons.mp hb with rfl | hb
    · exact ⟨a, h.1⟩
    · exact ih h.2 hb

lemma exists_behind {R : α → α → Prop} (h : List.IsChain R (l ++ [a])) (hb : b ∈ l) : ∃ c, R b c := by
  obtain ⟨_, l₂, rfl⟩ := append_of_mem hb
  obtain ⟨c, _, hl₃⟩ := exists_cons_of_ne_nil (concat_ne_nil a l₂)
  rw [append_assoc, cons_append, hl₃] at h
  exact ⟨c, (isChain_append_cons_cons.mp h).2.1⟩

lemma Circle.inverse (h : Circle next prev a l) (hb : b ∈ a :: l) :
    (next b).bind prev = some b ∧ (prev b).bind next = some b := by
  obtain ⟨_, hnext, hback⟩ := exists_behind h.chain hb
  have hb' : b ∈ l ++ [a] := by
    rw [mem_append, mem_singleton]
    exact (mem_cons.mp hb).symm
  obtain ⟨_, hforth, hprev⟩ := exists_before h.chain hb'
  rw [hnext, hprev]
  exact ⟨hback, hforth⟩

lemma Circle.congr (h : Circle next prev a l) (hnext : ∀ b ∈ a :: l, next' b = next b)
    (hprev : ∀ b ∈ a :: l, prev' b = prev b) : Circle next' prev' a l := by
  have hmem : ∀ b ∈ a :: (l ++ [a]), b ∈ a :: l := by
    simp only [mem_cons, mem_append]
    tauto
  refine ⟨h.chain.imp_of_mem_imp fun b c hb hc hlinked => ?_, h.nodup⟩
  rwa [Linked, hnext b (hmem b hb), hprev c (hmem c hc)]

variable [DecidableEq α]

lemma Circle.insert (h : Circle next prev a l) (hx : x ∉ a :: l) (htail : prev a = some z) :
    Circle (update (update next x (some a)) z (some x)) (update (update prev x (some z)) a (some x)) a (l ++ [x]) := by
  obtain ⟨l₁, w, hl⟩ : ∃ l₁ w, a :: l = l₁ ++ [w] := by
    simpa only [concat_eq_append] using (eq_nil_or_concat (a :: l)).resolve_left (cons_ne_nil a l)
  have hchain := h.chain
  rw [← cons_append, hl, append_assoc, singleton_append, isChain_append_cons_cons] at hchain
  obtain ⟨hbefore, ⟨hlast, hfirst⟩, -⟩ := hchain
  cases htail.symm.trans hfirst
  have hxa : x ≠ a := fun hxa => hx (hxa ▸ mem_cons_self)
  have hxz : x ≠ z := fun hxz => hx (hl ▸ hxz ▸ mem_concat_self)
  refine ⟨?_, ?_⟩
  · rw [← cons_append, ← cons_append, hl, append_assoc, append_assoc, singleton_append,
      singleton_append, isChain_append_cons_cons, isChain_pair]
    refine ⟨?_, ⟨update_self .., ?_⟩, ?_, update_self ..⟩
    · rw [← hl] at hbefore ⊢
      -- only `z` leads to `a`, and `a` is first
      refine hbefore.imp_of_mem_tail_imp fun u v hu hv hlinked => ?_
      have hva : v ≠ a := fun hva => (nodup_cons.mp h.nodup).1 (hva ▸ hv)
      have huz : u ≠ z := by
        rintro rfl
        exact hva (Option.some.inj (hlinked.1.symm.trans hlast))
      have hux : u ≠ x := fun hux => hx (hux ▸ hu)
      have hvx : v ≠ x := fun hvx => hx (hvx ▸ mem_cons_of_mem a hv)
      rwa [Linked, update_of_ne huz, update_of_ne hux, update_of_ne hva, update_of_ne hvx]
    · rw [update_of_ne hxa, update_self]
    · rw [update_of_ne hxz, update_self]
  · rw [← cons_append]
    exact nodup_append'.mpr ⟨h.nodup, nodup_singleton x, disjoint_singleton.mpr hx⟩

lemma Circle.remove (h : Circle next prev a (l₁ ++ b :: l₂)) (hp : prev b = some p) (hn : next b = some n) :
    Circle (update next p (some n)) (update prev n (some p)) a (l₁ ++ l₂) := by
  obtain ⟨l₃, w, hl⟩ : ∃ l₃ w, a :: l₁ = l₃ ++ [w] := by
    simpa only [concat_eq_append] using (eq_nil_or_concat (a :: l₁)).resolve_left (cons_ne_nil a l₁)
  obtain ⟨v, l₄, hr⟩ : ∃ v l₄, l₂ ++ [a] = v :: l₄ :=
    exists_cons_of_ne_nil (concat_ne_nil a l₂)
  have hchain := h.chain
  rw [append_assoc, cons_append, hr, ← cons_append, hl, append_assoc, singleton_append,
    isChain_append_cons_cons, isChain_cons_cons] at hchain
  obtain ⟨h₁, ⟨hnext, hfirst⟩, ⟨hlast, hprev⟩, h₂⟩ := hchain
  cases hp.symm.trans hfirst
  cases hn.symm.trans hlast
  have hsub := ((sublist_cons_self b l₂).append_left l₁).cons_cons a
  obtain ⟨-, hrest, hdisjoint⟩ := nodup_append'.mp (cons_append ▸ h.nodup)
  -- the links that change are the two of `b`
  have hkept : ∀ u v, u ≠ b → v ≠ b → Linked next prev u v → Linked (update next p (some n)) (update prev n (some p)) u v := by
    intro u v hu hv hlinked
    have hup : u ≠ p := by
      rintro rfl
      exact hv (Option.some.inj (hlinked.1.symm.trans hnext))
    have hvn : v ≠ n := by
      rintro rfl
      exact hu (Option.some.inj (hlinked.2.symm.trans hprev))
    rwa [Linked, update_of_ne hup, update_of_ne hvn]
  have hbefore : ∀ u ∈ l₃ ++ [p], u ≠ b := by
    rintro u hu rfl
    rw [← hl] at hu
    exact hdisjoint hu mem_cons_self
  have hbehind : ∀ u ∈ n :: l₄, u ≠ b := by
    rintro u hu rfl
    rw [← hr, mem_append, mem_singleton] at hu
    rcases hu with hu | rfl
    · exact (nodup_cons.mp hrest).1 hu
    · exact hdisjoint mem_cons_self mem_cons_self
  refine ⟨?_, h.nodup.sublist hsub⟩
  rw [append_assoc, hr, ← cons_append, hl, append_assoc, singleton_append,
    isChain_append_cons_cons]
  refine ⟨?_, ⟨update_self .., update_self ..⟩, ?_⟩
  · exact h₁.imp_of_mem_imp fun u v hu hv => hkept u v (hbefore u hu) (hbefore v hv)
  · exact h₂.imp_of_mem_imp fun u v hu hv => hkept u v (hbehind u hu) (hbehind v hv)

end circles

end KernelSmp.Base.LinkedList
