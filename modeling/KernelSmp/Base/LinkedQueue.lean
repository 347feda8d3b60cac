import Mathlib.Data.List.Induction
import Mathlib.Data.List.Nodup
import Mathlib.Logic.Function.Basic

/-! Singly linked lists in a store: `next` is the link of a cell. Several lists share the store and
have no cell in common. -/

namespace KernelSmp.Base.LinkedQueue

open Function List

variable {α ι : Type*} {next next' : α → Option α} {link mid after v : Option α} {a b : α} {l l₁ l₂ l₂' : List α}

def Chain (next : α → Option α) : Option α → List α → Option α → Prop
  | link, [], after => link = after
  | link, a :: l, after => link = some a ∧ Chain next (next a) l after

lemma chain_append : Chain next link (l₁ ++ l₂) after ↔ ∃ mid, Chain next link l₁ mid ∧ Chain next mid l₂ after := by
  induction l₁ generalizing link with
  | nil => simp [Chain]
  | cons a l₁ ih => simp [Chain, ih, and_assoc]

lemma Chain.congr (h : Chain next link l after) (hnext : ∀ a ∈ l, next' a = next a) : Chain next' link l after := by
  induction l generalizing link with
  | nil => exact h
  | cons a l ih =>
    obtain ⟨hlink, hrest⟩ := h
    refine ⟨hlink, ?_⟩
    rw [hnext a mem_cons_self]
    exact ih hrest fun b hb => hnext b (mem_cons_of_mem a hb)

lemma Chain.link_eq (h : Chain next link l none) : link = l.head? := by
  cases l with
  | nil => exact h
  | cons => exact h.1

lemma Chain.eq_nil_iff (h : Chain next link l none) : l = [] ↔ link = none := by
  rw [h.link_eq, List.head?_eq_none_iff]

def follow (next : α → Option α) : ℕ → Option α → List α
  | fuel + 1, some a => a :: follow next fuel (next a)
  | _, _ => []

lemma Chain.follow_eq {fuel : ℕ} (h : Chain next link l none) (hfuel : l.length ≤ fuel) : follow next fuel link = l := by
  induction l generalizing link fuel with
  | nil =>
    obtain rfl : link = none := h
    cases fuel with
    | zero => rfl
    | succ => rfl
  | cons a l ih =>
    obtain ⟨rfl, hrest⟩ := h
    cases fuel with
    | zero => cases hfuel
    | succ => rw [follow, ih hrest (Nat.le_of_succ_le_succ hfuel)]

section edit

variable [DecidableEq α]

def splice (next : α → Option α) (l : List α) (v : Option α) : α → Option α :=
  l.getLast?.elim next fun b => update next b v

def relink (l : List α) (link v : Option α) : Option α := if l = [] then v else link

lemma splice_nil : splice next [] v = next := rfl

lemma splice_concat : splice next (l ++ [b]) v = update next b v := by
  rw [splice, List.getLast?_concat]
  rfl

lemma splice_of_notMem (ha : a ∉ l) : splice next l v a = next a := by
  induction l using List.reverseRecOn with
  | nil => rfl
  | append_singleton =>
    rw [splice_concat, update_of_ne]
    rintro rfl
    exact ha mem_concat_self

lemma Chain.splice (h : Chain next link l₁ mid) (hnodup : l₁.Nodup) (hrest : Chain (splice next l₁ v) v l₂ after) :
    Chain (LinkedQueue.splice next l₁ v) (relink l₁ link v) (l₁ ++ l₂) after := by
  induction l₁ using List.reverseRecOn with
  | nil => exact hrest
  | append_singleton l b =>
    obtain ⟨m, hl, hb, -⟩ := chain_append.mp h
    have hnotMem : b ∉ l := fun hin => (nodup_append.mp hnodup).2.2 b hin b mem_cons_self rfl
    rw [splice_concat] at hrest ⊢
    rw [relink, if_neg (by simp), append_assoc]
    refine chain_append.mpr ⟨m, hl.congr fun c hc => ?_, hb, ?_⟩
    · refine update_of_ne ?_ _ _
      rintro rfl
      exact hnotMem hc
    · rwa [update_self]

end edit

structure Lists (next : α → Option α) (head : ι → Option α) (ls : ι → List α) : Prop where
  chain : ∀ i, Chain next (head i) (ls i) none
  nodup : ∀ i, (ls i).Nodup
  apart : ∀ i j a, a ∈ ls i → a ∈ ls j → i = j

variable {head head' : ι → Option α} {ls : ι → List α} {i j : ι}

lemma Lists.congr (h : Lists next head ls) (hnext : ∀ i, ∀ a ∈ ls i, next' a = next a) (hhead : ∀ i, head' i = head i) :
    Lists next' head' ls := by
  refine ⟨fun i => ?_, h.nodup, h.apart⟩
  rw [hhead]
  exact (h.chain i).congr (hnext i)

section lists

variable [DecidableEq α] [DecidableEq ι]

omit [DecidableEq ι] in
lemma Lists.loose (h : Lists next head ls) (ha : ∀ i, a ∉ ls i) (v : Option α) : Lists (update next a v) head ls := by
  refine h.congr (fun i b hb => update_of_ne ?_ _ _) fun _ => rfl
  rintro rfl
  exact ha i hb

omit [DecidableEq α] in
lemma Lists.clear (h : Lists next head ls) (i : ι) : Lists next (update head i none) (update ls i []) := by
  refine ⟨fun j => ?_, fun j => ?_, fun j k a hj hk => ?_⟩
  · rcases eq_or_ne j i with rfl | hij
    · simp [Chain]
    · simpa [update_of_ne hij] using h.chain j
  · rcases eq_or_ne j i with rfl | hij
    · simp
    · simpa [update_of_ne hij] using h.nodup j
  · rcases eq_or_ne j i with rfl | hij
    · simp at hj
    rcases eq_or_ne k i with rfl | hik
    · simp at hk
    rw [update_of_ne hij] at hj
    rw [update_of_ne hik] at hk
    exact h.apart j k a hj hk

lemma Lists.splice (h : Lists next head ls) (hi : ls i = l₁ ++ l₂) (hrest : Chain (splice next l₁ v) v l₂' none)
    (hnodup : (l₁ ++ l₂').Nodup) (hapart : ∀ j ≠ i, ∀ a ∈ l₂', a ∉ ls j) :
    Lists (LinkedQueue.splice next l₁ v) (update head i (relink l₁ (head i) v)) (update ls i (l₁ ++ l₂')) := by
  have hmem : ∀ j ≠ i, ∀ a ∈ l₁ ++ l₂', a ∉ ls j := by
    intro j hj a ha haj
    rcases mem_append.mp ha with ha | ha
    · exact hj (h.apart j i a haj (by rw [hi]; exact mem_append_left l₂ ha))
    · exact hapart j hj a ha haj
  refine ⟨fun j => ?_, fun j => ?_, fun j k a hj hk => ?_⟩
  · rcases eq_or_ne j i with rfl | hij
    · have hchain := h.chain j
      rw [hi] at hchain
      obtain ⟨_, h₁, -⟩ := chain_append.mp hchain
      rw [update_self, update_self]
      exact h₁.splice (List.Nodup.of_append_left hnodup) hrest
    · rw [update_of_ne hij, update_of_ne hij]
      refine (h.chain j).congr fun a ha => splice_of_notMem fun ha₁ => ?_
      exact hmem j hij a (mem_append_left l₂' ha₁) ha
  · rcases eq_or_ne j i with rfl | hij
    · rw [update_self]
      exact hnodup
    · rw [update_of_ne hij]
      exact h.nodup j
  · by_cases hij : j = i
    · by_cases hik : k = i
      · rw [hij, hik]
      · rw [hij, update_self] at hj
        rw [update_of_ne hik] at hk
        exact absurd hk (hmem k hik a hj)
    · rw [update_of_ne hij] at hj
      by_cases hik : k = i
      · rw [hik, update_self] at hk
        exact absurd hj (hmem j hij a hk)
      · rw [update_of_ne hik] at hk
        exact h.apart j k a hj hk

lemma Lists.insert (h : Lists next head ls) (ha : ∀ j, a ∉ ls j) (hi : ls i = l₁ ++ l₂) :
    Lists (LinkedQueue.splice (update next a l₂.head?) l₁ (some a)) (update head i (relink l₁ (head i) (some a)))
      (update ls i (l₁ ++ a :: l₂)) := by
  have hnew := hi ▸ ha i
  have hnodup := hi ▸ h.nodup i
  obtain ⟨_, _, hdisjoint⟩ := nodup_append'.mp hnodup
  have hchain := hi ▸ h.chain i
  obtain ⟨_, -, hrest⟩ := chain_append.mp hchain
  apply (h.loose ha l₂.head?).splice hi
  · refine ⟨rfl, ?_⟩
    rw [splice_of_notMem fun hin => hnew (mem_append_left l₂ hin), update_self, ← hrest.link_eq]
    refine hrest.congr fun b hb => ?_
    rw [splice_of_notMem fun hin => hdisjoint hin hb, update_of_ne]
    rintro rfl
    exact hnew (mem_append_right l₁ hb)
  · rw [nodup_middle]
    exact nodup_cons.mpr ⟨hnew, hnodup⟩
  · intro j hj b hb hbj
    rcases mem_cons.mp hb with rfl | hb
    · exact ha j hbj
    · exact hj (h.apart j i b hbj (by rw [hi]; exact mem_append_right l₁ hb))

lemma Lists.remove (h : Lists next head ls) (hi : ls i = l₁ ++ a :: l₂) :
    Lists (LinkedQueue.splice next l₁ (next a)) (update head i (relink l₁ (head i) (next a))) (update ls i (l₁ ++ l₂)) := by
  have hnodup := hi ▸ h.nodup i
  obtain ⟨_, _, hdisjoint⟩ := nodup_append'.mp hnodup
  have hchain := hi ▸ h.chain i
  obtain ⟨_, -, -, hrest⟩ := chain_append.mp hchain
  apply h.splice hi
  · exact hrest.congr fun b hb => splice_of_notMem fun hin => hdisjoint hin (mem_cons_of_mem a hb)
  · exact hnodup.sublist ((sublist_cons_self a l₂).append_left l₁)
  · intro j hj b hb hbj
    exact hj (h.apart j i b hbj (by rw [hi]; exact mem_append_right l₁ (mem_cons_of_mem a hb)))

lemma Lists.pop (h : Lists next head ls) (hi : head i = some a) :
    ∃ l, ls i = a :: l ∧ Lists next (update head i (next a)) (update ls i l) := by
  have hchain := h.chain i
  rw [hi] at hchain
  cases hl : ls i with
  | nil =>
    rw [hl] at hchain
    cases hchain
  | cons b l =>
    rw [hl] at hchain
    cases hchain.1
    exact ⟨l, rfl, h.remove (show ls i = [] ++ a :: l from hl)⟩

omit [DecidableEq α] in
lemma Lists.notMem_tail (h : Lists next head ls) (hi : ls i = a :: l) (j : ι) : a ∉ update ls i l j := by
  rcases eq_or_ne j i with rfl | hij
  · have hnodup := h.nodup j
    rw [hi] at hnodup
    rw [update_self]
    exact (nodup_cons.mp hnodup).1
  · rw [update_of_ne hij]
    intro haj
    exact hij (h.apart j i a haj (by rw [hi]; exact mem_cons_self))

lemma Lists.join (h : Lists next head ls) (hij : i ≠ j) : Lists (LinkedQueue.splice next (ls i) (head j))
    (update (update head j none) i (relink (ls i) (head i) (head j))) (update (update ls j []) i (ls i ++ ls j)) := by
  have hclear := h.clear j
  have hi : update ls j [] i = ls i ++ [] := by
    rw [update_of_ne hij, append_nil]
  have hdisjoint : ∀ a ∈ ls j, a ∉ ls i := fun a hj hi => hij (h.apart i j a hi hj)
  have hrest : Chain (LinkedQueue.splice next (ls i) (head j)) (head j) (ls j) none :=
    (h.chain j).congr fun a ha => splice_of_notMem (hdisjoint a ha)
  have hnodup := nodup_append'.mpr ⟨h.nodup i, h.nodup j, fun a hi hj => hdisjoint a hj hi⟩
  have hsplice := hclear.splice hi hrest hnodup fun k hk a ha hak => by
    rcases eq_or_ne k j with rfl | hkj
    · simp at hak
    · rw [update_of_ne hkj] at hak
      exact hkj (h.apart k j a hak ha)
  rwa [update_of_ne hij] at hsplice

end lists

end KernelSmp.Base.LinkedQueue
