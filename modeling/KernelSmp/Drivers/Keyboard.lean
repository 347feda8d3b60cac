import KernelSmp.Base.Ring
import KernelSmp.Drivers.Ps2Kbd
import Mathlib.Algebra.Group.Nat.Even
import Mathlib.Data.List.GetD

/-! The characters of the keyboard as a queue, and the modifier keys along streams of key codes. -/

namespace KernelSmp.Drivers

open Base Function List

def Kbd.unread (k : Kbd) : List Byte := Ring.contents (n := 255) k.buffer k.head k.tail

variable {k k' : Kbd} {c : Byte}

lemma unread_push (h : k.unread.length ≠ 255) (c : Byte) : (kbdPushChar k c).unread = k.unread ++ [c] := by
  have hnext : k.head + 1 ≠ k.tail := fun hfull => h (Ring.full_iff.mp hfull)
  rw [kbdPushChar, if_pos hnext]
  exact Ring.contents_push hnext c

lemma push_full (h : k.unread.length = 255) (c : Byte) : kbdPushChar k c = k :=
  if_neg (not_not.mpr (Ring.full_iff.mpr h))

lemma pop_eq_none_iff : kbdPopChar k = none ↔ k.unread = [] := by
  rw [Kbd.unread, ← Ring.empty_iff, kbdPopChar]
  split
  · rename_i hempty
    exact iff_of_true rfl hempty
  · rename_i hempty
    exact iff_of_false (Option.some_ne_none _) hempty

lemma unread_pop (h : kbdPopChar k = some (c, k')) : k.unread = c :: k'.unread := by
  rw [kbdPopChar] at h
  split at h
  · cases h
  · rename_i hne
    cases h
    exact Ring.contents_pop hne

inductive KbdCall
  | push (c : Byte)
  | pop

structure Traffic where
  kbd : Kbd
  accepted : List Byte
  popped : List Byte

def Traffic.step (t : Traffic) : KbdCall → Traffic
  | .push c =>
    let k := kbdPushChar t.kbd c
    ⟨k, if k.head = t.kbd.head then t.accepted else t.accepted ++ [c], t.popped⟩
  | .pop => match kbdPopChar t.kbd with
    | none => t
    | some (c, k) => ⟨k, t.accepted, t.popped ++ [c]⟩

def Traffic.after (calls : List KbdCall) : Traffic := calls.foldl step ⟨Kbd.init, [], []⟩

lemma head_push_ne (h : k.unread.length ≠ 255) (c : Byte) : (kbdPushChar k c).head ≠ k.head := by
  have hnext : k.head + 1 ≠ k.tail := fun hfull => h (Ring.full_iff.mp hfull)
  rw [kbdPushChar, if_pos hnext]
  exact fun heq => absurd (add_eq_left.mp heq) (by decide)

lemma Traffic.step_accepted {t : Traffic} (h : t.accepted = t.popped ++ t.kbd.unread) (call : KbdCall) :
    (t.step call).accepted = (t.step call).popped ++ (t.step call).kbd.unread := by
  cases call with
  | push c =>
    by_cases hfull : t.kbd.unread.length = 255
    · simp only [step, push_full hfull]
      exact h
    · simp only [step, if_neg (head_push_ne hfull c), unread_push hfull, h, append_assoc]
  | pop =>
    cases hpop : kbdPopChar t.kbd with
    | none =>
      simp only [step, hpop]
      exact h
    | some =>
      simp only [step, hpop, h, unread_pop hpop, append_assoc, singleton_append]

lemma Traffic.accepted_eq (calls : List KbdCall) : (after calls).accepted = (after calls).popped ++ (after calls).kbd.unread :=
    by
  induction calls using List.reverseRecOn with
  | nil => exact Ring.contents_self.symm
  | append_singleton calls call ih =>
    rw [after, foldl_concat]
    exact step_accepted ih call

theorem keyboard_queue (calls : List KbdCall) :
    let t := Traffic.after calls
    let unread := t.accepted.length - t.popped.length
    t.popped <+: t.accepted ∧ (∀ c, kbdPushChar t.kbd c = t.kbd ↔ unread = 255) ∧ (kbdPopChar t.kbd = none ↔ unread = 0) ∧
    (∀ c, unread ≠ 255 → (t.step (.push c)).accepted = t.accepted ++ [c]) ∧
    ∀ c k, kbdPopChar t.kbd = some (c, k) → t.accepted[t.popped.length]? = some c := by
  have haccepted := Traffic.accepted_eq calls
  generalize Traffic.after calls = t at haccepted
  have hunread : t.accepted.length - t.popped.length = t.kbd.unread.length := by
    rw [haccepted, length_append, Nat.add_sub_cancel_left]
  dsimp only
  rw [hunread]
  refine ⟨⟨_, haccepted.symm⟩, fun c => ⟨fun hsame => ?_, fun hfull => push_full hfull c⟩, ?_, fun c hfull => ?_,
    fun c k hpop => ?_⟩
  · by_contra hfull
    exact head_push_ne hfull c (congrArg Kbd.head hsame)
  · rw [pop_eq_none_iff, length_eq_zero_iff]
  · exact if_neg (head_push_ne hfull c)
  · rw [haccepted, unread_pop hpop, List.getElem?_append_right le_rfl, Nat.sub_self, List.getElem?_cons_zero]

variable {es : List Event}

abbrev KeyCode : Type := { b : Byte // b ≠ 0xE0 ∧ b ≠ 0xF0 }

def leftShift : KeyCode := ⟨0x12, by decide⟩
def rightShift : KeyCode := ⟨0x59, by decide⟩
def capsLock : KeyCode := ⟨0x58, by decide⟩

/-- A key is pressed or released, or a task reads a character. -/
inductive Event
  | make (key : KeyCode)
  | release (key : KeyCode)
  | read
  deriving DecidableEq

def Event.apply (k : Kbd) : Event → Kbd
  | .make key => ps2KeyboardHandler k key
  | .release key => ps2KeyboardHandler (ps2KeyboardHandler k 0xF0) key
  | .read => ((kbdPopChar k).map Prod.snd).getD k

def typed (es : List Event) : Kbd := es.foldl Event.apply Kbd.init

def Event.holds (key : KeyCode) (held : Bool) : Event → Bool
  | .make key' => key' = key || held
  | .release key' => key' ≠ key && held
  | .read => held

def held (es : List Event) (key : KeyCode) : Bool := es.foldl (Event.holds key) false

def entryOf (k : Kbd) (key : KeyCode) : Byte :=
  (if k.isShifted ^^ k.isCaps then scancodeSet2Upper else scancodeSet2Lower).getD key.1.toNat 0

structure Tracked (es : List Event) : Prop where
  shift : (typed es).isShifted = (held es leftShift || held es rightShift)
  caps : (typed es).isCaps = true ↔ Odd (es.count (.make capsLock))
  release : ∀ key, (typed (es ++ [.release key])).unread = (typed es).unread
  make : ∀ key, key ≠ leftShift → key ≠ rightShift → key ≠ capsLock → entryOf (typed es) key ≠ 0 →
    (typed es).unread.length ≠ 255 → (typed (es ++ [.make key])).unread = (typed es).unread ++ [entryOf (typed es) key]

def LetsGo (es : List Event) (e : Event) : Prop :=
  e = .release leftShift ∧ held es rightShift = true ∨ e = .release rightShift ∧ held es leftShift = true

lemma typed_concat (es : List Event) (e : Event) : typed (es ++ [e]) = e.apply (typed es) := by
  rw [typed, foldl_concat, typed]

lemma held_concat (es : List Event) (e : Event) (key : KeyCode) : held (es ++ [e]) key = e.holds key (held es key) := by
  rw [held, foldl_concat, held]

lemma push_flags (k : Kbd) (c : Byte) : (kbdPushChar k c).isBreak = k.isBreak ∧ (kbdPushChar k c).isShifted = k.isShifted ∧
    (kbdPushChar k c).isCaps = k.isCaps := by
  rw [kbdPushChar]
  split <;> exact ⟨rfl, rfl, rfl⟩

lemma handler_flags (k : Kbd) (b : Byte) : (ps2KeyboardHandler k b).isBreak = (decode k b).1.isBreak ∧
    (ps2KeyboardHandler k b).isShifted = (decode k b).1.isShifted ∧ (ps2KeyboardHandler k b).isCaps = (decode k b).1.isCaps :=
    by
  rw [ps2KeyboardHandler]
  split
  · exact push_flags _ _
  · exact ⟨rfl, rfl, rfl⟩

lemma handler_silent {b : Byte} (h : (decode k b).2 = 0) : ps2KeyboardHandler k b = (decode k b).1 := by
  rw [ps2KeyboardHandler, h]
  exact if_neg (not_not.mpr rfl)

lemma release_eq (key : KeyCode) : (Event.release key).apply k = { k with
    isBreak := false, isExtended := false
    isShifted := if key.1 = 0x12 ∨ key.1 = 0x59 then false else k.isShifted } := by
  obtain ⟨_, hext, hbrk⟩ := key
  have hprefix : ps2KeyboardHandler k 0xF0 = { k with isBreak := true } := rfl
  rw [Event.apply, hprefix, handler_silent]
  · rw [decode, if_neg hext, if_neg hbrk, if_pos rfl]
  · rw [decode, if_neg hext, if_neg hbrk, if_pos rfl]

lemma entryOf_eq (k : Kbd) (key : KeyCode) : entryOf k key = if key.1 < 0x80 then entryOf k key else 0 := by
  split_ifs with hge
  · rfl
  · have hlen : 128 ≤ key.1.toNat := BitVec.le_def.mp (BitVec.not_lt.mp hge)
    rw [entryOf]
    split
    · exact getD_eq_default _ _ hlen
    · exact getD_eq_default _ _ hlen

lemma decode_make (h : k.isBreak = false) (key : KeyCode) : decode k key =
    if key = leftShift ∨ key = rightShift then ({ k with isShifted := true }, 0)
    else if key = capsLock then ({ k with isCaps := !k.isCaps }, 0)
    else ({ k with isExtended := false }, entryOf k key) := by
  rw [entryOf_eq, decode, if_neg key.2.1, if_neg key.2.2, h, if_neg Bool.false_ne_true]
  simp only [Subtype.ext_iff, leftShift, rightShift, capsLock, entryOf]

lemma apply_isBreak (h : k.isBreak = false) (e : Event) : (e.apply k).isBreak = false := by
  cases e with
  | make key =>
    rw [Event.apply, (handler_flags k key).1, decode_make h]
    split
    · exact h
    · split <;> exact h
  | release => rw [release_eq]
  | read =>
    rw [Event.apply, kbdPopChar]
    split <;> exact h

lemma typed_isBreak (es : List Event) : (typed es).isBreak = false := by
  induction es using List.reverseRecOn with
  | nil => rfl
  | append_singleton es e ih =>
    rw [typed_concat]
    exact apply_isBreak ih e

lemma apply_isCaps (h : k.isBreak = false) (e : Event) :
    (e.apply k).isCaps = if e = .make capsLock then !k.isCaps else k.isCaps := by
  cases e with
  | make key =>
    rw [Event.apply, (handler_flags k key).2.2, decode_make h]
    simp only [Event.make.injEq]
    split
    · rename_i hshift
      rw [if_neg]
      rintro rfl
      exact absurd hshift (by decide)
    · split <;> rfl
  | release => rw [if_neg Event.noConfusion, release_eq]
  | read =>
    rw [if_neg Event.noConfusion, Event.apply, kbdPopChar]
    split <;> rfl

lemma isCaps_iff (es : List Event) : (typed es).isCaps = true ↔ Odd (es.count (.make capsLock)) := by
  induction es using List.reverseRecOn with
  | nil => exact iff_of_false Bool.false_ne_true (by decide)
  | append_singleton es e ih =>
    rw [typed_concat, apply_isCaps (typed_isBreak es), count_append, count_singleton]
    by_cases he : e = .make capsLock
    · rw [if_pos he, if_pos (beq_iff_eq.mpr he), Nat.odd_add_one, ← ih, Bool.not_eq_true', Bool.not_eq_true]
    · rwa [if_neg he, if_neg (fun heq => he (beq_iff_eq.mp heq))]

lemma make_isShifted (h : k.isBreak = false) (key : KeyCode) :
    ((Event.make key).apply k).isShifted = if key = leftShift ∨ key = rightShift then true else k.isShifted := by
  rw [Event.apply, (handler_flags k key).2.1, decode_make h]
  split
  · rfl
  · split <;> rfl

lemma release_isShifted (key : KeyCode) :
    ((Event.release key).apply k).isShifted = if key = leftShift ∨ key = rightShift then false else k.isShifted := by
  rw [release_eq]
  simp only [Subtype.ext_iff, leftShift, rightShift]

lemma read_isShifted : (Event.read.apply k).isShifted = k.isShifted := by
  rw [Event.apply, kbdPopChar]
  split <;> rfl

lemma shift_step {e : Event} (h : (typed es).isShifted = (held es leftShift || held es rightShift)) (he : ¬ LetsGo es e) :
    (typed (es ++ [e])).isShifted = (held (es ++ [e]) leftShift || held (es ++ [e]) rightShift) := by
  rw [typed_concat, held_concat, held_concat]
  cases e with
  | make key =>
    rw [make_isShifted (typed_isBreak es), h, Event.holds, Event.holds]
    by_cases hl : key = leftShift
    · simp [hl]
    · by_cases hr : key = rightShift
      · simp [hr]
      · simp [hl, hr]
  | release key =>
    rw [release_isShifted, h, Event.holds, Event.holds]
    by_cases hl : key = leftShift
    · have hright : held es rightShift = false := by
        rw [Bool.eq_false_iff]
        exact fun hheld => he (.inl ⟨hl ▸ rfl, hheld⟩)
      simp [hl, hright]
    · by_cases hr : key = rightShift
      · have hleft : held es leftShift = false := by
          rw [Bool.eq_false_iff]
          exact fun hheld => he (.inr ⟨hr ▸ rfl, hheld⟩)
        simp [hr, hleft]
      · simp [hl, hr]
  | read =>
    rwa [read_isShifted]

lemma not_shifted_of_letsGo {e : Event} (he : LetsGo es e) :
    (typed (es ++ [e])).isShifted = false ∧ (held (es ++ [e]) leftShift || held (es ++ [e]) rightShift) = true := by
  have hne : leftShift ≠ rightShift := by decide
  rw [typed_concat, held_concat, held_concat]
  obtain ⟨rfl, hheld⟩ | ⟨rfl, hheld⟩ := he
  · refine ⟨release_isShifted leftShift, ?_⟩
    simp [Event.holds, hheld, hne]
  · refine ⟨release_isShifted rightShift, ?_⟩
    simp [Event.holds, hheld, hne.symm]

lemma unread_release (key : KeyCode) : ((Event.release key).apply k).unread = k.unread := by
  rw [release_eq]
  rfl

lemma unread_make (h : k.isBreak = false) {key : KeyCode} (hl : key ≠ leftShift) (hr : key ≠ rightShift) (hc : key ≠ capsLock)
    (hentry : entryOf k key ≠ 0) (hfull : k.unread.length ≠ 255) :
    ((Event.make key).apply k).unread = k.unread ++ [entryOf k key] := by
  have hdecode : decode k key = ({ k with isExtended := false }, entryOf k key) := by
    rw [decode_make h, if_neg (not_or.mpr ⟨hl, hr⟩), if_neg hc]
  rw [Event.apply, ps2KeyboardHandler, hdecode]
  simp only [ne_eq, hentry]
  exact unread_push (k := { k with isExtended := false }) hfull _

theorem modifiers_tracked_iff (es : List Event) : (∀ p, p <+: es → Tracked p) ↔ ∀ p e, p ++ [e] <+: es → ¬ LetsGo p e := by
  constructor
  · intro h p e hp hgo
    obtain ⟨hshifted, hheld⟩ := not_shifted_of_letsGo hgo
    rw [(h _ hp).shift, hheld] at hshifted
    cases hshifted
  · intro h p hp
    refine ⟨?_, isCaps_iff p, fun key => ?_, fun key hl hr hc hentry hfull => ?_⟩
    · induction p using List.reverseRecOn with
      | nil => rfl
      | append_singleton p e ih => exact shift_step (ih ((prefix_append p [e]).trans hp)) (h p e hp)
    · rw [typed_concat]
      exact unread_release key
    · rw [typed_concat]
      exact unread_make (typed_isBreak p) hl hr hc hentry hfull

theorem modifiers_lost : let es := [.make leftShift, .make rightShift, .release leftShift]
    (typed es).isShifted = false ∧ held es rightShift = true ∧ ¬ Tracked es := by
  refine ⟨rfl, rfl, fun h => ?_⟩
  cases h.shift

end KernelSmp.Drivers
