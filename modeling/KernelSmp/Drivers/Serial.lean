import KernelSmp.Base.Ring
import KernelSmp.Base.Words
import Mathlib.Data.List.DropRight

/-! The kernel log of `serial.c`: a circular buffer from which `log_flush` sends bytes to COM1. -/

namespace KernelSmp.Drivers.Serial

open Base Function List

structure State where
  logBuffer : Fin 131072 → Byte
  logHead : Fin 131072
  logTail : Fin 131072
  com1 : List Byte

def State.init : State := ⟨fun _ => 0, 0, 0, []⟩

def logPutc (s : State) (c : Byte) : State :=
  let next := s.logHead + 1
  let s := if next = s.logTail then { s with logTail := s.logTail + 1 } else s
  { s with logBuffer := update s.logBuffer s.logHead c, logHead := next }

def kprint : State → List Byte → State
  | s, [] => s
  | s, c :: cs =>
    if c = 0 then s
    else
      let s := if c = 0x0A then logPutc s 0x0D else s
      kprint (logPutc s c) cs

def hexChars : List Byte :=
  [0x30, 0x31, 0x32, 0x33, 0x34, 0x35, 0x36, 0x37, 0x38, 0x39, 0x41, 0x42, 0x43, 0x44, 0x45, 0x46]

def nibble (value : Word) (i : ℕ) : Byte := hexChars.getD ((value >>> (i * 4)) &&& 0xF).toNat 0

def kprintHex (s : State) (value : Word) : State :=
  (List.range 16).reverse.foldl (fun s i => logPutc s (nibble value i)) (logPutc (logPutc s 0x30) 0x78)

/-- The UART is ready for so many bytes. -/
def logFlush (s : State) : ℕ → State
  | 0 => s
  | ready + 1 =>
    if s.logHead = s.logTail then s
    else logFlush { s with com1 := s.com1 ++ [s.logBuffer s.logTail], logTail := s.logTail + 1 } ready

inductive Call
  | kprint (s : Option (List Byte))
  | kprintHex (value : Word)
  | logFlush (ready : ℕ)

def step (s : State) : Call → State
  | .kprint none => s
  | .kprint (some text) => kprint s text
  | .kprintHex value => kprintHex s value
  | .logFlush ready => logFlush s ready

def Call.bytes : Call → List Byte
  | .kprint s => ((s.getD []).takeWhile (· ≠ 0)).flatMap fun c => if c = 0x0A then [0x0D, c] else [c]
  | .kprintHex value => 0x30 :: 0x78 :: (List.range 16).reverse.map (nibble value)
  | .logFlush _ => []

/-- A queue that loses its oldest byte when it is full: the bytes that have left it, each with whether it has been sent,
and those that it holds. -/
structure Log where
  past : List (Byte × Bool)
  held : List Byte

namespace Log

def put (q : Log) (c : Byte) : Log :=
  if q.held.length < 131071 then { q with held := q.held ++ [c] }
  else ⟨q.past ++ (q.held.take 1).map (·, false), q.held.tail ++ [c]⟩

def send (q : Log) (n : ℕ) : Log := ⟨q.past ++ (q.held.take n).map (·, true), q.held.drop n⟩

def apply (q : Log) : Call → Log
  | .logFlush ready => q.send ready
  | call => call.bytes.foldl put q

def sent (q : Log) : List Byte := (q.past.filter Prod.snd).map Prod.fst

def unsent (q : Log) : List Byte := (q.past.rtakeWhile fun x => !x.2).map Prod.fst ++ q.held

end Log

variable {s : State} {q : Log}

def State.held (s : State) : List Byte := Ring.contents (n := 131071) s.logBuffer s.logHead s.logTail

structure Refines (s : State) (q : Log) : Prop where
  held : s.held = q.held
  com1 : s.com1 = q.sent

lemma sent_append_lost (q : Log) (cs : List Byte) (held : List Byte) :
    Log.sent ⟨q.past ++ cs.map (·, false), held⟩ = q.sent := by
  simp [Log.sent]

lemma sent_append (q : Log) (cs : List Byte) (held : List Byte) :
    Log.sent ⟨q.past ++ cs.map (·, true), held⟩ = q.sent ++ cs := by
  simp [Log.sent, filter_map, Function.comp_def]

lemma Refines.put (h : Refines s q) (c : Byte) : Refines (logPutc s c) (q.put c) := by
  rw [logPutc, Log.put, ← h.held]
  by_cases hfull : s.logHead + 1 = s.logTail
  · have hlen : s.held.length = 131071 := Ring.full_iff.mp hfull
    rw [if_pos hfull, if_neg (by rw [hlen]; exact lt_irrefl _)]
    exact ⟨Ring.contents_overwrite (by decide) hfull c, h.com1.trans (sent_append_lost q _ _).symm⟩
  · have hlen : s.held.length ≠ 131071 := fun hlen => hfull (Ring.full_iff.mpr hlen)
    have hle : s.held.length ≤ 131071 := Ring.length_le
    rw [if_neg hfull, if_pos (by omega)]
    exact ⟨Ring.contents_push hfull c, h.com1⟩

lemma Refines.puts (h : Refines s q) (cs : List Byte) : Refines (cs.foldl logPutc s) (cs.foldl Log.put q) := by
  induction cs generalizing s q with
  | nil => exact h
  | cons c cs ih => exact ih (h.put c)

lemma kprint_eq (s : State) (text : List Byte) : kprint s text = ((Call.kprint (some text)).bytes).foldl logPutc s := by
  induction text generalizing s with
  | nil => rfl
  | cons c cs ih =>
    rw [kprint, Call.bytes, Option.getD_some]
    by_cases hzero : c = 0
    · rw [if_pos hzero, hzero]
      rfl
    · rw [if_neg hzero, ih, takeWhile_cons_of_pos (by simpa using hzero), flatMap_cons, foldl_append]
      by_cases hline : c = 0x0A
      · rw [if_pos hline, if_pos hline]
        rfl
      · rw [if_neg hline, if_neg hline]
        rfl

lemma kprintHex_eq (s : State) (value : Word) : kprintHex s value = ((Call.kprintHex value).bytes).foldl logPutc s := by
  rw [kprintHex, Call.bytes, foldl_cons, foldl_cons, foldl_map]

lemma logFlush_eq (s : State) (ready : ℕ) :
    (logFlush s ready).held = s.held.drop ready ∧ (logFlush s ready).com1 = s.com1 ++ s.held.take ready := by
  induction ready generalizing s with
  | zero => simp [logFlush]
  | succ ready ih =>
    rw [logFlush]
    split_ifs with hempty
    · rw [show s.held = [] from Ring.empty_iff.mp hempty]
      simp
    · obtain ⟨hheld, hcom1⟩ := ih { s with com1 := s.com1 ++ [s.logBuffer s.logTail], logTail := s.logTail + 1 }
      rw [show s.held = _ from Ring.contents_pop hempty, drop_succ_cons, take_succ_cons, hheld, hcom1, append_assoc]
      exact ⟨rfl, rfl⟩

lemma Refines.step (h : Refines s q) (call : Call) : Refines (step s call) (q.apply call) := by
  cases call with
  | kprint text =>
    cases text with
    | none => exact h
    | some =>
      rw [Serial.step, kprint_eq]
      exact h.puts _
  | kprintHex =>
    rw [Serial.step, kprintHex_eq]
    exact h.puts _
  | logFlush ready =>
    obtain ⟨hheld, hcom1⟩ := logFlush_eq s ready
    refine ⟨hheld.trans (congrArg (List.drop ready) h.held), ?_⟩
    rw [Serial.step, hcom1, Log.apply, Log.send, sent_append, h.com1, h.held]

lemma written_put (q : Log) (c : Byte) :
    (q.put c).past.map Prod.fst ++ (q.put c).held = q.past.map Prod.fst ++ q.held ++ [c] := by
  rw [Log.put]
  split
  · exact (append_assoc _ _ _).symm
  · cases hheld : q.held with
    | nil => simp_all
    | cons => simp

lemma written_puts (q : Log) (cs : List Byte) :
    (cs.foldl Log.put q).past.map Prod.fst ++ (cs.foldl Log.put q).held = q.past.map Prod.fst ++ q.held ++ cs := by
  induction cs generalizing q with
  | nil => exact (append_nil _).symm
  | cons c cs ih => rw [foldl_cons, ih, written_put, append_assoc, singleton_append]

lemma written_apply (q : Log) (call : Call) :
    (q.apply call).past.map Prod.fst ++ (q.apply call).held = q.past.map Prod.fst ++ q.held ++ call.bytes := by
  cases call with
  | kprint => exact written_puts q _
  | kprintHex => exact written_puts q _
  | logFlush =>
    rw [Log.apply, Log.send, Call.bytes, append_nil, map_append, map_map, append_assoc]
    simp [Function.comp_def]

structure Tight (q : Log) : Prop where
  le : q.held.length ≤ 131071
  full : (q.past.rtakeWhile fun x => !x.2) ≠ [] → q.held.length = 131071

lemma Tight.put (h : Tight q) (c : Byte) : Tight (q.put c) := by
  rw [Log.put]
  split_ifs with hlt
  · refine ⟨by rw [length_append]; exact hlt, fun hlost => ?_⟩
    have hfull := h.full hlost
    omega
  · have hlen : (q.held.tail ++ [c]).length = 131071 := by
      have hle := h.le
      rw [length_append, length_tail, length_singleton]
      omega
    exact ⟨hlen.le, fun _ => hlen⟩

lemma Tight.puts (h : Tight q) (cs : List Byte) : Tight (cs.foldl Log.put q) := by
  induction cs generalizing q with
  | nil => exact h
  | cons c cs ih => exact ih (h.put c)

lemma Tight.send (h : Tight q) (n : ℕ) : Tight (q.send n) := by
  refine ⟨(length_drop.trans_le (Nat.sub_le _ _)).trans h.le, fun hlost => ?_⟩
  rcases eq_nil_or_concat (q.held.take n) with hnone | ⟨cs, c, hsome⟩
  · simp only [Log.send, hnone, map_nil, append_nil] at hlost
    have hfull := h.full hlost
    rcases take_eq_nil_iff.mp hnone with rfl | hempty
    · exact hfull
    · simp [hempty] at hfull
  · simp only [Log.send, hsome, concat_eq_append, map_append, ← append_assoc] at hlost
    exact absurd (rtakeWhile_concat_neg _ _ _ (by simp)) hlost

lemma Tight.held_eq (h : Tight q) : q.held = q.unsent.rtake 131071 := by
  rw [Log.unsent, List.rtake, length_append, length_map]
  by_cases hlost : (q.past.rtakeWhile fun x => !x.2) = []
  · have hle := h.le
    rw [hlost]
    simp [Nat.sub_eq_zero_of_le hle]
  · rw [h.full hlost, Nat.add_sub_cancel, drop_left']
    rw [length_map]

theorem log_keeps_last (calls : List Call) :
    let s := calls.foldl step State.init
    let q := calls.foldl Log.apply ⟨[], []⟩
    s.held = q.held ∧ s.com1 = q.sent ∧ q.past.map Prod.fst ++ q.held = calls.flatMap Call.bytes ∧
    s.com1.Sublist (calls.flatMap Call.bytes) ∧ s.held = q.unsent.rtake 131071 := by
  have hrun : Refines (calls.foldl step State.init) (calls.foldl Log.apply ⟨[], []⟩) ∧
      (calls.foldl Log.apply ⟨[], []⟩).past.map Prod.fst ++ (calls.foldl Log.apply ⟨[], []⟩).held = calls.flatMap Call.bytes ∧
      Tight (calls.foldl Log.apply ⟨[], []⟩) := by
    induction calls using List.reverseRecOn with
    | nil => exact ⟨⟨Ring.contents_self, rfl⟩, rfl, Nat.zero_le _, fun hlost => absurd (rtakeWhile_nil _) hlost⟩
    | append_singleton calls call ih =>
      obtain ⟨hrefines, hwritten, htight⟩ := ih
      rw [foldl_concat, foldl_concat, flatMap_append, flatMap_singleton, ← hwritten]
      refine ⟨hrefines.step call, written_apply _ call, ?_⟩
      cases call with
      | kprint text => exact htight.puts _
      | kprintHex value => exact htight.puts _
      | logFlush ready => exact htight.send ready
  obtain ⟨hrefines, hwritten, htight⟩ := hrun
  refine ⟨hrefines.held, hrefines.com1, hwritten, ?_, hrefines.held.trans htight.held_eq⟩
  rw [hrefines.com1, ← hwritten]
  exact (filter_sublist.map _).trans (sublist_append_left _ _)

end KernelSmp.Drivers.Serial
