import KernelSmp.Sched.Exclusive

/-! No reader of the keyboard is left asleep, and no task is lost. -/

namespace KernelSmp.Sched.Machine

set_option linter.unusedSectionVars false

open Base Base.LinkedQueue Base.Dispatch Function Atomic Drivers

variable {K M : Type} [DecidableEq K] [DecidableEq M]

variable {s s' : Machine K M} {place place' : Word → Place K M} {a : Action K M}

def blockedTasks (s : Machine K M) : List Word := follow (nextOf s.sys) walkFuel s.blockedTaskList

def blocks (s : Machine K M) (c : K) : Bool := s.cpuPc c = .task && (s.current c).any fun t => s.taskPc t = .kbdEmpty

def BlocksEmpty (s : Machine K M) : Action K M → Prop
  | .advance c _ _ _ => s.blocks c = true → s.kbd.head = s.kbd.tail ∨ ∃ c', s.cpuPc c' = .keyboard
  | _ => True

def Heard (s : Machine K M) (place : Word → Place K M) : Prop := s.kbd.head ≠ s.kbd.tail →
  (∃ c, s.cpuPc c = .keyboard) ∨ ∀ x, place x = .list (.inr .blocked) → (s.sys.tasks x).waitReason ≠ .keyboard

lemma Effect.kbd_cases (he : Effect s place a s' place') (hkey : s'.kbd.head ≠ s'.kbd.tail) :
    s.kbd.head ≠ s.kbd.tail ∨ ∃ c, s'.cpuPc c = .keyboard := by
  cases he with
  | typed c => exact .inr ⟨c, update_self c _ _⟩
  | silent kbd hends =>
    rw [← hends.1, ← hends.2]
    exact .inl hkey
  | key c t kbd hat hbefore => exact .inl hbefore
  | affinity =>
    split at hkey
    · exact .inl hkey
    · exact .inl hkey
  | _ => exact .inl hkey

lemma Inv.waitReason_eq (h : Inv s place) (he : Effect s place a s' place') {x : Word} (hx : place x ≠ .nowhere) :
    (s'.sys.tasks x).waitReason = (s.sys.tasks x).waitReason := by
  have hchange := h.change he x
  change (s'.sys.tasks x).face.waitReason = _
  generalize (s'.sys.tasks x).face = v at hchange
  cases hchange with
  | create user stackBase cr3 rsp hunused => exact absurd (h.unused_nowhere hunused) hx
  | block c o reason hat hbusy => exact absurd (h.nowhere (h.running hat hbusy)) hx
  | _ => rfl

lemma Heard.effect (hh : Heard s place) (hblocks : s.BlocksEmpty a) (h : Inv s place) (he : Effect s place a s' place') :
    Heard s' place' := by
  intro hkey'
  by_cases hhandler : ∃ c, s'.cpuPc c = .keyboard
  · exact .inl hhandler
  refine .inr fun x hx hreason => ?_
  have hkey := (he.kbd_cases hkey').resolve_right hhandler
  -- a handler that had been about to look for readers would have found `x`
  have haway : ¬ ∃ c, s.cpuPc c = .keyboard := by
    rintro ⟨c, hc⟩
    rcases h.turn he c with ⟨-, hturn⟩ | ⟨u, hswitch⟩
    · rw [hc] at hturn
      generalize hc' : s'.cpuPc c = p at hturn
      cases hturn with
      | stay => exact hhandler ⟨c, hc'⟩
      | wakeup list hnone => exact hnone x hx hreason
      | pick p t hp => cases hp
      | search p stage hp => cases hp
    · rcases hswitch.before with ⟨hbefore, -⟩ | hbefore
      · cases hc.symm.trans hbefore
      · cases hc.symm.trans hbefore
  have hmove := h.move he x
  rw [hx] at hmove
  generalize hp : place x = q at hmove
  cases hmove with
  | stay =>
    rw [h.waitReason_eq he (by simp [hp])] at hreason
    exact (hh hkey).resolve_left haway x hp hreason
  | block c now frame locked hat ha =>
    subst ha
    have hatc : s.blocks c = true := by simp [blocks, hat.cpu, hat.current, hat.pc]
    exact hkey ((hblocks hatc).resolve_right haway)

theorem readers_woken {actions : List (Action K M)} (h : Booted s)
    (hg : Runs.Guarded step (fun s a => s.BlocksEmpty a ∧ s.Apart a ∧ s.Left a ∧ s.Fresh a) s actions) :
    Runs.Always step (fun s => (∀ c, s.cpuPc c ≠ .keyboard) → s.kbd.head ≠ s.kbd.tail →
      ∀ t ∈ s.blockedTasks, (s.sys.tasks t).waitReason ≠ .keyboard) s actions := by
  have hstart : Heard s fun _ => .nowhere := fun hkey => absurd h.kbd hkey
  have halways := h.always hstart (fun s place a s' _ _ hg _ => hg.2)
    (fun s place a s' place' hinv hh hg he _ => hh.effect hg.1 hinv he) hg
  apply halways.mono
  rintro s ⟨place, hinv, hh⟩ haway hkey t ht
  obtain ⟨ls, -, hls, -, hlisted⟩ := hinv.lists
  rw [show s.blockedTasks = ls (.inr .blocked) from hls .blocked, hlisted] at ht
  exact (hh hkey).resolve_left (fun ⟨c, hc⟩ => haway c hc) t ht

instance [Fintype K] (s : Machine K M) : (a : Action K M) → Decidable (s.BlocksEmpty a)
  | .advance c _ _ _ => inferInstanceAs (Decidable (s.blocks c = true → s.kbd.head = s.kbd.tail ∨ ∃ c', s.cpuPc c' = .keyboard))
  | .timer _ | .keyboard _ _ | .call _ _ => .isTrue trivial

def readNothing : List (Action (Fin 2) Unit) :=
  [.call 0 (.create 0x400 true 0 0 0)] ++ advances 0 1 ++ [.timer 1] ++ advances 1 7 ++ [.call 1 .readKbd] ++ advances 1 1

theorem reader_left_asleep : ∃ s, Runs.run step twoCpus
    (readNothing ++ [.keyboard 0 0x15] ++ advances 0 2 ++ advances 1 41) = some s ∧
    (∀ c, s.cpuPc c = .task) ∧ s.kbd.head ≠ s.kbd.tail ∧ s.blockedTasks = [0x400] ∧ (s.sys.tasks 0x400).waitReason =
      .keyboard := by
  decide +kernel

theorem readers_woken_twoCpus :
    Runs.Guarded step (fun s a => s.BlocksEmpty a ∧ s.Apart a ∧ s.Left a ∧ s.Fresh a) twoCpus
      (readNothing ++ advances 1 41 ++ [.keyboard 0 0x15] ++ advances 0 2) ∧
    Runs.Always step (fun s => (∀ c, s.cpuPc c ≠ .keyboard) → s.kbd.head ≠ s.kbd.tail →
      ∀ t ∈ s.blockedTasks, (s.sys.tasks t).waitReason ≠ .keyboard) twoCpus
      (readNothing ++ advances 1 41 ++ [.keyboard 0 0x15] ++ advances 0 2) := by
  have hg : Runs.Guarded step (fun s a => s.BlocksEmpty a ∧ s.Apart a ∧ s.Left a ∧ s.Fresh a) twoCpus
      (readNothing ++ advances 1 41 ++ [.keyboard 0 0x15] ++ advances 0 2) := by
    decide +kernel
  exact ⟨hg, readers_woken booted_twoCpus hg⟩

end KernelSmp.Sched.Machine
