import Mathlib.Logic.Function.Basic
import Mathlib.Tactic.Cases

/-! Tasks that are handed from CPU to CPU. A CPU goes on using its current task for a while after it has given it away, so
a task can be kept for others to pick and be current at the same time. -/

namespace KernelSmp.Base.Dispatch

open Function

/-- Where a task is beside the CPUs: kept for later, dead, taken from the dead to be freed, or picked by a CPU that has
not switched to it yet. -/
inductive Spot (K : Type*)
  | nowhere
  | kept
  | dead
  | doomed
  | picked (c : K)

/-- A task is `parked` when the next thing it does is to give its CPU away, and `marked` when it has announced that it
will not run but nobody keeps it yet. -/
inductive Mode
  | busy
  | marked
  | parked
  deriving DecidableEq

structure Board (K T : Type*) where
  spot : T → Spot K
  running : T → Bool
  mode : T → Mode
  current : K → Option T
  back : K → Bool
  used : T → Bool
  idle : K → T

structure Sound {K T : Type*} (b : Board K T) : Prop where
  running_nowhere : ∀ x, b.running x = true → b.spot x = .nowhere
  current_unique : ∀ c c' x, b.current c = some x → b.current c' = some x → c = c'
  active : ∀ c x, b.current c = some x → b.back c = true → b.mode x = .busy → b.running x = true
  marked : ∀ x, b.mode x = .marked → b.spot x = .nowhere ∧ b.running x = false
  idle_injective : Injective b.idle
  idle_nowhere : ∀ c, b.spot (b.idle c) = .nowhere
  idle_busy : ∀ c, b.mode (b.idle c) = .busy
  idle_home : ∀ c c', b.current c' = some (b.idle c) → c' = c
  current_used : ∀ c x, b.current c = some x → b.used x = true
  spot_used : ∀ x, b.spot x ≠ .nowhere → b.used x = true
  idle_used : ∀ c, b.used (b.idle c) = true
  doomed_away : ∀ x c, b.spot x = .doomed → b.current c ≠ some x

variable {K T : Type*} {b : Board K T} {c : K} {x : T} {spot : Spot K}

def Inactive (b : Board K T) (x : T) : Prop := ∀ c, b.current c = some x → b.back c = false

lemma Sound.condemn (h : Sound b) (haway : ∀ y c, b.spot y = .dead → b.current c ≠ some y) {spot : T → Spot K}
    (hdead : ∀ y, b.spot y = .dead → spot y = .doomed) (hother : ∀ y, b.spot y ≠ .dead → spot y = b.spot y) :
      Sound { b with spot := spot } := by
  have hnowhere : ∀ y, b.spot y = .nowhere → spot y = .nowhere := by
    intro y hy
    rw [hother y (by simp [hy]), hy]
  exact { h with
    running_nowhere := fun y hy => hnowhere y (h.running_nowhere y hy)
    marked := fun y hy => ⟨hnowhere y (h.marked y hy).1, (h.marked y hy).2⟩
    idle_nowhere := fun c => hnowhere _ (h.idle_nowhere c)
    spot_used := fun y hy => h.spot_used y fun hspot => hy (hnowhere y hspot)
    doomed_away := fun y c hy hc => by
      by_cases hyd : b.spot y = .dead
      · exact haway y c hyd hc
      · exact h.doomed_away y c ((hother y hyd).symm.trans hy) hc }

section tasks

variable [DecidableEq T]

lemma Sound.setMode (h : Sound b) {m : Mode} (hidle : m ≠ .busy → ∀ c, b.idle c ≠ x)
    (hbusy : m = .busy → b.mode x ≠ .busy → Inactive b x)
    (hmarked : m = .marked → b.spot x = .nowhere ∧ b.running x = false) : Sound { b with mode := update b.mode x m } :=
  { h with
    active := fun c y hc hback hmode => by
      by_cases hy : y = x
      · subst hy
        by_cases hwas : b.mode y = .busy
        · exact h.active c y hc hback hwas
        · have haway := hbusy (by simpa using hmode) hwas c hc
          rw [haway] at hback
          cases hback
      · exact h.active c y hc hback (by simpa [hy] using hmode)
    marked := fun y hmode => by
      by_cases hy : y = x
      · subst hy
        exact hmarked (by simpa using hmode)
      · exact h.marked y (by simpa [hy] using hmode)
    idle_busy := fun c => by
      by_cases hc : b.idle c = x
      · by_contra hm
        exact hidle (by simpa [hc] using hm) c hc
      · simpa [hc] using h.idle_busy c }

lemma Sound.mark (h : Sound b) (hrun : b.running x = true) (hidle : ∀ c, b.idle c ≠ x) :
    Sound { b with running := update b.running x false, mode := update b.mode x .marked } := by
  have hstop : ∀ y, update b.running x false y = true → b.running y = true := by
    intro y hy
    by_cases hyx : y = x
    · simp [hyx] at hy
    · simpa [hyx] using hy
  have hbusy : ∀ y, update b.mode x .marked y = .busy → y ≠ x ∧ b.mode y = .busy := by
    intro y hy
    by_cases hyx : y = x
    · simp [hyx] at hy
    · exact ⟨hyx, by simpa [hyx] using hy⟩
  exact { h with
    running_nowhere := fun y hy => h.running_nowhere y (hstop y hy)
    active := fun c y hc hback hmode => by
      obtain ⟨hyx, hmode⟩ := hbusy y hmode
      simpa [hyx] using h.active c y hc hback hmode
    marked := fun y hmode => by
      rcases eq_or_ne y x with rfl | hyx
      · exact ⟨h.running_nowhere y hrun, by simp⟩
      · simpa [hyx] using h.marked y (by simpa [hyx] using hmode)
    idle_busy := fun c => by simpa [hidle c] using h.idle_busy c }

lemma Sound.setSpot (h : Sound b) (hplace : spot = .kept ∨ spot = .dead) (hidle : ∀ c, b.idle c ≠ x)
    (hrun : b.running x = false)
    (hmode : b.mode x ≠ .marked) (hused : b.used x = true) : Sound { b with spot := update b.spot x spot } := by
  have hother : ∀ y s, update b.spot x spot y = s → s ≠ .kept → s ≠ .dead → b.spot y = s := by
    intro y s hy hkept hdead
    by_cases hyx : y = x
    · rw [hyx, update_self] at hy
      subst hy
      exact absurd hplace (not_or.mpr ⟨hkept, hdead⟩)
    · simpa [hyx] using hy
  exact { h with
    running_nowhere := fun y hy => by
      have hyx : y ≠ x := by
        rintro rfl
        simp [hrun] at hy
      simpa [hyx] using h.running_nowhere y hy
    marked := fun y hy => by
      have hyx : y ≠ x := by
        rintro rfl
        exact hmode hy
      simpa [hyx] using h.marked y hy
    idle_nowhere := fun c => by simpa [hidle c] using h.idle_nowhere c
    spot_used := fun y hy => by
      by_cases hyx : y = x
      · rwa [hyx]
      · exact h.spot_used y (by simpa [hyx] using hy)
    doomed_away := fun y c hy => h.doomed_away y c (hother y _ hy (by simp) (by simp)) }

lemma Sound.put (h : Sound b) (hplace : spot = .kept ∨ spot = .dead) (hrun : b.running x = true) (hidle : ∀ c, b.idle c ≠ x)
    (hoff : b.mode x = .busy → Inactive b x) (hused : b.used x = true) :
    Sound { b with running := update b.running x false, spot := update b.spot x spot } := by
  have hmode : b.mode x ≠ .marked := by
    intro hmarked
    simp [(h.marked x hmarked).2] at hrun
  have hstop : Sound { b with running := update b.running x false } :=
    { h with
      running_nowhere := fun y hy => by
        by_cases hyx : y = x
        · simp [hyx] at hy
        · exact h.running_nowhere y (by simpa [hyx] using hy)
      active := fun c y hc hback hbusy => by
        rcases eq_or_ne y x with rfl | hyx
        · rw [hoff hbusy c hc] at hback
          cases hback
        · simpa [hyx] using h.active c y hc hback hbusy
      marked := fun y hy => by
        rcases eq_or_ne y x with rfl | hyx
        · exact absurd hy hmode
        · simpa [hyx] using h.marked y hy }
  exact hstop.setSpot hplace hidle (update_self x false b.running) hmode hused

lemma Sound.pick (h : Sound b) (hspot : b.spot x = .kept) (c : K) : Sound { b with spot := update b.spot x (.picked c) } := by
  have hother : ∀ y s, update b.spot x (.picked c) y = s → s ≠ .picked c → y ≠ x ∧ b.spot y = s := by
    intro y s hy hs
    by_cases hyx : y = x
    · rw [hyx, update_self] at hy
      exact absurd hy.symm hs
    · exact ⟨hyx, by simpa [hyx] using hy⟩
  have hnowhere : ∀ y, b.spot y = .nowhere → y ≠ x := by
    rintro y hy rfl
    simp [hspot] at hy
  exact { h with
    running_nowhere := fun y hy => by simpa [hnowhere y (h.running_nowhere y hy)] using h.running_nowhere y hy
    marked := fun y hy => by simpa [hnowhere y (h.marked y hy).1] using h.marked y hy
    idle_nowhere := fun d => by simpa [hnowhere _ (h.idle_nowhere d)] using h.idle_nowhere d
    spot_used := fun y hy => by
      by_cases hyx : y = x
      · exact h.spot_used y (by rw [hyx, hspot]; simp)
      · exact h.spot_used y (by simpa [hyx] using hy)
    doomed_away := fun y d hy => h.doomed_away y d (hother y _ hy (by simp)).2 }

lemma Sound.unspot (h : Sound b) : Sound { b with spot := update b.spot x .nowhere } := by
  have hother : ∀ y s, update b.spot x .nowhere y = s → s ≠ .nowhere → b.spot y = s := by
    intro y s hy hs
    by_cases hyx : y = x
    · rw [hyx, update_self] at hy
      exact absurd hy.symm hs
    · simpa [hyx] using hy
  have hnowhere : ∀ y, b.spot y = .nowhere → update b.spot x .nowhere y = .nowhere := by
    intro y hy
    by_cases hyx : y = x
    · simp [hyx]
    · simpa [hyx] using hy
  exact { h with
    running_nowhere := fun y hy => hnowhere y (h.running_nowhere y hy)
    marked := fun y hy => ⟨hnowhere y (h.marked y hy).1, (h.marked y hy).2⟩
    idle_nowhere := fun c => hnowhere _ (h.idle_nowhere c)
    spot_used := fun y hy => h.spot_used y fun hspot => hy (hnowhere y hspot)
    doomed_away := fun y c hy => h.doomed_away y c (hother y _ hy (by simp)) }

lemma Sound.create (h : Sound b) (hx : b.used x = false) :
    Sound { b with
      spot := update b.spot x .kept, running := update b.running x false, mode := update b.mode x .busy
      used := update b.used x true } := by
  have hnot : ∀ {p : Prop}, b.used x = true → p := fun hused => by
    rw [hx] at hused
    cases hused
  have hidle : ∀ c, b.idle c ≠ x := fun c hc => hnot (hc ▸ h.idle_used c)
  have hcurrent : ∀ c y, b.current c = some y → y ≠ x := by
    rintro c y hc rfl
    exact hnot (h.current_used c y hc)
  have hmode := h.setMode (fun hne => absurd rfl hne)
    (fun _ _ c hc => absurd rfl (hcurrent c x hc)) (fun hmarked => by cases hmarked)
  have hstop : Sound { b with running := update b.running x false, mode := update b.mode x .busy, used := update b.used x true } :=
    { hmode with
      running_nowhere := fun y hy => by
        by_cases hyx : y = x
        · simp [hyx] at hy
        · exact h.running_nowhere y (by simpa [hyx] using hy)
      active := fun c y hc hback hbusy => by simpa [hcurrent c y hc] using hmode.active c y hc hback hbusy
      marked := fun y hy => by
        have hyx : y ≠ x := by
          rintro rfl
          simp at hy
        simpa [hyx] using hmode.marked y hy
      current_used := fun c y hc => by simpa [hcurrent c y hc] using h.current_used c y hc
      spot_used := fun y hy => by
        by_cases hyx : y = x
        · simp [hyx]
        · simpa [hyx] using h.spot_used y hy
      idle_used := fun c => by simpa [hidle c] using h.idle_used c }
  exact hstop.setSpot (Or.inl rfl) hidle (update_self x false b.running) (by simp) (update_self x true b.used)

lemma Sound.free (h : Sound b) (hspot : b.spot x = .doomed) :
    Sound { b with spot := update b.spot x .nowhere, used := update b.used x false } := by
  have hun := h.unspot (x := x)
  have hother : ∀ y, y ≠ x → b.used y = true → update b.used x false y = true := by
    intro y hyx hy
    simpa [hyx] using hy
  exact { hun with
    current_used := fun c y hc => by
      refine hother y ?_ (h.current_used c y hc)
      rintro rfl
      exact h.doomed_away y c hspot hc
    spot_used := fun y hy => by
      refine hother y ?_ (hun.spot_used y hy)
      rintro rfl
      simp at hy
    idle_used := fun c => by
      refine hother _ ?_ (h.idle_used c)
      rintro hc
      have hnowhere := h.idle_nowhere c
      rw [hc, hspot] at hnowhere
      cases hnowhere }

end tasks

section cpus

variable [DecidableEq K]

lemma Sound.leave (h : Sound b) (c : K) : Sound { b with back := update b.back c false } :=
  { h with
    active := fun c' y hc hback hbusy => by
      by_cases hcc : c' = c
      · subst hcc
        simp at hback
      · exact h.active c' y hc (by simpa [hcc] using hback) hbusy }

variable [DecidableEq T]

lemma Sound.begin (h : Sound b) (hspot : b.spot x = .nowhere) (hmode : b.mode x ≠ .marked)
    (halone : ∀ c', b.current c' = some x → c' = c)
    (hidle : ∀ c', b.idle c' = x → c' = c) (hused : b.used x = true) :
    Sound { b with running := update b.running x true, current := update b.current c (some x), back := update b.back c true } := by
  have hcurrent : ∀ c' y, update b.current c (some x) c' = some y → c' = c ∧ y = x ∨ c' ≠ c ∧ b.current c' = some y := by
    intro c' y hy
    rcases eq_or_ne c' c with rfl | hcc
    · rw [update_self] at hy
      exact .inl ⟨rfl, (Option.some.inj hy).symm⟩
    · exact .inr ⟨hcc, by simpa [hcc] using hy⟩
  exact { h with
    running_nowhere := fun y hy => by
      by_cases hyx : y = x
      · rwa [hyx]
      · exact h.running_nowhere y (by simpa [hyx] using hy)
    current_unique := fun c₁ c₂ y h₁ h₂ => by
      rcases hcurrent c₁ y h₁ with ⟨rfl, rfl⟩ | ⟨-, h₁⟩
      · rcases hcurrent c₂ y h₂ with ⟨rfl, -⟩ | ⟨-, h₂⟩
        · rfl
        · exact (halone c₂ h₂).symm
      · rcases hcurrent c₂ y h₂ with ⟨rfl, rfl⟩ | ⟨-, h₂⟩
        · exact halone c₁ (by assumption)
        · exact h.current_unique c₁ c₂ y h₁ h₂
    active := fun c' y hc hback hbusy => by
      rcases hcurrent c' y hc with ⟨-, rfl⟩ | ⟨hne, hc⟩
      · simp
      · by_cases hyx : y = x
        · simp [hyx]
        · simpa [hyx] using h.active c' y hc (by simpa [hne] using hback) hbusy
    marked := fun y hy => by
      have hyx : y ≠ x := by
        rintro rfl
        exact hmode hy
      simpa [hyx] using h.marked y hy
    idle_home := fun d c' hc => by
      rcases hcurrent c' _ hc with ⟨rfl, hx⟩ | ⟨-, hc⟩
      · exact (hidle d hx).symm
      · exact h.idle_home d c' hc
    current_used := fun c' y hc => by
      rcases hcurrent c' y hc with ⟨-, rfl⟩ | ⟨-, hc⟩
      · exact hused
      · exact h.current_used c' y hc
    doomed_away := fun y c' hy hc => by
      rcases hcurrent c' y hc with ⟨-, rfl⟩ | ⟨-, hc⟩
      · have hnowhere := hy
        simp [hspot] at hnowhere
      · exact h.doomed_away y c' hy hc }

lemma Sound.start (h : Sound b) (hspot : b.spot x = .picked c) (halone : ∀ c', b.current c' = some x → c' = c) :
    Sound { b with
      spot := update b.spot x .nowhere, running := update b.running x true, current := update b.current c (some x)
      back := update b.back c true } := by
  refine (h.unspot).begin (update_self x _ b.spot) (fun hmarked => ?_) halone (fun c' hx => ?_)
    (h.spot_used x (by simp [hspot]))
  · have hnowhere := (h.marked x hmarked).1
    rw [hspot] at hnowhere
    cases hnowhere
  · have hnowhere := h.idle_nowhere c'
    rw [show b.idle c' = x from hx, hspot] at hnowhere
    cases hnowhere

lemma Sound.rest (h : Sound b) (c : K) :
    Sound { b with
      running := update b.running (b.idle c) true, current := update b.current c (some (b.idle c))
      back := update b.back c true } :=
  h.begin (h.idle_nowhere c) (by simp [h.idle_busy c]) (h.idle_home c) (fun _ hc => h.idle_injective hc) (h.idle_used c)

end cpus

end KernelSmp.Base.Dispatch
