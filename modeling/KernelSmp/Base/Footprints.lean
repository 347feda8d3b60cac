import KernelSmp.Base.Layout

/-! The bytes that an operation on memory may change. -/

namespace KernelSmp.Base

def Spans (S : ℕ → Prop) (a n : ℕ) : Prop := ∀ x, a ≤ x → x < a + n → S x

def SameOff (S : ℕ → Prop) (m m' : Mem) : Prop := ∀ x, ¬ S x → m' x = m x

variable {S : ℕ → Prop} {m m' m'' : Mem} {a n : ℕ}

lemma Spans.sub (h : Spans S a n) {b k : ℕ} (hlow : a ≤ b) (hhigh : b + k ≤ a + n) : Spans S b k :=
  fun x hx hx' => h x (by omega) (by omega)

namespace SameOff

lemma refl : SameOff S m m := fun _ _ => rfl

lemma trans (h : SameOff S m m') (h' : SameOff S m' m'') : SameOff S m m'' :=
  fun x hx => (h' x hx).trans (h x hx)

lemma mono {S' : ℕ → Prop} (h : SameOff S m m') (hsub : ∀ x, S x → S' x) : SameOff S' m m' :=
  fun x hx => h x (mt (hsub x) hx)

lemma writeLE (hs : Spans S a n) (v : ℕ) : SameOff S m (m.writeLE a v n) := by
  intro x hx
  rw [Mem.writeLE, if_neg]
  rintro ⟨hlow, hhigh⟩
  exact hx (hs x hlow hhigh)

lemma fill (hs : Spans S a n) (b : Byte) : SameOff S m (m.fill a n b) := by
  intro x hx
  rw [Mem.fill, if_neg]
  rintro ⟨hlow, hhigh⟩
  exact hx (hs x hlow hhigh)

lemma set {F : Type} {L : Layout F} {p v : Word} {f : F} (hs : Spans S p.toNat L.bytes) : SameOff S m (L.set m p f v) := by
  have hinside := L.inside f
  exact writeLE (hs.sub (by omega) (by omega)) _

end SameOff

end KernelSmp.Base
