import KernelSmp.Fs.Tar

/-! Which bytes `tar_lookup` reads, and where the files it returns lie. -/

namespace KernelSmp.Fs.TarBounds

open Base Mem List Option BitVec

section reads

def memcmpReads (m : Mem) : ℕ → List Byte → List ℕ
  | _, [] => []
  | a, b :: l => a :: if m a ≠ b then [] else memcmpReads m (a + 1) l

def strcmpReads (m : Mem) : ℕ → ℕ → ℕ → List ℕ
  | 0, _, _ => []
  | fuel + 1, a, b => a :: if m a ≠ 0 ∧ m a = m b then strcmpReads m fuel (a + 1) (b + 1) else []

def octalReads (m : Mem) : ℕ → ℕ → List ℕ
  | 0, _ => []
  | n + 1, a => a :: if m a ≥ 48 ∧ m a ≤ 55 then octalReads m n (a + 1) else []

def sizeAt (m : Mem) (header : Word) : Word := octalToInt m (header.toNat + 124) 12

def nextHeader (m : Mem) (header : Word) : Word := header + (512 + ((sizeAt m header + 511) &&& ~~~511))

def IsUstar (m : Mem) (header : Word) : Prop := memcmp m (header.toNat + 257) ustar = 0

def IsNamed (m : Mem) (filename header : Word) : Prop := strcmp m (2 ^ 64) header.toNat filename.toNat = some 0

instance (m : Mem) (header : Word) : Decidable (IsUstar m header) := inferInstanceAs (Decidable (_ = _))
instance (m : Mem) (filename header : Word) : Decidable (IsNamed m filename header) := inferInstanceAs (Decidable (_ = _))

def lookupReads (m : Mem) (filename stop : Word) : ℕ → Word → List ℕ
  | 0, _ => []
  | fuel + 1, header =>
    if header < stop then
      header.toNat ::
        if m header.toNat ≠ 0 then
          memcmpReads m (header.toNat + 257) ustar ++
            if IsUstar m header then
              octalReads m 12 (header.toNat + 124) ++ (strcmpReads m (2 ^ 64) header.toNat filename.toNat ++
                if IsNamed m filename header then [] else lookupReads m filename stop fuel (nextHeader m header))
            else []
        else []
    else []

variable {m : Mem} {a b c n fuel : ℕ} {l : List Byte}

lemma mem_memcmpReads : a ∈ memcmpReads m b l ↔ ∃ i < l.length, a = b + i ∧ Stored m b (l.take i) := by
  induction l generalizing b with
  | nil => simp [memcmpReads]
  | cons x l ih =>
    rw [memcmpReads, mem_cons]
    constructor
    · rintro (rfl | hrest)
      · exact ⟨0, Nat.zero_lt_succ _, rfl, trivial⟩
      · split_ifs at hrest with hx
        · cases hrest
        · obtain ⟨i, hi, rfl, hstored⟩ := ih.mp hrest
          exact ⟨i + 1, Nat.succ_lt_succ hi, by omega, not_not.mp hx, hstored⟩
    · rintro ⟨i, hi, rfl, hstored⟩
      cases i with
      | zero => exact .inl rfl
      | succ i =>
        rw [if_neg (not_not.mpr hstored.1)]
        exact .inr (ih.mpr ⟨i, Nat.lt_of_succ_lt_succ hi, by omega, hstored.2⟩)

lemma mem_strcmpReads : a ∈ strcmpReads m fuel b c ↔ ∃ i < fuel, a = b + i ∧ ∀ j < i, m (b + j) ≠ 0 ∧
    m (b + j) = m (c + j) := by
  induction fuel generalizing b c with
  | zero => simp [strcmpReads]
  | succ fuel ih =>
    rw [strcmpReads, mem_cons]
    constructor
    · rintro (rfl | hrest)
      · exact ⟨0, Nat.zero_lt_succ _, rfl, fun j hj => absurd hj (Nat.not_lt_zero j)⟩
      · split_ifs at hrest with hsame
        · obtain ⟨i, hi, rfl, hbefore⟩ := ih.mp hrest
          refine ⟨i + 1, Nat.succ_lt_succ hi, by omega, fun j hj => ?_⟩
          cases j with
          | zero => exact hsame
          | succ j =>
            rw [← Nat.add_assoc, ← Nat.add_assoc, Nat.add_right_comm b, Nat.add_right_comm c]
            exact hbefore j (Nat.lt_of_succ_lt_succ hj)
        · cases hrest
    · rintro ⟨i, hi, rfl, hbefore⟩
      cases i with
      | zero => exact .inl rfl
      | succ i =>
        have hfirst : m b ≠ 0 ∧ m b = m c := hbefore 0 (Nat.zero_lt_succ i)
        rw [if_pos hfirst]
        refine .inr (ih.mpr ⟨i, Nat.lt_of_succ_lt_succ hi, by omega, fun j hj => ?_⟩)
        rw [Nat.add_right_comm b, Nat.add_right_comm c, Nat.add_assoc b, Nat.add_assoc c]
        exact hbefore (j + 1) (Nat.succ_lt_succ hj)

lemma octalReads_bounds (h : a ∈ octalReads m n b) : b ≤ a ∧ a < b + n := by
  induction n generalizing b with
  | zero => cases h
  | succ n ih =>
    rw [octalReads, mem_cons] at h
    rcases h with rfl | hrest
    · omega
    · split at hrest
      · have := ih hrest
        omega
      · cases hrest

lemma strcmp_total (h : Stored m b (l ++ [0])) (hfuel : l.length < fuel) : ∃ r, strcmp m fuel a b = some r := by
  induction l generalizing a b fuel with
  | nil =>
    obtain ⟨fuel, rfl⟩ := Nat.exists_eq_succ_of_ne_zero (Nat.ne_zero_of_lt hfuel)
    have hb := h.1
    refine ⟨_, if_neg ?_⟩
    rintro ⟨hne, heq⟩
    exact hne (heq.trans hb)
  | cons x l ih =>
    obtain ⟨_, rfl⟩ := Nat.exists_eq_succ_of_ne_zero (Nat.ne_zero_of_lt hfuel)
    rw [strcmp]
    split
    · exact ih h.2 (Nat.lt_of_succ_lt_succ hfuel)
    · exact ⟨_, rfl⟩

lemma octalLoop_lt {k : ℕ} {res : Word} (hk : k + n ≤ 12) (hres : res.toNat < 8 ^ k) :
    (octalLoop m n a res).toNat < 8 ^ (k + n) := by
  induction n generalizing a k res with
  | zero => exact hres
  | succ n ih =>
    rw [octalLoop]
    split_ifs with hdigit
    · rw [show k + (n + 1) = k + 1 + n by omega]
      apply ih (by omega)
      have hvalue : ((m a - 48).setWidth 64).toNat < 8 := by
        have hlow : 48 ≤ (m a).toNat := le_def.mp hdigit.1
        have hhigh : (m a).toNat ≤ 55 := le_def.mp hdigit.2
        rw [toNat_setWidth, toNat_sub]
        change (2 ^ 8 - 48 + (m a).toNat) % 2 ^ 8 % 2 ^ 64 < 8
        omega
      rw [BitVec.toNat_add, toNat_mul, Nat.pow_succ]
      change ((res.toNat * 8) % 2 ^ 64 + _) % 2 ^ 64 < _
      omega
    · exact hres.trans_le (Nat.pow_le_pow_right (by decide) (by omega))

variable {header : Word}

lemma sizeAt_lt (m : Mem) (header : Word) : (sizeAt m header).toNat < 2 ^ 36 :=
  octalLoop_lt (k := 0) (by decide) (by decide)

lemma nextHeader_toNat (m : Mem) (header : Word) :
    (nextHeader m header).toNat = (header.toNat + (512 + ((sizeAt m header).toNat + 511) / 512 * 512)) % 2 ^ 64 := by
  have hsize := sizeAt_lt m header
  have hadd : (sizeAt m header + 511).toNat = (sizeAt m header).toNat + 511 := by
    rw [BitVec.toNat_add]
    change ((sizeAt m header).toNat + 511) % 2 ^ 64 = _
    omega
  have hmask : (sizeAt m header + 511) &&& ~~~511 = (sizeAt m header + 511) &&& BitVec.ofNat 64 ((2 ^ 55 - 1) * 2 ^ 9) := rfl
  rw [nextHeader, BitVec.toNat_add, BitVec.toNat_add, hmask, Word.toNat_and_field _ 9 55 (by decide), hadd]
  change (header.toNat + (512 + _) % 2 ^ 64) % 2 ^ 64 = _
  omega

end reads

section walk

variable (m : Mem) (filename stop : Word)

inductive Reaches : Word → Word → Prop
  | refl (header : Word) : Reaches header header
  | next {header header' : Word} : header < stop → m header.toNat ≠ 0 → IsUstar m header → ¬ IsNamed m filename header →
      Reaches (nextHeader m header) header' → Reaches header header'

structure Whole (header : Word) : Prop where
  magic : ∀ i < ustar.length, Stored m (header.toNat + 257) (ustar.take i) → header.toNat + 257 + i < stop.toNat
  name : IsUstar m header → ∀ i, (∀ j < i, m (header.toNat + j) ≠ 0 ∧ m (header.toNat + j) = m (filename.toNat + j)) →
    header.toNat + i < stop.toNat
  file : IsUstar m header → IsNamed m filename header → header.toNat + 512 + (sizeAt m header).toNat ≤ stop.toNat
  next : IsUstar m header → ¬ IsNamed m filename header →
    header.toNat + 512 + ((sizeAt m header).toNat + 511) / 512 * 512 < 2 ^ 64

variable {m filename stop} {header header' : Word} {fuel a : ℕ} {r : Option (Word × Word)} {l : List Byte}

lemma memcmp_eq_zero {b : ℕ} (h : memcmp m b l = 0) : Stored m b l := by
  induction l generalizing b with
  | nil => trivial
  | cons x l ih =>
    rw [memcmp] at h
    split at h
    · split at h <;> cases h
    · rename_i hx
      exact ⟨not_not.mp hx, ih h⟩

lemma Stored.take {b i : ℕ} (h : Stored m b l) : Stored m b (l.take i) := by
  rw [← take_append_drop i l, stored_append] at h
  exact h.1

lemma Whole.ustar_inside (h : Whole m filename stop header) (hustar : IsUstar m header) : header.toNat + 261 < stop.toNat :=
  h.magic 4 (by decide) (Stored.take (memcmp_eq_zero hustar))

lemma lookupFrom_succ : lookupFrom m filename stop (fuel + 1) header =
    if header < stop ∧ m header.toNat ≠ 0 then
      if IsUstar m header then (strcmp m (2 ^ 64) header.toNat filename.toNat).bind fun order =>
        if order = 0 then some (some (header + 512, sizeAt m header)) else lookupFrom m filename stop fuel (nextHeader m header)
      else some none
    else some none := rfl

lemma Whole.reads (h : Whole m filename stop header) (hin : header < stop)
    (hrest : IsUstar m header → ¬ IsNamed m filename header →
      ∀ x ∈ lookupReads m filename stop fuel (nextHeader m header), header.toNat ≤ x ∧ x < stop.toNat) :
    ∀ x ∈ lookupReads m filename stop (fuel + 1) header, header.toNat ≤ x ∧ x < stop.toNat := by
  have hlt := lt_def.mp hin
  intro x hx
  rw [lookupReads, if_pos hin, mem_cons] at hx
  rcases hx with rfl | hx
  · exact ⟨le_rfl, hlt⟩
  split at hx
  swap
  · cases hx
  rcases mem_append.mp hx with hx | hx
  · obtain ⟨i, hi, rfl, hstored⟩ := mem_memcmpReads.mp hx
    exact ⟨by omega, h.magic i hi hstored⟩
  split at hx
  swap
  · cases hx
  rename_i hustar
  rcases mem_append.mp hx with hx | hx
  · have hbounds := octalReads_bounds hx
    have hmagic := h.ustar_inside hustar
    omega
  rcases mem_append.mp hx with hx | hx
  · obtain ⟨i, -, rfl, hbefore⟩ := mem_strcmpReads.mp hx
    exact ⟨by omega, h.name hustar i hbefore⟩
  split at hx
  · cases hx
  · exact hrest hustar ‹_› x hx

lemma lookupFrom_safe (hfilename : Stored m filename.toNat (l ++ [0])) (hlong : l.length < 2 ^ 64)
    (hwhole : ∀ h, Reaches m filename stop header h → h < stop → m h.toNat ≠ 0 → Whole m filename stop h)
    (hfuel : stop.toNat - header.toNat < fuel) :
    (∃ r, lookupFrom m filename stop fuel header = some r ∧
      ∀ data size, r = some (data, size) → header.toNat ≤ data.toNat ∧ data.toNat + size.toNat ≤ stop.toNat) ∧
    ∀ x ∈ lookupReads m filename stop fuel header, header.toNat ≤ x ∧ x < stop.toNat := by
  induction fuel generalizing header with
  | zero => omega
  | succ fuel ih =>
    by_cases hin : header < stop
    swap
    · rw [lookupFrom_succ, if_neg (fun h => hin h.1), lookupReads, if_neg hin]
      exact ⟨⟨none, rfl, fun _ _ hnone => nomatch hnone⟩, fun x hx => nomatch hx⟩
    have hlt := lt_def.mp hin
    by_cases hname : m header.toNat ≠ 0
    swap
    · rw [lookupFrom_succ, if_neg (fun h => hname h.2), lookupReads, if_pos hin, if_neg hname]
      refine ⟨⟨none, rfl, fun _ _ hnone => nomatch hnone⟩, fun x hx => ?_⟩
      rw [mem_singleton.mp hx]
      exact ⟨le_rfl, hlt⟩
    have hhere := hwhole header (.refl header) hin hname
    rw [lookupFrom_succ, if_pos ⟨hin, hname⟩]
    by_cases hustar : IsUstar m header
    swap
    · rw [if_neg hustar]
      exact ⟨⟨none, rfl, fun _ _ hnone => nomatch hnone⟩, hhere.reads hin fun h => absurd h hustar⟩
    rw [if_pos hustar]
    obtain ⟨order, horder⟩ := strcmp_total hfilename hlong
    rw [horder, bind_some]
    by_cases hnamed : order = 0
    · rw [if_pos hnamed]
      subst hnamed
      have hfile := hhere.file hustar horder
      have hdata : (header + 512).toNat = header.toNat + 512 :=
        toNat_add_of_lt (show header.toNat + 512 < 2 ^ 64 by omega)
      refine ⟨⟨_, rfl, ?_⟩, hhere.reads hin fun _ h => absurd horder h⟩
      intro data size hsome
      obtain ⟨rfl, rfl⟩ := Prod.mk.inj (Option.some.inj hsome)
      rw [hdata]
      exact ⟨by omega, hfile⟩
    · rw [if_neg hnamed]
      have hother : ¬ IsNamed m filename header := fun h => hnamed (Option.some.inj (horder.symm.trans h))
      have hnext : (nextHeader m header).toNat = header.toNat + 512 + ((sizeAt m header).toNat + 511) / 512 * 512 := by
        have := hhere.next hustar hother
        rw [nextHeader_toNat]
        omega
      obtain ⟨⟨r, hr, hresult⟩, hreads⟩ := ih
        (fun h hreach => hwhole h (.next hin hname hustar hother hreach)) (show _ - (nextHeader m header).toNat < _ by omega)
      refine ⟨⟨r, hr, fun data size hsome => ?_⟩, hhere.reads hin fun _ _ x hx => ?_⟩
      · have := hresult data size hsome
        omega
      · have := hreads x hx
        omega

lemma Reaches.runs (h : Reaches m filename stop header header') (hrun : lookupFrom m filename stop fuel header = some r) :
    ∃ fuel', lookupFrom m filename stop (fuel' + 1) header' = some r ∧
      ∀ x ∈ lookupReads m filename stop (fuel' + 1) header', x ∈ lookupReads m filename stop fuel header := by
  induction h generalizing fuel with
  | refl =>
    cases fuel with
    | zero => cases hrun
    | succ fuel => exact ⟨fuel, hrun, fun x hx => hx⟩
  | @next header header' hin hname hustar hother _ ih =>
    cases fuel with
    | zero => cases hrun
    | succ =>
      rw [lookupFrom_succ, if_pos ⟨hin, hname⟩, if_pos hustar] at hrun
      obtain ⟨order, horder, hrun⟩ := bind_eq_some_iff.mp hrun
      have hne : order ≠ 0 := by
        rintro rfl
        exact hother horder
      rw [if_neg hne] at hrun
      obtain ⟨fuel', hrun', hreads⟩ := ih hrun
      refine ⟨fuel', hrun', fun x hx => ?_⟩
      rw [lookupReads, if_pos hin, if_pos hname, if_pos hustar, if_neg hother]
      simp only [mem_cons, mem_append]
      exact .inr (.inr (.inr (.inr (hreads x hx))))

end walk

structure Safe (m : Mem) (tar : Tar) (filename : Word) : Prop where
  returns : ∃ r, tarLookup m tar filename = some r ∧ ∀ data size, r = some (data, size) →
    tar.tarBase.toNat ≤ data.toNat ∧ data.toNat + size.toNat ≤ tar.tarBase.toNat + tar.tarLimit.toNat
  reads : ∀ a ∈ lookupReads m filename (tar.tarBase + tar.tarLimit) (2 ^ 64) tar.tarBase,
    tar.tarBase.toNat ≤ a ∧ a < tar.tarBase.toNat + tar.tarLimit.toNat

section main

variable {m : Mem} {tar : Tar} {filename header : Word} {l : List Byte}

lemma Safe.whole (h : Safe m tar filename) (hfilename : Stored m filename.toNat (l ++ [0])) (hlong : l.length < 2 ^ 64)
    (hend : tar.tarBase.toNat + tar.tarLimit.toNat < 2 ^ 64) (hhalf : tar.tarLimit.toNat ≤ 2 ^ 63)
    (hreach : Reaches m filename (tar.tarBase + tar.tarLimit) tar.tarBase header) (hin : header < tar.tarBase + tar.tarLimit)
    (hname : m header.toNat ≠ 0) : Whole m filename (tar.tarBase + tar.tarLimit) header := by
  have hstop := toNat_add_of_lt hend
  have hlt := lt_def.mp hin
  obtain ⟨⟨_, hrun, hresult⟩, hinside⟩ := h
  obtain ⟨fuel, hrun', hreads⟩ := hreach.runs hrun
  have hread : ∀ x ∈ lookupReads m filename (tar.tarBase + tar.tarLimit) (fuel + 1) header,
      tar.tarBase.toNat ≤ x ∧ x < (tar.tarBase + tar.tarLimit).toNat := by
    intro x hx
    rw [hstop]
    exact hinside x (hreads x hx)
  rw [lookupReads, if_pos hin, if_pos hname] at hread
  rw [lookupFrom_succ, if_pos ⟨hin, hname⟩] at hrun'
  simp only [mem_cons, mem_append] at hread
  refine ⟨fun i hi hstored => (hread _ (.inr (.inl (mem_memcmpReads.mpr ⟨i, hi, rfl, hstored⟩)))).2,
    fun hustar i hbefore => ?_,
    fun hustar hnamed => ?_, fun hustar hother => ?_⟩
  · -- the two strings cannot agree beyond the end of the file name
    have hi : i ≤ l.length := by
      by_contra hlonger
      obtain ⟨hnonzero, hsame⟩ := hbefore l.length (by omega)
      exact hnonzero (hsame.trans (stored_append.mp hfilename).2.1)
    rw [if_pos hustar] at hread
    simp only [mem_append] at hread
    exact (hread _ (.inr (.inr (.inr (.inl (mem_strcmpReads.mpr ⟨i, by omega, rfl, hbefore⟩)))))).2
  · rw [if_pos hustar, show strcmp m (2 ^ 64) header.toNat filename.toNat = some 0 from hnamed, bind_some,
      if_pos rfl] at hrun'
    obtain ⟨_, _⟩ := hresult _ _ (Option.some.inj hrun').symm
    have hdata : (header + 512).toNat = (header.toNat + 512) % 2 ^ 64 := BitVec.toNat_add header 512
    omega
  · rw [if_pos hustar] at hrun' hread
    obtain ⟨order, horder, hrun'⟩ := bind_eq_some_iff.mp hrun'
    have hne : order ≠ 0 := by
      rintro rfl
      exact hother horder
    rw [if_neg hne] at hrun'
    rw [if_neg hother] at hread
    cases fuel with
    | zero => cases hrun'
    | succ fuel =>
      by_contra hwrap
      have hnext := nextHeader_toNat m header
      have hsize := sizeAt_lt m header
      have hin' : nextHeader m header < tar.tarBase + tar.tarLimit := by
        rw [lt_def]
        omega
      have hfirst : (nextHeader m header).toNat ∈ lookupReads m filename (tar.tarBase + tar.tarLimit) (fuel + 1)
          (nextHeader m header) := by
        rw [lookupReads, if_pos hin']
        exact mem_cons_self
      simp only [mem_append] at hread
      have hback := (hread _ (.inr (.inr (.inr (.inr hfirst))))).1
      omega

theorem tarLookup_safe_iff (tar : Tar) (filename : Word) (hfilename : Stored m filename.toNat (l ++ [0]))
    (hlong : l.length < 2 ^ 64)
    (hend : tar.tarBase.toNat + tar.tarLimit.toNat < 2 ^ 64) :
    ((∀ header, Reaches m filename (tar.tarBase + tar.tarLimit) tar.tarBase header → header < tar.tarBase + tar.tarLimit →
      m header.toNat ≠ 0 → Whole m filename (tar.tarBase + tar.tarLimit) header) → Safe m tar filename) ∧
    (tar.tarLimit.toNat ≤ 2 ^ 63 → Safe m tar filename →
      ∀ header, Reaches m filename (tar.tarBase + tar.tarLimit) tar.tarBase header → header < tar.tarBase + tar.tarLimit →
        m header.toNat ≠ 0 → Whole m filename (tar.tarBase + tar.tarLimit) header) := by
  refine ⟨fun hwhole => ?_, fun hhalf hsafe header => hsafe.whole hfilename hlong hend hhalf⟩
  have hstop : (tar.tarBase + tar.tarLimit).toNat = tar.tarBase.toNat + tar.tarLimit.toNat := toNat_add_of_lt hend
  obtain ⟨hreturns, hreads⟩ := lookupFrom_safe hfilename hlong hwhole (show _ < 2 ^ 64 by omega)
  rw [hstop] at hreturns hreads
  exact ⟨hreturns, hreads⟩

end main

def oneHeader (base : ℕ) (name : Byte) (size : List Byte) : Mem :=
  place (place (place (place (fun _ => 0) 0x10 [0x62, 0]) base [name]) (base + 124) size) (base + 257) ustar

def fileOfTwo : Mem := oneHeader 0x1000 0x62 [0x32]

theorem tarLookup_safe_iff_fileOfTwo : Safe fileOfTwo ⟨0x1000, 1024⟩ 0x10 := by
  refine (tarLookup_safe_iff (l := [0x62]) ⟨0x1000, 1024⟩ 0x10 (.of_get ?_) (by decide) (by decide)).1 ?_
  · decide +kernel
  · have hnamed : IsNamed fileOfTwo 0x10 0x1000 := by decide +kernel
    have hsize : sizeAt fileOfTwo 0x1000 = 2 := by decide +kernel
    have hsecond : fileOfTwo 0x1001 = 0 := by decide +kernel
    intro header hreach _ _
    cases hreach with
    | next _ _ _ hother _ => exact absurd hnamed hother
    | refl =>
      refine ⟨fun i hi _ => ?_, fun _ i hbefore => ?_, fun _ _ => ?_, fun _ hother => absurd hnamed hother⟩
      · have hi' : i < 5 := hi
        change 0x1000 + 257 + i < 0x1400
        omega
      · change 0x1000 + i < 0x1400
        by_contra hlong
        exact (hbefore 1 (by omega)).1 hsecond
      · rw [hsize]
        decide

theorem tarLookup_outside :
    (0x1101 ∈ lookupReads fileOfTwo 0x10 (0x1000 + 1) (2 ^ 64) 0x1000 ∧ ¬ Safe fileOfTwo ⟨0x1000, 1⟩ 0x10) ∧
    (tarLookup fileOfTwo ⟨0x1000, 513⟩ 0x10 = some (some (0x1200, 2)) ∧ ¬ Safe fileOfTwo ⟨0x1000, 513⟩ 0x10) ∧
    let last := oneHeader (2 ^ 64 - 1024) 0x61 [0x31, 0x30, 0x30, 0x30]
    0 ∈ lookupReads last 0x10 (-1024 + 1023) (2 ^ 64) (-1024) ∧ ¬ Safe last ⟨-1024, 1023⟩ 0x10 := by
  have hheader : 0x1101 ∈ lookupReads fileOfTwo 0x10 (0x1000 + 1) (2 ^ 64) 0x1000 := by decide +kernel
  have hfile : tarLookup fileOfTwo ⟨0x1000, 513⟩ 0x10 = some (some (0x1200, 2)) := by decide +kernel
  have hwrap : 0 ∈ lookupReads (oneHeader (2 ^ 64 - 1024) 0x61 [0x31, 0x30, 0x30, 0x30]) 0x10 (-1024 + 1023) (2 ^ 64)
      (-1024) := by
    decide +kernel
  refine ⟨⟨hheader, fun h => ?_⟩, ⟨hfile, fun h => ?_⟩, hwrap, fun h => ?_⟩
  · exact absurd (h.reads _ hheader) (by decide)
  · obtain ⟨r, hr, hinside⟩ := h.returns
    exact absurd (hinside 0x1200 2 (Option.some.inj (hr.symm.trans hfile))) (by decide)
  · exact absurd (h.reads _ hwrap) (by decide)

end KernelSmp.Fs.TarBounds
