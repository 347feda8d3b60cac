import Mathlib.Data.Nat.Digits.Lemmas
import KernelSmp.Base.ByteMemory

/-! `vsnprintf` of `io.c`. The format and the strings are read from memory that the buffer is not part of. -/

namespace KernelSmp.Common

open Base List Option

/-- The variables of `vsnprintf`. `fmt` and `args` are counted from where they begin, and `out` is what has been written from
`buf` on, so that `str` is behind it. Beside them, `reads` has the bytes of the format that have been looked at, and
`scratch` how many bytes each call of `ksprint_int` has put into `tmp`. -/
structure Cursor where
  fmt : ℕ
  args : ℕ
  out : List Byte
  reads : List ℕ
  scratch : List ℕ

section numbers

def digitChar (d : ℕ) : Byte := BitVec.ofNat 8 (if d < 10 then 48 + d else 87 + d)

def digitLoop (base : ℕ) : ℕ → ℕ → List Byte
  | 0, _ => []
  | fuel + 1, value => digitChar (value % base) :: if value / base > 0 then digitLoop base fuel (value / base) else []

def ksprintTmp (value : Word) (base : ℕ) (width : BitVec 32) (pad : Byte) : List Byte :=
  let tmp := digitLoop base 64 value.toNat
  tmp ++ List.replicate (width.toInt.toNat - tmp.length) pad

def ksprintInt (c : Cursor) (value : Word) (base : ℕ) (width : BitVec 32) (pad : Byte) : Cursor :=
  let tmp := ksprintTmp value base width pad
  { c with out := c.out ++ tmp.reverse, scratch := tmp.length :: c.scratch }

end numbers

section model

inductive Conversion
  | char
  | string
  | decimal
  | hex
  | pointer
  | binary
  | other (b : Byte)
  deriving DecidableEq

def conversion (b : Byte) : Conversion :=
  if b = 0x63 then .char else if b = 0x73 then .string else if b = 0x64 then .decimal else if b = 0x78 then .hex
  else if b = 0x70 then .pointer else if b = 0x62 then .binary else .other b

def number (arg : Word) : Conversion → Option (List Byte × Word × ℕ)
  | .decimal => some (if arg.toInt < 0 then ([0x2D], -arg, 10) else ([], arg, 10))
  | .hex => some ([], arg, 16)
  | .binary => some ([], arg, 2)
  | _ => none

def copyString (m : Mem) : ℕ → ℕ → List Byte
  | 0, _ => []
  | k + 1, s => if m s ≠ 0 then m s :: copyString m k (s + 1) else []

def nullText : List Byte := [0x28, 0x6E, 0x75, 0x6C, 0x6C, 0x29]

variable (f : ℕ → Byte) (m : Mem) (args : ℕ → Word) (n : ℕ)

def directive (c : Cursor) (width : BitVec 32) (pad : Byte) (v : Conversion) : Cursor :=
  let arg := args c.args
  match number arg v with
  | some (sign, value, base) => ksprintInt { c with args := c.args + 1, out := c.out ++ sign } value base width pad
  | none =>
    match v with
    | .char => { c with args := c.args + 1, out := c.out ++ [arg.setWidth 8] }
    | .string =>
      let room := n - 1 - c.out.length
      { c with args := c.args + 1, out := c.out ++ if arg = 0 then nullText.take room else copyString m room arg.toNat }
    | .pointer =>
      if c.out.length + 19 < n then ksprintInt { c with args := c.args + 1, out := c.out ++ [0x30, 0x78] } arg 16 16 0x30 else c
    | .other b => { c with out := c.out ++ [b] }
    | _ => c

def widthLoop : ℕ → ℕ → BitVec 32 → List ℕ → Option (ℕ × BitVec 32 × List ℕ)
  | 0, _, _, _ => none
  | fuel + 1, i, width, reads =>
    if f i ≥ 0x30 ∧ f i ≤ 0x39 then widthLoop fuel (i + 1) (width * 10 + ((f i).setWidth 32 - 48)) (i :: reads)
    else some (i, width, i :: reads)

def readSpec (i : ℕ) (reads : List ℕ) : Option (Byte × ℕ × BitVec 32 × List ℕ) :=
  if f i = 0x30 then (widthLoop f (2 ^ 64) (i + 1) 0 (i :: reads)).map (Prod.mk 0x30)
  else (widthLoop f (2 ^ 64) i 0 (i :: reads)).map (Prod.mk 0x20)

def advance (c : Cursor) : Option Cursor :=
  if f c.fmt ≠ 0x25 then some { c with fmt := c.fmt + 1, out := c.out ++ [f c.fmt] }
  else do
    let (pad, i, width, reads) ← readSpec f (c.fmt + 1) c.reads
    return directive m args n { c with fmt := i + 1, reads := reads } width pad (conversion (f i))

def vsnprintfLoop : ℕ → Cursor → Option Cursor
  | 0, _ => none
  | fuel + 1, c =>
    let c := { c with reads := c.fmt :: c.reads }
    if f c.fmt ≠ 0 ∧ c.out.length + 1 < n then (advance f m args n c).bind (vsnprintfLoop fuel) else some c

def vsnprintf : Option Cursor := vsnprintfLoop f m args n (2 ^ 64) ⟨0, 0, [], [], []⟩

end model

section numbers

variable {base fuel value k : ℕ} {width : BitVec 32} {pad : Byte}

lemma length_digitLoop_le (hk : 0 < k) (hvalue : value < base ^ k) : (digitLoop base fuel value).length ≤ k := by
  induction fuel generalizing value k with
  | zero => exact Nat.zero_le k
  | succ fuel ih =>
    rw [digitLoop, length_cons]
    split_ifs with hmore
    · obtain ⟨j, rfl⟩ := Nat.exists_eq_succ_of_ne_zero hk.ne'
      have hrest := Nat.div_lt_of_lt_mul (by rwa [← Nat.pow_succ'])
      have hj : 0 < j := by
        rcases Nat.eq_zero_or_pos j with rfl | hj
        · rw [Nat.pow_zero] at hrest
          omega
        · exact hj
      exact Nat.succ_le_succ (ih hj hrest)
    · exact hk

lemma length_ksprintTmp (value : Word) : (ksprintTmp value base width pad).length =
    max (digitLoop base 64 value.toNat).length width.toInt.toNat := by
  rw [ksprintTmp, length_append, length_replicate]
  omega

lemma length_ksprintTmp_le_iff (value : Word) (hbase : 2 ≤ base) : (ksprintTmp value base width pad).length ≤ 65 ↔
    width.toInt ≤ 65 := by
  have hdigits : (digitLoop base 64 value.toNat).length ≤ 64 :=
    length_digitLoop_le (by decide) (value.isLt.trans_le (Nat.pow_le_pow_left hbase 64))
  rw [length_ksprintTmp]
  omega

lemma length_copyString_le (m : Mem) (k s : ℕ) : (copyString m k s).length ≤ k := by
  induction k generalizing s with
  | zero => exact le_rfl
  | succ k ih =>
    rw [copyString]
    split
    · exact Nat.succ_le_succ (ih (s + 1))
    · exact Nat.zero_le _

end numbers

section rounds

variable {f : ℕ → Byte} {m : Mem} {args : ℕ → Word} {n stop i fuel : ℕ} {c : Cursor} {width : BitVec 32} {pad : Byte}
  {v : Conversion} {reads : List ℕ}

lemma base_of_number {arg : Word} {sign : List Byte} {value : Word} {base : ℕ}
    (h : number arg v = some (sign, value, base)) : 2 ≤ base := by
  cases v with
  | decimal =>
    simp only [number] at h
    split at h <;> cases h <;> decide
  | hex =>
    cases h
    decide
  | binary =>
    cases h
    decide
  | _ => cases h

lemma directive_of_number_none (m : Mem) (n : ℕ) (width : BitVec 32) (pad : Byte) (h : number (args c.args) v = none) :
    (directive m args n c width pad v).fmt = c.fmt ∧ (directive m args n c width pad v).reads = c.reads ∧
    (∃ l, (directive m args n c width pad v).out = c.out ++ l ∧ (c.out.length + 1 < n → c.out.length + l.length < n)) ∧
    ((directive m args n c width pad v).scratch = c.scratch ∨ (directive m args n c width pad v).scratch =
      16 :: c.scratch) := by
  simp only [directive, h]
  cases v with
  | char => exact ⟨rfl, rfl, ⟨_, rfl, id⟩, .inl rfl⟩
  | other => exact ⟨rfl, rfl, ⟨_, rfl, id⟩, .inl rfl⟩
  | string =>
    refine ⟨rfl, rfl, ⟨_, rfl, fun hroom => ?_⟩, .inl rfl⟩
    split
    · rw [length_take]
      omega
    · have := length_copyString_le m (n - 1 - c.out.length) (args c.args).toNat
      omega
  | pointer =>
    have hdigits : (digitLoop 16 64 (args c.args).toNat).length ≤ 16 :=
      length_digitLoop_le (by decide) (args c.args).isLt
    have hlength : (ksprintTmp (args c.args) 16 16 0x30).length = 16 := by
      rw [length_ksprintTmp, show (16 : BitVec 32).toInt.toNat = 16 from rfl]
      omega
    by_cases hroom : c.out.length + 19 < n
    · simp only [if_pos hroom, ksprintInt, append_assoc]
      refine ⟨trivial, trivial, ⟨_, rfl, fun _ => ?_⟩, .inr ?_⟩
      · rw [length_append, length_reverse, hlength]
        change c.out.length + (2 + 16) < n
        omega
      · rw [hlength]
    · simp only [if_neg hroom]
      exact ⟨trivial, trivial, ⟨[], (append_nil _).symm, fun hlt => Nat.lt_of_succ_lt hlt⟩, .inl trivial⟩
  | _ => cases h

lemma directive_of_number {sign : List Byte} {value : Word} {base : ℕ} (h : number (args c.args) v = some (sign, value, base)) :
    directive m args n c width pad v =
      ksprintInt { c with args := c.args + 1, out := c.out ++ sign } value base width pad := by
  simp only [directive, h]

lemma widthLoop_spec (width : BitVec 32) (reads : List ℕ) (hstop : f stop = 0) (hi : i ≤ stop) (hfuel : stop - i < fuel) :
    ∃ j width' reads', widthLoop f fuel i width reads = some (j, width', reads') ∧ i ≤ j ∧ j ≤ stop ∧
      ∀ x ∈ reads', x ∈ reads ∨ x ≤ stop := by
  induction fuel generalizing i width reads with
  | zero => omega
  | succ fuel ih =>
    have hmem : ∀ x ∈ i :: reads, x ∈ reads ∨ x ≤ stop := by
      rintro x hx
      rcases mem_cons.mp hx with rfl | hx
      · exact .inr hi
      · exact .inl hx
    rw [widthLoop]
    split_ifs with hdigit
    · have hne : i ≠ stop := by
        rintro rfl
        rw [hstop] at hdigit
        exact absurd hdigit (by decide)
      obtain ⟨j, width', reads', hloop, _, hj, hreads⟩ := ih (i := i + 1) _ _ (by omega) (by omega)
      refine ⟨j, width', reads', hloop, by omega, hj, fun x hx => ?_⟩
      rcases hreads x hx with hx | hx
      · exact hmem x hx
      · exact .inr hx
    · exact ⟨i, width, i :: reads, rfl, le_rfl, hi, hmem⟩

lemma widthLoop_reads {j : ℕ} {width' : BitVec 32} {reads' : List ℕ}
    (h : widthLoop f fuel i width reads = some (j, width', reads')) : ∀ x ∈ reads, x ∈ reads' := by
  induction fuel generalizing i width reads with
  | zero => cases h
  | succ fuel ih =>
    rw [widthLoop] at h
    split at h
    · exact fun x hx => ih h x (mem_cons_of_mem i hx)
    · cases h
      exact fun x hx => mem_cons_of_mem _ hx

lemma readSpec_reads {j : ℕ} {reads' : List ℕ} (h : readSpec f i reads = some (pad, j, width, reads')) :
    ∀ x ∈ reads, x ∈ reads' := by
  rw [readSpec] at h
  split at h
  · obtain ⟨r, hr, heq⟩ := map_eq_some_iff.mp h
    cases heq
    exact fun x hx => widthLoop_reads hr x (mem_cons_of_mem _ hx)
  · obtain ⟨_, hr, heq⟩ := map_eq_some_iff.mp h
    cases heq
    exact fun x hx => widthLoop_reads hr x (mem_cons_of_mem i hx)

lemma readSpec_spec (hstop : f stop = 0) (hshort : stop < 2 ^ 64) (hi : i ≤ stop) (reads : List ℕ) :
    ∃ pad j width reads', readSpec f i reads = some (pad, j, width, reads') ∧ i ≤ j ∧ j ≤ stop ∧
      ∀ x ∈ reads', x ∈ reads ∨ x ≤ stop := by
  have hloop : ∀ (pad : Byte) j, i ≤ j → j ≤ stop → ∃ pad' j' width reads',
      (widthLoop f (2 ^ 64) j 0 (i :: reads)).map (Prod.mk pad) = some (pad', j', width, reads') ∧ i ≤ j' ∧ j' ≤ stop ∧
      ∀ x ∈ reads', x ∈ reads ∨ x ≤ stop := by
    intro pad j hij hj
    obtain ⟨j', width, reads', hrun, hle, hj', hreads⟩ :=
      widthLoop_spec 0 (i :: reads) hstop hj (show stop - j < 2 ^ 64 by omega)
    refine ⟨pad, j', width, reads', by rw [hrun, map_some], hij.trans hle, hj', fun x hx => ?_⟩
    rcases hreads x hx with hx | hx
    · rcases mem_cons.mp hx with rfl | hx
      · exact .inr hi
      · exact .inl hx
    · exact .inr hx
  rw [readSpec]
  split_ifs with hzero
  · have hne : i ≠ stop := by
      rintro rfl
      rw [hstop] at hzero
      exact absurd hzero (by decide)
    exact hloop 0x30 (i + 1) (Nat.le_succ i) (by omega)
  · exact hloop 0x20 i le_rfl hi

structure Later (c c' : Cursor) : Prop where
  out : c.out.length ≤ c'.out.length
  reads : ∀ i ∈ c.reads, i ∈ c'.reads
  scratch : ∀ k ∈ c.scratch, k ∈ c'.scratch

lemma Later.trans {c' c'' : Cursor} (h : Later c c') (h' : Later c' c'') : Later c c'' :=
  ⟨h.out.trans h'.out, fun i hi => h'.reads i (h.reads i hi), fun k hk => h'.scratch k (h.scratch k hk)⟩

lemma directive_later : Later c (directive m args n c width pad v) ∧ (directive m args n c width pad v).fmt = c.fmt := by
  cases hval : number (args c.args) v with
  | none =>
    obtain ⟨hfmt, hsame, ⟨_, hout, -⟩, hscratch⟩ := directive_of_number_none m n width pad hval
    refine ⟨⟨?_, ?_, ?_⟩, hfmt⟩
    · rw [hout, length_append]
      exact Nat.le_add_right _ _
    · rw [hsame]
      exact fun i hi => hi
    · rcases hscratch with hscratch | hscratch
      · rw [hscratch]
        exact fun k hk => hk
      · rw [hscratch]
        exact fun k hk => mem_cons_of_mem 16 hk
  | some text =>
    obtain ⟨_, _, _⟩ := text
    rw [directive_of_number hval, ksprintInt]
    refine ⟨⟨?_, fun i hi => hi, fun k hk => mem_cons_of_mem _ hk⟩, rfl⟩
    rw [length_append, length_append, Nat.add_assoc]
    exact Nat.le_add_right _ _

lemma advance_later {c' : Cursor} (h : advance f m args n c = some c') : Later c c' := by
  rw [advance] at h
  split at h
  · cases h
    refine ⟨?_, fun i hi => hi, fun k hk => hk⟩
    rw [length_append]
    exact Nat.le_add_right _ _
  · obtain ⟨⟨_, i, _, reads⟩, hspec, hc'⟩ := bind_eq_some_iff.mp h
    cases hc'
    have hfirst : Later c { c with fmt := i + 1, reads := reads } := ⟨le_rfl, readSpec_reads hspec, fun k hk => hk⟩
    exact hfirst.trans directive_later.1

end rounds

section runs

variable (f : ℕ → Byte) (m : Mem) (args : ℕ → Word) (n : ℕ)

inductive Reaches : Cursor → Cursor → Prop
  | refl (c : Cursor) : Reaches c c
  | next {c c' c'' : Cursor} : f c.fmt ≠ 0 → c.out.length + 1 < n →
    advance f m args n { c with reads := c.fmt :: c.reads } = some c' →
      Reaches c' c'' → Reaches c c''

def Fits (c : Cursor) : Prop :=
  ∀ pad i width reads, readSpec f (c.fmt + 1) (c.fmt :: c.reads) = some (pad, i, width, reads) → f i ≠ 0 ∧
    ∀ sign value base, number (args c.args) (conversion (f i)) = some (sign, value, base) →
      width.toInt ≤ 65 ∧ c.out.length + sign.length + (ksprintTmp value base width pad).length < n

structure Inside (stop : ℕ) (c : Cursor) : Prop where
  out : c.out.length < n
  reads : ∀ i ∈ c.reads, i ≤ stop
  scratch : ∀ k ∈ c.scratch, k ≤ 65

variable {f m args n} {stop fuel : ℕ} {c c' r : Cursor}

lemma advance_inside (hstop : f stop = 0) (hshort : stop < 2 ^ 64) (h : Inside n stop c) (hlt : c.fmt < stop)
    (hroom : c.out.length + 1 < n)
    (hfits : f c.fmt = 0x25 → Fits f args n c) :
    ∃ c', advance f m args n { c with reads := c.fmt :: c.reads } = some c' ∧ Inside n stop c' ∧ c.fmt < c'.fmt ∧
      c'.fmt ≤ stop := by
  have hreads : ∀ i ∈ c.fmt :: c.reads, i ≤ stop := forall_mem_cons.mpr ⟨hlt.le, h.reads⟩
  rw [advance]
  by_cases hpercent : f c.fmt = 0x25
  swap
  · rw [if_pos hpercent]
    refine ⟨_, rfl, ⟨?_, hreads, h.scratch⟩, Nat.lt_succ_self _, hlt⟩
    rw [length_append]
    exact hroom
  rw [if_neg (not_not.mpr hpercent)]
  obtain ⟨pad, i, width, reads, hspec, _, _, hread⟩ := readSpec_spec hstop hshort hlt (c.fmt :: c.reads)
  obtain ⟨hconv, hnumber⟩ := hfits hpercent pad i width reads hspec
  have hne : i ≠ stop := fun heq => hconv (heq ▸ hstop)
  have hreads' : ∀ x ∈ reads, x ≤ stop := fun x hx => (hread x hx).elim (hreads x) id
  simp only [hspec]
  refine ⟨_, rfl, ?_⟩
  cases hval : number (args c.args) (conversion (f i)) with
  | none =>
    obtain ⟨hfmt, hsame, ⟨_, hout, hbound⟩, hscratch⟩ := directive_of_number_none m n width pad
      (c := { c with fmt := i + 1, reads := reads }) hval
    refine ⟨⟨?_, ?_, ?_⟩, ?_, ?_⟩
    · rw [hout, length_append]
      exact hbound hroom
    · rw [hsame]
      exact hreads'
    · rcases hscratch with hscratch | hscratch
      · rw [hscratch]
        exact h.scratch
      · rw [hscratch]
        exact forall_mem_cons.mpr ⟨by decide, h.scratch⟩
    · rw [hfmt]
      change c.fmt < i + 1
      omega
    · rw [hfmt]
      change i + 1 ≤ stop
      omega
  | some text =>
    obtain ⟨sign, value, base⟩ := text
    obtain ⟨hwidth, hlength⟩ := hnumber sign value base hval
    rw [directive_of_number (c := { c with fmt := i + 1, reads := reads }) hval, ksprintInt]
    refine ⟨⟨?_, hreads', ?_⟩, ?_, ?_⟩
    · rw [length_append, length_append, length_reverse]
      exact hlength
    · exact forall_mem_cons.mpr ⟨(length_ksprintTmp_le_iff value (base_of_number hval)).mpr hwidth, h.scratch⟩
    · change c.fmt < i + 1
      omega
    · change i + 1 ≤ stop
      omega

lemma vsnprintfLoop_inside (hstop : f stop = 0) (hshort : stop < 2 ^ 64) (hfits : ∀ c', Reaches f m args n c c' →
    c'.out.length + 1 < n → f c'.fmt = 0x25 → Fits f args n c') (h : Inside n stop c) (hle : c.fmt ≤ stop)
    (hfuel : stop - c.fmt < fuel) : ∃ r, vsnprintfLoop f m args n fuel c = some r ∧ Inside n stop r := by
  induction fuel generalizing c with
  | zero => omega
  | succ fuel ih =>
    rw [vsnprintfLoop]
    by_cases hgo : f c.fmt ≠ 0 ∧ c.out.length + 1 < n
    swap
    · rw [if_neg hgo]
      exact ⟨_, rfl, h.out, forall_mem_cons.mpr ⟨hle, h.reads⟩, h.scratch⟩
    rw [if_pos hgo]
    have hlt := lt_of_le_of_ne hle fun heq => hgo.1 (heq ▸ hstop)
    obtain ⟨_, hc', hinside, _, hle'⟩ := advance_inside hstop hshort h hlt hgo.2 (hfits c (.refl c) hgo.2)
    rw [hc', bind_some]
    exact ih (fun c'' hreach => hfits c'' (.next hgo.1 hgo.2 hc' hreach)) hinside hle' (by omega)

lemma vsnprintfLoop_later (h : vsnprintfLoop f m args n fuel c = some r) : Later { c with reads := c.fmt :: c.reads } r := by
  induction fuel generalizing c with
  | zero => cases h
  | succ fuel ih =>
    rw [vsnprintfLoop] at h
    split at h
    · obtain ⟨_, hc', hrest⟩ := bind_eq_some_iff.mp h
      have hlater := ih hrest
      exact (advance_later hc').trans ⟨hlater.out, fun i hi => hlater.reads i (mem_cons_of_mem _ hi), hlater.scratch⟩
    · cases h
      exact ⟨le_rfl, fun i hi => hi, fun k hk => hk⟩

lemma Reaches.runs (h : Reaches f m args n c c') (hrun : vsnprintfLoop f m args n fuel c = some r) :
    ∃ fuel', vsnprintfLoop f m args n (fuel' + 1) c' = some r := by
  induction h generalizing fuel with
  | refl =>
    cases fuel with
    | zero => cases hrun
    | succ fuel => exact ⟨fuel, hrun⟩
  | next hmore hroom hadvance _ ih =>
    cases fuel with
    | zero => cases hrun
    | succ =>
      rw [vsnprintfLoop, if_pos ⟨hmore, hroom⟩, hadvance, bind_some] at hrun
      exact ih hrun

lemma Inside.fits (h : Inside n stop r) (hstop : f stop = 0) (hbefore : ∀ i < stop, f i ≠ 0) (hshort : stop < 2 ^ 64)
    (hrun : vsnprintfLoop f m args n (fuel + 1) c = some r) (hroom : c.out.length + 1 < n) (hpercent : f c.fmt = 0x25) :
      Fits f args n c := by
  have hfmt := h.reads _ ((vsnprintfLoop_later hrun).reads _ mem_cons_self)
  have hmore : f c.fmt ≠ 0 := by
    rw [hpercent]
    decide
  have hlt := lt_of_le_of_ne hfmt fun heq => hmore (heq ▸ hstop)
  rw [vsnprintfLoop, if_pos ⟨hmore, hroom⟩] at hrun
  obtain ⟨_, hc', hrest⟩ := bind_eq_some_iff.mp hrun
  have hlater := vsnprintfLoop_later hrest
  rw [advance, if_neg (not_not.mpr hpercent)] at hc'
  intro pad i width reads hspec
  simp only [hspec] at hc'
  cases hc'
  obtain ⟨_, _, _, _, hspec', -, _, -⟩ := readSpec_spec hstop hshort hlt (c.fmt :: c.reads)
  cases hspec.symm.trans hspec'
  refine ⟨fun hend => ?_, fun sign value base hval => ?_⟩
  · -- the loop goes on behind the NUL
    have hlast : i = stop := by
      by_contra hne
      exact hbefore i (by omega) hend
    have hread := h.reads _ (hlater.reads _ mem_cons_self)
    rw [directive_later.2] at hread
    change i + 1 ≤ stop at hread
    omega
  · rw [directive_of_number (c := { c with fmt := i + 1, reads := reads }) hval, ksprintInt] at hlater
    refine ⟨(length_ksprintTmp_le_iff value (base_of_number hval)).mp (h.scratch _ (hlater.scratch _ mem_cons_self)), ?_⟩
    have hout := hlater.out
    simp only [length_append, length_reverse] at hout
    exact hout.trans_lt h.out

theorem vsnprintf_inside_iff (f : ℕ → Byte) (m : Mem) (args : ℕ → Word) (hn : 1 ≤ n) (hstop : f stop = 0)
    (hbefore : ∀ i < stop, f i ≠ 0)
    (hshort : stop < 2 ^ 64) :
    (∃ r, vsnprintf f m args n = some r ∧ (r.out ++ [0]).length ≤ n ∧ (∀ i ∈ r.reads, i ≤ stop) ∧ ∀ k ∈ r.scratch, k ≤ 65) ↔
    ∀ c, Reaches f m args n ⟨0, 0, [], [], []⟩ c → c.out.length + 1 < n → f c.fmt = 0x25 → Fits f args n c := by
  constructor
  · rintro ⟨r, hrun, hout, hreads, hscratch⟩ c hreach hroom hpercent
    have hinside : Inside n stop r := ⟨by rwa [length_append] at hout, hreads, hscratch⟩
    obtain ⟨fuel, hrun'⟩ := hreach.runs hrun
    exact hinside.fits hstop hbefore hshort hrun' hroom hpercent
  · intro hfits
    have hstart : Inside n stop ⟨0, 0, [], [], []⟩ := ⟨hn, forall_mem_nil _, forall_mem_nil _⟩
    obtain ⟨r, hrun, hinside⟩ := vsnprintfLoop_inside hstop hshort hfits hstart (Nat.zero_le _)
      (show stop - 0 < 2 ^ 64 by omega)
    refine ⟨r, hrun, ?_, hinside.reads, hinside.scratch⟩
    rw [length_append]
    exact hinside.out

end runs

def text (l : List Byte) (i : ℕ) : Byte := l.getD i 0

theorem vsnprintf_inside_iff_padded : (∃ r, vsnprintf (text [0x25, 0x35, 0x64]) (fun _ => 0) (fun _ => 42) 16 = some r ∧
      r.out = [0x20, 0x20, 0x20, 0x34, 0x32]) ∧ Fits (text [0x25, 0x35, 0x64]) (fun _ => 42) 16 ⟨0, 0, [], [], []⟩ := by
  have hend : text [0x25, 0x35, 0x64] 3 = 0 := rfl
  refine ⟨by decide +kernel, (vsnprintf_inside_iff _ (fun _ => 0) _ (by decide) hend (by decide) (by decide)).mp ?_ _ (.refl _)
    (by decide) rfl⟩
  decide +kernel

theorem vsnprintf_outside :
    (∃ r, vsnprintf (text [0x25, 0x62]) (fun _ => 0) (fun _ => -1) 8 = some r ∧ (r.out ++ [0]).length = 65) ∧
    (∃ r, vsnprintf (text [0x25, 0x36, 0x36, 0x64]) (fun _ => 0) (fun _ => 1) 512 = some r ∧ 66 ∈ r.scratch) ∧
    (text [0x25] 1 = 0 ∧ ∃ r, vsnprintf (text [0x25]) (fun _ => 0) (fun _ => 0) 512 = some r ∧ 2 ∈ r.reads) := by
  decide +kernel

section faithful

variable {base fuel value : ℕ}

def charValue (b : Byte) : ℕ :=
  if 0x30 ≤ b ∧ b ≤ 0x39 then b.toNat - 0x30 else if 0x61 ≤ b ∧ b ≤ 0x66 then b.toNat - 0x57 else 16

def parse (base : ℕ) (s : List Byte) : Option ℕ :=
  s.foldlM (fun v b => if charValue b < base then some (v * base + charValue b) else none) 0

def parseInt : List Byte → Option ℤ
  | [] => none
  | b :: s => if b = 0x2D then (parse 10 s).map fun v => -(v : ℤ) else (parse 10 (b :: s)).map Int.ofNat

lemma charValue_digitChar {d : ℕ} (hd : d < 16) : charValue (digitChar d) = d := by
  revert d
  decide

lemma parse_digitLoop (hpos : 0 < base) (hbase : base ≤ 16) (hvalue : value < base ^ fuel) :
    parse base (digitLoop base fuel value).reverse = some value := by
  induction fuel generalizing value with
  | zero =>
    rw [Nat.pow_zero, Nat.lt_one_iff] at hvalue
    rw [hvalue]
    rfl
  | succ fuel ih =>
    have hmod := Nat.mod_lt value hpos
    -- the digits before the last one are those of the quotient, or none if it is 0
    have hrest : parse base (if value / base > 0 then digitLoop base fuel (value / base) else []).reverse =
        some (value / base) := by
      split_ifs with hzero
      · exact ih (Nat.div_lt_of_lt_mul (by rwa [← Nat.pow_succ']))
      · rw [Nat.eq_zero_of_not_pos hzero]
        rfl
    rw [parse] at hrest
    rw [digitLoop, reverse_cons, parse, foldlM_append, hrest]
    simp only [bind_eq_bind, bind_some, foldlM_cons, foldlM_nil,
      charValue_digitChar (hmod.trans_le hbase), hmod, if_true, Option.pure_def, Nat.div_add_mod']

lemma digitLoop_getLast? (hpos : 0 < base) (hbase : base ≤ 16) (hvalue : value < base ^ fuel) (hne : value ≠ 0) :
    ∃ d, d ≠ 0 ∧ d < 16 ∧ (digitLoop base fuel value).getLast? = some (digitChar d) := by
  induction fuel generalizing value with
  | zero => exact absurd (Nat.lt_one_iff.mp hvalue) hne
  | succ fuel ih =>
    rw [digitLoop, List.getLast?_cons]
    split_ifs with hmore
    · obtain ⟨d, hd, hlt, hlast⟩ := ih (Nat.div_lt_of_lt_mul (by rwa [← Nat.pow_succ'])) hmore.ne'
      rw [hlast]
      exact ⟨d, hd, hlt, rfl⟩
    · have hlt := (Nat.div_eq_zero_iff_lt hpos).mp (Nat.eq_zero_of_not_pos hmore)
      rw [Nat.mod_eq_of_lt hlt]
      exact ⟨value, hne, hlt.trans_le hbase, rfl⟩

structure Numeral (base : ℕ) (s : List Byte) (value : ℕ) : Prop where
  nonempty : s ≠ []
  leading : s.head? = some 0x30 → s = [0x30]
  value : parse base s = some value

lemma numeral_digitLoop (hbase : 2 ≤ base) (hle : base ≤ 16) (w : Word) :
    Numeral base (digitLoop base 64 w.toNat).reverse w.toNat := by
  have hvalue := w.isLt.trans_le (Nat.pow_le_pow_left hbase 64)
  refine ⟨?_, fun hhead => ?_, parse_digitLoop (by omega) hle hvalue⟩
  · rw [digitLoop]
    exact reverse_ne_nil_iff.mpr (cons_ne_nil _ _)
  · rw [List.head?_reverse] at hhead
    by_cases hzero : w.toNat = 0
    · rw [hzero, digitLoop, Nat.zero_mod, Nat.zero_div]
      rfl
    · obtain ⟨_, hd, hlt, hlast⟩ := digitLoop_getLast? (by omega) hle hvalue hzero
      have hchar := congrArg charValue (Option.some.inj (hlast.symm.trans hhead))
      rw [charValue_digitChar hlt] at hchar
      exact absurd hchar hd

lemma ksprintInt_out (c : Cursor) (value : Word) (base : ℕ) (width : BitVec 32) (pad : Byte) :
    (ksprintInt c value base width pad).out =
      c.out ++ List.replicate (width.toInt.toNat - (digitLoop base 64 value.toNat).length) pad ++
        (digitLoop base 64 value.toNat).reverse := by
  rw [ksprintInt, ksprintTmp, reverse_append, reverse_replicate, append_assoc]

lemma Numeral.parseInt {s : List Byte} (h : Numeral 10 s value) : Common.parseInt s = some ↑value := by
  obtain ⟨hne, -, hvalue⟩ := h
  cases s with
  | nil => exact absurd rfl hne
  | cons =>
    rw [Common.parseInt, if_neg, hvalue]
    · rfl
    · rintro rfl
      cases hvalue

lemma parseInt_number (arg : Word) : ∃ sign value, number arg .decimal = some (sign, value, 10) ∧
    parseInt (sign ++ (digitLoop 10 64 value.toNat).reverse) = some arg.toInt ∧
    (sign ++ (digitLoop 10 64 value.toNat).reverse).length ≤ 20 := by
  have hlength : ∀ {w : Word}, w.toNat ≤ 2 ^ 63 → (digitLoop 10 64 w.toNat).reverse.length ≤ 19 := by
    intro w hw
    rw [length_reverse]
    exact length_digitLoop_le (by decide) (hw.trans_lt (by decide))
  have hint := BitVec.toInt_eq_toNat_cond arg
  by_cases hneg : arg.toInt < 0
  · have hvalue : (-arg).toNat = 2 ^ 64 - arg.toNat := by
      rw [BitVec.toNat_neg]
      omega
    refine ⟨[0x2D], -arg, by rw [number, if_pos hneg], ?_, ?_⟩
    · rw [if_neg (by omega)] at hint
      rw [singleton_append, parseInt, if_pos rfl, (numeral_digitLoop (by decide) (by decide) (-arg)).value, hvalue]
      rw [hint]
      exact congrArg some (by omega : -((2 ^ 64 - arg.toNat : ℕ) : ℤ) = arg.toNat - 2 ^ 64)
    · exact Nat.succ_le_succ (hlength (by omega))
  · refine ⟨[], arg, by rw [number, if_neg hneg], ?_, ?_⟩
    · rw [nil_append, (numeral_digitLoop (by decide) (by decide) arg).parseInt, hint, if_pos (by omega)]
    · exact (hlength (by omega)).trans (by decide)

lemma directive_decimal (m : Mem) (args : ℕ → Word) (n : ℕ) (c : Cursor) (pad : Byte) :
    ∃ s, (directive m args n c 0 pad .decimal).out = c.out ++ s ∧ s.length ≤ 20 ∧ parseInt s = some (args c.args).toInt := by
  obtain ⟨_, _, hnumber, hparse, hlength⟩ := parseInt_number (args c.args)
  refine ⟨_, ?_, hlength, hparse⟩
  rw [directive_of_number hnumber, ksprintInt_out, show (0 : BitVec 32).toInt.toNat = 0 from rfl, Nat.zero_sub,
    replicate_zero, append_nil, append_assoc]

lemma vsnprintf_decimal {f : ℕ → Byte} (m : Mem) (args : ℕ → Word) {n : ℕ} (hpercent : f 0 = 0x25) (hd : f 1 = 0x64)
    (hend : f 2 = 0) (hn : 1 < n) : ∃ r, vsnprintf f m args n = some r ∧
      r.out = (directive m args n ⟨2, 0, [], [1, 1, 0], []⟩ 0 0x20 .decimal).out := by
  have hfuel : (2 : ℕ) ^ 64 = 2 ^ 64 - 2 + 1 + 1 := by decide
  have hspec : readSpec f 1 [0] = some (0x20, 1, 0, [1, 1, 0]) := by
    rw [readSpec, hd, if_neg (by decide), hfuel, widthLoop, hd, if_neg (by decide)]
    rfl
  have hfirst : advance f m args n ⟨0, 0, [], [0], []⟩ =
      some (directive m args n ⟨2, 0, [], [1, 1, 0], []⟩ 0 0x20 .decimal) := by
    rw [advance, if_neg (by rw [hpercent]; decide), hspec]
    change some (directive m args n ⟨2, 0, [], [1, 1, 0], []⟩ 0 0x20 (conversion (f 1))) = _
    rw [hd]
    rfl
  rw [vsnprintf, hfuel, vsnprintfLoop, if_pos ⟨by rw [hpercent]; decide, hn⟩, hfirst, bind_some, vsnprintfLoop,
    if_neg]
  · exact ⟨_, rfl, rfl⟩
  · rw [directive_later.2, hend]
    exact fun h => h.1 rfl

theorem numbers_read_back :
    (∀ (c : Cursor) (value : Word) (base : ℕ) (width : BitVec 32) (pad : Byte),
      base = 2 ∨ base = 10 ∨ base = 16 → width.toInt ≤ 65 →
      (ksprintTmp value base width pad).length ≤ 65 ∧
      ∃ digits, (ksprintInt c value base width pad).out =
          c.out ++ List.replicate (width.toInt.toNat - digits.length) pad ++ digits ∧
        Numeral base digits value.toNat) ∧
    (∀ m args n c pad, ∃ s, (directive m args n c 0 pad .decimal).out = c.out ++ s ∧ s.length ≤ 20 ∧
      parseInt s = some (args c.args).toInt) ∧
    ∀ f m args n, f 0 = 0x25 → f 1 = 0x64 → f 2 = 0 → 20 < n →
      ∃ r, vsnprintf f m args n = some r ∧ r.out.length < n ∧ parseInt r.out = some (args 0).toInt := by
  refine ⟨fun c value base width pad hbase hwidth => ?_, directive_decimal, fun f m args n hpercent hd hend hn => ?_⟩
  · have hbounds : 2 ≤ base ∧ base ≤ 16 := by omega
    refine ⟨(length_ksprintTmp_le_iff value hbounds.1).mpr hwidth, _, ?_, numeral_digitLoop hbounds.1 hbounds.2 value⟩
    rw [ksprintInt_out, length_reverse]
  · obtain ⟨r, hr, hout⟩ := vsnprintf_decimal m args hpercent hd hend (show 1 < n by omega)
    obtain ⟨s, hs, hlength, hparse⟩ := directive_decimal m args n ⟨2, 0, [], [1, 1, 0], []⟩ 0x20
    rw [hs, nil_append] at hout
    exact ⟨r, hr, by rw [hout]; omega, by rw [hout, hparse]⟩

end faithful

end KernelSmp.Common
