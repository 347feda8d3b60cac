import KernelSmp.Smp.ApBoot

/-! `smp_init`: the walk over the entries of the MADT, and the CPUs that it starts. -/

namespace KernelSmp.Smp.Madt

open Base Mem List

section model

def madtHeaderSize : Word := 44

-- the fields of `acpi_madt_entry_t` and `madt_entry_lapic_t`
def entryType (m : Mem) (ptr : Word) : Byte := m ptr.toNat
def entryLength (m : Mem) (ptr : Word) : Byte := m (ptr.toNat + 1)
def apicId (m : Mem) (ptr : Word) : Byte := m (ptr.toNat + 3)
def lapicFlags (m : Mem) (ptr : Word) : BitVec 32 := m.load32 (ptr.toNat + 4)

def headerLength (m : Mem) (madt : Word) : Word := (m.load32 (madt.toNat + 4)).setWidth 64

def nextEntry (m : Mem) (ptr : Word) : Word := ptr + (entryLength m ptr).setWidth 64

structure Walk where
  cpuCount : Word
  /-- The pointers from `cpu_table` on, also behind its 32 entries. -/
  cpuTable : ℕ → Option Ap
  started : List (Word × Ap)
  reads : List ℕ

def cpuRegisterContext (cpuTable : ℕ → Option Ap) (ctx : Ap) : ℕ → Option Ap :=
  Function.update cpuTable ctx.cpuId.toNat (some ctx)

def getCpuById (cpuTable : ℕ → Option Ap) (id : Word) : Option Ap := if id ≥ 32 then none else cpuTable id.toNat

def Walk.read (w : Walk) (l : List ℕ) : Walk := { w with reads := w.reads ++ l }

/-- `smp_init_cpu(lapic->apic_id, cpu_count++)`, as far as it is not about the memory of the AP. -/
def Walk.start (w : Walk) (ptr : Word) (lapicId : Byte) : Walk :=
  { w with
    cpuCount := w.cpuCount + 1
    cpuTable := cpuRegisterContext w.cpuTable ⟨lapicId, w.cpuCount⟩
    started := w.started ++ [(ptr, ⟨lapicId, w.cpuCount⟩)] }

variable (m : Mem) (bspLapicId : BitVec 32) (stop : Word)

def visit (w : Walk) (ptr : Word) : Walk :=
  let w := w.read [ptr.toNat]
  let w :=
    if entryType m ptr = 0 then
      let w := w.read [ptr.toNat + 4, ptr.toNat + 5, ptr.toNat + 6, ptr.toNat + 7]
      if lapicFlags m ptr &&& 1 ≠ 0 then
        let w := w.read [ptr.toNat + 3]
        if (apicId m ptr).setWidth 32 ≠ bspLapicId then w.start ptr (apicId m ptr) else w
      else w
    else w
  w.read [ptr.toNat + 1]

def smpInitLoop : ℕ → Word → Walk → Option Walk
  | 0, _, _ => none
  | fuel + 1, ptr, w => if ptr < stop then smpInitLoop fuel (nextEntry m ptr) (visit m bspLapicId w ptr) else some w

def Walk.init (madt : Word) (cpuTable : ℕ → Option Ap) : Walk :=
  ⟨1, cpuTable, [], [madt.toNat + 4, madt.toNat + 5, madt.toNat + 6, madt.toNat + 7]⟩

def smpInit (m : Mem) (madt : Word) (lapicIdReg : BitVec 32) (cpuTable : ℕ → Option Ap) : Option Walk :=
  smpInitLoop m (lapicIdReg >>> 24) (madt + headerLength m madt) (2 ^ 64) (madt + madtHeaderSize)
    (Walk.init madt cpuTable)

def Starts (ptr : Word) : Prop :=
  entryType m ptr = 0 ∧ lapicFlags m ptr &&& 1 ≠ 0 ∧ (apicId m ptr).setWidth 32 ≠ bspLapicId

instance (ptr : Word) : Decidable (Starts m bspLapicId ptr) := inferInstanceAs (Decidable (_ ∧ _))

end model

variable {fuel : ℕ} {ptr ptr' : Word} {l : List Word}

section entries

variable (m : Mem) (stop : Word)

inductive IsEntry : Word → Word → Prop
  | here {ptr : Word} : ptr < stop → IsEntry ptr ptr
  | next {ptr ptr' : Word} : ptr < stop → IsEntry (nextEntry m ptr) ptr' → IsEntry ptr ptr'

structure Whole (ptr : Word) : Prop where
  advances : entryLength m ptr ≠ 0
  header : ptr.toNat + 2 ≤ stop.toNat
  lapic : entryType m ptr = 0 → ptr.toNat + 8 ≤ stop.toNat
  next : ptr.toNat + (entryLength m ptr).toNat < 2 ^ 64

def entries : ℕ → Word → Option (List Word)
  | 0, _ => none
  | fuel + 1, ptr => if ptr < stop then (entries fuel (nextEntry m ptr)).map (ptr :: ·) else some []

variable {m stop}

lemma IsEntry.inside (h : IsEntry m stop ptr ptr') : ptr' < stop := by
  induction h with
  | here hin => exact hin
  | next _ _ ih => exact ih

lemma IsEntry.snoc (h : IsEntry m stop ptr ptr') (hin : nextEntry m ptr' < stop) : IsEntry m stop ptr (nextEntry m ptr') := by
  induction h with
  | here hfirst => exact .next hfirst (.here hin)
  | next hfirst _ ih => exact .next hfirst (ih hin)

lemma nextEntry_toNat (m : Mem) (ptr : Word) : (nextEntry m ptr).toNat = (ptr.toNat + (entryLength m ptr).toNat) % 2 ^ 64 := by
  rw [nextEntry, BitVec.toNat_add, BitVec.toNat_setWidth, Nat.add_mod_mod]

lemma Whole.nextEntry (h : Whole m stop ptr) : (nextEntry m ptr).toNat = ptr.toNat + (entryLength m ptr).toNat := by
  rw [nextEntry_toNat]
  exact Nat.mod_eq_of_lt h.next

lemma Whole.pos (h : Whole m stop ptr) : 0 < (entryLength m ptr).toNat := by
  apply Nat.pos_of_ne_zero
  intro hzero
  exact h.advances (BitVec.eq_of_toNat_eq hzero)

lemma mem_entries (h : entries m stop fuel ptr = some l) : ptr' ∈ l ↔ IsEntry m stop ptr ptr' := by
  induction fuel generalizing ptr l with
  | zero => cases h
  | succ fuel ih =>
    rw [entries] at h
    split at h
    · rename_i hin
      obtain ⟨_, hrest, rfl⟩ := Option.map_eq_some_iff.mp h
      rw [mem_cons, ih hrest]
      constructor
      · rintro (rfl | hlater)
        · exact .here hin
        · exact .next hin hlater
      · rintro (_ | ⟨_, hlater⟩)
        · exact .inl rfl
        · exact .inr hlater
    · rename_i hout
      cases h
      constructor
      · intro hnil
        cases hnil
      · rintro (hin | ⟨hin, _⟩) <;> exact absurd hin hout

lemma entries_total (hwhole : ∀ p, IsEntry m stop ptr p → Whole m stop p) (hfuel : stop.toNat - ptr.toNat < fuel) :
    ∃ l, entries m stop fuel ptr = some l ∧ l.Pairwise (· < ·) ∧ ∀ p ∈ l, ptr ≤ p := by
  induction fuel generalizing ptr with
  | zero => omega
  | succ fuel ih =>
    rw [entries]
    by_cases hin : ptr < stop
    · have hlt := BitVec.lt_def.mp hin
      have hhere := hwhole ptr (.here hin)
      have hnext := hhere.nextEntry
      have hpos := hhere.pos
      obtain ⟨l, hl, hsorted, hbelow⟩ := ih (fun p hp => hwhole p (.next hin hp)) (by omega)
      have habove : ∀ p ∈ l, ptr < p := by
        intro p hp
        have := BitVec.le_def.mp (hbelow p hp)
        apply BitVec.lt_def.mpr
        omega
      refine ⟨ptr :: l, ?_, pairwise_cons.mpr ⟨habove, hsorted⟩, ?_⟩
      · rw [if_pos hin, hl, Option.map_some]
      · intro p hp
        rcases mem_cons.mp hp with rfl | hp
        · exact BitVec.le_refl p
        · exact BitVec.le_of_lt (habove p hp)
    · exact ⟨[], if_neg hin, List.Pairwise.nil, fun p hp => nomatch hp⟩

lemma entries_stuck (hlength : entryLength m ptr = 0) (hin : ptr < stop) (fuel : ℕ) : entries m stop fuel ptr = none := by
  induction fuel with
  | zero => rfl
  | succ fuel ih =>
    have hsame : nextEntry m ptr = ptr := by
      rw [nextEntry, hlength]
      exact BitVec.add_zero ptr
    rw [entries, if_pos hin, hsame, ih, Option.map_none]

lemma IsEntry.entries (h : IsEntry m stop ptr ptr') (hl : entries m stop fuel ptr = some l) :
    ∃ fuel' l', entries m stop fuel' ptr' = some l' := by
  induction h generalizing fuel l with
  | here => exact ⟨fuel, l, hl⟩
  | next hin _ ih =>
    cases fuel with
    | zero => cases hl
    | succ =>
      rw [Madt.entries, if_pos hin] at hl
      obtain ⟨_, hrest, -⟩ := Option.map_eq_some_iff.mp hl
      exact ih hrest

end entries

variable {w : Walk} {cpuTable : ℕ → Option Ap}

section visits

variable {m : Mem} {bspLapicId : BitVec 32} {stop : Word}

lemma smpInitLoop_eq : smpInitLoop m bspLapicId stop fuel ptr w =
    (entries m stop fuel ptr).map (List.foldl (visit m bspLapicId) w) := by
  induction fuel generalizing ptr w with
  | zero => rfl
  | succ fuel ih =>
    rw [smpInitLoop, entries]
    split
    · rw [ih, Option.map_map]
      rfl
    · rfl

def entryReads (m : Mem) (ptr : Word) : List ℕ :=
  [ptr.toNat] ++
    (if entryType m ptr = 0 then [ptr.toNat + 4, ptr.toNat + 5, ptr.toNat + 6, ptr.toNat + 7] ++
      (if lapicFlags m ptr &&& 1 ≠ 0 then [ptr.toNat + 3] else [])
    else []) ++ [ptr.toNat + 1]

lemma visit_eq (m : Mem) (bspLapicId : BitVec 32) (w : Walk) (ptr : Word) : visit m bspLapicId w ptr =
    (if Starts m bspLapicId ptr then w.start ptr (apicId m ptr) else w).read (entryReads m ptr) := by
  by_cases htype : entryType m ptr = 0
  swap
  · have hno : ¬ Starts m bspLapicId ptr := fun h => htype h.1
    simp only [visit, entryReads, if_neg htype, if_neg hno, Walk.read]
    simp only [append_assoc, append_nil]
  by_cases hflags : lapicFlags m ptr &&& 1 ≠ 0
  swap
  · have hno : ¬ Starts m bspLapicId ptr := fun h => hflags h.2.1
    simp only [visit, entryReads, if_pos htype, if_neg hflags, if_neg hno, Walk.read]
    simp only [append_assoc, append_nil]
  by_cases hbsp : (apicId m ptr).setWidth 32 ≠ bspLapicId
  · have hyes : Starts m bspLapicId ptr := ⟨htype, hflags, hbsp⟩
    simp only [visit, entryReads, if_pos htype, if_pos hflags, if_pos hbsp, if_pos hyes, Walk.read, Walk.start]
    simp only [append_assoc]
  · have hno : ¬ Starts m bspLapicId ptr := fun h => hbsp h.2.2
    simp only [visit, entryReads, if_pos htype, if_pos hflags, if_neg hbsp, if_neg hno, Walk.read]
    simp only [append_assoc]

lemma mem_foldl_reads (m : Mem) (bspLapicId : BitVec 32) (w : Walk) (l : List Word) (a : ℕ) :
    a ∈ (l.foldl (visit m bspLapicId) w).reads ↔ a ∈ w.reads ∨ ∃ p ∈ l, a ∈ entryReads m p := by
  induction l generalizing w with
  | nil => simp
  | cons p l ih =>
    have hone : (visit m bspLapicId w p).reads = w.reads ++ entryReads m p := by
      rw [visit_eq]
      split <;> rfl
    rw [foldl_cons, ih, hone, mem_append, or_assoc]
    simp only [exists_mem_cons_iff]

lemma foldl_started (m : Mem) (bspLapicId : BitVec 32) (w : Walk) (l : List Word) :
    (l.foldl (visit m bspLapicId) w).started.map Prod.fst = w.started.map Prod.fst ++ l.filter (Starts m bspLapicId ·) := by
  induction l generalizing w with
  | nil => simp
  | cons p l ih =>
    rw [foldl_cons, ih, visit_eq]
    by_cases h : Starts m bspLapicId p
    · rw [if_pos h, filter_cons, if_pos (decide_eq_true h)]
      simp [Walk.read, Walk.start]
    · rw [if_neg h, filter_cons, if_neg (by simpa using h)]
      rfl

structure Numbered (m : Mem) (cpuTable : ℕ → Option Ap) (w : Walk) : Prop where
  count : w.cpuCount = BitVec.ofNat 64 (1 + w.started.length)
  ids : w.started.map (fun s => s.2.cpuId) = (List.range w.started.length).map fun i => BitVec.ofNat 64 (1 + i)
  lapic : ∀ s ∈ w.started, s.2.lapicId = apicId m s.1
  table : w.cpuTable = (w.started.map Prod.snd).foldl cpuRegisterContext cpuTable

lemma Numbered.visit (h : Numbered m cpuTable w) (ptr : Word) : Numbered m cpuTable (visit m bspLapicId w ptr) := by
  obtain ⟨hcount, hids, hlapic, htable⟩ := h
  rw [visit_eq]
  split
  · refine ⟨?_, ?_, ?_, ?_⟩
    · simp only [Walk.read, Walk.start, length_append, length_singleton]
      rw [hcount, ← Nat.add_assoc, BitVec.ofNat_add _ 1]
      rfl
    · simp only [Walk.read, Walk.start, length_append, length_singleton, map_append, map_singleton]
      rw [hids, hcount, range_succ, map_append, map_singleton]
    · intro s hs
      rcases mem_append.mp hs with hs | hs
      · exact hlapic s hs
      · rw [mem_singleton.mp hs]
    · simp only [Walk.read, Walk.start, map_append, map_singleton, foldl_append, foldl_cons, foldl_nil]
      rw [htable]
  · exact ⟨hcount, hids, hlapic, htable⟩

lemma Numbered.foldl (h : Numbered m cpuTable w) (bspLapicId : BitVec 32) (l : List Word) :
    Numbered m cpuTable (l.foldl (Madt.visit m bspLapicId) w) := by
  induction l generalizing w with
  | nil => exact h
  | cons ptr l ih => exact ih (h.visit ptr)

lemma foldl_register_other {aps : List Ap} {i : ℕ} (h : ∀ ap ∈ aps, ap.cpuId.toNat ≠ i) :
    aps.foldl cpuRegisterContext cpuTable i = cpuTable i := by
  induction aps generalizing cpuTable with
  | nil => rfl
  | cons ap aps ih =>
    rw [foldl_cons, ih fun ap' hap => h ap' (mem_cons_of_mem _ hap)]
    exact Function.update_of_ne (h ap mem_cons_self).symm _ _

lemma foldl_register {aps : List Ap} {ap : Ap} (h : (aps.map Ap.cpuId).Nodup) (hap : ap ∈ aps) :
    aps.foldl cpuRegisterContext cpuTable ap.cpuId.toNat = some ap := by
  induction aps generalizing cpuTable with
  | nil => cases hap
  | cons ap' aps ih =>
    rw [map_cons, nodup_cons] at h
    rw [foldl_cons]
    rcases mem_cons.mp hap with rfl | hap
    · rw [foldl_register_other]
      · exact Function.update_self _ _ _
      · intro ap' hap' heq
        exact h.1 (mem_map.mpr ⟨ap', hap', BitVec.eq_of_toNat_eq heq⟩)
    · exact ih h.2 hap

lemma Numbered.id_iff {id : Word} (h : Numbered m cpuTable w) :
    (∃ s ∈ w.started, s.2.cpuId = id) ↔ ∃ i < w.started.length, BitVec.ofNat 64 (1 + i) = id := by
  rw [← mem_map, h.ids, mem_map]
  simp only [mem_range]

lemma Numbered.ids_nodup (h : Numbered m cpuTable w) (hfew : w.started.length < 32) :
    (w.started.map fun s => s.2.cpuId).Nodup := by
  rw [h.ids]
  refine List.Nodup.map_on ?_ nodup_range
  intro i hi j hj heq
  have hi' := mem_range.mp hi
  have hj' := mem_range.mp hj
  have hnat := congrArg BitVec.toNat heq
  rw [BitVec.toNat_ofNat, BitVec.toNat_ofNat] at hnat
  omega

end visits

structure Sound (m : Mem) (madt : Word) (bspLapicId : BitVec 32) (cpuTable : ℕ → Option Ap) (w : Walk) : Prop where
  reads : ∀ a ∈ w.reads, madt.toNat ≤ a ∧ a < madt.toNat + (headerLength m madt).toNat
  once : (w.started.map Prod.fst).Nodup
  started : ∀ ptr, ptr ∈ w.started.map Prod.fst ↔
    IsEntry m (madt + headerLength m madt) (madt + madtHeaderSize) ptr ∧ Starts m bspLapicId ptr
  lapic : ∀ s ∈ w.started, s.2.lapicId = apicId m s.1
  distinct : (w.started.map fun s => s.2.cpuId).Nodup
  below : ∀ s ∈ w.started, 0 < s.2.cpuId.toNat ∧ s.2.cpuId.toNat < 32
  registered : ∀ s ∈ w.started, getCpuById w.cpuTable s.2.cpuId = some s.2
  behind : ∀ i, 32 ≤ i → w.cpuTable i = cpuTable i

structure WellFormed (m : Mem) (madt : Word) (bspLapicId : BitVec 32) : Prop where
  length : 8 ≤ (headerLength m madt).toNat
  header : madt.toNat + 44 < 2 ^ 64
  whole : ∀ ptr, IsEntry m (madt + headerLength m madt) (madt + madtHeaderSize) ptr → Whole m (madt + headerLength m madt) ptr
  few : {ptr | IsEntry m (madt + headerLength m madt) (madt + madtHeaderSize) ptr ∧ Starts m bspLapicId ptr}.ncard < 32

variable {madt : Word}

section main

variable {m : Mem} {bspLapicId : BitVec 32} {stop : Word}

lemma ncard_starts (hl : entries m stop fuel ptr = some l) (hnodup : l.Nodup) :
    {p | IsEntry m stop ptr p ∧ Starts m bspLapicId p}.ncard = (l.filter (Starts m bspLapicId ·)).length := by
  have hset : {p | IsEntry m stop ptr p ∧ Starts m bspLapicId p} = ↑(l.filter (Starts m bspLapicId ·)).toFinset := by
    ext p
    rw [Set.mem_ofPred_eq, coe_toFinset, Set.mem_ofPred_eq, mem_filter, mem_entries hl, decide_eq_true_eq]
  rw [hset, Set.ncard_coe_finset, toFinset_card_of_nodup (hnodup.filter _)]

lemma numbered_init (m : Mem) (madt : Word) (cpuTable : ℕ → Option Ap) : Numbered m cpuTable (Walk.init madt cpuTable) := by
  refine ⟨rfl, rfl, ?_, rfl⟩
  intro s hs
  cases hs

lemma headerLength_lt (m : Mem) (madt : Word) : (headerLength m madt).toNat < 2 ^ 32 := by
  rw [headerLength, BitVec.toNat_setWidth]
  omega

lemma Whole.reads {a : ℕ} (h : Whole m stop ptr) (ha : a ∈ entryReads m ptr) : ptr.toNat ≤ a ∧ a < stop.toNat := by
  have hheader := h.header
  rw [entryReads] at ha
  simp only [mem_append, mem_singleton] at ha
  rcases ha with (rfl | ha) | rfl
  · omega
  · split at ha
    · rename_i htype
      have hlapic := h.lapic htype
      rcases mem_append.mp ha with ha | ha
      · simp only [mem_cons, not_mem_nil, or_false] at ha
        omega
      · split at ha
        · rw [mem_singleton.mp ha]
          omega
        · cases ha
    · cases ha
  · omega

lemma mem_entryReads (m : Mem) (ptr : Word) : ptr.toNat ∈ entryReads m ptr ∧ ptr.toNat + 1 ∈ entryReads m ptr ∧
    (entryType m ptr = 0 → ptr.toNat + 7 ∈ entryReads m ptr) := by
  rw [entryReads]
  refine ⟨by simp, by simp, fun htype => ?_⟩
  rw [if_pos htype]
  simp

lemma WellFormed.sound (h : WellFormed m madt bspLapicId) (hend : madt.toNat + (headerLength m madt).toNat < 2 ^ 64)
    (hl : entries m (madt + headerLength m madt) fuel (madt + madtHeaderSize) = some l) (hsorted : l.Pairwise (· < ·))
    (hbelow : ∀ p ∈ l, madt + madtHeaderSize ≤ p) :
    Sound m madt bspLapicId cpuTable (l.foldl (visit m bspLapicId) (Walk.init madt cpuTable)) := by
  have hstop := BitVec.toNat_add_of_lt hend
  have hfirst : (madt + madtHeaderSize).toNat = madt.toNat + 44 := BitVec.toNat_add_of_lt h.header
  have hnodup := hsorted.imp fun hlt heq => BitVec.ne_of_lt hlt heq
  have hnumbered := (numbered_init m madt cpuTable).foldl bspLapicId l
  have hreads := fun a => mem_foldl_reads m bspLapicId (Walk.init madt cpuTable) l a
  have hstarted := foldl_started m bspLapicId (Walk.init madt cpuTable) l
  generalize l.foldl (visit m bspLapicId) (Walk.init madt cpuTable) = w at *
  rw [Walk.init, map_nil, nil_append] at hstarted
  have hfew : w.started.length < 32 := by
    rw [← length_map Prod.fst, hstarted, ← ncard_starts hl hnodup]
    exact h.few
  have hids : ∀ s ∈ w.started, 0 < s.2.cpuId.toNat ∧ s.2.cpuId.toNat < 32 := by
    intro s hs
    obtain ⟨i, hi, hid⟩ := hnumbered.id_iff.mp ⟨s, hs, rfl⟩
    rw [← hid, BitVec.toNat_ofNat]
    omega
  refine ⟨?_, ?_, ?_, hnumbered.lapic, hnumbered.ids_nodup hfew, hids, ?_, ?_⟩
  · intro a ha
    have hlength := h.length
    rcases (hreads a).mp ha with ha | ⟨p, hp, ha⟩
    · simp only [Walk.init, mem_cons, not_mem_nil, or_false] at ha
      omega
    · have hlow := BitVec.le_def.mp (hbelow p hp)
      have := (h.whole p ((mem_entries hl).mp hp)).reads ha
      omega
  · rw [hstarted]
    exact hnodup.filter _
  · intro ptr
    rw [hstarted, mem_filter, mem_entries hl, decide_eq_true_eq]
  · intro s hs
    have hmap : (w.started.map Prod.snd).map Ap.cpuId = w.started.map fun s => s.2.cpuId := map_map
    rw [getCpuById, if_neg, hnumbered.table]
    · apply foldl_register
      · rw [hmap]
        exact hnumbered.ids_nodup hfew
      · exact mem_map_of_mem hs
    · exact BitVec.not_le.mpr (BitVec.lt_def.mpr (hids s hs).2)
  · intro i hi
    rw [hnumbered.table]
    apply foldl_register_other
    intro ap hap
    obtain ⟨s, hs, rfl⟩ := mem_map.mp hap
    have := hids s hs
    omega

lemma Sound.wellFormed (hend : madt.toNat + (headerLength m madt).toNat < 2 ^ 64)
    (hl : entries m (madt + headerLength m madt) (2 ^ 64) (madt + madtHeaderSize) = some l)
    (h : Sound m madt bspLapicId cpuTable (l.foldl (visit m bspLapicId) (Walk.init madt cpuTable))) :
    WellFormed m madt bspLapicId := by
  have hstop := BitVec.toNat_add_of_lt hend
  have hfirst : (madt + madtHeaderSize).toNat = (madt.toNat + 44) % 2 ^ 64 := BitVec.toNat_add madt madtHeaderSize
  have hshort := headerLength_lt m madt
  have hread : ∀ p, IsEntry m (madt + headerLength m madt) (madt + madtHeaderSize) p → ∀ a ∈ entryReads m p,
      madt.toNat ≤ a ∧ a < madt.toNat + (headerLength m madt).toNat := by
    intro p hp a ha
    exact h.reads a ((mem_foldl_reads _ _ _ _ _).mpr (.inr ⟨p, (mem_entries hl).mpr hp, ha⟩))
  have hlength : madt.toNat + 7 < madt.toNat + (headerLength m madt).toNat :=
    (h.reads _ ((mem_foldl_reads _ _ _ _ _).mpr (.inl (by simp [Walk.init])))).2
  have hwhole : ∀ p, IsEntry m (madt + headerLength m madt) (madt + madtHeaderSize) p →
      Whole m (madt + headerLength m madt) p := by
    intro p hp
    obtain ⟨-, hheader, hlapic⟩ := mem_entryReads m p
    have hin := BitVec.lt_def.mp hp.inside
    refine ⟨fun hzero => ?_, ?_, fun htype => ?_, ?_⟩
    · obtain ⟨_, l', hl'⟩ := hp.entries hl
      rw [entries_stuck hzero hp.inside] at hl'
      cases hl'
    · have := hread p hp _ hheader
      omega
    · have := hread p hp _ (hlapic htype)
      omega
    · -- an entry behind the end of the address space would be in front of the table
      by_contra hwrap
      have hnext := nextEntry_toNat m p
      have hin' : nextEntry m p < madt + headerLength m madt := by
        rw [BitVec.lt_def]
        omega
      have := hread _ (hp.snoc hin') _ (mem_entryReads m _).1
      omega
  refine ⟨by omega, ?_, hwhole, ?_⟩
  · by_contra hwrap
    have hin : madt + madtHeaderSize < madt + headerLength m madt := by
      rw [BitVec.lt_def]
      omega
    have := hread _ (.here hin) _ (mem_entryReads m _).1
    omega
  · obtain ⟨_, hl', hsorted, -⟩ := entries_total hwhole (show _ < 2 ^ 64 by omega)
    cases hl.symm.trans hl'
    rw [ncard_starts hl (hsorted.imp fun hlt heq => BitVec.ne_of_lt hlt heq)]
    have hnumbered := (numbered_init m madt cpuTable).foldl bspLapicId l
    have hstarted := foldl_started m bspLapicId (Walk.init madt cpuTable) l
    by_contra hmany
    have hlong : 31 < (l.foldl (visit m bspLapicId) (Walk.init madt cpuTable)).started.length := by
      rw [← length_map Prod.fst, hstarted]
      exact Nat.lt_of_not_le (fun hle => hmany (Nat.lt_succ_of_le hle))
    obtain ⟨s, hs, hid⟩ := hnumbered.id_iff.mpr ⟨31, hlong, rfl⟩
    have hbelow := (h.below s hs).2
    rw [hid] at hbelow
    exact absurd hbelow (by decide)

theorem smpInit_sound_iff (m : Mem) (madt : Word) (lapicIdReg : BitVec 32) (cpuTable : ℕ → Option Ap)
    (hend : madt.toNat + (headerLength m madt).toNat < 2 ^ 64) :
    (∃ w, smpInit m madt lapicIdReg cpuTable = some w ∧ Sound m madt (lapicIdReg >>> 24) cpuTable w) ↔
      WellFormed m madt (lapicIdReg >>> 24) := by
  rw [smpInit, smpInitLoop_eq]
  constructor
  · rintro ⟨w, hw, hsound⟩
    obtain ⟨l, hl, rfl⟩ := Option.map_eq_some_iff.mp hw
    exact Sound.wellFormed hend hl hsound
  · intro h
    have hstop := (madt + headerLength m madt).isLt
    obtain ⟨l, hl, hsorted, hbelow⟩ := entries_total h.whole (show _ < 2 ^ 64 by omega)
    exact ⟨_, by rw [hl, Option.map_some], h.sound hend hl hsorted hbelow⟩

end main

def tableOf (length : ℕ) (l : List Byte) : Mem := fun a =>
  (List.replicate 4 0 ++ [BitVec.ofNat 8 length, BitVec.ofNat 8 (length / 256)] ++ List.replicate 38 0 ++ l).getD (a - 0x1000) 0

def lapicEntry (apicId : Byte) : List Byte := [0, 8, apicId, apicId, 1, 0, 0, 0]

def twoCpus : Mem := tableOf 72 (lapicEntry 0 ++ lapicEntry 1 ++ [1, 12, 0, 0, 0, 0, 0, 0, 0, 0, 0, 0])

theorem smpInit_sound_iff_twoCpus :
    ∃ w, smpInit twoCpus 0x1000 0 (fun _ => none) = some w ∧ Sound twoCpus 0x1000 (0 >>> 24) (fun _ => none) w := by
  have hlength : headerLength twoCpus 0x1000 = 72 := by decide +kernel
  have hentries : entries twoCpus (0x1000 + headerLength twoCpus 0x1000) 4 (0x1000 + madtHeaderSize) =
      some [0x102C, 0x1034, 0x103C] := by decide +kernel
  apply (smpInit_sound_iff twoCpus 0x1000 0 (fun _ => none) (by rw [hlength]; decide)).mpr
  refine ⟨by rw [hlength]; decide, by decide, ?_, ?_⟩
  · have hall : ∀ p ∈ [(0x102C : Word), 0x1034, 0x103C], entryLength twoCpus p ≠ 0 ∧ p.toNat + 2 ≤ 0x1048 ∧
        (entryType twoCpus p = 0 → p.toNat + 8 ≤ 0x1048) ∧ p.toNat + (entryLength twoCpus p).toNat < 2 ^ 64 := by
      simp only [forall_mem_cons]
      refine ⟨by decide +kernel, by decide +kernel, by decide +kernel, ?_⟩
      exact forall_mem_nil _
    intro p hp
    obtain ⟨hadvances, hheader, hlapic, hnext⟩ := hall p ((mem_entries hentries).mpr hp)
    rw [hlength]
    exact ⟨hadvances, hheader, hlapic, hnext⟩
  · rw [ncard_starts hentries (by decide)]
    decide +kernel

def manyCpus : Mem := tableOf 300 ((List.range 32).flatMap fun i => lapicEntry (BitVec.ofNat 8 (1 + i)))

theorem smpInit_unsound :
    (∀ fuel, smpInitLoop (tableOf 46 [1, 0]) (0 >>> 24) (0x1000 + headerLength (tableOf 46 [1, 0]) 0x1000) fuel
      (0x1000 + madtHeaderSize) (Walk.init 0x1000 fun _ => none) = none) ∧
    ((smpInit (tableOf 46 (lapicEntry 1)) 0x1000 0 fun _ => none).map Walk.reads =
        some [0x1004, 0x1005, 0x1006, 0x1007, 0x102C, 0x1030, 0x1031, 0x1032, 0x1033, 0x102F, 0x102D] ∧
      ¬ ∃ w, smpInit (tableOf 46 (lapicEntry 1)) 0x1000 0 (fun _ => none) = some w ∧
        Sound (tableOf 46 (lapicEntry 1)) 0x1000 (0 >>> 24) (fun _ => none) w) ∧
    (smpInit manyCpus 0x1000 0 fun _ => none).map (fun w => (w.cpuTable 32).map Ap.cpuId) = some (some 32) ∧
      ¬ ∃ w, smpInit manyCpus 0x1000 0 (fun _ => none) = some w ∧ Sound manyCpus 0x1000 (0 >>> 24) (fun _ => none) w := by
  have hcut : (smpInit (tableOf 46 (lapicEntry 1)) 0x1000 0 fun _ => none).map Walk.reads =
      some [0x1004, 0x1005, 0x1006, 0x1007, 0x102C, 0x1030, 0x1031, 0x1032, 0x1033, 0x102F, 0x102D] := by
    decide +kernel
  have hmany : (smpInit manyCpus 0x1000 0 fun _ => none).map (fun w => (w.cpuTable 32).map Ap.cpuId) = some (some 32) := by
    decide +kernel
  refine ⟨fun fuel => ?_, ⟨hcut, ?_⟩, hmany, ?_⟩
  · rw [smpInitLoop_eq, entries_stuck (by decide +kernel) (by decide +kernel), Option.map_none]
  · rintro ⟨w, hw, hsound⟩
    have hlength : headerLength (tableOf 46 (lapicEntry 1)) 0x1000 = 46 := by decide +kernel
    rw [hw, Option.map_some] at hcut
    have hread : 0x1033 ∈ w.reads := by
      rw [Option.some.inj hcut]
      decide
    have hinside := (hsound.reads _ hread).2
    rw [hlength] at hinside
    exact absurd hinside (by decide)
  · rintro ⟨w, hw, hsound⟩
    rw [hw, Option.map_some, hsound.behind 32 le_rfl] at hmany
    cases hmany

end KernelSmp.Smp.Madt
