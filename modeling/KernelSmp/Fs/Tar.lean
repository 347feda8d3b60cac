import Mathlib.Data.BitVec
import Mathlib.Tactic.Ring
import KernelSmp.Base.CStrings

/-! The initial ramdisk of `initrd.c`: `tar_lookup` finds the first entry of a name in a USTAR archive. -/

namespace KernelSmp.Fs

open Base Mem List Option BitVec

structure Tar where
  tarBase : Word
  tarLimit : Word

def octalLoop (m : Mem) : ℕ → ℕ → Word → Word
  | 0, _, res => res
  | n + 1, a, res =>
    if m a ≥ 48 ∧ m a ≤ 55 then octalLoop m n (a + 1) (res * 8 + (m a - 48).setWidth 64) else res

def octalToInt (m : Mem) (s : ℕ) (size : ℕ) : Word := octalLoop m size s 0

def ustar : List Byte := [0x75, 0x73, 0x74, 0x61, 0x72]

def lookupFrom (m : Mem) (filename stop : Word) : ℕ → Word → Option (Option (Word × Word))
  | 0, _ => none
  | fuel + 1, header =>
    if header < stop ∧ m header.toNat ≠ 0 then
      -- the fields `size` and `magic` of `tar_header_t`
      if memcmp m (header.toNat + 257) ustar = 0 then do
        let size := octalToInt m (header.toNat + 124) 12
        let order ← strcmp m (2 ^ 64) header.toNat filename.toNat
        if order = 0 then some (some (header + 512, size))
        else
          let offset := 512 + ((size + 511) &&& ~~~511)
          lookupFrom m filename stop fuel (header + offset)
      else some none
    else some none

def tarLookup (m : Mem) (tar : Tar) (filename : Word) : Option (Option (Word × Word)) :=
  lookupFrom m filename (tar.tarBase + tar.tarLimit) (2 ^ 64) tar.tarBase

section archive

structure Entry where
  name : List Byte
  contents : List Byte
  mode : Fin 8 → Byte
  uid : Fin 8 → Byte
  gid : Fin 8 → Byte
  sizeEnd : Byte
  mtime : Fin 12 → Byte
  chksum : Fin 8 → Byte
  typeflag : Byte
  linkname : Fin 100 → Byte
  version : Fin 2 → Byte
  uname : Fin 32 → Byte
  gname : Fin 32 → Byte
  devmajor : Fin 8 → Byte
  devminor : Fin 8 → Byte
  name_ne_nil : name ≠ []
  name_length : name.length ≤ 99
  name_nonzero : 0 ∉ name
  contents_length : contents.length < 8 ^ 11
  sizeEnd_blank : sizeEnd = 0 ∨ sizeEnd = 0x20

def zeros (n : ℕ) : List Byte := List.replicate n 0

namespace Entry

variable (e : Entry)

def nameField : List Byte := e.name ++ zeros (100 - e.name.length)
def ownerFields : List Byte := List.ofFn e.mode ++ List.ofFn e.uid ++ List.ofFn e.gid
def sizeField : List Byte := octal 11 e.contents.length ++ [e.sizeEnd]
def linkFields : List Byte := List.ofFn e.mtime ++ List.ofFn e.chksum ++ [e.typeflag] ++ List.ofFn e.linkname
def magicField : List Byte := ustar ++ [0]

def lastFields : List Byte :=
  List.ofFn e.version ++ List.ofFn e.uname ++ List.ofFn e.gname ++ List.ofFn e.devmajor ++ List.ofFn e.devminor ++ zeros
    155 ++ zeros 12

def header : List Byte := e.nameField ++ (e.ownerFields ++ (e.sizeField ++ (e.linkFields ++ (magicField ++ e.lastFields))))

def blocks : List Byte := e.header ++ (e.contents ++ zeros ((512 - e.contents.length % 512) % 512))

@[simp] lemma length_nameField : e.nameField.length = 100 := by
  have hlength := e.name_length
  rw [nameField, length_append, zeros, length_replicate]
  omega

@[simp] lemma length_ownerFields : e.ownerFields.length = 24 := by
  simp only [ownerFields, length_append, length_ofFn]

@[simp] lemma length_sizeField : e.sizeField.length = 12 := by
  rw [sizeField, length_append, length_octal, length_singleton]

@[simp] lemma length_linkFields : e.linkFields.length = 121 := by
  simp only [linkFields, length_append, length_ofFn, length_singleton]

@[simp] lemma length_lastFields : e.lastFields.length = 249 := by
  simp only [lastFields, zeros, length_append, length_ofFn, length_replicate]

@[simp] lemma length_header : e.header.length = 512 := by simp [header, magicField, ustar]

lemma length_blocks : e.blocks.length = 512 + (e.contents.length + 511) / 512 * 512 := by
  rw [blocks, length_append, length_header, length_append, zeros, length_replicate]
  omega

end Entry

def archive (entries : List Entry) (closing : ℕ) : List Byte := entries.flatMap Entry.blocks ++ zeros (512 * closing)

end archive

variable {m : Mem} {a n : ℕ} {e : Entry}

lemma octalLoop_digits (width : ℕ) {v : ℕ} {res : Word} (h : Stored m a (octal width v)) :
    octalLoop m (width + n) a res = octalLoop m n (a + width) (res * 8 ^ width + BitVec.ofNat 64 (v % 8 ^ width)) := by
  induction width generalizing v n with
  | zero => simp [Nat.mod_one]
  | succ width ih =>
    rw [octal, stored_append, length_octal] at h
    obtain ⟨hinit, hlast, -⟩ := h
    have hbyte : (m (a + width)).toNat = 48 + v % 8 := by
      rw [hlast, toNat_ofNat]
      omega
    have hvalue : (m (a + width) - 48).setWidth 64 = BitVec.ofNat 64 (v % 8) := by
      apply eq_of_toNat_eq
      rw [toNat_setWidth, toNat_sub, hbyte, toNat_ofNat]
      change (2 ^ 8 - 48 + (48 + v % 8)) % 2 ^ 8 % 2 ^ 64 = _
      omega
    have hmod : v % 8 ^ (width + 1) = v / 8 % 8 ^ width * 8 + v % 8 := by
      rw [Nat.pow_succ', Nat.mod_mul]
      omega
    rw [show width + 1 + n = width + (n + 1) by
      omega, ih hinit, octalLoop, if_pos, hvalue, hmod, ofNat_add, ofNat_mul,
      show BitVec.ofNat 64 8 = (8 : Word) from rfl]
    · congr 1
      ring
    · constructor
      · rw [ge_iff_le, le_def, hbyte]
        exact Nat.le_add_right 48 _
      · rw [le_def, hbyte]
        change 48 + v % 8 ≤ 55
        omega

lemma octalToInt_sizeField (h : Stored m a e.sizeField) : octalToInt m a 12 = BitVec.ofNat 64 e.contents.length := by
  rw [Entry.sizeField, stored_append, length_octal] at h
  obtain ⟨hdigits, hend, -⟩ := h
  rw [octalToInt, octalLoop_digits 11 (n := 1) hdigits, octalLoop, if_neg, Nat.mod_eq_of_lt e.contents_length]
  · simp
  · rw [hend]
    rcases e.sizeEnd_blank with h0 | h0
    · rw [h0]
      decide
    · rw [h0]
      decide

lemma stored_header (h : Stored m a e.header) : Stored m a (e.name ++ [0]) ∧ Stored m (a + 124) e.sizeField ∧
    Stored m (a + 257) ustar := by
  have hlength := e.name_length
  simp only [Entry.header, stored_append, Entry.length_nameField, Entry.length_ownerFields, Entry.length_sizeField,
    Entry.length_linkFields, Entry.magicField] at h
  obtain ⟨hname, -, hsize, -, ⟨hmagic, -⟩, -⟩ := h
  refine ⟨?_, hsize, hmagic⟩
  rw [Entry.nameField, stored_append] at hname
  obtain ⟨k, hk⟩ : ∃ k, 100 - e.name.length = k + 1 := ⟨99 - e.name.length, by omega⟩
  rw [zeros, hk, List.replicate_succ] at hname
  exact stored_append.mpr ⟨hname.1, hname.2.1, trivial⟩

lemma offset_eq (e : Entry) : (512 : Word) + ((BitVec.ofNat 64 e.contents.length + 511) &&& ~~~511) =
    BitVec.ofNat 64 e.blocks.length := by
  have hsmall := e.contents_length
  have hmask : (BitVec.ofNat 64 e.contents.length + 511) &&& ~~~511 =
      (BitVec.ofNat 64 e.contents.length + 511) &&& BitVec.ofNat 64 ((2 ^ 55 - 1) * 2 ^ 9) := rfl
  have hadd : (BitVec.ofNat 64 e.contents.length + 511).toNat = e.contents.length + 511 := by
    rw [BitVec.toNat_add, toNat_ofNat]
    change (e.contents.length % 2 ^ 64 + 511) % 2 ^ 64 = _
    omega
  apply eq_of_toNat_eq
  rw [BitVec.toNat_add, hmask, Word.toNat_and_field _ 9 55 (by decide), hadd, toNat_ofNat, Entry.length_blocks]
  change (512 + _) % 2 ^ 64 = _
  omega

def firstNamed (filename : List Byte) : Word → List Entry → Option (Word × Word)
  | _, [] => none
  | header, e :: es =>
    if e.name = filename then some (header + 512, BitVec.ofNat 64 e.contents.length)
    else firstNamed filename (header + BitVec.ofNat 64 e.blocks.length) es

lemma length_le_archive (es : List Entry) (closing : ℕ) : 512 * es.length ≤ (archive es closing).length := by
  rw [archive, length_append]
  apply Nat.le_add_right_of_le
  induction es with
  | nil => exact Nat.zero_le _
  | cons =>
    rw [flatMap_cons, length_append, length_cons, Entry.length_blocks]
    omega

lemma archive_cons (e : Entry) (es : List Entry) (closing : ℕ) : archive (e :: es) closing =
    e.blocks ++ archive es closing := by
  rw [archive, flatMap_cons, List.append_assoc, archive]

variable {header : Word} {wanted : List Byte} {es : List Entry}

lemma lookupFrom_archive {filename stop : Word} {closing fuel : ℕ}
    (hwanted : Stored m filename.toNat (wanted ++ [0])) (hnonzero : 0 ∉ wanted)
    (hstored : Stored m header.toNat (archive es closing))
    (hstop : header.toNat + (archive es closing).length = stop.toNat) (hfuel : es.length < fuel) :
    lookupFrom m filename stop fuel header = some (firstNamed wanted header es) := by
  induction es generalizing header fuel with
  | nil =>
    obtain ⟨fuel, rfl⟩ := Nat.exists_eq_succ_of_ne_zero (Nat.ne_zero_of_lt hfuel)
    rw [lookupFrom, if_neg]
    · rfl
    · rintro ⟨hlt, hbyte⟩
      cases closing with
      | zero =>
        rw [lt_def, ← hstop] at hlt
        exact absurd hlt (Nat.lt_irrefl _)
      | succ => exact hbyte hstored.1
  | cons e es ih =>
    obtain ⟨_, rfl⟩ := Nat.exists_eq_succ_of_ne_zero (Nat.ne_zero_of_lt hfuel)
    rw [archive_cons, stored_append] at hstored
    rw [archive_cons, length_append] at hstop
    obtain ⟨hblocks, _⟩ := hstored
    obtain ⟨hname, hsize, hmagic⟩ := stored_header (stored_append.mp hblocks).1
    have hlength := e.length_blocks
    have hlt : header < stop := by
      rw [lt_def]
      omega
    have hfirst : m header.toNat ≠ 0 := by
      intro h0
      have hnonzero := e.name_nonzero
      cases hshape : e.name with
      | nil => exact e.name_ne_nil hshape
      | cons b =>
        rw [hshape] at hname hnonzero
        have hb := hname.1
        exact hnonzero (hb.symm.trans h0 ▸ mem_cons_self)
    have hshort : e.name.length < 2 ^ 64 := e.name_length.trans_lt (by decide)
    obtain ⟨_, horder, hzero⟩ := strcmp_eq_zero_iff hname hwanted e.name_nonzero hnonzero hshort
    rw [lookupFrom, if_pos ⟨hlt, hfirst⟩, if_pos (memcmp_stored hmagic), octalToInt_sizeField hsize]
    simp only [horder, bind_eq_bind, bind_some, hzero, firstNamed, offset_eq]
    split
    · rfl
    · have hnext : (header + BitVec.ofNat 64 e.blocks.length).toNat = header.toNat + e.blocks.length :=
        Word.toNat_add_ofNat (by omega)
      apply ih
      · rwa [hnext]
      · rw [hnext]
        omega
      · exact Nat.lt_of_succ_lt_succ hfuel

lemma firstNamed_eq_none : firstNamed wanted header es = none ↔ ∀ e ∈ es, e.name ≠ wanted := by
  induction es generalizing header with
  | nil => exact ⟨fun _ => forall_mem_nil _, fun _ => rfl⟩
  | cons e es ih =>
    rw [firstNamed, forall_mem_cons]
    split
    · rename_i hname
      exact ⟨fun h => absurd h (some_ne_none _), fun h => absurd hname h.1⟩
    · rename_i hname
      rw [ih]
      exact ⟨fun h => ⟨hname, h⟩, And.right⟩

lemma firstNamed_append {earlier : List Entry} (h : ∀ e ∈ earlier, e.name ≠ wanted) :
    firstNamed wanted header (earlier ++ es) =
      firstNamed wanted (header + BitVec.ofNat 64 (earlier.flatMap Entry.blocks).length) es := by
  induction earlier generalizing header with
  | nil => simp
  | cons e earlier ih =>
    obtain ⟨hname, hothers⟩ := forall_mem_cons.mp h
    rw [List.cons_append, firstNamed, if_neg hname, ih hothers, flatMap_cons, length_append, ofNat_add,
      BitVec.add_assoc]

theorem tarLookup_archive {m : Mem} (tar : Tar) (filename : Word) {wanted : List Byte} {es : List Entry} {closing : ℕ}
    (hstored : Stored m tar.tarBase.toNat (archive es closing)) (hlimit : tar.tarLimit.toNat = (archive es closing).length)
    (hend : tar.tarBase.toNat + (archive es closing).length < 2 ^ 64)
    (hwanted : Stored m filename.toNat (wanted ++ [0])) (hnonzero : 0 ∉ wanted) :
    (∀ earlier e later, es = earlier ++ e :: later → e.name = wanted → (∀ x ∈ earlier, x.name ≠ wanted) →
      ∃ data size, tarLookup m tar filename = some (some (data, size)) ∧
        data.toNat = tar.tarBase.toNat + (earlier.flatMap Entry.blocks).length + 512 ∧
        size.toNat = e.contents.length ∧ Stored m data.toNat e.contents) ∧
    (tarLookup m tar filename = some none ↔ ∀ e ∈ es, e.name ≠ wanted) := by
  have hstop : tar.tarBase.toNat + (archive es closing).length = (tar.tarBase + tar.tarLimit).toNat := by
    rw [BitVec.toNat_add, hlimit, Nat.mod_eq_of_lt hend]
  have hfuel : es.length < 2 ^ 64 := by
    have hlength := length_le_archive es closing
    omega
  have hlookup : tarLookup m tar filename = some (firstNamed wanted tar.tarBase es) :=
    lookupFrom_archive hwanted hnonzero hstored hstop hfuel
  rw [hlookup]
  refine ⟨?_, ?_⟩
  · rintro earlier e later rfl hname hothers
    have hsplit : archive (earlier ++ e :: later) closing =
        earlier.flatMap Entry.blocks ++ (e.header ++ (e.contents ++ zeros ((512 - e.contents.length % 512) % 512)) ++
          archive later closing) := by
      rw [archive, flatMap_append, List.append_assoc, ← archive, archive_cons, Entry.blocks]
    rw [hsplit] at hstored hend
    simp only [stored_append, Entry.length_header] at hstored
    simp only [length_append, Entry.length_header] at hend
    have hdata : (tar.tarBase + BitVec.ofNat 64 (earlier.flatMap Entry.blocks).length + 512).toNat =
        tar.tarBase.toNat + (earlier.flatMap Entry.blocks).length + 512 := by
      have hstart := Word.toNat_add_ofNat (a := tar.tarBase) (n := (earlier.flatMap Entry.blocks).length) (by omega)
      have hbehind := Word.toNat_add_ofNat (a := tar.tarBase + BitVec.ofNat 64 (earlier.flatMap Entry.blocks).length)
        (n := 512) (by omega)
      rw [hstart] at hbehind
      exact hbehind
    refine ⟨_, BitVec.ofNat 64 e.contents.length, ?_, hdata, ?_, ?_⟩
    · rw [firstNamed_append hothers, firstNamed, if_pos hname]
    · have hsmall := e.contents_length
      rw [toNat_ofNat]
      omega
    · rw [hdata]
      exact hstored.2.1.2.1
  · rw [Option.some.injEq]
    exact firstNamed_eq_none

def plainFile (name contents : List Byte) (hname : name ≠ [] ∧ name.length ≤ 99 ∧ 0 ∉ name)
    (hcontents : contents.length < 8 ^ 11) : Entry :=
  ⟨name, contents, fun _ => 0, fun _ => 0, fun _ => 0, 0, fun _ => 0, fun _ => 0, 0x30, fun _ => 0, fun _ => 0,
    fun _ => 0, fun _ => 0,
    fun _ => 0, fun _ => 0, hname.1, hname.2.1, hname.2.2, hcontents, Or.inl rfl⟩

def fileA : Entry := plainFile [0x61] [1, 2, 3] (by decide) (by decide)
def fileB : Entry := plainFile [0x62] [4, 5] (by decide) (by decide)

def ramdisk : Mem := place (place (fun _ => 0) 0x10 [0x62, 0]) 0x1000 (archive [fileA, fileB] 2)

theorem tarLookup_archive_ramdisk :
    ∃ data size, tarLookup ramdisk ⟨0x1000, 3072⟩ 0x10 = some (some (data, size)) ∧ data.toNat = 0x1000 + 1024 + 512 ∧
      size.toNat = 2 ∧ Stored ramdisk data.toNat [4, 5] := by
  have hlength : (archive [fileA, fileB] 2).length = 3072 := by
    rw [archive, flatMap_cons, flatMap_singleton, length_append, length_append, Entry.length_blocks,
      Entry.length_blocks, zeros, length_replicate]
    rfl
  have hearlier : ([fileA].flatMap Entry.blocks).length = 1024 := by
    rw [flatMap_singleton, Entry.length_blocks]
    rfl
  have hname : Stored ramdisk (0x10 : Word).toNat ([0x62] ++ [0]) := (stored_place _ 0x10 [0x62, 0]).place (by decide)
  have hother : ∀ x ∈ [fileA], x.name ≠ [0x62] := by
    rintro x hx
    rw [mem_singleton.mp hx]
    decide
  have hlookup := (tarLookup_archive ⟨0x1000, 3072⟩ 0x10 (stored_place _ _ _) hlength.symm (by rw [hlength]; decide) hname
    (by decide)).1 [fileA] fileB [] rfl rfl hother
  rw [hearlier] at hlookup
  exact hlookup

end KernelSmp.Fs
