import KernelSmp.Base.Words
import Mathlib.Data.List.TakeWhile
import Mathlib.Logic.Relation

/-! The paths of the virtual file system. `vfs_find_path` copies a path into a buffer of 256 bytes and looks up one component
after the other. -/

namespace KernelSmp.Fs.Vfs

open Base Function List Option

variable {Node : Type}

/-- A node without operations or without `finddir` has no `finddir`; `ptr` is the root mounted on a node. -/
structure Tree (Node : Type) where
  vfsRoot : Node
  finddir : Node → Option (List Byte → Option Node)
  ptr : Node → Option Node

def strncpy (src : List Byte) (n : ℕ) : List Byte := src.take n ++ List.replicate (n - src.length) 0

def strtokR (s : List Byte) : Option (List Byte × List Byte) :=
  match s.dropWhile (· == 0x2F) with
  | [] => none
  | b :: s => some ((b :: s).takeWhile (· != 0x2F), ((b :: s).dropWhile (· != 0x2F)).tail)

def findLoop (t : Tree Node) : ℕ → Node → List Byte → Option Node
  | 0, _, _ => none
  | fuel + 1, current, s =>
    match strtokR s with
    | none => some current
    | some (token, rest) => do
      let current := (t.ptr current).getD current
      let finddir ← t.finddir current
      findLoop t fuel (← finddir token) rest

/-- The string in the buffer ends with its first zero, be it in the buffer or in the `stack` behind it. -/
def vfsFindPath (t : Tree Node) (stack : List Byte) : List Byte → Option Node
  | [] => none
  | b :: path =>
    if b ≠ 0x2F then none
    else if path = [] then some t.vfsRoot
    else
      let s := (strncpy path 256 ++ stack).takeWhile (· != 0)
      findLoop t (s.length + 1) t.vfsRoot s

def vfsMount [DecidableEq Node] (t : Tree Node) (stack path : List Byte) (localRoot : Option Node) : Tree Node :=
  match vfsFindPath t stack path with
  | none => t
  | some node => { t with ptr := update t.ptr node localRoot }

def components (s : List Byte) : List (List Byte) := (s.splitOnP (· == 0x2F)).filter (· != [])

section walks

variable (t : Tree Node)

def Crosses (n m : Node) : Prop := Relation.ReflTransGen (fun a b => t.ptr a = some b) n m ∧ t.ptr m = none

def lookup (n : Node) (name : List Byte) : Option Node := (t.finddir n).bind fun finddir => finddir name

inductive Walk : Node → List (List Byte) → Node → Prop
  | stay (n : Node) : Walk n [] n
  | enter {n m k r : Node} {name : List Byte} {names : List (List Byte)} :
    Crosses t n m → lookup t m name = some k → Walk k names r → Walk n (name :: names) r

inductive Fails : Node → List (List Byte) → Prop
  | here {n m : Node} {name : List Byte} {names : List (List Byte)} :
    Crosses t n m → lookup t m name = none → Fails n (name :: names)
  | later {n m k : Node} {name : List Byte} {names : List (List Byte)} :
    Crosses t n m → lookup t m name = some k → Fails k names → Fails n (name :: names)

end walks

variable {s token rest : List Byte}

lemma components_slash (s : List Byte) : components (0x2F :: s) = components s := by
  have hsplit : ([] ++ 0x2F :: s).splitOnP (· == (0x2F : Byte)) = [] :: s.splitOnP (· == 0x2F) :=
    splitOnP_append_cons_of_forall_mem (by simp) 0x2F rfl s
  rw [nil_append] at hsplit
  rw [components, hsplit]
  rfl

lemma components_dropWhile (s : List Byte) : components (s.dropWhile (· == 0x2F)) = components s := by
  induction s with
  | nil => rfl
  | cons b s ih =>
    by_cases hb : b = 0x2F
    · rw [dropWhile_cons_of_pos (by simpa using hb), ih, hb, components_slash]
    · rw [dropWhile_cons_of_neg (by simpa using hb)]

lemma components_token (htoken : ∀ b ∈ token, (b == (0x2F : Byte)) = false) (hne : token ≠ []) (rest : List Byte) :
    components token = [token] ∧ components (token ++ 0x2F :: rest) = token :: components rest := by
  have hkeep := bne_iff_ne.mpr hne
  constructor
  · rw [components, splitOnP_eq_singleton htoken, filter_singleton, hkeep]
    rfl
  · rw [components, splitOnP_append_cons_of_forall_mem htoken 0x2F rfl, filter_cons, if_pos hkeep]
    rfl

lemma strtokR_none (h : strtokR s = none) : components s = [] := by
  rw [← components_dropWhile]
  cases hs : s.dropWhile (· == 0x2F) with
  | nil => rfl
  | cons =>
    simp only [strtokR, hs] at h
    cases h

lemma strtokR_some (h : strtokR s = some (token, rest)) : components s = token :: components rest ∧ rest.length < s.length := by
  have hle := (dropWhile_sublist (l := s) (· == 0x2F)).length_le
  have hfirst := List.head?_dropWhile_not (· == 0x2F) s
  rw [← components_dropWhile]
  cases hs : s.dropWhile (· == 0x2F) with
  | nil =>
    simp only [strtokR, hs] at h
    cases h
  | cons b l =>
    simp only [strtokR, hs] at h
    rw [hs] at hle hfirst
    rw [length_cons] at hle
    obtain ⟨htoken, hrest⟩ := Prod.mk.inj (Option.some.inj h)
    have hsplit := takeWhile_append_dropWhile (p := (· != (0x2F : Byte))) (l := b :: l)
    have hclear : ∀ c ∈ token, (c == (0x2F : Byte)) = false := by
      intro c hc
      rw [← htoken] at hc
      simpa using mem_takeWhile_imp hc
    have hne : token ≠ [] := by
      rw [← htoken, takeWhile_cons_of_pos (by simpa using hfirst)]
      exact cons_ne_nil _ _
    rw [htoken] at hsplit
    cases hdrop : (b :: l).dropWhile (· != 0x2F) with
    | nil =>
      rw [hdrop] at hrest hsplit
      rw [← hsplit, append_nil, (components_token hclear hne []).1, ← hrest]
      exact ⟨rfl, by rw [tail_nil, length_nil]; omega⟩
    | cons c =>
      have hc := List.head?_dropWhile_not (· != (0x2F : Byte)) (b :: l)
      rw [hdrop] at hc
      replace hc : c = 0x2F := by simpa using hc
      rw [hdrop, hc] at hsplit
      rw [hdrop, tail_cons] at hrest
      have hlength := congrArg List.length hsplit
      rw [length_append, length_cons, length_cons, hrest] at hlength
      rw [← hsplit, hrest, (components_token hclear hne rest).2]
      exact ⟨rfl, by omega⟩

variable {n m r : Node} {name path : List Byte} {names : List (List Byte)}

section resolution

variable {t : Tree Node}

def Tree.Single (t : Tree Node) : Prop := ∀ n m, t.ptr n = some m → t.ptr m = none

lemma crosses_iff (hsingle : t.Single) : Crosses t n m ↔ m = (t.ptr n).getD n := by
  constructor
  · rintro ⟨hreach, hlast⟩
    rcases hreach.cases_head with rfl | ⟨k, hk, hrest⟩
    · rw [hlast, getD_none]
    · rcases hrest.cases_head with rfl | ⟨j, hj, -⟩
      · rw [hk, getD_some]
      · simp [hsingle n k hk] at hj
  · rintro rfl
    cases hn : t.ptr n with
    | none => exact ⟨.refl, hn⟩
    | some k => exact ⟨.single hn, hsingle n k hn⟩

lemma walk_nil : Walk t n [] r ↔ n = r := by
  constructor
  · rintro ⟨⟩
    rfl
  · rintro rfl
    exact .stay n

lemma walk_cons (hsingle : t.Single) : Walk t n (name :: names) r ↔
    ∃ k, lookup t ((t.ptr n).getD n) name = some k ∧ Walk t k names r := by
  constructor
  · rintro (_ | ⟨hcross, hfind, hwalk⟩)
    rw [(crosses_iff hsingle).mp hcross] at hfind
    exact ⟨_, hfind, hwalk⟩
  · rintro ⟨_, hfind, hwalk⟩
    exact .enter ((crosses_iff hsingle).mpr rfl) hfind hwalk

lemma fails_cons (hsingle : t.Single) : Fails t n (name :: names) ↔ lookup t ((t.ptr n).getD n) name = none ∨
    ∃ k, lookup t ((t.ptr n).getD n) name = some k ∧ Fails t k names := by
  constructor
  · rintro (⟨hcross, hfind⟩ | ⟨hcross, hfind, hfails⟩)
    · rw [(crosses_iff hsingle).mp hcross] at hfind
      exact .inl hfind
    · rw [(crosses_iff hsingle).mp hcross] at hfind
      exact .inr ⟨_, hfind, hfails⟩
  · rintro (hfind | ⟨k, hfind, hfails⟩)
    · exact .here ((crosses_iff hsingle).mpr rfl) hfind
    · exact .later ((crosses_iff hsingle).mpr rfl) hfind hfails

lemma findLoop_spec (hsingle : t.Single) {fuel : ℕ} (hfuel : s.length < fuel) (n : Node) :
    (∀ r, findLoop t fuel n s = some r ↔ Walk t n (components s) r) ∧
    (findLoop t fuel n s = none ↔ Fails t n (components s)) := by
  induction fuel generalizing s n with
  | zero => omega
  | succ fuel ih =>
    cases hs : strtokR s with
    | none =>
      simp only [findLoop, hs, strtokR_none hs, walk_nil, Option.some.injEq, implies_true, true_and, reduceCtorEq, false_iff]
      rintro ⟨⟩
    | some found =>
      obtain ⟨token, rest⟩ := found
      obtain ⟨hcomponents, _⟩ := strtokR_some hs
      have hloop : findLoop t (fuel + 1) n s =
          (lookup t ((t.ptr n).getD n) token).bind fun k => findLoop t fuel k rest := by
        simp only [findLoop, hs, lookup, bind_eq_bind, bind_assoc]
      rw [hloop, hcomponents]
      simp only [walk_cons hsingle, fails_cons hsingle]
      cases hfind : lookup t ((t.ptr n).getD n) token with
      | none => simp
      | some k => simpa using ih (by omega) k

lemma string_of_short (hshort : path.length < 256) (hzero : 0 ∉ path) (stack : List Byte) :
    (strncpy path 256 ++ stack).takeWhile (· != 0) = path := by
  obtain ⟨k, _⟩ := Nat.exists_eq_add_of_lt hshort
  rw [strncpy, take_of_length_le hshort.le, show 256 - path.length = k + 1 by omega, replicate_succ,
    append_assoc, takeWhile_append_of_pos, cons_append, takeWhile_cons_of_neg (by decide), append_nil]
  intro b hb
  refine bne_iff_ne.mpr ?_
  rintro rfl
  exact hzero hb

def sample (ptr : ℕ → Option ℕ) : Tree ℕ where
  vfsRoot := 0
  finddir
    | 0 => some fun name => if name = [0x61] then some 1 else if name = [0x62] then some 2 else none
    | 1 => some fun _ => none
    | 3 => some fun name => if name = [0x78] then some 4 else none
    | _ => none
  ptr := ptr

end resolution

end KernelSmp.Fs.Vfs
