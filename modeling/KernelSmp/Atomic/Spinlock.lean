import KernelSmp.Base.Runs

/-! The ticket lock of `atomic.c` with `g_lock_enabled` set. Every atomic operation and every load is one action. -/

namespace KernelSmp.Atomic.Spinlock

open Base.Runs Function List Option BitVec

/-- Where a CPU is in the lock code, with its local variables. For `spin_trylock` the number of tickets that
were taken before its first load is kept as well. -/
inductive Pc
  | idle
  | waiting (myTicket : BitVec 32)
  | holding
  | releasing (next : BitVec 32)
  | tryLoaded (currentTicket : BitVec 32) (since : ℕ)
  | tryCompared (currentTicket : BitVec 32) (since : ℕ)
  deriving DecidableEq, Repr

structure Lock (K : Type) where
  ticket : BitVec 32
  current : BitVec 32
  lastCpu : Option K

/-- The lock and the CPUs, with the CPUs in the order in which they obtained tickets and in the order in
which they acquired the lock. -/
structure State (K : Type) where
  lock : Lock K
  pc : K → Pc
  tickets : List K
  acquired : List K

section model

variable {K : Type} [DecidableEq K]

def State.goto (s : State K) (c : K) (p : Pc) : State K := { s with pc := update s.pc c p }

def takeTicket (s : State K) (c : K) : State K :=
  { s with lock := { s.lock with ticket := s.lock.ticket + 1 }, tickets := s.tickets ++ [c] }.goto c (.waiting s.lock.ticket)

def acquire (s : State K) (c : K) : State K :=
  { s with lock := { s.lock with lastCpu := some c }, acquired := s.acquired ++ [c] }.goto c .holding

inductive Action (K : Type)
  | lock (c : K)
  | spin (c : K)
  | unlock (c : K)
  | store (c : K)
  | tryLoad (c : K)
  | tryCompare (c : K)
  | tryExchange (c : K)
  deriving DecidableEq, Repr

def step (s : State K) : Action K → Option (State K)
  | .lock c => if s.pc c = .idle then some (takeTicket s c) else none
  | .spin c =>
    match s.pc c with
    | .waiting myTicket => some (if s.lock.current ≠ myTicket then s else acquire s c)
    | _ => none
  | .unlock c =>
    if s.pc c = .holding then some ({ s with lock := { s.lock with lastCpu := none } }.goto c (.releasing (s.lock.current + 1)))
    else none
  | .store c =>
    match s.pc c with
    | .releasing next => some ({ s with lock := { s.lock with current := next } }.goto c .idle)
    | _ => none
  | .tryLoad c => if s.pc c = .idle then some (s.goto c (.tryLoaded s.lock.ticket s.tickets.length)) else none
  | .tryCompare c =>
    match s.pc c with
    | .tryLoaded t since => some (s.goto c (if s.lock.current ≠ t then .idle else .tryCompared t since))
    | _ => none
  | .tryExchange c =>
    match s.pc c with
    | .tryCompared t _ =>
      some (if s.lock.ticket = t then
        acquire { s with lock := { s.lock with ticket := t + 1 }, tickets := s.tickets ++ [c] } c
      else s.goto c .idle)
    | _ => none

def initial : State K := ⟨⟨0, 0, none⟩, fun _ => .idle, [], []⟩

end model

section queue

variable {K : Type}

def Waits (s : State K) (c : K) : Prop := ∃ t, s.pc c = .waiting t
def Holds (s : State K) (c : K) : Prop := s.pc c = .holding ∨ ∃ next, s.pc c = .releasing next

def Pc.since : Pc → Option ℕ
  | .tryCompared _ n => some n
  | _ => none

def InTime (s : State K) : Action K → Prop
  | .tryExchange c => ∀ n ∈ (s.pc c).since, s.tickets.length < n + 2 ^ 32
  | _ => True

instance (s : State K) : (a : Action K) → Decidable (InTime s a)
  | .tryExchange c => inferInstanceAs (Decidable (∀ n ∈ (s.pc c).since, s.tickets.length < n + 2 ^ 32))
  | .lock _ | .spin _ | .unlock _ | .store _ | .tryLoad _ | .tryCompare _ => .isTrue trivial

structure Fair (s : State K) : Prop where
  exclusive : ∀ c d, Holds s c → Holds s d → c = d
  inOrder : s.acquired <+: s.tickets
  noOvertaking : ∀ c t since, s.pc c = .tryCompared t since → s.lock.ticket = t → s.tickets.length < since + 2 ^ 32 →
    ∀ d, ¬ Waits s d ∧ ¬ Holds s d

structure Served (s : State K) (served q : List K) : Prop where
  tickets : s.tickets = served ++ q
  ticket : s.lock.ticket = BitVec.ofNat 32 s.tickets.length
  current : s.lock.current = BitVec.ofNat 32 served.length
  nodup : q.Nodup
  mem : ∀ c, c ∈ q ↔ Waits s c ∨ Holds s c
  place : ∀ k c, q[k]? = some c → s.pc c = .waiting (BitVec.ofNat 32 (served.length + k)) ∨ k = 0 ∧ Holds s c
  next : ∀ c n, s.pc c = .releasing n → n = BitVec.ofNat 32 (served.length + 1)
  free : (∀ c, ¬ Holds s c) → s.acquired = served
  taken : ∀ c, Holds s c → s.acquired = served ++ [c]

structure Tried (s : State K) (q : List K) : Prop where
  loaded : ∀ c t since, s.pc c = .tryLoaded t since ∨ s.pc c = .tryCompared t since →
    t = BitVec.ofNat 32 since ∧ since ≤ s.tickets.length
  compared : ∀ c t since, s.pc c = .tryCompared t since → s.tickets.length = since → q = []

variable {s s' : State K} {served q : List K} {c d : K}

lemma not_holds_of_waits (h : Waits s c) : ¬ Holds s c := by
  obtain ⟨_, ht⟩ := h
  rintro (hh | ⟨n, hn⟩)
  · exact Pc.noConfusion (ht.symm.trans hh)
  · exact Pc.noConfusion (ht.symm.trans hn)

lemma waits_congr (h : s'.pc d = s.pc d) : Waits s' d ↔ Waits s d := by
  rw [Waits, Waits, h]

lemma holds_congr (h : s'.pc d = s.pc d) : Holds s' d ↔ Holds s d := by
  rw [Holds, Holds, h]

lemma Served.first (h : Served s served q) (hc : Holds s c) : q[0]? = some c := by
  obtain ⟨k, hk⟩ := List.mem_iff_getElem?.mp ((h.mem c).mpr (.inr hc))
  rcases h.place k c hk with hw | ⟨rfl, -⟩
  · exact absurd hc (not_holds_of_waits ⟨_, hw⟩)
  · exact hk

lemma Served.exclusive (h : Served s served q) (hc : Holds s c) (hd : Holds s d) : c = d :=
  Option.some.inj ((h.first hc).symm.trans (h.first hd))

lemma ofNat_inj_of_lt {a k : ℕ} (hk : k < 2 ^ 32) (h : BitVec.ofNat 32 a = BitVec.ofNat 32 (a + k)) : k = 0 := by
  have hnat := congrArg BitVec.toNat h
  rw [toNat_ofNat, toNat_ofNat] at hnat
  omega

lemma Served.turn [Fintype K] (h : Served s served q) (hcard : Fintype.card K < 2 ^ 32) {t : BitVec 32}
    (hc : s.pc c = .waiting t) (ht : s.lock.current = t) : q[0]? = some c := by
  have hmem : c ∈ q := (h.mem c).mpr (.inl ⟨t, hc⟩)
  obtain ⟨k, hk⟩ := List.mem_iff_getElem?.mp hmem
  have hlt : k < q.length := (List.getElem?_eq_some_iff.mp hk).1
  rcases h.place k c hk with hw | ⟨-, hh⟩
  · rw [hc] at hw
    have heq : BitVec.ofNat 32 served.length = BitVec.ofNat 32 (served.length + k) := by
      rw [← h.current, ht]
      exact Pc.waiting.inj hw
    obtain rfl := ofNat_inj_of_lt (hlt.trans (h.nodup.length_le_card.trans_lt hcard)) heq
    exact hk
  · exact absurd hh (not_holds_of_waits ⟨t, hc⟩)

lemma Served.eq_nil (h : Served s served q) (htried : Tried s q) {t : BitVec 32} {since : ℕ}
    (hc : s.pc c = .tryCompared t since) (ht : s.lock.ticket = t) (hin : s.tickets.length < since + 2 ^ 32) : q = [] := by
  obtain ⟨rfl, _⟩ := htried.loaded c t since (.inr hc)
  refine htried.compared c _ since hc ?_
  rw [h.ticket] at ht
  have hnat := congrArg BitVec.toNat ht
  rw [toNat_ofNat, toNat_ofNat] at hnat
  omega

lemma Served.fair (h : Served s served q) (htried : Tried s q) : Fair s := by
  refine ⟨fun c d hc hd => h.exclusive hc hd, ?_, fun c t since hc ht hin d => ?_⟩
  · by_cases hfree : ∀ c, ¬ Holds s c
    · rw [h.free hfree, h.tickets]
      exact prefix_append served q
    · obtain ⟨c, hc⟩ := not_forall_not.mp hfree
      have hfirst := h.first hc
      cases q with
      | nil => cases hfirst
      | cons d q =>
        obtain rfl : d = c := Option.some.inj hfirst
        rw [h.taken d hc, h.tickets]
        exact (prefix_append_right_inj served).mpr (prefix_append [d] q)
  · have hout := mt (h.mem d).mpr
    rw [h.eq_nil htried hc ht hin] at hout
    exact not_or.mp (hout not_mem_nil)

end queue

section steps

variable {K : Type} [DecidableEq K] {s s' : State K} {served q q' : List K} {c d : K} {p : Pc}

structure Moves (s s' : State K) (c : K) (p : Pc) : Prop where
  self : s'.pc c = p
  other : ∀ d, d ≠ c → s'.pc d = s.pc d

lemma moves_of_pc (h : s'.pc = update s.pc c p) : Moves s s' c p := by
  refine ⟨?_, fun d hd => ?_⟩
  · rw [h, update_self]
  · rw [h, update_of_ne hd]

omit [DecidableEq K] in
lemma Tried.moves (h : Tried s q) (hm : Moves s s' c p) (hlen : s.tickets.length ≤ s'.tickets.length)
    (hq : s'.tickets.length = s.tickets.length → q = [] → q' = [])
    (hp : ∀ t since, p ≠ .tryLoaded t since ∧ p ≠ .tryCompared t since) : Tried s' q' := by
  have hne : ∀ d t since, s'.pc d = .tryLoaded t since ∨ s'.pc d = .tryCompared t since → s'.pc d = s.pc d := by
    rintro d t since ht
    refine hm.other d ?_
    rintro rfl
    rw [hm.self] at ht
    exact ht.elim (hp t since).1 (hp t since).2
  refine ⟨fun d t since ht => ?_, fun d t since ht hlen' => ?_⟩
  · have hd := hne d t since ht
    rw [hd] at ht
    obtain ⟨heq, hle⟩ := h.loaded d t since ht
    exact ⟨heq, hle.trans hlen⟩
  · have hd := hne d t since (.inr ht)
    rw [hd] at ht
    have hle := (h.loaded d t since (.inr ht)).2
    exact hq (by omega) (h.compared d t since ht (by omega))

omit [DecidableEq K] in
lemma Moves.waits_iff (hm : Moves s s' c p) (hd : d ≠ c) : Waits s' d ↔ Waits s d := waits_congr (hm.other d hd)

omit [DecidableEq K] in
lemma Moves.holds_iff (hm : Moves s s' c p) (hd : d ≠ c) : Holds s' d ↔ Holds s d := holds_congr (hm.other d hd)

omit [DecidableEq K] in
lemma Served.outside (h : Served s served q) (hm : Moves s s' c p) (hw : ¬ Waits s' c) (hh : ¬ Holds s' c) (hout : c ∉ q)
    (htickets : s'.tickets = s.tickets) (hlock : s'.lock = s.lock) (hacquired : s'.acquired = s.acquired) :
      Served s' served q := by
  have hholds : ∀ d, Holds s' d ↔ Holds s d := by
    intro d
    rcases eq_or_ne d c with rfl | hd
    · exact iff_of_false hh fun hold => hout ((h.mem d).mpr (.inr hold))
    · exact hm.holds_iff hd
  refine ⟨htickets.trans h.tickets, ?_, ?_, h.nodup, fun d => ?_, fun k d hk => ?_, fun d n hn => ?_, fun hfree => ?_,
    fun d hd => ?_⟩
  · rw [hlock, h.ticket, htickets]
  · rw [hlock, h.current]
  · rcases eq_or_ne d c with rfl | hd
    · exact iff_of_false hout (not_or.mpr ⟨hw, hh⟩)
    · rw [h.mem, hm.waits_iff hd, hm.holds_iff hd]
  · have hd : d ≠ c := by
      rintro rfl
      exact hout (List.mem_of_getElem? hk)
    rw [hm.other d hd, hholds]
    exact h.place k d hk
  · have hd : d ≠ c := by
      rintro rfl
      exact hh (.inr ⟨n, hn⟩)
    rw [hm.other d hd] at hn
    exact h.next d n hn
  · rw [hacquired]
    exact h.free fun d hd => hfree d ((hholds d).mpr hd)
  · rw [hacquired]
    exact h.taken d ((hholds d).mp hd)

lemma Served.takeTicket (h : Served s served q) (hout : c ∉ q) : Served (takeTicket s c) served (q ++ [c]) := by
  have hm : Moves s (Spinlock.takeTicket s c) c (.waiting s.lock.ticket) := moves_of_pc rfl
  have hwaits : Waits (Spinlock.takeTicket s c) c := ⟨_, hm.self⟩
  have hholds : ∀ d, Holds (Spinlock.takeTicket s c) d ↔ Holds s d := by
    intro d
    rcases eq_or_ne d c with rfl | hd
    · exact iff_of_false (not_holds_of_waits hwaits) fun hold => hout ((h.mem d).mpr (.inr hold))
    · exact hm.holds_iff hd
  have htickets : (Spinlock.takeTicket s c).tickets = s.tickets ++ [c] := rfl
  refine ⟨?_, ?_, h.current, ?_, fun d => ?_, fun k d hk => ?_, fun d n hn => ?_, fun hfree => ?_, fun d hd => ?_⟩
  · rw [htickets, h.tickets, List.append_assoc]
  · rw [htickets, length_append, length_singleton, ofNat_add, ← h.ticket]
    rfl
  · exact nodup_append.mpr ⟨h.nodup, nodup_singleton c, fun a ha b hb hab => hout (by
      rwa [hab, mem_singleton.mp hb] at ha)⟩
  · rcases eq_or_ne d c with rfl | hd
    · exact iff_of_true mem_concat_self (.inl hwaits)
    · rw [mem_append, mem_singleton, or_iff_left hd, h.mem, hm.waits_iff hd, hm.holds_iff hd]
  · rcases Nat.lt_or_ge k q.length with hlt | hge
    · rw [List.getElem?_append_left hlt] at hk
      have hd : d ≠ c := by
        rintro rfl
        exact hout (List.mem_of_getElem? hk)
      rw [hm.other d hd, hholds]
      exact h.place k d hk
    · rw [List.getElem?_append_right hge] at hk
      obtain ⟨hzero, rfl⟩ : k - q.length = 0 ∧ c = d := by
        cases hsub : k - q.length with
        | zero =>
          rw [hsub] at hk
          exact ⟨rfl, Option.some.inj hk⟩
        | succ =>
          simp [hsub] at hk
      refine .inl ?_
      rw [hm.self, h.ticket, h.tickets, length_append, show served.length + k = served.length + q.length by omega]
  · have hd : d ≠ c := by
      rintro rfl
      exact not_holds_of_waits hwaits (.inr ⟨n, hn⟩)
    rw [hm.other d hd] at hn
    exact h.next d n hn
  · exact h.free fun d hd => hfree d ((hholds d).mpr hd)
  · exact h.taken d ((hholds d).mp hd)

omit [DecidableEq K] in
lemma Served.hold (h : Served s served q) (hm : Moves s s' c p) (hfirst : q[0]? = some c) (hc : Holds s' c)
    (hnext : ∀ n, p = .releasing n → n = BitVec.ofNat 32 (served.length + 1)) (htickets : s'.tickets = s.tickets)
    (hticket : s'.lock.ticket = s.lock.ticket) (hcurrent : s'.lock.current = s.lock.current)
    (hacquired : s'.acquired = served ++ [c]) : Served s' served q := by
  have honly : ∀ d, Holds s' d → d = c := by
    intro d hd
    by_contra hne
    rw [hm.holds_iff hne] at hd
    exact hne (Option.some.inj ((h.first hd).symm.trans hfirst))
  refine ⟨htickets.trans h.tickets, ?_, hcurrent.trans h.current, h.nodup, fun d => ?_, fun k d hk => ?_, fun d n hn => ?_,
    fun hfree => absurd hc (hfree c), fun d hd => ?_⟩
  · rw [hticket, h.ticket, htickets]
  · rcases eq_or_ne d c with rfl | hd
    · exact iff_of_true (List.mem_of_getElem? hfirst) (.inr hc)
    · rw [h.mem, hm.waits_iff hd, hm.holds_iff hd]
  · rcases eq_or_ne d c with rfl | hd
    · refine .inr ⟨?_, hc⟩
      exact (List.getElem?_inj (List.getElem?_eq_some_iff.mp hk).1 h.nodup).mp (hk.trans hfirst.symm)
    · rw [hm.other d hd, hm.holds_iff hd]
      exact h.place k d hk
  · obtain rfl := honly d (.inr ⟨n, hn⟩)
    exact hnext n (hm.self.symm.trans hn)
  · rw [honly d hd, hacquired]

omit [DecidableEq K] in
lemma Served.serve (h : Served s served (c :: q)) (hm : Moves s s' c .idle) (hc : Holds s c) (htickets : s'.tickets = s.tickets)
    (hticket : s'.lock.ticket = s.lock.ticket) (hcurrent : s'.lock.current = BitVec.ofNat 32 (served.length + 1))
    (hacquired : s'.acquired = s.acquired) : Served s' (served ++ [c]) q := by
  obtain ⟨hout, hnodup⟩ := nodup_cons.mp h.nodup
  have hidle : ¬ Waits s' c ∧ ¬ Holds s' c := by
    simp [Waits, Holds, hm.self]
  have hnone : ∀ d, ¬ Holds s' d := by
    intro d hd
    by_cases hdc : d = c
    · exact hidle.2 (hdc ▸ hd)
    · rw [hm.holds_iff hdc] at hd
      exact hdc (h.exclusive hd hc)
  have hne : ∀ d ∈ q, d ≠ c := by
    rintro d hd rfl
    exact hout hd
  refine ⟨?_, ?_, ?_, hnodup, fun d => ?_, fun k d hk => ?_, fun d n hn => absurd (.inr ⟨n, hn⟩) (hnone d), fun _ => ?_,
    fun d hd => absurd hd (hnone d)⟩
  · rw [htickets, h.tickets, List.append_assoc, singleton_append]
  · rw [hticket, h.ticket, htickets]
  · rw [hcurrent, length_append, length_singleton]
  · rcases eq_or_ne d c with rfl | hd
    · exact iff_of_false hout (not_or.mpr hidle)
    · rw [hm.waits_iff hd, hm.holds_iff hd, ← h.mem, mem_cons, or_iff_right hd]
  · have hd := hne d (List.mem_of_getElem? hk)
    refine .inl ?_
    rw [hm.other d hd, length_append, length_singleton, Nat.add_assoc, Nat.add_comm 1 k]
    exact (h.place (k + 1) d hk).resolve_right fun hzero => Nat.succ_ne_zero k hzero.1
  · rw [hacquired, h.taken c hc]

def Inv (s : State K) : Prop := ∃ served q, Served s served q ∧ Tried s q

omit [DecidableEq K] in
lemma Served.notMem (h : Served s served q) (hw : ∀ t, s.pc c ≠ .waiting t) (hh : s.pc c ≠ .holding)
    (hr : ∀ n, s.pc c ≠ .releasing n) : c ∉ q := by
  intro hin
  rcases (h.mem c).mp hin with ⟨t, ht⟩ | hhold | ⟨n, hn⟩
  · exact hw t ht
  · exact hh hhold
  · exact hr n hn

lemma Inv.lock (hserved : Served s served q) (htried : Tried s q) (hc : s.pc c = .idle) : Inv (takeTicket s c) := by
  have hout : c ∉ q := hserved.notMem (by simp [hc]) (by simp [hc]) (by simp [hc])
  refine ⟨served, q ++ [c], hserved.takeTicket hout, htried.moves (moves_of_pc rfl) ?_ (fun hlen => ?_) fun _
    _ => ⟨nofun, nofun⟩⟩
  · exact length_append ▸ Nat.le_add_right _ _
  · exact absurd hlen (by simp [takeTicket, State.goto])

lemma Inv.spin [Fintype K] (hcard : Fintype.card K < 2 ^ 32) (hserved : Served s served q) (htried : Tried s q) {t : BitVec 32}
    (hc : s.pc c = .waiting t) (ht : s.lock.current = t) : Inv (acquire s c) := by
  have hfirst := hserved.turn hcard hc ht
  have hm : Moves s (acquire s c) c .holding := moves_of_pc rfl
  have hfree : ∀ d, ¬ Holds s d := by
    intro d hd
    cases hfirst.symm.trans (hserved.first hd)
    exact not_holds_of_waits ⟨t, hc⟩ hd
  refine ⟨served, q, hserved.hold hm hfirst (.inl hm.self) nofun rfl rfl rfl ?_, htried.moves hm le_rfl (fun _ => id)
    fun _ _ => ⟨nofun, nofun⟩⟩
  rw [← hserved.free hfree]
  rfl

lemma Inv.unlock (hserved : Served s served q) (htried : Tried s q) (hc : s.pc c = .holding) :
    Inv ({ s with lock := { s.lock with lastCpu := none } }.goto c (.releasing (s.lock.current + 1))) := by
  have hm : Moves s ({ s with lock := { s.lock with lastCpu := none } }.goto c (.releasing (s.lock.current + 1))) c
      (.releasing (s.lock.current + 1)) := moves_of_pc rfl
  have hhold : Holds s c := .inl hc
  refine ⟨served, q, hserved.hold hm (hserved.first hhold) (.inr ⟨_, hm.self⟩) (fun n hn => ?_) rfl rfl rfl
    (hserved.taken c hhold), htried.moves hm le_rfl (fun _ => id) fun _ _ => ⟨nofun, nofun⟩⟩
  rw [← Pc.releasing.inj hn, hserved.current, ofNat_add]
  rfl

lemma Inv.store (hserved : Served s served q) (htried : Tried s q) {n : BitVec 32} (hc : s.pc c = .releasing n) :
    Inv ({ s with lock := { s.lock with current := n } }.goto c .idle) := by
  have hm : Moves s ({ s with lock := { s.lock with current := n } }.goto c .idle) c .idle := moves_of_pc rfl
  have hhold : Holds s c := .inr ⟨n, hc⟩
  have hfirst := hserved.first hhold
  cases q with
  | nil => cases hfirst
  | cons d q =>
    obtain rfl : d = c := Option.some.inj hfirst
    exact ⟨served ++ [d], q, hserved.serve hm hhold rfl rfl (hserved.next d n hc) rfl,
      htried.moves hm le_rfl (fun _ hnil => absurd hnil (cons_ne_nil d q)) fun _ _ => ⟨nofun, nofun⟩⟩

lemma Inv.tryLoad (hserved : Served s served q) (htried : Tried s q) (hc : s.pc c = .idle) :
    Inv (s.goto c (.tryLoaded s.lock.ticket s.tickets.length)) := by
  have hm : Moves s (s.goto c (.tryLoaded s.lock.ticket s.tickets.length)) c (.tryLoaded s.lock.ticket s.tickets.length) :=
    moves_of_pc rfl
  have hout : c ∉ q := hserved.notMem (by simp [hc]) (by simp [hc]) (by simp [hc])
  refine ⟨served, q, hserved.outside hm (by simp [Waits, hm.self]) (by simp [Holds, hm.self]) hout rfl rfl rfl, ?_, ?_⟩
  · intro d t since ht
    rcases eq_or_ne d c with rfl | hd
    · rw [hm.self] at ht
      obtain ⟨rfl, rfl⟩ := Pc.tryLoaded.inj (ht.resolve_right nofun)
      exact ⟨hserved.ticket, le_rfl⟩
    · rw [hm.other d hd] at ht
      exact htried.loaded d t since ht
  · intro d t since ht
    have hd : d ≠ c := by
      rintro rfl
      simp [hm.self] at ht
    rw [hm.other d hd] at ht
    exact htried.compared d t since ht

lemma Inv.tryCompare [Fintype K] (hcard : Fintype.card K < 2 ^ 32) (hserved : Served s served q) (htried : Tried s q)
    {t : BitVec 32}
    {since : ℕ} (hc : s.pc c = .tryLoaded t since) (ht : s.lock.current = t) : Inv (s.goto c (.tryCompared t since)) := by
  have hm : Moves s (s.goto c (.tryCompared t since)) c (.tryCompared t since) := moves_of_pc rfl
  have hout : c ∉ q := hserved.notMem (by simp [hc]) (by simp [hc]) (by simp [hc])
  have hloaded := htried.loaded c t since (.inl hc)
  refine ⟨served, q, hserved.outside hm (by simp [Waits, hm.self]) (by simp [Holds, hm.self]) hout rfl rfl rfl, ?_, ?_⟩
  · intro d u n hn
    rcases eq_or_ne d c with rfl | hd
    · rw [hm.self] at hn
      obtain ⟨rfl, rfl⟩ := Pc.tryCompared.inj (hn.resolve_left nofun)
      exact hloaded
    · rw [hm.other d hd] at hn
      exact htried.loaded d u n hn
  · intro d u n hn hlen
    rcases eq_or_ne d c with rfl | hd
    · rw [hm.self] at hn
      obtain ⟨rfl, rfl⟩ := Pc.tryCompared.inj hn
      have hlen : s.tickets.length = since := hlen
      have heq : BitVec.ofNat 32 served.length = BitVec.ofNat 32 (served.length + q.length) := by
        rw [← hserved.current, ht, hloaded.1, ← hlen, hserved.tickets, length_append]
      exact eq_nil_of_length_eq_zero (ofNat_inj_of_lt (hserved.nodup.length_le_card.trans_lt hcard) heq)
    · rw [hm.other d hd] at hn
      exact htried.compared d u n hn hlen

lemma Inv.fail (hserved : Served s served q) (htried : Tried s q) (hout : c ∉ q) : Inv (s.goto c .idle) := by
  have hm : Moves s (s.goto c .idle) c .idle := moves_of_pc rfl
  exact ⟨served, q, hserved.outside hm (by simp [Waits, hm.self]) (by simp [Holds, hm.self]) hout rfl rfl rfl,
    htried.moves hm le_rfl (fun _ => id) fun _ _ => ⟨nofun, nofun⟩⟩

lemma Inv.exchange (hserved : Served s served []) (htried : Tried s []) {t : BitVec 32} (ht : s.lock.ticket = t) :
    Inv (acquire { s with lock := { s.lock with ticket := t + 1 }, tickets := s.tickets ++ [c] } c) := by
  subst ht
  have hm : Moves (takeTicket s c)
      (acquire { s with lock := { s.lock with ticket := s.lock.ticket + 1 }, tickets := s.tickets ++ [c] } c) c .holding := by
    refine ⟨update_self .., fun d hd => ?_⟩
    exact (update_of_ne hd _ _).trans (update_of_ne hd _ _).symm
  have hfree : ∀ d, ¬ Holds s d := fun d hd => not_mem_nil ((hserved.mem d).mpr (.inr hd))
  refine ⟨served, [] ++ [c], (hserved.takeTicket not_mem_nil).hold hm rfl (.inl hm.self) nofun rfl rfl rfl ?_,
    htried.moves (moves_of_pc rfl) ?_ (fun hlen => ?_) fun _ _ => ⟨nofun, nofun⟩⟩
  · rw [← hserved.free hfree]
    rfl
  · exact length_append ▸ Nat.le_add_right _ _
  · exact absurd hlen (by simp [acquire, State.goto])

lemma Inv.step [Fintype K] (hcard : Fintype.card K < 2 ^ 32) {a : Action K} (h : Inv s) (ha : InTime s a)
    (hs : step s a = some s') : Inv s' := by
  obtain ⟨served, q, hserved, htried⟩ := h
  cases a with
  | lock =>
    simp only [Spinlock.step, ite_none_right_eq_some, Option.some.injEq] at hs
    obtain ⟨hc, rfl⟩ := hs
    exact .lock hserved htried hc
  | spin =>
    simp only [Spinlock.step] at hs
    split at hs
    next t hc =>
      by_cases ht : s.lock.current = t
      · rw [if_neg (not_not.mpr ht)] at hs
        cases hs
        exact .spin hcard hserved htried hc ht
      · rw [if_pos ht] at hs
        cases hs
        exact ⟨served, q, hserved, htried⟩
    next => cases hs
  | unlock =>
    simp only [Spinlock.step, ite_none_right_eq_some, Option.some.injEq] at hs
    obtain ⟨hc, rfl⟩ := hs
    exact .unlock hserved htried hc
  | store =>
    simp only [Spinlock.step] at hs
    split at hs
    next n hc =>
      cases hs
      exact .store hserved htried hc
    next => cases hs
  | tryLoad =>
    simp only [Spinlock.step, ite_none_right_eq_some, Option.some.injEq] at hs
    obtain ⟨hc, rfl⟩ := hs
    exact .tryLoad hserved htried hc
  | tryCompare =>
    simp only [Spinlock.step] at hs
    split at hs
    next t since hc =>
      cases hs
      by_cases ht : s.lock.current = t
      · rw [if_neg (not_not.mpr ht)]
        exact .tryCompare hcard hserved htried hc ht
      · rw [if_pos ht]
        exact .fail hserved htried (hserved.notMem (by simp [hc]) (by simp [hc]) (by simp [hc]))
    next => cases hs
  | tryExchange =>
    simp only [Spinlock.step] at hs
    split at hs
    next t since hc =>
      cases hs
      by_cases ht : s.lock.ticket = t
      · rw [if_pos ht]
        obtain rfl := hserved.eq_nil htried hc ht (ha since (by rw [hc]; rfl))
        exact .exchange hserved htried ht
      · rw [if_neg ht]
        exact .fail hserved htried (hserved.notMem (by simp [hc]) (by simp [hc]) (by simp [hc]))
    next => cases hs

omit [DecidableEq K] in
lemma Inv.initial : Inv (initial : State K) := by
  refine ⟨[], [], ⟨rfl, rfl, rfl, nodup_nil, fun c => ?_, fun _ _ hk => ?_, nofun, fun _ => rfl, fun c hc => ?_⟩,
    ⟨?_, nofun⟩⟩
  · exact iff_of_false not_mem_nil (by simp [Waits, Holds, Spinlock.initial])
  · cases hk
  · exact absurd hc (by simp [Holds, Spinlock.initial])
  · rintro c t since (hc | hc)
    · cases hc
    · cases hc

end steps

theorem lock_fair {K : Type} [DecidableEq K] [Fintype K] (hcard : Fintype.card K < 2 ^ 32) (as : List (Action K))
    (has : Guarded step InTime initial as) : Always step Fair (initial : State K) as := by
  refine (invariant (fun s a s' h ha hs => Inv.step hcard h ha hs) Inv.initial has).mono fun s h => ?_
  obtain ⟨served, q, hserved, htried⟩ := h
  exact hserved.fair htried

theorem lock_fair_twoCpus : Always step Fair (initial : State (Fin 2))
    [.lock 0, .spin 0, .lock 1, .spin 1, .unlock 0, .store 0, .spin 1, .unlock 1, .store 1, .tryLoad 0, .tryCompare 0,
      .tryExchange 0] :=
  lock_fair (by decide) _ (by decide +kernel)

end KernelSmp.Atomic.Spinlock
