import KernelSmp.Base.Words

/-! The system call dispatcher of `syscall.c` and the string printing call of `syscall_funcs.c`.
Every read of the jump table and of user memory is recorded. -/

namespace KernelSmp.Syscall

open Base Function

structure InterruptFrame where
  (r15 r14 r13 r12 r11 r10 r9 r8 : Word)
  (rdi rsi rbp rbx rdx rcx rax : Word)
  (vectorNumber errorCode : Word)
  (rip cs rflags rsp ss : Word)
  deriving DecidableEq

def kernelSpaceStart : Word := 0xFFFF800000000000
def userSpaceEnd : Word := 0x00007FFFFFFFFFFF

inductive Handler
  | sysKprintHandler | sysExitHandler | sysYieldHandler | sysGetUptimeHandler | sysSleepHandler
  | sysReadKbdHandler | sysKprintHexHandler | sysGetCpuidHandler | sysMallocHandler
  | sysFreeHandler | sysGetTidHandler | sysCpuCountHandler
  deriving DecidableEq, Repr

def sysKprintNum : ℕ := 1
def sysExitNum : ℕ := 2
def sysGetUptimeNum : ℕ := 3
def sysSleepNum : ℕ := 4
def sysYieldNum : ℕ := 5
def sysKbdPs2Num : ℕ := 6
def sysKprintHexNum : ℕ := 7
def sysCpuIdNum : ℕ := 8
def sysMallocNum : ℕ := 9
def sysFreeNum : ℕ := 10
def sysGetTidNum : ℕ := 11
def sysCpuCountNum : ℕ := 12

def sysTableLen : ℕ := 20

abbrev SysTable := Fin sysTableLen → Option Handler

def initSysTable : SysTable :=
  let t : SysTable := fun _ => none
  let t := update t ⟨sysKprintNum, by decide⟩ (some .sysKprintHandler)
  let t := update t ⟨sysExitNum, by decide⟩ (some .sysExitHandler)
  let t := update t ⟨sysYieldNum, by decide⟩ (some .sysYieldHandler)
  let t := update t ⟨sysGetUptimeNum, by decide⟩ (some .sysGetUptimeHandler)
  let t := update t ⟨sysSleepNum, by decide⟩ (some .sysSleepHandler)
  let t := update t ⟨sysKbdPs2Num, by decide⟩ (some .sysReadKbdHandler)
  let t := update t ⟨sysKprintHexNum, by decide⟩ (some .sysKprintHexHandler)
  let t := update t ⟨sysCpuIdNum, by decide⟩ (some .sysGetCpuidHandler)
  let t := update t ⟨sysMallocNum, by decide⟩ (some .sysMallocHandler)
  let t := update t ⟨sysFreeNum, by decide⟩ (some .sysFreeHandler)
  let t := update t ⟨sysGetTidNum, by decide⟩ (some .sysGetTidHandler)
  update t ⟨sysCpuCountNum, by decide⟩ (some .sysCpuCountHandler)

/-- What a call through the table may enter: a handler, or whatever a stray word points to. -/
inductive Target
  | handler (h : Handler)
  | stray (address : Word)
  deriving DecidableEq

inductive Access
  | table (index : Word)
  | user (address : Word)
  deriving DecidableEq

inductive LogEntry
  | kprintf (format : String) (args : List Word)
  | chars (bytes : List Byte)
  deriving DecidableEq

/-- The machine around the dispatcher: user memory, the words that follow the table in memory,
the code behind stray pointers, and the handlers other than `sys_kprint_handler`. -/
structure Machine (κ : Type) where
  user : Word → Byte
  beyond : Word → Word
  stray : Word → InterruptFrame → κ → Word × κ
  service : Handler → InterruptFrame → κ → Word × κ

structure Outcome (κ : Type) where
  accesses : List Access
  dispatched : Option Target
  log : List LogEntry
  frame : InterruptFrame
  kernel : κ
  ret : Word

section

variable (user : Word → Byte)

def isUserRange (addr size : Word) : Bool :=
  let start := addr
  let stop := start + size
  !(decide (start > userSpaceEnd) || decide (stop > userSpaceEnd) || decide (stop < start))

/-- The bytes read by `while (str[len] != '\0')` from `len` on, and the length found. With `fuel`
the number of further bytes that the limit of 4096 lets the loop read. -/
def strScan (str : Word) : (fuel len : ℕ) → List Word × Option ℕ
  | 0, _ => ([], none)
  | fuel + 1, len =>
    let a := str + BitVec.ofNat 64 len
    if user a = 0 then ([a], some len)
    else
      let rest := strScan str fuel (len + 1)
      (a :: rest.1, rest.2)

def kprintReads (str : Word) (len : ℕ) : List Word :=
  (List.range (len + 1)).map fun k => str + BitVec.ofNat 64 k

def kprintChars (str : Word) (len : ℕ) : List Byte :=
  (List.range len).flatMap fun k =>
    let c := user (str + BitVec.ofNat 64 k)
    if c = 10 then [13, c] else [c]

structure KprintResult where
  reads : List Word
  log : List LogEntry
  res : Word

def sysKprint (str : Word) : KprintResult :=
  if str = 0 then ⟨[], [], -1⟩
  else if str ≥ kernelSpaceStart then
    ⟨[], [.kprintf "\n[SECURITY] Blocked KPRINT: Pointer %p is in Higher Half!\n" [str]], -1⟩
  else
    match strScan user str 4097 0 with
    | (reads, none) => ⟨reads, [], -2⟩
    | (reads, some len) =>
      if isUserRange str (BitVec.ofNat 64 (len + 1)) then
        ⟨reads ++ kprintReads str len, [.chars (kprintChars user str len)], 0⟩
      else
        ⟨reads, [.kprintf "\n[SECURITY] Blocked KPRINT: String at %p crosses kernel boundary!\n" [str]], -1⟩

end

def sysTableRead {κ : Type} (m : Machine κ) (num : Word) : Option Target :=
  if h : num.toNat < sysTableLen then (initSysTable ⟨num.toNat, h⟩).map .handler
  else if m.beyond num = 0 then none else some (.stray (m.beyond num))

structure CallResult (κ : Type) where
  reads : List Word
  log : List LogEntry
  res : Word
  kernel : κ

def Target.call {κ : Type} (m : Machine κ) (frame : InterruptFrame) (k : κ) : Target → CallResult κ
  | .stray a => ⟨[], [], (m.stray a frame k).1, (m.stray a frame k).2⟩
  | .handler .sysKprintHandler =>
    let r := sysKprint m.user frame.rdi
    ⟨r.reads, r.log, r.res, k⟩
  | .handler h => ⟨[], [], (m.service h frame k).1, (m.service h frame k).2⟩

def syscallHandler {κ : Type} (m : Machine κ) (ptr : Word) (frame : InterruptFrame) (k : κ) : Outcome κ :=
  let num := frame.rax
  match sysTableRead m num with
  | none =>
    { accesses := [.table num]
      dispatched := none
      log := [.kprintf "[SYSCALL] Unknown or unimplemented: %p\n" [num]]
      frame := { frame with rax := -1 }
      kernel := k
      ret := ptr }
  | some target =>
    let r := target.call m frame k
    let isSpecial := num = BitVec.ofNat 64 sysSleepNum ∨ num = BitVec.ofNat 64 sysExitNum
    { accesses := [.table num, .table num] ++ r.reads.map .user
      dispatched := some target
      log := r.log
      frame := if isSpecial then frame else { frame with rax := r.res }
      kernel := r.kernel
      ret := if isSpecial then r.res else ptr }

end KernelSmp.Syscall
