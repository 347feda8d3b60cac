import KernelSmp.Base.Words
import Mathlib.Logic.Function.Basic

/-! The PS/2 keyboard of `ps2_kbd.c`. Each function runs under `kbd_lock_`. -/

namespace KernelSmp.Drivers

open Base Function

def scancodeSet2Lower : List Byte := [
  0, 0x89, 0, 0x8A, 0x8B, 0x8C, 0x8D, 0x96, 0, 0x97, 0x98, 0x99, 0x9A, 0x09, 0x60, 0,
  0, 0x88, 0x85, 0, 0x87, 0x71, 0x31, 0, 0, 0, 0x7A, 0x73, 0x61, 0x77, 0x32, 0,
  0, 0x63, 0x78, 0x64, 0x65, 0x34, 0x33, 0, 0, 0x20, 0x76, 0x66, 0x74, 0x72, 0x35, 0,
  0, 0x6E, 0x62, 0x68, 0x67, 0x79, 0x36, 0, 0, 0, 0x6D, 0x6A, 0x75, 0x37, 0x38, 0,
  0, 0x2C, 0x6B, 0x69, 0x6F, 0x30, 0x39, 0, 0, 0x2E, 0x2F, 0x6C, 0x3B, 0x70, 0x2D, 0,
  0, 0, 0x27, 0, 0x5B, 0x3D, 0, 0, 0x84, 0x86, 0x0A, 0x5D, 0, 0x5C, 0, 0,
  0, 0, 0, 0, 0, 0, 0x08, 0, 0, 0x31, 0, 0x34, 0x37, 0, 0, 0,
  0x30, 0x2E, 0x32, 0x35, 0x36, 0x38, 0x1B, 0, 0x9B, 0x2B, 0x33, 0x2D, 0x2A, 0x39, 0, 0]

def scancodeSet2Upper : List Byte := [
  0, 0, 0, 0, 0, 0, 0, 0, 0, 0, 0, 0, 0, 0x09, 0x7E, 0,
  0, 0, 0, 0, 0, 0x51, 0x21, 0, 0, 0, 0x5A, 0x53, 0x41, 0x57, 0x40, 0,
  0, 0x43, 0x58, 0x44, 0x45, 0x24, 0x23, 0, 0, 0x20, 0x56, 0x46, 0x54, 0x52, 0x25, 0,
  0, 0x4E, 0x42, 0x48, 0x47, 0x59, 0x5E, 0, 0, 0, 0x4D, 0x4A, 0x55, 0x26, 0x2A, 0,
  0, 0x3C, 0x4B, 0x49, 0x4F, 0x29, 0x28, 0, 0, 0x3E, 0x3F, 0x4C, 0x3A, 0x50, 0x5F, 0,
  0, 0, 0x22, 0, 0x7B, 0x2B, 0, 0, 0, 0, 0x0A, 0x7D, 0, 0x7C, 0, 0,
  0, 0, 0, 0, 0, 0, 0x08, 0, 0, 0x31, 0, 0x34, 0x37, 0, 0, 0,
  0x30, 0x2E, 0x32, 0x35, 0x36, 0x38, 0x1B, 0, 0, 0x3D, 0x33, 0x2D, 0x2A, 0x39, 0, 0]

structure Kbd where
  isCaps : Bool
  isBreak : Bool
  isShifted : Bool
  isExtended : Bool
  buffer : Fin 256 → Byte
  head : Fin 256
  tail : Fin 256

def Kbd.init : Kbd := ⟨false, false, false, false, fun _ => 0, 0, 0⟩

def kbdPushChar (k : Kbd) (c : Byte) : Kbd :=
  let next := k.head + 1
  if next ≠ k.tail then { k with buffer := update k.buffer k.head c, head := next } else k

def kbdPopChar (k : Kbd) : Option (Byte × Kbd) :=
  if k.head = k.tail then none else some (k.buffer k.tail, { k with tail := k.tail + 1 })

/-- What `ps2_keyboard_handler` does with a scancode. If the result is not 0 it goes on to push it as a character
and to wake the readers. -/
def decode (k : Kbd) (scancode : Byte) : Kbd × Byte :=
  if scancode = 0xE0 then ({ k with isExtended := true }, 0)
  else if scancode = 0xF0 then ({ k with isBreak := true }, 0)
  else if k.isBreak then
    let shifted := if scancode = 0x12 ∨ scancode = 0x59 then false else k.isShifted
    ({ k with isBreak := false, isExtended := false, isShifted := shifted }, 0)
  else if scancode = 0x12 ∨ scancode = 0x59 then ({ k with isShifted := true }, 0)
  else if scancode = 0x58 then ({ k with isCaps := !k.isCaps }, 0)
  else
    let table := if k.isShifted ^^ k.isCaps then scancodeSet2Upper else scancodeSet2Lower
    ({ k with isExtended := false }, if scancode < 0x80 then table.getD scancode.toNat 0 else 0)

def ps2KeyboardHandler (k : Kbd) (scancode : Byte) : Kbd :=
  let r := decode k scancode
  if r.2 ≠ 0 then kbdPushChar r.1 r.2 else r.1

end KernelSmp.Drivers
