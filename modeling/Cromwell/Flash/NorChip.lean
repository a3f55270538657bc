/-
Module: Cromwell.Flash.NorChip
Layer: Model
Purpose: NOR flash chips as the driver meets them on the bus. A chip speaks one of the two command
  conventions; a program command changes the addressed byte only, to whatever value; an erase command
  sets to `0xff` any set of bytes of the addressed sector, of the whole chip for a chip erase, or nothing;
  while a 29xxx chip is busy its bit 6 toggles on each read, and a 28xxx chip answers with any status
  until it is sent back to array mode. What a chip does with each command, and for how long, is a
  parameter: every failure pattern is one value of `NorBehaviour`.
Imports: Cromwell.Flash.Reflash
Trusted boundary: human-reviewed device model
Main exports: NorBehaviour, NorChip, NorMode, norBus
-/
import Cromwell.Flash.Reflash

namespace Cromwell.Flash

/-- Everything about a chip that the driver does not control. The indices count the commands executed and
    the status reads made so far. -/
structure NorBehaviour where
  /-- The chip takes 28xxx commands; otherwise it takes 29xxx commands. -/
  uses28 : Bool
  /-- Bytes of the chip. -/
  length : Nat
  /-- The sector of an address. -/
  sector : Nat → Nat
  /-- What identification mode answers. -/
  identifier : Nat → UInt8
  /-- The value a program command leaves in the addressed byte. -/
  programmed : Nat → UInt8
  /-- The bytes that an erase command reaches, within its sector or chip. -/
  erased : Nat → Nat → Bool
  /-- For how many reads a 29xxx chip is busy with a command. -/
  busyReads : Nat → Nat
  /-- What a status read answers; bit 6 of a 29xxx status is replaced by the toggle. -/
  status : Nat → UInt8

/-- Where the command decoder of a chip stands. -/
inductive NorMode where
  | array
  | identification
  /-- 29xxx: unlock cycles seen so far, then the command cycles. -/
  | unlocked1
  | unlocked2
  | programAddress
  | eraseLocked
  | eraseUnlocked1
  | eraseUnlocked2
  | busy (reads : Nat)
  /-- 28xxx: first half of a two-cycle command seen, or the status register on the bus. -/
  | eraseSetup
  | programSetup
  | statusRegister
deriving DecidableEq, Repr

/-- A chip: its decoder, its contents, and the counts that index `NorBehaviour`. -/
structure NorChip where
  mode : NorMode
  array : Nat → UInt8
  commands : Nat
  polls : Nat

namespace NorChip

/-- A program command at `a`. -/
def program (β : NorBehaviour) (c : NorChip) (a : Nat) : NorChip :=
  { c with
    array := fun x => if x = a then β.programmed c.commands else c.array x
    commands := c.commands + 1 }

/-- An erase command over the bytes that satisfy `within`. -/
def erase (β : NorBehaviour) (c : NorChip) (within : Nat → Bool) : NorChip :=
  { c with
    array := fun x => if within x && β.erased c.commands x then 0xff else c.array x
    commands := c.commands + 1 }

/-- The mode of a 29xxx chip that starts to execute command number `k`. -/
def executing (β : NorBehaviour) (k : Nat) : NorMode :=
  if β.busyReads k = 0 then .array else .busy (β.busyReads k)

/-- A bus write to a 29xxx chip. -/
def write29 (β : NorBehaviour) (a : Nat) (v : UInt8) (c : NorChip) : NorChip :=
  match c.mode with
  | .busy _ => c
  | .unlocked1 => { c with mode := if a = 0x2aaa ∧ v = 0x55 then .unlocked2 else .array }
  | .unlocked2 =>
      { c with
        mode :=
          if a = 0x5555 ∧ v = 0xa0 then .programAddress
          else if a = 0x5555 ∧ v = 0x80 then .eraseLocked
          else if a = 0x5555 ∧ v = 0x90 then .identification
          else .array }
  | .programAddress => { c.program β a with mode := executing β c.commands }
  | .eraseLocked => { c with mode := if a = 0x5555 ∧ v = 0xaa then .eraseUnlocked1 else .array }
  | .eraseUnlocked1 => { c with mode := if a = 0x2aaa ∧ v = 0x55 then .eraseUnlocked2 else .array }
  | .eraseUnlocked2 =>
      if v = 0x30 ∨ v = 0x50 then
        { c.erase β (fun x => β.sector x == β.sector a) with mode := executing β c.commands }
      else if a = 0x5555 ∧ v = 0x10 then
        { c.erase β (fun x => x < β.length) with mode := executing β c.commands }
      else { c with mode := .array }
  | _ =>
      if a = 0x5555 ∧ v = 0xaa then { c with mode := .unlocked1 }
      else if v = 0xf0 then { c with mode := .array }
      else c

/-- A bus write to a 28xxx chip. -/
def write28 (β : NorBehaviour) (a : Nat) (v : UInt8) (c : NorChip) : NorChip :=
  match c.mode with
  | .eraseSetup =>
      if v = 0xd0 then
        { c.erase β (fun x => β.sector x == β.sector a) with mode := .statusRegister }
      else { c with mode := .statusRegister }
  | .programSetup => { c.program β a with mode := .statusRegister }
  | _ =>
      if v = 0xff then { c with mode := .array }
      else if v = 0x90 then { c with mode := .identification }
      else if v = 0x20 then { c with mode := .eraseSetup }
      else if v = 0x40 ∨ v = 0x10 then { c with mode := .programSetup }
      else if v = 0x70 then { c with mode := .statusRegister }
      else c

/-- A bus write. -/
def write (β : NorBehaviour) (a : Nat) (v : UInt8) (c : NorChip) : NorChip :=
  if β.uses28 then write28 β a v c else write29 β a v c

/-- Bit 6 of the status of a busy 29xxx chip, which toggles as the reads go down. -/
def toggle (reads : Nat) : UInt8 := if reads % 2 = 0 then 0 else 0x40

/-- A bus read. -/
def read (β : NorBehaviour) (a : Nat) (c : NorChip) : UInt8 × NorChip :=
  match c.mode with
  | .identification => (β.identifier a, c)
  | .busy reads =>
      ((β.status c.polls &&& 0xbf) ||| toggle reads,
        { c with mode := if reads ≤ 1 then .array else .busy (reads - 1), polls := c.polls + 1 })
  | .eraseSetup | .programSetup | .statusRegister =>
      (β.status c.polls, { c with polls := c.polls + 1 })
  | _ => (c.array a, c)

end NorChip

/-- A chip on the bus, with the user interface as callback. -/
def norBus (β : NorBehaviour) : FlashBus NorChip where
  read := NorChip.read β
  write := NorChip.write β
  callback := some bootFlashUserInterface

end Cromwell.Flash
