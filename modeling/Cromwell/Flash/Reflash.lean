/-
Module: Cromwell.Flash.Reflash
Layer: Model
Purpose: Chip detection (`BootFlashGetDescriptor` of `drivers/flash/BootFlash.c`) and the reflash loop
  (`BootReflashAndReset` of `drivers/flash/BootFlashUi.c`) with its verify pass. Screen output, the wait
  for the retry button and the SMC commands after the loop have no effect on the flash: a pass of the
  loop that is not followed by another one stands for a user who never presses the button.
Imports: Cromwell.Flash.Driver
Trusted boundary: reviewed against src/drivers/flash/BootFlash.c and BootFlashUi.c
Main exports: KnownFlashType, aknownflashtypesDefault, bootFlashGetDescriptor, reflashLoop,
  ReflashOutcome, bootReflashAndReset
-/
import Cromwell.Flash.Driver

namespace Cromwell.Flash

open ByteMemory (u32)

variable {D : Type}

/-- `KNOWN_FLASH_TYPE`. -/
structure KnownFlashType where
  bManufacturerId : UInt8
  bDeviceId : UInt8
  szFlashDescription : String
  dwLengthInBytes : Nat

/-- `aknownflashtypesDefault` up to its terminator. -/
def aknownflashtypesDefault : List KnownFlashType :=
  [ ⟨0x01, 0xa4, "AMD - Am29F040B", 0x80000⟩,
    ⟨0x01, 0xad, "AMD - Am29F016", 0x200000⟩,
    ⟨0x01, 0xda, "AMD - Am29LV800B", 0x100000⟩,
    ⟨0x01, 0xd5, "AMD - Am29F080B", 0x100000⟩,
    ⟨0x01, 0x4f, "X-Changer Prototype", 0x40000⟩,
    ⟨0x04, 0xd5, "Fujitsu - MBM29F080A", 0x100000⟩,
    ⟨0x20, 0xb0, "ST - M29F002BT", 0x40000⟩,
    ⟨0x20, 0xe3, "X-Changer", 0x40000⟩,
    ⟨0x20, 0xf1, "ST - M29F080A", 0x100000⟩,
    ⟨0x89, 0xa6, "Sharp LHF08CH1", 0x100000⟩,
    ⟨0xad, 0xb0, "Hynix - HY29F002TT-90", 0x40000⟩,
    ⟨0xad, 0xd5, "Hynix - HY29F080", 0x100000⟩,
    ⟨0xbf, 0x61, "SST SST49LF020", 0x40000⟩,
    ⟨0xbf, 0xd7, "X-Changer V3", 0x80000⟩,
    ⟨0xc2, 0x36, "Macronix - MX29F022NTPC", 0x40000⟩,
    ⟨0xda, 0x0b, "Winbond - W49F002U", 0x40000⟩,
    ⟨0xda, 0x8c, "Winbond W49F020", 0x40000⟩ ]

/-! ### Detection -/

/-- The 28xxx try: read the two identification bytes and mark the object. -/
def identify28 (bus : FlashBus D) : FlashM D Unit := do
  writeBytes bus [(0x5555, 0xff), (0x5555, 0x90)]
  let bManufacturerId ← readByte bus 0
  writeByte bus 0x5555 0x90
  let bDeviceId ← readByte bus 1
  writeByte bus 0x5555 0xff
  Comp.modify fun s => { s with pof := { s.pof with
    bManufacturerId := bManufacturerId, bDeviceId := bDeviceId
    fDetectedUsing28xxxConventions := true } }

/-- The 29xxx try. -/
def identify29 (bus : FlashBus D) : FlashM D Unit := do
  writeBytes bus [(0x5555, 0xf0), (0x5555, 0xaa), (0x2aaa, 0x55), (0x5555, 0xf0),
    (0x5555, 0xaa), (0x2aaa, 0x55), (0x5555, 0x90)]
  let bManufacturerId ← readByte bus 0
  let bDeviceId ← readByte bus 1
  writeByte bus 0x5555 0xf0
  Comp.modify fun s => { s with pof := { s.pof with
    bManufacturerId := bManufacturerId, bDeviceId := bDeviceId
    fDetectedUsing28xxxConventions := false } }

/-- `(ba[0]!=m_bManufacturerId) || (ba[1]!=..[1])`; the second read happens only when the first bytes
    agree. -/
def gotSomeResult (bus : FlashBus D) (ba0 ba1 : UInt8) : FlashM D Bool := do
  let s ← Comp.get
  if ba0 ≠ s.pof.bManufacturerId then pure true
  else
    let b ← readByte bus 1
    pure (ba1 != b)

/-- The digits of the block lock report, one for each offset. -/
def blockLocks (bus : FlashBus D) : List Nat → FlashM D String
  | [] => pure ""
  | n :: rest => do
      writeByte bus 0x5555 0x90
      let b ← readByte bus (n ||| 2)
      let more ← blockLocks bus rest
      pure (toString (b &&& 1).toNat ++ more)

/-- The lock report of a 28xxx chip. -/
def lockReport28 (bus : FlashBus D) (dwLengthInBytes : Nat) : FlashM D String := do
  writeByte bus 0x5555 0x90
  let masterLock ← readByte bus 3
  Comp.modify fun s => { s with pof := { s.pof with
    fIsBelievedCapableOfWriteAndErase :=
      if masterLock ≠ 0 then false else s.pof.fIsBelievedCapableOfWriteAndErase } }
  let master := if masterLock ≠ 0 then "Master Lock SET  " else ""
  let locks ← blockLocks bus ((List.range ((dwLengthInBytes + 0xffff) / 0x10000)).map (· * 0x10000))
  writeBytes bus [(0x5555, 0x50), (0x5555, 0xff)]
  pure (master ++ "Block Locks: " ++ locks ++ "  ")

/-- The two tries, 28xxx first. -/
def identify (bus : FlashBus D) (ba0 ba1 : UInt8) : FlashM D Unit := do
  identify28 bus
  let done ← gotSomeResult bus ba0 ba1
  if done then pure ()
  else
    identify29 bus
    let _ ← gotSomeResult bus ba0 ba1
    pure ()

/-- The part of the description that tells about locks. -/
def lockReport (bus : FlashBus D) (detected28 : Bool) (dwLengthInBytes : Nat) : FlashM D String :=
  if detected28 then lockReport28 bus dwLengthInBytes else pure ""

/-- `BootFlashGetDescriptor`. -/
def bootFlashGetDescriptor (bus : FlashBus D) (pkft : List KnownFlashType) : FlashM D Bool := do
  Comp.modify fun s => { s with pof := { s.pof with
    fIsBelievedCapableOfWriteAndErase := true, szAdditionalErrorInfo := "" } }
  let ba0 ← readByte bus 0
  let ba1 ← readByte bus 1
  identify bus ba0 ba1
  let s ← Comp.get
  match pkft.find? fun kft =>
      kft.bManufacturerId == s.pof.bManufacturerId && kft.bDeviceId == s.pof.bDeviceId with
  | some kft =>
      let report ← lockReport bus s.pof.fDetectedUsing28xxxConventions kft.dwLengthInBytes
      Comp.modify fun s => { s with pof := { s.pof with
        dwLengthInBytes := kft.dwLengthInBytes
        szFlashDescription :=
          kft.szFlashDescription ++ " (" ++ toString (kft.dwLengthInBytes / 1024) ++ "K)" ++ report } }
      pure true
  | none =>
      let unlike ← gotSomeResult bus ba0 ba1
      Comp.modify fun s => { s with pof := { s.pof with
        szFlashDescription :=
          (if unlike then "" else "Read Only??? ") ++ "manf=0x" ++ hex02 s.pof.bManufacturerId ++
            ", dev=0x" ++ hex02 s.pof.bDeviceId } }
      pure false

/-! ### Reflash -/

/-- `BootFlashUserInterface`: draws the progress bar and always answers true. -/
def bootFlashUserInterface : EnumEvents → Nat → Nat → D → Bool × D :=
  fun _ _ _ dev => (true, dev)

/-- The verify pass: `remaining` bytes from `address` on. It reads the chip from its start, whatever the
    start offset of the region. -/
def verify (bus : FlashBus D) (pbNewData : Nat → UInt8) : Nat → Nat → Bool → FlashM D Bool
  | 0, _, fMore => pure fMore
  | remaining + 1, address, fMore => do
      let b ← readByte bus address
      verify bus pbNewData remaining (address + 1) (fMore || pbNewData address != b)

/-- The erase of the region and, when it succeeds, the programming; the result is `fMore`. -/
def eraseAndProgram (bus : FlashBus D) (fuel : Nat) (pbNewData : Nat → UInt8) : FlashM D Bool := do
  let erased ← bootFlashEraseMinimalRegion bus fuel
  if erased then
    let programmed ← bootFlashProgram bus fuel pbNewData
    pure (!programmed)
  else pure true

/-- One pass of `while(fMore)`; the result is `fMore` at its end. -/
def reflashPass (bus : FlashBus D) (fuel : Nat) (pbNewData : Nat → UInt8) (dwLength : Nat) :
    FlashM D Bool := do
  let fMore ← eraseAndProgram bus fuel pbNewData
  verify bus pbNewData dwLength 0 fMore

/-- `while(fMore)`, for at most the given number of passes. -/
def reflashLoop (bus : FlashBus D) (fuel : Nat) (pbNewData : Nat → UInt8) (dwLength : Nat) :
    Nat → FlashM D Unit
  | 0 => Comp.stuck
  | passes + 1 => do
      let fMore ← reflashPass bus fuel pbNewData dwLength
      if fMore then reflashLoop bus fuel pbNewData dwLength passes else pure ()

/-- How `BootReflashAndReset` ends: with a return code, or with the reset command after its loop. -/
inductive ReflashOutcome where
  | returned (code : Nat)
  | reset
deriving DecidableEq, Repr

/-- `BootReflashAndReset`. -/
def bootReflashAndReset (bus : FlashBus D) (fuel passes : Nat) (pbNewData : Nat → UInt8)
    (dwStartOffset dwLength : Nat) : FlashM D ReflashOutcome := do
  Comp.modify fun s => { s with pof := { s.pof with
    dwStartOffset := dwStartOffset, dwLengthUsedArea := dwLength } }
  let seen ← bootFlashGetDescriptor bus aknownflashtypesDefault
  let s ← Comp.get
  if seen = false then pure (.returned 1)
  else if s.pof.fIsBelievedCapableOfWriteAndErase = false then pure (.returned 2)
  else if s.pof.dwLengthInBytes < u32 (dwStartOffset + dwLength) then pure (.returned 3)
  else
    reflashLoop bus fuel pbNewData dwLength passes
    pure .reset

end Cromwell.Flash
