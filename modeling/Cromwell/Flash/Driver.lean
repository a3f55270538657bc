/-
Module: Cromwell.Flash.Driver
Layer: Model
Purpose: The flash driver: `BootFlashEraseMinimalRegion` and `BootFlashProgram` of
  `drivers/flash/BootFlash.c`, over an arbitrary memory-mapped device. Every access through
  `m_pbMemoryMappedStartAddress` is a bus read or a bus write in the order of the source, also the reads
  made only for a message. Each `while` is a recursion on fuel.
Imports: Cromwell.Lib.ByteMemory, Cromwell.Lib.Comp
Trusted boundary: reviewed against src/drivers/flash/BootFlash.c and BootFlash.h
Main exports: EnumEvents, ObjectFlash, FlashBus, FlashM, bootFlashEraseMinimalRegion, bootFlashProgram
-/
import Cromwell.Lib.ByteMemory
import Cromwell.Lib.Comp

namespace Cromwell.Flash

open ByteMemory (u32 sub32)

/-- `ENUM_EVENTS`. -/
inductive EnumEvents where
  | eraseStart
  | eraseUpdate
  | eraseEnd
  | eraseError
  | programStart
  | programUpdate
  | programEnd
  | programError
  | verifyStart
  | verifyUpdate
  | verifyEnd
  | verifyError
deriving DecidableEq, Repr

/-- `OBJECT_FLASH` without the bus address and the callback, which are the `FlashBus`. -/
structure ObjectFlash where
  bManufacturerId : UInt8
  bDeviceId : UInt8
  szFlashDescription : String
  szAdditionalErrorInfo : String
  dwLengthInBytes : Nat
  dwStartOffset : Nat
  dwLengthUsedArea : Nat
  fDetectedUsing28xxxConventions : Bool
  fIsBelievedCapableOfWriteAndErase : Bool

/-- What the driver acts on: the memory-mapped device and the callback, both with their own state. -/
structure FlashBus (D : Type) where
  read : Nat → D → UInt8 × D
  write : Nat → UInt8 → D → D
  /-- `m_pcallbackFlash`, `none` for NULL. -/
  callback : Option (EnumEvents → Nat → Nat → D → Bool × D)

/-- The flash object together with the device. -/
structure FlashState (D : Type) where
  pof : ObjectFlash
  dev : D

/-- Driver code. -/
abbrev FlashM (D : Type) (α : Type) : Type := Comp (FlashState D) α

variable {D : Type}

/-- `pof->m_pbMemoryMappedStartAddress[dw]` as a value. -/
def readByte (bus : FlashBus D) (dw : Nat) : FlashM D UInt8 := fun s =>
  some ((bus.read dw s.dev).1, { s with dev := (bus.read dw s.dev).2 })

/-- `pof->m_pbMemoryMappedStartAddress[dw]=b`. -/
def writeByte (bus : FlashBus D) (dw : Nat) (b : UInt8) : FlashM D Unit :=
  Comp.modify fun s => { s with dev := bus.write dw b s.dev }

/-- A list of bus writes in order. -/
def writeBytes (bus : FlashBus D) : List (Nat × UInt8) → FlashM D Unit
  | [] => pure ()
  | (dw, b) :: rest => do
      writeByte bus dw b
      writeBytes bus rest

/-- `(pof->m_pcallbackFlash)(pof, ee, dwPos, dwExtent)` when there is a callback; its answer, or true. -/
def notify (bus : FlashBus D) (ee : EnumEvents) (dwPos dwExtent : Nat) : FlashM D Bool := fun s =>
  match bus.callback with
  | none => some (true, s)
  | some callback =>
      some ((callback ee dwPos dwExtent s.dev).1, { s with dev := (callback ee dwPos dwExtent s.dev).2 })

/-- Set `m_szAdditionalErrorInfo`. -/
def setErrorInfo (text : String) : FlashM D Unit :=
  Comp.modify fun s => { s with pof := { s.pof with szAdditionalErrorInfo := text } }

/-- Progress, told at every kilobyte. -/
def notifyEvery1K (bus : FlashBus D) (ee : EnumEvents) (dw dwPos dwExtent : Nat) : FlashM D Bool :=
  if dw % 0x400 = 0 then notify bus ee dwPos dwExtent else pure true

/-- The events of an attempt that failed at `dw`: the error, with what the chip reads there, and the end. -/
def notifyFailure (bus : FlashBus D) (dw : Nat) (error theEnd : EnumEvents) (dwPos : ObjectFlash → Nat)
    (dwExtent : UInt8 → Nat) : FlashM D Unit :=
  if bus.callback.isSome then do
    let read ← readByte bus dw
    let s ← Comp.get
    let _ ← notify bus error (dwPos s.pof) (dwExtent read)
    let _ ← notify bus theEnd 0 0
    pure ()
  else pure ()

/-- `%x`. -/
def hex (n : Nat) : String := String.ofList (Nat.toDigits 16 n)

/-- `%02X`. -/
def hex02 (b : UInt8) : String :=
  let digits := (Nat.toDigits 16 b.toNat).map Char.toUpper
  String.ofList (if digits.length < 2 then '0' :: digits else digits)

/-! ### Busy loops -/

/-- `while((!(b&0x80)) || (nCountMinSpin))` of the 28xxx erase; the result is the last status. -/
def spinErase28 (bus : FlashBus D) (dw : Nat) : Nat → UInt8 → Nat → FlashM D UInt8
  | 0, _, _ => Comp.stuck
  | fuel + 1, b, nCountMinSpin =>
      if b &&& 0x80 = 0 ∨ nCountMinSpin ≠ 0 then do
        let b ← readByte bus dw
        spinErase28 bus dw fuel b (nCountMinSpin - 1)
      else pure b

/-- `while(((!(b&0x80)) && (--dwTimeToLive)) || (nCountMinSpin))` of the 28xxx program; the last status
    and what is left of `dwTimeToLive`. -/
def spinProgram28 (bus : FlashBus D) (dw : Nat) : Nat → UInt8 → Nat → Nat → FlashM D (UInt8 × Nat)
  | 0, _, _, _ => Comp.stuck
  | fuel + 1, b, dwTimeToLive, nCountMinSpin =>
      -- `&&` decrements only while the ready bit is clear
      let left := if b &&& 0x80 = 0 then sub32 dwTimeToLive 1 else dwTimeToLive
      if (b &&& 0x80 = 0 ∧ left ≠ 0) ∨ nCountMinSpin ≠ 0 then do
        let b ← readByte bus dw
        spinProgram28 bus dw fuel b left (nCountMinSpin - 1)
      else pure (b, left)

/-- `while((..[dw]&0x40)!=(b&0x40)) { dwCountTries++; b^=0x40; }`: wait until bit 6 is no longer
    toggling; the result is `dwCountTries`. -/
def toggleWait (bus : FlashBus D) (dw : Nat) : Nat → UInt8 → Nat → FlashM D Nat
  | 0, _, _ => Comp.stuck
  | fuel + 1, b, dwCountTries => do
      let r ← readByte bus dw
      if r &&& 0x40 ≠ b &&& 0x40 then
        toggleWait bus dw fuel (b ^^^ 0x40) (u32 (dwCountTries + 1))
      else pure dwCountTries

/-! ### Erase -/

/-- `MAX_ERASE_RETRIES_IN_4KBLOCK_BEFORE_FAILING`. -/
def maxEraseRetriesIn4KBlockBeforeFailing : Nat := 4

/-- The 28xxx branch of an erase attempt. False when the chip reports an error, which ends the erase. -/
def eraseAttempt28 (bus : FlashBus D) (fuel dw : Nat) : FlashM D Bool := do
  writeBytes bus [(0x5555, 0x50), (dw, 0x20), (dw, 0xd0)]
  let b ← spinErase28 bus dw fuel 0 0x100
  writeBytes bus [(0x5555, 0x50), (0x5555, 0xff)]
  if b &&& 0x7e ≠ 0 then
    notifyFailure bus dw .eraseError .eraseEnd (fun pof => sub32 dw pof.dwStartOffset) UInt8.toNat
    setErrorInfo (if b &&& 8 ≠ 0 then "This chip requires +5V on pin 11 (Vpp).  See the README."
      else "Chip Status after Erase: 0x" ++ hex02 b)
    pure false
  else pure true

/-- One 29xxx erase command and its busy loop; the result is `dwCountTries`. -/
def eraseCommand29 (bus : FlashBus D) (fuel dw : Nat) (command : List (Nat × UInt8)) : FlashM D Nat := do
  writeBytes bus command
  let b ← readByte bus dw
  toggleWait bus dw fuel b 0

/-- The unlock cycles before a 29xxx erase command. -/
def eraseUnlock : List (Nat × UInt8) :=
  [(0x5555, 0xaa), (0x2aaa, 0x55), (0x5555, 0x80), (0x5555, 0xaa), (0x2aaa, 0x55)]

/-- The 29xxx reset sequence between two erase commands. -/
def resetUnlock : List (Nat × UInt8) := [(0x5555, 0xaa), (0x2aaa, 0x55), (0x5555, 0xf0)]

/-- `if(dwCountTries<3)`: another command, when the last one did not keep the chip busy. -/
def eraseOtherwise29 (bus : FlashBus D) (fuel dw dwCountTries : Nat) (command : List (Nat × UInt8)) :
    FlashM D Nat :=
  if dwCountTries < 3 then eraseCommand29 bus fuel dw command else pure dwCountTries

/-- The 29xxx branch of an erase attempt: sector erase by `0x50`, then by `0x30`, then the whole chip. -/
def eraseAttempt29 (bus : FlashBus D) (fuel dw nCountEraseRetryIn4KBlock : Nat) : FlashM D Unit := do
  let dwCountTries ← eraseCommand29 bus fuel dw (eraseUnlock ++ [(dw, 0x50)])
  let dwCountTries ←
    eraseOtherwise29 bus fuel dw dwCountTries (resetUnlock ++ eraseUnlock ++ [(dw, 0x30)])
  let s ← Comp.get
  if dwCountTries < 3 ∧ nCountEraseRetryIn4KBlock < 2 ∧ s.pof.dwStartOffset = 0 ∧
      s.pof.dwLengthUsedArea = s.pof.dwLengthInBytes then
    let _ ← eraseCommand29 bus fuel dw (resetUnlock ++ eraseUnlock ++ [(0x5555, 0x10)])
    pure ()
  else pure ()

/-- One erase attempt in the convention of the flash object. -/
def eraseAttempt (bus : FlashBus D) (fuel dw nCountEraseRetryIn4KBlock : Nat) : FlashM D Bool := do
  let s ← Comp.get
  if s.pof.fDetectedUsing28xxxConventions then
    eraseAttempt28 bus fuel dw
  else
    eraseAttempt29 bus fuel dw nCountEraseRetryIn4KBlock
    pure true

/-- The end of an erase that ran out of tries in a 4K block. -/
def eraseGiveUp (bus : FlashBus D) (dw : Nat) : FlashM D Bool := do
  notifyFailure bus dw .eraseError .eraseEnd (fun pof => sub32 dw pof.dwStartOffset) UInt8.toNat
  let read ← readByte bus dw
  setErrorInfo ("Erase failed for block at +0x" ++ hex dw ++ ", reads as 0x" ++ hex02 read)
  pure false

/-- The `while(dwLen)` of the erase. -/
def eraseLoop (bus : FlashBus D) (spin : Nat) : Nat → Nat → Nat → Nat → Nat → FlashM D Bool
  | 0, _, _, _, _ => Comp.stuck
  | fuel + 1, dw, dwLen, dwLastEraseAddress, nCountEraseRetryIn4KBlock =>
      if dwLen = 0 then notify bus .eraseEnd 0 0
      else do
        let b ← readByte bus dw
        if b ≠ 0xff then
          if dwLastEraseAddress / 0x1000 = dw / 0x1000 then
            if nCountEraseRetryIn4KBlock - 1 = 0 then eraseGiveUp bus dw
            else
              let more ← eraseAttempt bus spin dw (nCountEraseRetryIn4KBlock - 1)
              if more then
                eraseLoop bus spin fuel dw dwLen dwLastEraseAddress (nCountEraseRetryIn4KBlock - 1)
              else pure false
          else
            let more ← eraseAttempt bus spin dw maxEraseRetriesIn4KBlockBeforeFailing
            if more then
              eraseLoop bus spin fuel dw dwLen dw maxEraseRetriesIn4KBlockBeforeFailing
            else pure false
        else
          let s ← Comp.get
          let goOn ←
            notifyEvery1K bus .eraseUpdate dw (sub32 dw s.pof.dwStartOffset) s.pof.dwLengthUsedArea
          if goOn then
            eraseLoop bus spin fuel (u32 (dw + 1)) (dwLen - 1) dwLastEraseAddress
              nCountEraseRetryIn4KBlock
          else
            setErrorInfo "Erase Aborted"
            pure false

/-- `BootFlashEraseMinimalRegion`. -/
def bootFlashEraseMinimalRegion (bus : FlashBus D) (fuel : Nat) : FlashM D Bool := do
  setErrorInfo ""
  let goOn ← notify bus .eraseStart 0 0
  if goOn then
    let s ← Comp.get
    eraseLoop bus fuel fuel s.pof.dwStartOffset s.pof.dwLengthUsedArea 0xffffffff
      maxEraseRetriesIn4KBlockBeforeFailing
  else
    setErrorInfo "Erase Aborted"
    pure false

/-! ### Program -/

/-- The 28xxx branch of a program attempt. False when the chip reports an error or does not get ready. -/
def programAttempt28 (bus : FlashBus D) (fuel dw : Nat) (data : UInt8) : FlashM D Bool := do
  writeBytes bus [(dw, 0x40), (dw, data)]
  let (b, dwTimeToLive) ← spinProgram28 bus dw fuel 0 0xfffff 2
  writeBytes bus [(dw, 0x50), (dw, 0xff)]
  if b &&& 0x7e ≠ 0 ∨ dwTimeToLive = 0 then
    notifyFailure bus dw .programError .programEnd (fun pof => sub32 dw pof.dwStartOffset)
      fun read => data.toNat * 256 + read.toNat
    -- the source first writes the status and then overwrites it
    setErrorInfo (if b &&& 8 ≠ 0 then "This chip requires +5V on pin 11 (Vpp).  See the README."
      else if dwTimeToLive ≠ 0 then "Chip Status after Program: 0x" ++ hex02 b
      else "Chip Status after TIMED-OUT Program: 0x" ++ hex02 b)
    pure false
  else pure true

/-- The 29xxx branch of a program attempt. -/
def programAttempt29 (bus : FlashBus D) (fuel dw : Nat) (data : UInt8) : FlashM D Unit := do
  writeBytes bus [(0x5555, 0xaa), (0x2aaa, 0x55), (0x5555, 0xa0), (dw, data)]
  let b ← readByte bus dw
  let _ ← toggleWait bus dw fuel b 0
  pure ()

/-- One program attempt in the convention of the flash object. -/
def programAttempt (bus : FlashBus D) (fuel dw : Nat) (data : UInt8) : FlashM D Bool := do
  let s ← Comp.get
  if s.pof.fDetectedUsing28xxxConventions then
    programAttempt28 bus fuel dw data
  else
    programAttempt29 bus fuel dw data
    pure true

/-- The end of a program run that ran out of tries for a byte. The event carries the offset in the chip,
    not the offset in the region. -/
def programGiveUp (bus : FlashBus D) (dw : Nat) (data : UInt8) : FlashM D Bool := do
  notifyFailure bus dw .programError .programEnd (fun _ => dw) fun read => data.toNat * 256 + read.toNat
  let read ← readByte bus dw
  setErrorInfo ("Program failed for byte at +0x" ++ hex dw ++ "; wrote 0x" ++ hex02 data ++
    ", read 0x" ++ hex02 read)
  pure false

/-- The `while(dwLen)` of the program run. -/
def programLoop (bus : FlashBus D) (pba : Nat → UInt8) (spin : Nat) :
    Nat → Nat → Nat → Nat → Nat → Nat → FlashM D Bool
  | 0, _, _, _, _, _ => Comp.stuck
  | fuel + 1, dw, dwLen, dwSrc, dwLastProgramAddress, nCountProgramRetries =>
      if dwLen = 0 then pure true
      else do
        let b ← readByte bus dw
        if b ≠ pba dwSrc then
          if dwLastProgramAddress = dw then
            if nCountProgramRetries - 1 = 0 then programGiveUp bus dw (pba dwSrc)
            else
              let more ← programAttempt bus spin dw (pba dwSrc)
              if more then
                programLoop bus pba spin fuel dw dwLen dwSrc dwLastProgramAddress
                  (nCountProgramRetries - 1)
              else pure false
          else
            let more ← programAttempt bus spin dw (pba dwSrc)
            if more then programLoop bus pba spin fuel dw dwLen dwSrc dw 4
            else pure false
        else
          let s ← Comp.get
          let goOn ← notifyEvery1K bus .programUpdate dw dwSrc s.pof.dwLengthUsedArea
          if goOn then
            programLoop bus pba spin fuel (u32 (dw + 1)) (dwLen - 1) (u32 (dwSrc + 1))
              dwLastProgramAddress nCountProgramRetries
          else
            setErrorInfo "Program Aborted"
            pure false

/-- `BootFlashProgram`. The verify pass at its end is commented out in the source. -/
def bootFlashProgram (bus : FlashBus D) (fuel : Nat) (pba : Nat → UInt8) : FlashM D Bool := do
  setErrorInfo ""
  let goOn ← notify bus .programStart 0 0
  if goOn then
    let s ← Comp.get
    programLoop bus pba fuel fuel s.pof.dwStartOffset s.pof.dwLengthUsedArea 0 0xffffffff 4
  else
    setErrorInfo "Program Aborted"
    pure false

end Cromwell.Flash
