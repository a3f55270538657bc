/-
Module: Cromwell.Eeprom.Settings
Layer: Model
Purpose: The settings in the configuration EEPROM: the layout of `EEPROMDATA`, `EepromCRC`, `EepromSetWidescreen` and
  `EepromSetVideoStandard` of `lib/eeprom/BootEEPROM.c`, and `WriteToSMBus` of `drivers/pci/i2cio.c` down to the ports
  of the controller. What the controller answers to an attempt is an input; its waiting loops are taken to end.
Imports: Cromwell.Lib.Buffer
Trusted boundary: reviewed against src/lib/eeprom/BootEEPROM.c, BootEEPROM.h and src/drivers/pci/i2cio.c
Main exports: EepromField, eepromCRC, writeToSMBus, EepromState, eepromSetWidescreen, eepromSetVideoStandard
-/
import Cromwell.Lib.Buffer

namespace Cromwell.Eeprom

open ByteMemory

/-! ### The layout -/

/-- The fields of `EEPROMDATA`. -/
inductive EepromField where
  | hmacSha1Hash | confounder | hddKkey | xbeRegion | checksum2 | serialNumber | macAddress | unknown2
  | onlineKey | videoStandard | unknown3 | checksum3 | timeZoneBias | timeZoneStdName | timeZoneDltName
  | unknown4 | timeZoneStdDate | timeZoneDltDate | unknown5 | timeZoneStdBias | timeZoneDltBias | languageId
  | videoFlags | audioFlags | parentalControlGames | parentalControlPwd | parentalControlMovies
  | xboxLiveIpAddress | xboxLiveDns | xboxLiveGateWay | xboxLiveSubNetMask | otherSettings | dvdPlaybackKitZone
  | unknown6
deriving DecidableEq, Repr

/-- `EEPROMDATA`: the fields in order, with their sizes. -/
def eepromData : List (EepromField × Nat) :=
  [ (.hmacSha1Hash, 20), (.confounder, 8), (.hddKkey, 16), (.xbeRegion, 4), (.checksum2, 4), (.serialNumber, 12),
    (.macAddress, 6), (.unknown2, 2), (.onlineKey, 16), (.videoStandard, 4), (.unknown3, 4), (.checksum3, 4),
    (.timeZoneBias, 4), (.timeZoneStdName, 4), (.timeZoneDltName, 4), (.unknown4, 8), (.timeZoneStdDate, 4),
    (.timeZoneDltDate, 4), (.unknown5, 8), (.timeZoneStdBias, 4), (.timeZoneDltBias, 4), (.languageId, 4),
    (.videoFlags, 4), (.audioFlags, 4), (.parentalControlGames, 4), (.parentalControlPwd, 4),
    (.parentalControlMovies, 4), (.xboxLiveIpAddress, 4), (.xboxLiveDns, 4), (.xboxLiveGateWay, 4),
    (.xboxLiveSubNetMask, 4), (.otherSettings, 4), (.dvdPlaybackKitZone, 4), (.unknown6, 64) ]

/-- The offset of a field. -/
def EepromField.offset (field : EepromField) : Nat :=
  ((eepromData.takeWhile fun entry => entry.1 != field).map Prod.snd).sum

/-! ### The checksum -/

/-- `CRC_Data`: the data one byte further on, its last byte in front, and zeros behind. -/
def crcData (data : Nat → UInt8) (dataLen : Nat) : Mem :=
  let zeroed : Mem := fun _ => 0
  (zeroed.write 1 (dataLen - 1) data).write 0 1 fun i => data (dataLen - 1 + i)

/-- `for (l=pos; l<dataLen; l+=4) CRCPosVal -= *(unsigned short*)(&CRC_Data[l])`. -/
def crcLoop (crcData : Mem) (dataLen : Nat) : Nat → Nat → UInt16 → UInt16
  | 0, _, crcPosVal => crcPosVal
  | fuel + 1, l, crcPosVal =>
      if l < dataLen then
        crcLoop crcData dataLen fuel (l + 4) (crcPosVal - ((crcData l).toUInt16 + 256 * (crcData (l + 1)).toUInt16))
      else crcPosVal

/-- `EepromCRC`: the four bytes of the checksum. -/
def eepromCRC (data : Nat → UInt8) (dataLen : Nat) : List UInt8 :=
  (List.range 4).map fun pos =>
    ((crcLoop (crcData data dataLen) dataLen dataLen pos 0xFFFF &&& 0xFF00) >>> 8).toUInt8

/-! ### The bus -/

/-- What the controller has been told since the last transfer. -/
structure SmBus where
  slave : Nat
  register : Nat
  data : Nat
  block : List UInt8

/-- A value for one of the ports `I2C_IO_BASE + n`. -/
def SmBus.output (bus : SmBus) : Nat × Nat → SmBus
  | (4, value) => { bus with slave := value }
  | (6, value) => { bus with data := value }
  | (8, value) => { bus with register := value }
  | (9, value) => { bus with block := bus.block ++ [UInt8.ofNat value] }
  | _ => bus

/-- What an attempt of `WriteToSMBus` sends to the ports before the command. -/
def smBusOutputs (address bRegister size dataToSmbus : Nat) : List (Nat × Nat) :=
  [(4, address * 2 % 256), (8, bRegister % 256)] ++
    match size with
    | 4 => [(9, dataToSmbus % 256), (9, dataToSmbus / 2 ^ 8 % 256), (9, dataToSmbus / 2 ^ 16 % 256),
        (9, dataToSmbus / 2 ^ 24 % 256), (6, 4)]
    | 2 => [(6, dataToSmbus % 2 ^ 16)]
    | _ => [(6, dataToSmbus % 256)]

/-- The command for `I2C_IO_BASE + 2`. -/
def smBusCommand (size : Nat) : Nat :=
  match size with
  | 4 => 0x1d
  | 2 => 0x1b
  | _ => 0x1a

/-- What a transfer does to the EEPROM, which listens at `0x54`: a byte, a word or a block. -/
def SmBus.transfer (bus : SmBus) (command : Nat) (chip : Mem) : Mem :=
  if bus.slave = 0xa8 then
    match command with
    | 0x1a => chip.store bus.register (UInt8.ofNat bus.data)
    | 0x1b => (chip.store bus.register (UInt8.ofNat bus.data)).store (bus.register + 1) (UInt8.ofNat (bus.data / 256))
    | 0x1d => chip.write bus.register (min bus.data bus.block.length) fun i => bus.block.getD i 0
    | _ => chip
  else chip

/-- What the controller answers to an attempt: the status that ends the waiting, and, when it is an error, whether the
    chip has been written all the same. -/
structure Answer where
  status : UInt8
  reached : Bool

/-- `while(nRetriesToLive--)` of `WriteToSMBus`. -/
def attemptLoop (answers : Nat → Answer) (transfer : Mem → Mem) : Nat → Nat → Mem → Mem × Bool
  | 0, _, chip => (chip, false)
  | nRetriesToLive + 1, attempt, chip =>
      if (answers attempt).status &&& 0x10 ≠ 0 then (transfer chip, true)
      else
        attemptLoop answers transfer nRetriesToLive (attempt + 1)
          (if (answers attempt).reached then transfer chip else chip)

/-- `WriteToSMBus`: the chip afterwards, and whether the result is `ERR_SUCCESS`. -/
def writeToSMBus (answers : Nat → Answer) (address bRegister size dataToSmbus : Nat) (chip : Mem) : Mem × Bool :=
  let bus := (smBusOutputs address bRegister size dataToSmbus).foldl SmBus.output ⟨0, 0, 0, []⟩
  attemptLoop answers (bus.transfer (smBusCommand size)) 50 0 chip

/-! ### The settings -/

/-- The chip and `eeprom`, its mirror in memory. -/
structure EepromState where
  mirror : Mem
  chip : Mem

/-- Writes of single bytes to consecutive registers; `answers` is for the calls from `first` on. -/
def writeRegisters (answers : Nat → Nat → Answer) (size : Nat) : Nat → Nat → List UInt8 → Mem → Mem
  | _, _, [], chip => chip
  | first, bRegister, value :: rest, chip =>
      writeRegisters answers size (first + 1) (bRegister + 1) rest
        (writeToSMBus (answers first) 0x54 bRegister size value.toNat chip).1

/-- `EepromSetWidescreen`. -/
def eepromSetWidescreen (answers : Nat → Nat → Answer) (enable : Int) (s : EepromState) : EepromState :=
  let flag : UInt8 := if enable ≠ 0 then 1 else 0
  let chip := writeRegisters answers 0 0 0x96 [flag] s.chip
  let mirror := s.mirror.store (EepromField.videoFlags.offset + 2) flag
  let sum := eepromCRC (fun i => mirror (EepromField.timeZoneBias.offset + i)) 0x5b
  ⟨mirror, writeRegisters answers 1 1 0x60 sum chip⟩

/-- `EepromSetVideoStandard`. -/
def eepromSetVideoStandard (answers : Nat → Nat → Answer) (standard : UInt32) (s : EepromState) : EepromState :=
  let bytes := (List.range 4).map fun i => Mem.wordByte standard.toNat i
  let chip := writeRegisters answers 1 0 0x58 bytes s.chip
  let mirror := s.mirror.storeWord (EepromField.videoStandard.offset) standard.toNat
  let sum := eepromCRC (fun i => mirror (EepromField.serialNumber.offset + i)) 0x28
  ⟨mirror, writeRegisters answers 0 4 0x30 sum chip⟩

end Cromwell.Eeprom
