/-
Module: Cromwell.Config.BootParser
Layer: Model
Purpose: `ParseConfig` of `lib/misc/BootParser.c`: the text of a boot configuration is cut into lines in place and
  becomes the list of its entries. The character arrays of an entry have their sizes, and a store past the end of one
  is recorded there; only a title is followed into the array behind its own. `malloc` is taken to give a block for
  every entry.
Imports: Mathlib, Cromwell.Config.Text
Trusted boundary: reviewed against src/lib/misc/BootParser.c and BootParser.h
Main exports: CharArray, CONFIGENTRY, Parser, parseLine, parseLoop, parseConfig
-/
import Mathlib
import Cromwell.Config.Text

namespace Cromwell.Config

open BootLibrary

/-- A `char` array. `overrun` records that bytes were stored behind its end. -/
structure CharArray where
  bytes : List UInt8
  overrun : Bool
deriving DecidableEq, Repr

/-- An array of zeros. -/
def CharArray.zero (size : Nat) : CharArray := ⟨List.replicate size 0, false⟩

/-- Store bytes from the start of an array on. -/
def CharArray.put (a : CharArray) (src : List UInt8) : CharArray :=
  ⟨src.take a.bytes.length ++ a.bytes.drop src.length, a.overrun || decide (a.bytes.length < src.length)⟩

/-- `strncpy(dest, src, strlen(src))`: the bytes without their NUL. -/
def CharArray.strncpy (a : CharArray) (src : List UInt8) : CharArray := a.put src

/-- `sprintf` of a string that is already put together. -/
def CharArray.sprintf (a : CharArray) (src : List UInt8) : CharArray := a.put (src ++ [0])

/-- The string in an array. -/
def CharArray.string (a : CharArray) : List UInt8 := cString a.bytes

/-- `enum BootTypes`. -/
inductive BootTypes where
  | cdrom
  | fatx
  | native
deriving DecidableEq, Repr

/-- `MAX_LINE`. -/
def maxLine : Nat := 2048

/-- `CONFIGENTRY` without the links: the entries are a list. -/
structure CONFIGENTRY where
  drive : Int
  partition : Int
  isDefault : Int
  bootType : BootTypes
  title : CharArray
  szPath : CharArray
  szKernel : CharArray
  szInitrd : CharArray
  szAppend : CharArray
deriving DecidableEq, Repr

/-- An entry after `memset`; `BOOT_CDROM` is 0. -/
def CONFIGENTRY.zero : CONFIGENTRY :=
  { drive := 0, partition := 0, isDefault := 0, bootType := .cdrom, title := .zero 15, szPath := .zero maxLine
    szKernel := .zero maxLine, szInitrd := .zero maxLine, szAppend := .zero maxLine }

/-- `strncpy(currentEntry->title, paramdata, strlen(paramdata))`. What `title` does not hold goes to `szPath`, which lies
    right behind it. -/
def CONFIGENTRY.storeTitle (e : CONFIGENTRY) (value : List UInt8) : CONFIGENTRY :=
  { e with title := e.title.strncpy value, szPath := e.szPath.put (value.drop e.title.bytes.length) }

/-- The string that begins in `title`; without a NUL there it goes on in `szPath`. -/
def CONFIGENTRY.titleString (e : CONFIGENTRY) : List UInt8 := cString (e.title.bytes ++ e.szPath.bytes)

/-- The keywords. -/
def titleWord : List UInt8 := [0x74, 0x69, 0x74, 0x6c, 0x65]
def kernelWord : List UInt8 := [0x6b, 0x65, 0x72, 0x6e, 0x65, 0x6c]
def initrdWord : List UInt8 := [0x69, 0x6e, 0x69, 0x74, 0x72, 0x64]
def appendWord : List UInt8 := [0x61, 0x70, 0x70, 0x65, 0x6e, 0x64]
def defaultWord : List UInt8 := [0x64, 0x65, 0x66, 0x61, 0x75, 0x6c, 0x74]
def noWord : List UInt8 := [0x6e, 0x6f]

/-- The name that is stored for a file: behind `szPath`, or with a leading slash. -/
def filePath (szPath : Option (List UInt8)) (paramdata : List UInt8) : List UInt8 :=
  match szPath with
  | some path => cString path ++ 0x2f :: paramdata
  | none => if paramdata.headD 0 = 0x2f then paramdata else 0x2f :: paramdata

/-- The variables of the loop: the text, the entries in front of `currentEntry`, that entry, and `defaultTitle`. -/
structure Parser where
  mem : List UInt8
  entries : List CONFIGENTRY
  currentEntry : CONFIGENTRY
  defaultTitle : Option Nat

section Parsing

variable (limit : Nat) (szPath : Option (List UInt8))

/-- The part of the loop that finds `paramdata` behind `param` and ends it: `paramdata` and the text. -/
def takeParamdata (mem : List UInt8) (p : Nat) : Except Fault (Nat × List UInt8) := do
  let paramdata ← skipSpaces mem p
  let n ← strlen mem paramdata
  let p ← stripTrailing mem paramdata (paramdata + n - 1)
  let mem ← storeByte limit mem (p + 1) 0
  .ok (paramdata, mem)

/-- What a line with the given `param` does. -/
def applyParam (s : Parser) (param : List UInt8) (paramdata : Nat) : Except Fault Parser := do
  if strncmp param titleWord 5 = 0 then
    let value ← stringAt s.mem paramdata
    if s.currentEntry.titleString.length = 0 then .ok { s with currentEntry := s.currentEntry.storeTitle value }
    else
      .ok { s with
        entries := s.entries ++ [s.currentEntry]
        currentEntry := CONFIGENTRY.zero.storeTitle value }
  else if strncmp param kernelWord 6 = 0 then
    let mem ← chrreplace limit s.mem paramdata 0x5c 0x2f
    let value ← stringAt mem paramdata
    .ok { s with
      mem := mem
      currentEntry := { s.currentEntry with szKernel := s.currentEntry.szKernel.sprintf (filePath szPath value) } }
  else if strncmp param initrdWord 6 = 0 then
    let mem ← chrreplace limit s.mem paramdata 0x5c 0x2f
    let value ← stringAt mem paramdata
    if strncmp value noWord 2 = 0 then .ok { s with mem := mem }
    else
      .ok { s with
        mem := mem
        currentEntry := { s.currentEntry with szInitrd := s.currentEntry.szInitrd.sprintf (filePath szPath value) } }
  else if strncmp param appendWord 6 = 0 then
    let value ← stringAt s.mem paramdata
    .ok { s with currentEntry := { s.currentEntry with szAppend := s.currentEntry.szAppend.strncpy value } }
  else if strncmp param defaultWord 7 = 0 then
    .ok { s with defaultTitle := some paramdata }
  else .ok s

/-- The body of the loop for the line at `linePtr`. -/
def parseLine (s : Parser) (linePtr : Nat) : Except Fault Parser := do
  let (mem, _) ← strsep limit s.mem linePtr [0x20, 0x09]
  let n ← strlen mem linePtr
  let (paramdata, mem) ← takeParamdata limit mem (linePtr + n + 1)
  let param ← stringAt mem linePtr
  applyParam limit szPath { s with mem := mem } param paramdata

/-- The loop over the lines, with `currentPos`. -/
def parseLoop : Nat → Option Nat → Parser → Except Fault Parser
  | _, none, s => .ok s
  | 0, some _, _ => .error .rounds
  | rounds + 1, some linePtr, s => do
      let (mem, currentPos) ← strsep limit s.mem linePtr [0x0a]
      let s ← parseLine limit szPath { s with mem := mem } linePtr
      parseLoop rounds currentPos s

/-- The search for the default entry. -/
def markDefault (defaultTitle : List UInt8) : List CONFIGENTRY → List CONFIGENTRY
  | [] => []
  | e :: entries =>
      if strncmp e.titleString defaultTitle defaultTitle.length = 0 then { e with isDefault := 1 } :: entries
      else e :: markDefault defaultTitle entries

/-- `ParseConfig`: the entries and the text afterwards. -/
def parseConfig (szBuffer : List UInt8) (fileLen : Nat) : Except Fault (List CONFIGENTRY × List UInt8) := do
  let mem ← storeByte limit szBuffer fileLen 0
  let s ← parseLoop limit szPath (szBuffer.length + 1) (some 0)
    { mem := mem, entries := [], currentEntry := CONFIGENTRY.zero, defaultTitle := none }
  let entries := s.entries ++ [s.currentEntry]
  match s.defaultTitle with
  | none => .ok (entries, s.mem)
  | some defaultTitle =>
      let defaultTitle ← stringAt s.mem defaultTitle
      .ok (markDefault defaultTitle entries, s.mem)

end Parsing

end Cromwell.Config
