/-
Module: Cromwell.Http.Server
Layer: Model
Purpose: The upload server of `lwip/webserver.c`: the state of one connection, the header lines, the body,
  `handle_post` with its three scans, the sending of the answer, and the callbacks that lwIP makes. What
  the code does not determine is an input: the heap that `malloc` finds, the values that the uninitialised
  locals `start` and `end` of `handle_post` hold, and the answers of the TCP layer.
  Plain `char` is signed, as on the target; an `int` that overflows is undefined and no run goes there.
Imports: Cromwell.BootLibrary, Cromwell.MemoryManager.Allocator
Trusted boundary: reviewed against src/lwip/webserver.c, src/lib/misc/vsprintf.c (simple_strtoul) and
  src/lib/misc/BootLibrary.c (memcmp)
Main exports: HttpState, Conn, handleLine, handlePost, recvByte, httpRecv, httpSent, httpPoll, Event
-/
import Cromwell.BootLibrary
import Cromwell.MemoryManager.Allocator

namespace Cromwell.Http

open ByteMemory
open Cromwell.BootLibrary (memcpy)
open Cromwell.MemoryManager (Heap malloc)

/-! ### Library routines -/

/-- `memcmp(..)==0` of two ranges of memory. -/
def memcmpEq (m : Mem) : Nat → Nat → Nat → Bool
  | _, _, 0 => true
  | cs, ct, count + 1 => m (u32 cs) == m (u32 ct) && memcmpEq m (cs + 1) (ct + 1) count

/-- The value of a digit of `simple_strtoul`, if `isxdigit`. -/
def digitValue (c : UInt8) : Option Nat :=
  if 0x30 ≤ c ∧ c ≤ 0x39 then some (c.toNat - 0x30)
  else if 0x61 ≤ c ∧ c ≤ 0x66 then some (c.toNat - 0x20 - 0x41 + 10)
  else if 0x41 ≤ c ∧ c ≤ 0x46 then some (c.toNat - 0x41 + 10)
  else none

/-- The digit loop of `simple_strtoul` over the cells of a buffer. The fuel is the number of cells left:
    the byte behind `lineBuf` is `lineBufpos`, which is no digit when the scan gets there. -/
def strtoulLoop (cell : Int → UInt8) (base : Nat) : Nat → Int → Nat → Nat
  | 0, _, result => result
  | fuel + 1, cp, result =>
      match digitValue (cell cp) with
      | some value =>
          if value < base then strtoulLoop cell base fuel (cp + 1) (u32 (result * base + value)) else result
      | none => result

/-- `simple_strtoul(&lineBuf[cp], NULL, NULL)`: base 0, so the text decides. -/
def simpleStrtoul (cell : Int → UInt8) (cp : Int) : Nat :=
  let fuel := (256 - cp).toNat
  if cell cp = 0x30 then
    if cell (cp + 1) = 0x78 ∧ (digitValue (cell (cp + 2))).isSome then
      strtoulLoop cell 16 (fuel - 2) (cp + 2) 0
    else strtoulLoop cell 8 (fuel - 1) (cp + 1) 0
  else strtoulLoop cell 10 fuel cp 0

/-- `strncmp(lineBuf, text, n) == 0` for a text of at least `n` characters. -/
def lineStarts (cell : Int → UInt8) (text : List UInt8) : Bool :=
  (List.range text.length).all fun i => cell i == text.getD i 0

/-! ### The connection -/

/-- A place in one of the `http_files`. -/
structure FilePointer where
  fno : Nat
  offset : Nat
deriving DecidableEq, Repr

/-- `struct http_state`. Addresses are 0 for NULL; `lineBuf` also has the bytes before it, which a negative
    `lineBufpos` reaches. -/
structure HttpState where
  retries : UInt8
  file : Option FilePointer
  left : Int
  ispost : Bool
  postdata : Nat
  postlen : Int
  postpos : Nat
  lineBuf : Int → UInt8
  lineBufpos : Int
  gotfirst : Bool
  biosStart : Nat
  biosLen : Int

/-- Where a connection stands: open, closed by `close_conn`, gone by `conn_err`, or handed to
    `BootReflashAndReset(image, dwStartOffset, dwLength)`. -/
inductive Phase where
  | opened
  | closed
  | gone
  | reflash (image : Nat → UInt8) (dwStartOffset dwLength : Nat)

/-- A connection, the memory, and the history of the bytes received into the body. -/
structure Conn where
  hs : HttpState
  mem : Mem
  phase : Phase
  body : List UInt8

/-- `err_t` as `tcp_write` answers it. -/
inductive ErrT where
  | ok
  | mem
  | other
deriving DecidableEq, Repr

/-- What the environment answers while one callback or one received byte is handled. -/
structure Answers where
  /-- The heap as `malloc` finds it. -/
  heap : Heap
  /-- What the uninitialised `start` and `end` hold. -/
  start : Nat
  theEnd : Nat
  /-- `tcp_sndbuf` and the results of the calls of `tcp_write`. -/
  sndbuf : Nat
  tcpWrite : Nat → ErrT

/-- A received byte. -/
structure Received where
  byte : UInt8
  answers : Answers

/-- The state that `http_accept` sets up; `lineBuf` is not initialised. -/
def httpAccept (mem : Mem) (lineBuf : Int → UInt8) : Conn where
  hs :=
    { retries := 0, file := none, left := 0, ispost := false, postdata := 0, postlen := 0, postpos := 0
      lineBuf := lineBuf, lineBufpos := 0, gotfirst := false, biosStart := 0, biosLen := 0 }
  mem := mem
  phase := .opened
  body := []

/-- `hs->file = http_files[fno].data; hs->left = http_files[fno].len`. -/
def HttpState.select (hs : HttpState) (files : Nat → Nat) (fno : Nat) : HttpState :=
  { hs with file := some ⟨fno, 0⟩, left := files fno }

/-- `close_conn`. An upload that was accepted is flashed and the call does not return. -/
def closeConn (c : Conn) : Conn :=
  if c.hs.biosStart ≠ 0 then
    let mem := memcpy c.mem 0x100000 c.hs.biosStart (c.hs.biosLen % 2 ^ 32).toNat
    { c with
      mem := mem
      phase := .reflash (fun i => mem (0x100000 + i)) 0 (c.hs.biosLen % 2 ^ 32).toNat }
  else { c with phase := .closed }

/-- The `do .. while` of `send_data`; the last result and the length it was for. -/
def sendLoop (tcpWrite : Nat → ErrT) : Nat → Nat → Nat → ErrT × Nat
  | 0, len, _ => (.mem, len)
  | fuel + 1, len, tries =>
      match tcpWrite tries with
      | .mem => if 1 < len / 2 then sendLoop tcpWrite fuel (len / 2) (tries + 1) else (.mem, len / 2)
      | err => (err, len)

/-- `send_data`; `len` is a `u16_t`. -/
def sendData (ans : Answers) (hs : HttpState) : HttpState :=
  let len := if (ans.sndbuf : Int) < hs.left then ans.sndbuf % 2 ^ 16 else (hs.left % 2 ^ 16).toNat
  match sendLoop ans.tcpWrite 17 len 0 with
  | (.ok, len) =>
      { hs with
        file := hs.file.map fun f => { f with offset := f.offset + len }
        left := hs.left - len }
  | _ => hs

/-! ### Requests -/

/-- The texts that `handle_line` compares with. -/
def getText : List UInt8 := [0x47, 0x45, 0x54, 0x20]

/-- `"POST "`, the five characters of `"POST /"` that are compared. -/
def postText : List UInt8 := [0x50, 0x4f, 0x53, 0x54, 0x20]

/-- `"Content-Length:"`. -/
def contentLengthText : List UInt8 :=
  [0x43, 0x6f, 0x6e, 0x74, 0x65, 0x6e, 0x74, 0x2d, 0x4c, 0x65, 0x6e, 0x67, 0x74, 0x68, 0x3a]

/-- The request line. `none` when it is neither a `GET` nor a `POST`. -/
def requestLine (files : Nat → Nat) (hs : HttpState) : Option HttpState :=
  if lineStarts hs.lineBuf getText then
    let fno := simpleStrtoul hs.lineBuf 5
    some { hs.select files (if 2 < fno then 4 else fno) with gotfirst := true }
  else if lineStarts hs.lineBuf postText then
    some { hs.select files 5 with ispost := true, gotfirst := true }
  else none

/-- The empty line at the end of the header: get a buffer for the body, or answer. -/
def headerEnd (ans : Answers) (hs : HttpState) : HttpState :=
  if hs.ispost ∧ hs.postlen ≠ 0 then
    { hs with postdata := (malloc ans.heap (hs.postlen % 2 ^ 32).toNat).1, postpos := 0 }
  else { sendData ans hs with gotfirst := false }

/-- `Content-Length:`, whose number is taken from the seventeenth character on. -/
def contentLength (hs : HttpState) : HttpState :=
  if lineStarts hs.lineBuf contentLengthText then
    { hs with postlen := (simpleStrtoul hs.lineBuf 16 : Int).bmod (2 ^ 32) }
  else hs

/-- `handle_line`; `none` stands for its result 0. -/
def handleLine (files : Nat → Nat) (ans : Answers) (hs : HttpState) : Option HttpState :=
  if hs.gotfirst then
    some (contentLength (if hs.lineBuf 0 = 0 then headerEnd ans hs else hs))
  else requestLine files hs

/-! ### The body -/

/-- The first scan of `handle_post`: the first line end at `i` or later. -/
def findLineEnd (m : Mem) (postdata : Nat) : Nat → Nat → Option Nat
  | 0, _ => none
  | remaining + 1, i =>
      if m (u32 (postdata + i)) = 0x0a ∨ m (u32 (postdata + i)) = 0x0d then some i
      else findLineEnd m postdata remaining (i + 1)

/-- The second scan: two line feeds with nothing but carriage returns between. -/
def findBlank (m : Mem) (postdata : Nat) : Nat → Nat → Nat → Option Nat
  | 0, _, _ => none
  | remaining + 1, i, ncnt =>
      if m (u32 (postdata + i)) = 0x0d then findBlank m postdata remaining (i + 1) ncnt
      else if m (u32 (postdata + i)) = 0x0a then
        if ncnt + 1 = 2 then some i else findBlank m postdata remaining (i + 1) (ncnt + 1)
      else findBlank m postdata remaining (i + 1) 0

/-- The third scan: the boundary, wherever its last bytes lie. -/
def findBoundary (m : Mem) (postdata blen : Nat) : Nat → Nat → Option Nat
  | 0, _ => none
  | remaining + 1, i =>
      if memcmpEq m postdata (postdata + i) blen then some i
      else findBoundary m postdata blen remaining (i + 1)

/-- The end of `handle_post`: `end` and `start` are known, with whatever values. -/
def judge (files : Nat → Nat) (expected : Nat) (start theEnd : Nat) (hs : HttpState) : Nat × HttpState :=
  if theEnd = 0 then (0, hs)
  else
    let len := ((theEnd : Int) - 2 - start).bmod (2 ^ 32)
    if len ≠ expected then (0, hs.select files 3)
    else (1, { hs.select files 2 with biosStart := start, biosLen := len })

/-- `handle_post`, with `GlobalExpectedFlashFileSize` as `expected`; its only caller does not look at the value. -/
def handlePost (files : Nat → Nat) (expected : Nat) (ans : Answers) (hs : HttpState) (m : Mem) :
    Nat × HttpState × Mem :=
  let hs := hs.select files 5
  let postlen := hs.postlen.toNat
  match findLineEnd m hs.postdata postlen 0 with
  | none => (0, hs, m)
  | some blen =>
      let m := m.store (u32 (hs.postdata + blen)) 0
      match findBlank m hs.postdata (postlen - blen) blen 0 with
      | none =>
          -- the third scan has nothing left, so `end` is as uninitialised as `start`
          if ans.start = 0 then (0, hs, m)
          else
            let judged := judge files expected ans.start ans.theEnd hs
            (judged.1, judged.2, m)
      | some i =>
          let start := u32 (hs.postdata + i + 1)
          if start = 0 then (0, hs, m)
          else
            let theEnd :=
              match findBoundary m hs.postdata blen (postlen - i) i with
              | none => ans.theEnd
              | some k => u32 (hs.postdata + k)
            let judged := judge files expected start theEnd hs
            (judged.1, judged.2, m)

/-! ### Callbacks -/

/-- `hs->lineBuf[hs->lineBufpos] = c`. -/
def HttpState.storeLine (hs : HttpState) (c : UInt8) : HttpState :=
  { hs with lineBuf := fun i => if i = hs.lineBufpos then c else hs.lineBuf i }

/-- A byte of the header. The test of `lineBufpos` is unsigned. -/
def headerByte (files : Nat → Nat) (r : Received) (c : Conn) : Conn :=
  if r.byte = 0x0d then c
  else if r.byte = 0x0a then
    match handleLine files r.answers (c.hs.storeLine 0) with
    | none => closeConn { c with hs := c.hs.storeLine 0 }
    | some hs => { c with hs := { hs with lineBufpos := 0 } }
  else if 0 ≤ c.hs.lineBufpos ∧ c.hs.lineBufpos < 256 - 2 then
    { c with hs := { c.hs.storeLine r.byte with lineBufpos := (c.hs.lineBufpos + 1).bmod 256 } }
  else c

/-- A byte of the body. -/
def bodyByte (files : Nat → Nat) (expected : Nat) (r : Received) (c : Conn) : Conn :=
  let mem := c.mem.store (u32 (c.hs.postdata + c.hs.postpos)) r.byte
  let hs := { c.hs with postpos := c.hs.postpos + 1 }
  let body := c.body ++ [r.byte]
  if (hs.postpos : Int) = hs.postlen then
    let (_, hs, mem) := handlePost files expected r.answers hs mem
    { c with hs := { sendData r.answers hs with gotfirst := false }, mem := mem, body := body }
  else { c with hs := hs, mem := mem, body := body }

/-- One turn of the byte loop of `http_recv`. After `close_conn` the loop is left. -/
def recvByte (files : Nat → Nat) (expected : Nat) (c : Conn) (r : Received) : Conn :=
  match c.phase with
  | .opened => if c.hs.postdata = 0 then headerByte files r c else bodyByte files expected r c
  | _ => c

/-- `http_recv` with data: the bytes of every `pbuf` of the chain. -/
def httpRecv (files : Nat → Nat) (expected : Nat) (c : Conn) (chain : List (List Received)) : Conn :=
  chain.foldl (fun c q => q.foldl (recvByte files expected) c) c

/-- `http_sent`. -/
def httpSent (ans : Answers) (c : Conn) : Conn :=
  let hs := { c.hs with retries := 0 }
  if 0 < hs.left then { c with hs := sendData ans hs } else closeConn { c with hs := hs }

/-- `http_poll`. The fourth poll without progress aborts, which calls `conn_err`. -/
def httpPoll (ans : Answers) (c : Conn) : Conn :=
  let hs := { c.hs with retries := c.hs.retries + 1 }
  if hs.retries = 4 then { c with hs := hs, phase := .gone } else { c with hs := sendData ans hs }

/-- What can happen to an open connection. -/
inductive Event where
  | recv (chain : List (List Received))
  | remoteClose
  | sent (ans : Answers)
  | poll (ans : Answers)
  | error
  /-- Other code runs and leaves the memory as given. -/
  | elsewhere (mem : Mem)

/-- The connection after an event. -/
def Event.apply (files : Nat → Nat) (expected : Nat) (c : Conn) : Event → Conn
  | .recv chain => httpRecv files expected c chain
  | .remoteClose => closeConn c
  | .sent ans => httpSent ans c
  | .poll ans => httpPoll ans c
  | .error => { c with phase := .gone }
  | .elsewhere mem => { c with mem := mem }

end Cromwell.Http
