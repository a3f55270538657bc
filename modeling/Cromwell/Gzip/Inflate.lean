/-
Module: Cromwell.Gzip.Inflate
Layer: Model
Purpose: `inflate` of `lib/gzip/inflate.c` and what it calls, down to the table look-ups and copies, and `gunzip` with
  `decompress_kernel` around it. The heap marks, the counter `hufts` and the calls of `huft_free` have no effect here
  and are left out; `error` never returns, so it ends the run with its text. Loops without a bound of their own have
  as many rounds as there are bits or bytes in the input.
Imports: Cromwell.Gzip.Inbuf, Cromwell.Gzip.Window, Cromwell.Gzip.Huft
Trusted boundary: reviewed against src/lib/gzip/inflate.c and src/lib/gzip/misc.c
Main exports: decode, inflateCodes, inflateStored, inflateFixed, inflateDynamic, inflateBlock, inflate, gunzip,
  decompressKernel
-/
import Cromwell.Gzip.Inbuf
import Cromwell.Gzip.Window
import Cromwell.Gzip.Huft

namespace Cromwell.Gzip

/-- The statics of both sides. -/
structure Statics where
  inp : Inbuf
  out : Slide
deriving DecidableEq, Repr

/-- What uninitialised memory holds in each call of `huft_build`: the state of the input and the number of the call in
    the block tell the calls apart. -/
abbrev Memory := Inbuf → Nat → Stray

/-! ### The tables of the format -/

/-- `border[]`. -/
def border : List Nat := [16, 17, 18, 0, 8, 7, 9, 6, 10, 5, 11, 4, 12, 3, 13, 2, 14, 1, 15]

/-- `cplens[]`. -/
def cplens : List Nat :=
  [3, 4, 5, 6, 7, 8, 9, 10, 11, 13, 15, 17, 19, 23, 27, 31, 35, 43, 51, 59, 67, 83, 99, 115, 131, 163, 195, 227,
    258, 0, 0]

/-- `cplext[]`. -/
def cplext : List Nat :=
  [0, 0, 0, 0, 0, 0, 0, 0, 1, 1, 1, 1, 2, 2, 2, 2, 3, 3, 3, 3, 4, 4, 4, 4, 5, 5, 5, 5, 0, 99, 99]

/-- `cpdist[]`. -/
def cpdist : List Nat :=
  [1, 2, 3, 4, 5, 7, 9, 13, 17, 25, 33, 49, 65, 97, 129, 193, 257, 385, 513, 769, 1025, 1537, 2049, 3073, 4097,
    6145, 8193, 12289, 16385, 24577]

/-- `cpdext[]`. -/
def cpdext : List Nat :=
  [0, 0, 0, 0, 1, 1, 2, 2, 3, 3, 4, 4, 5, 5, 6, 6, 7, 7, 8, 8, 9, 9, 10, 10, 11, 11, 12, 12, 13, 13]

/-- `lbits`. -/
def lbits : Nat := 9

/-- `dbits`. -/
def dbits : Nat := 6

/-! ### Codes -/

/-- The loop over the tables, up to the `DUMPBITS(t->b)` behind it; nothing for an unused code. A walk reads at least a
    bit in every round, and no code has more than `BMAX`. -/
def walk (tables : Tables) : Nat → Huft → Inbuf → Except Halt (Option Huft × Inbuf)
  | 0, _, _ => .error .endless
  | rounds + 1, t, s =>
      if t.e ≤ 16 then .ok (some t, s.dumpbits t.b)
      else if t.e = 99 then .ok (none, s)
      else do
        let s ← (s.dumpbits t.b).needbits (t.e - 16)
        walk tables rounds (tables.at t.v (s.peek (t.e - 16))) s

/-- `NEEDBITS((unsigned)bl)`, the look-up in the first table, and the walk from there. -/
def decode (tables : Tables) (bl : Nat) (s : Inbuf) : Except Halt (Option Huft × Inbuf) := do
  let s ← s.needbits bl
  if tables = [] then .error .nullTable
  else walk tables (bmax + 1) (tables.at 0 (s.peek bl)) s

/-- `NEEDBITS(e)`, `(unsigned)b & mask_bits[e]` and `DUMPBITS(e)`. -/
def takeBits (n : Nat) (s : Inbuf) : Except Halt (Nat × Inbuf) := do
  let s ← s.needbits n
  .ok (s.peek n, s.dumpbits n)

/-- The loop of `inflate_codes`. -/
def codesLoop (tl td : Tables) (bl bd : Nat) : Nat → Statics → Except Halt (Nat × Statics)
  | 0, _ => .error .endless
  | rounds + 1, st => do
      let (found, inp) ← decode tl bl st.inp
      match found with
      | none => .ok (1, ⟨inp, st.out⟩)
      | some t =>
          if t.e = 16 then codesLoop tl td bl bd rounds ⟨inp, putByte st.out (UInt8.ofNat t.v)⟩
          else if t.e = 15 then .ok (0, ⟨inp, st.out⟩)
          else do
            let (x, inp) ← takeBits t.e inp
            let (found, inp) ← decode td bd inp
            match found with
            | none => .ok (1, ⟨inp, st.out⟩)
            | some t' => do
                let (y, inp) ← takeBits t'.e inp
                codesLoop tl td bl bd rounds ⟨inp, copyMatch t'.v y (t.v + x) st.out⟩

/-- `inflate_codes`. -/
def inflateCodes (tl td : Tables) (bl bd : Nat) (st : Statics) : Except Halt (Nat × Statics) :=
  codesLoop tl td bl bd (8 * st.inp.input.length + 1) st

/-! ### Blocks -/

/-- `while (n--)` of `inflate_stored`. -/
def storedLoop : Nat → Statics → Except Halt Statics
  | 0, st => .ok st
  | n + 1, st => do
      let inp ← st.inp.needbits 8
      storedLoop n ⟨inp.dumpbits 8, putByte st.out (UInt8.ofNat inp.bb)⟩

/-- `inflate_stored`. -/
def inflateStored (st : Statics) : Except Halt (Nat × Statics) := do
  let (n, inp) ← takeBits 16 (st.inp.dumpbits (st.inp.bk &&& 7))
  let inp ← inp.needbits 16
  if n ≠ (inp.bb ^^^ 0xffffffff) &&& 0xffff then .ok (1, ⟨inp, st.out⟩)
  else do
    let st ← storedLoop n ⟨inp.dumpbits 16, st.out⟩
    .ok (0, st)

/-- The literal lengths of `inflate_fixed`. -/
def fixedLiteral : List Nat :=
  List.replicate 144 8 ++ List.replicate 112 9 ++ List.replicate 24 7 ++ List.replicate 8 8

/-- The distance lengths of `inflate_fixed`. -/
def fixedDistance : List Nat := List.replicate 30 5

/-- `inflate_fixed`. -/
def inflateFixed (memory : Memory) (st : Statics) : Except Halt (Nat × Statics) :=
  let tl := huftBuild (memory st.inp 0) fixedLiteral 257 cplens cplext 7
  if tl.code ≠ 0 then .ok (tl.code, st)
  else
    let td := huftBuild (memory st.inp 1) fixedDistance 0 cpdist cpdext 5
    if td.code > 1 then .ok (td.code, st)
    else do
      let (r, st) ← inflateCodes tl.tables td.tables tl.bits td.bits st
      .ok (if r ≠ 0 then 1 else 0, st)

/-- `for (j = 0; j < nb; j++)`: the lengths of the bit length codes, in the order of `border`. -/
def bitLengthsLoop : List Nat → List Nat → Inbuf → Except Halt (List Nat × Inbuf)
  | [], ll, s => .ok (ll, s)
  | i :: places, ll, s => do
      let (x, s) ← takeBits 3 s
      bitLengthsLoop places (ll.set i x) s

/-- `for (; j < 19; j++) ll[border[j]] = 0;`. -/
def clearLengths (places : List Nat) (ll : List Nat) : List Nat := places.foldl (fun ll i => ll.set i 0) ll

/-- `while ((unsigned)i < n)`: the literal and distance code lengths, with the last one in `l`; nothing if a repetition
    goes too far. Every round adds a length. -/
def lengthsLoop (tl : Tables) (bl n : Nat) :
    Nat → Nat → List Nat → Inbuf → Except Halt (Option (List Nat) × Inbuf)
  | 0, _, _, _ => .error .endless
  | rounds + 1, l, ll, s =>
      if ll.length < n then do
        let s ← s.needbits bl
        if tl = [] then .error .nullTable
        else
          let td := tl.at 0 (s.peek bl)
          let s := s.dumpbits td.b
          if td.v < 16 then lengthsLoop tl bl n rounds td.v (ll ++ [td.v]) s
          else if td.v = 16 then do
            let (x, s) ← takeBits 2 s
            if ll.length + (3 + x) > n then .ok (none, s)
            else lengthsLoop tl bl n rounds l (ll ++ List.replicate (3 + x) l) s
          else if td.v = 17 then do
            let (x, s) ← takeBits 3 s
            if ll.length + (3 + x) > n then .ok (none, s)
            else lengthsLoop tl bl n rounds 0 (ll ++ List.replicate (3 + x) 0) s
          else do
            let (x, s) ← takeBits 7 s
            if ll.length + (11 + x) > n then .ok (none, s)
            else lengthsLoop tl bl n rounds 0 (ll ++ List.replicate (11 + x) 0) s
      else .ok (some ll, s)

/-- `inflate_dynamic` from the decoding tables for literals and distances on. -/
def inflateTrees (memory : Memory) (nl : Nat) (ll : List Nat) (st : Statics) : Except Halt (Nat × Statics) :=
  let tl := huftBuild (memory st.inp 1) (ll.take nl) 257 cplens cplext lbits
  if tl.code ≠ 0 then
    if tl.code = 1 then .error (.error " incomplete literal tree\n") else .ok (tl.code, st)
  else
    let td := huftBuild (memory st.inp 2) (ll.drop nl) 0 cpdist cpdext dbits
    if td.code ≠ 0 then
      if td.code = 1 then .error (.error " incomplete distance tree\n") else .ok (td.code, st)
    else do
      let (r, st) ← inflateCodes tl.tables td.tables tl.bits td.bits st
      .ok (if r ≠ 0 then 1 else 0, st)

/-- `inflate_dynamic`. -/
def inflateDynamic (memory : Memory) (st : Statics) : Except Halt (Nat × Statics) := do
  let (x, inp) ← takeBits 5 st.inp
  let nl := 257 + x
  let (x, inp) ← takeBits 5 inp
  let nd := 1 + x
  let (x, inp) ← takeBits 4 inp
  let nb := 4 + x
  if nl > 286 ∨ nd > 30 then .ok (1, ⟨inp, st.out⟩)
  else do
    let (ll, inp) ← bitLengthsLoop (border.take nb) (List.replicate 19 0) inp
    let ll := clearLengths (border.drop nb) ll
    let tl := huftBuild (memory inp 0) ll 19 [] [] 7
    if tl.code ≠ 0 then .ok (tl.code, ⟨inp, st.out⟩)
    else do
      let (found, inp) ← lengthsLoop tl.tables tl.bits (nl + nd) (nl + nd + 1) 0 [] inp
      match found with
      | none => .ok (1, ⟨inp, st.out⟩)
      | some ll => inflateTrees memory nl ll ⟨inp, st.out⟩

/-- `inflate_block`: the last block flag, the result code, and the statics. -/
def inflateBlock (memory : Memory) (st : Statics) : Except Halt (Nat × Nat × Statics) := do
  let (e, inp) ← takeBits 1 st.inp
  let (t, inp) ← takeBits 2 inp
  if t = 2 then do
    let (r, st) ← inflateDynamic memory ⟨inp, st.out⟩
    .ok (e, r, st)
  else if t = 0 then do
    let (r, st) ← inflateStored ⟨inp, st.out⟩
    .ok (e, r, st)
  else if t = 1 then do
    let (r, st) ← inflateFixed memory ⟨inp, st.out⟩
    .ok (e, r, st)
  else .ok (e, 2, ⟨inp, st.out⟩)

/-- `do … while (!e)` of `inflate`. -/
def blocksLoop (memory : Memory) : Nat → Statics → Except Halt (Nat × Statics)
  | 0, _ => .error .endless
  | rounds + 1, st => do
      let (e, r, st) ← inflateBlock memory st
      if r ≠ 0 then .ok (r, st)
      else if e = 0 then blocksLoop memory rounds st
      else .ok (0, st)

/-- `while (bk >= 8) { bk -= 8; inptr--; }`, with `bk` rounds. -/
def undoLookahead : Nat → Inbuf → Inbuf
  | 0, s => s
  | rounds + 1, s => if s.bk ≥ 8 then undoLookahead rounds { s with bk := s.bk - 8, inptr := s.inptr - 1 } else s

/-- `inflate`. -/
def inflate (memory : Memory) (st : Statics) : Except Halt (Nat × Statics) := do
  let st : Statics := ⟨{ st.inp with bb := 0, bk := 0 }, { st.out with outcnt := 0 }⟩
  let (r, st) ← blocksLoop memory (8 * st.inp.input.length + 1) st
  if r ≠ 0 then .ok (r, st)
  else .ok (0, ⟨undoLookahead st.inp.bk st.inp, flushWindow st.out⟩)

/-! ### The file -/

/-- `while (len--) (void)get_byte();`. -/
def skipBytes : Nat → Inbuf → Except Halt Inbuf
  | 0, s => .ok s
  | len + 1, s => do
      let (_, s) ← s.getByte
      skipBytes len s

/-- `while (get_byte() != 0)`. -/
def skipString : Nat → Inbuf → Except Halt Inbuf
  | 0, _ => .error .endless
  | rounds + 1, s => do
      let (c, s) ← s.getByte
      if c ≠ 0 then skipString rounds s else .ok s

/-- Two bytes, the low one first. -/
def getShort (s : Inbuf) : Except Halt (Nat × Inbuf) := do
  let (a, s) ← s.getByte
  let (b, s) ← s.getByte
  .ok (a.toNat ||| b.toNat <<< 8, s)

/-- Four bytes, the lowest one first. -/
def getLong (s : Inbuf) : Except Halt (Nat × Inbuf) := do
  let (a, s) ← s.getByte
  let (b, s) ← s.getByte
  let (c, s) ← s.getByte
  let (d, s) ← s.getByte
  .ok (a.toNat ||| b.toNat <<< 8 ||| c.toNat <<< 16 ||| d.toNat <<< 24, s)

/-- The optional fields of the header. -/
def skipFields (flags : UInt8) (s : Inbuf) : Except Halt Inbuf := do
  let s ←
    if flags &&& 0x04 ≠ 0 then do
      let (len, s) ← getShort s
      skipBytes len s
    else .ok s
  let s ← if flags &&& 0x08 ≠ 0 then skipString (s.input.length + 1) s else .ok s
  if flags &&& 0x10 ≠ 0 then skipString (s.input.length + 1) s else .ok s

/-- The header of `gunzip`. -/
def gunzipHeader (s : Inbuf) : Except Halt Inbuf := do
  let (magic0, s) ← s.getByte
  let (magic1, s) ← s.getByte
  let (method, s) ← s.getByte
  if magic0 ≠ 0x1f ∨ (magic1 ≠ 0x8b ∧ magic1 ≠ 0x9e) then .error (.error "bad gzip magic numbers")
  else if method ≠ 8 then .error (.error "internal error, invalid method")
  else do
    let (flags, s) ← s.getByte
    if flags &&& 0x20 ≠ 0 then .error (.error "Input is encrypted\n")
    else if flags &&& 0x02 ≠ 0 then .error (.error "Multi part input\n")
    else if flags &&& 0xC0 ≠ 0 then .error (.error "Input has invalid flags\n")
    else do
      let s ← skipBytes 6 s
      skipFields flags s

/-- The texts for the result codes of `inflate`. -/
def inflateError (res : Nat) : String :=
  if res = 1 then "invalid compressed format (err=1)"
  else if res = 2 then "invalid compressed format (err=2)"
  else if res = 3 then "out of memory"
  else "invalid compressed format (other)"

/-- `gunzip`: what is left of it when it returns `0`; whenever it would return `-1` it has called `error`. -/
def gunzip (memory : Memory) (st : Statics) : Except Halt Statics := do
  let inp ← gunzipHeader st.inp
  let (res, st) ← inflate memory ⟨inp, st.out⟩
  if res ≠ 0 then .error (.error (inflateError res))
  else do
    let (origCrc, inp) ← getLong st.inp
    let (origLen, inp) ← getLong inp
    if origCrc ≠ (st.out.crc ^^^ 0xffffffff#32).toNat then .error (.error "crc error")
    else if origLen ≠ st.out.bytesOut then .error (.error "length error")
    else .ok ⟨inp, st.out⟩

/-- `decompress_kernel`, for a window that holds `window` when it is called: the bytes it leaves at `out`. -/
def decompressKernel (memory : Memory) (window data : List UInt8) : Except Halt (List UInt8) := do
  let st ← gunzip memory ⟨⟨data, 0, 0, 0, 0⟩, ⟨window, 0, [], 0, 0xffffffff#32⟩⟩
  .ok st.out.output

end Cromwell.Gzip
