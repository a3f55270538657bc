/-
Module: Cromwell.Gzip.Window
Layer: Model
Purpose: The output side of `lib/gzip/inflate.c` and `misc.c`: the table of `makecrc`, the sliding window,
  `flush_window` and the copy loop of `inflate_codes`. The window with what was flushed always stands for one growing
  byte string, whatever the window held at the start; a copy appends to that string symbol by symbol, although the
  loop works in chunks that stop at the end of the window and moves them with `memcpy` where it can.
Imports: Cromwell.Lib.BitString, Cromwell.Lib.ByteMemory, Cromwell.Lib.Crc, Cromwell.Lib.Lz77
Trusted boundary: reviewed against src/lib/gzip/inflate.c and src/lib/gzip/misc.c
Main exports: crc32Tab, Slide, flushWindow, putByte, copyMatch, crcUpdate_eq, Slide.Represents, putByte_spec,
  copyMatch_spec, flushWindow_spec
-/
import Cromwell.Lib.BitString
import Cromwell.Lib.ByteMemory
import Cromwell.Lib.Crc
import Cromwell.Lib.Lz77

namespace Cromwell.Gzip

open BitString
open Lz77 (back copyBack)

/-- `WSIZE`. -/
def wsize : Nat := 0x8000

/-! ### The table of the check sum -/

/-- `e` of `makecrc`, from the terms of the polynomial. -/
def crcPolynomial : BitVec 32 :=
  [0, 1, 2, 4, 5, 7, 8, 10, 11, 12, 16, 22, 23, 26].foldl (fun e p => e ||| 1#32 <<< (31 - p)) 0

/-- `for (k = i | 256; k != 1; k >>= 1)`; nine rounds are always enough. -/
def makecrcLoop : Nat → Nat → BitVec 32 → BitVec 32
  | 0, _, c => c
  | rounds + 1, k, c =>
      if k = 1 then c
      else
        let c := if c.getLsbD 0 then (c >>> 1) ^^^ crcPolynomial else c >>> 1
        let c := if k % 2 = 1 then c ^^^ crcPolynomial else c
        makecrcLoop rounds (k / 2) c

/-- `crc_32_tab[]` as `makecrc` leaves it. -/
def crc32Tab : List (BitVec 32) :=
  0 :: (List.range' 1 255).map fun i => makecrcLoop 9 (i ||| 256) 0

/-- `c = crc_32_tab[((int)c ^ ch) & 0xff] ^ (c >> 8)`. -/
def crcByte (c : BitVec 32) (ch : UInt8) : BitVec 32 :=
  crc32Tab.getD ((c ^^^ BitVec.ofNat 32 ch.toNat) &&& 255#32).toNat 0 ^^^ (c >>> 8)

/-- The check sum over a run of bytes. -/
def crcUpdate (c : BitVec 32) (l : List UInt8) : BitVec 32 := l.foldl crcByte c

/-! ### The window -/

/-- The statics of the output side: `window`, `outcnt`, `output_data[0..output_ptr)`, `bytes_out` and `crc`. -/
structure Slide where
  window : List UInt8
  outcnt : Nat
  output : List UInt8
  bytesOut : Nat
  crc : BitVec 32
deriving DecidableEq, Repr

/-- `flush_window`. -/
def flushWindow (o : Slide) : Slide :=
  { o with
    crc := crcUpdate o.crc (o.window.take o.outcnt)
    output := o.output ++ o.window.take o.outcnt
    bytesOut := ByteMemory.u32 (o.bytesOut + o.outcnt)
    outcnt := 0 }

/-- `slide[w++] = c`. -/
def Slide.put (o : Slide) (c : UInt8) : Slide :=
  { o with window := o.window.set o.outcnt c, outcnt := o.outcnt + 1 }

/-- `if (w == WSIZE) { flush_output(w); w = 0; }`. -/
def Slide.wrap (o : Slide) : Slide := if o.outcnt = wsize then flushWindow o else o

/-- A byte of a literal or of a stored block. -/
def putByte (o : Slide) (c : UInt8) : Slide := (o.put c).wrap

/-- The byte loop of `memcpy(slide + w, slide + d, n)`. -/
def memcpyLoop (w d : Nat) : Nat → Nat → List UInt8 → List UInt8
  | 0, _, slide => slide
  | left + 1, i, slide => memcpyLoop w d left (i + 1) (slide.set (w + i) (slide.getD (d + i) 0))

/-- `do { slide[w++] = slide[d++]; } while (--e);` for `e > 0`. -/
def slowCopy : Nat → Nat → Slide → Slide
  | 0, _, o => o
  | e + 1, d, o => slowCopy e (d + 1) (o.put (o.window.getD d 0))

/-- One chunk of a copy. -/
def copyChunk (e d : Nat) (o : Slide) : Slide :=
  if ByteMemory.sub32 o.outcnt d ≥ e then
    { o with window := memcpyLoop o.outcnt d e 0 o.window, outcnt := o.outcnt + e }
  else slowCopy e d o

/-- The copy loop; `n` rounds are always enough. -/
def copyLoop : Nat → Nat → Nat → Slide → Slide
  | 0, _, _, o => o
  | rounds + 1, n, d, o =>
      let d := d &&& (wsize - 1)
      let e := min (wsize - max d o.outcnt) n
      let n := n - e
      let o := (copyChunk e d o).wrap
      if n ≠ 0 then copyLoop rounds n (d + e) o else o

/-- Copy `n` bytes from `base + extra` back: `d = w - t->v.n - ((unsigned)b & mask_bits[e])` and the loop. -/
def copyMatch (base extra n : Nat) (o : Slide) : Slide :=
  copyLoop (n + 1) n (ByteMemory.sub32 (ByteMemory.sub32 o.outcnt base) extra) o

/-! ### The table does eight shifts at once -/

theorem crcPolynomial_msb : crcPolynomial.msb = true := by decide

theorem makecrcLoop_step (c : BitVec 32) (b : Bool) :
    (if b then (if c.getLsbD 0 then (c >>> 1) ^^^ crcPolynomial else c >>> 1) ^^^ crcPolynomial
      else if c.getLsbD 0 then (c >>> 1) ^^^ crcPolynomial else c >>> 1) = Crc.feedBit crcPolynomial c b := by
  have hone : Crc.shift crcPolynomial (BitVec.ofNat 32 true.toNat) = crcPolynomial := by decide
  have hzero : Crc.shift crcPolynomial (BitVec.ofNat 32 false.toNat) = 0 := by decide
  rw [Crc.feedBit, Crc.shift_xor]
  cases b with
  | true => rw [if_pos rfl, hone]; rfl
  | false => rw [if_neg (by decide), hzero]; exact (BitVec.xor_zero).symm

theorem makecrcLoop_eq {m : Nat} (rounds v : Nat) (c : BitVec 32) (hv : v < 2 ^ m) (h : m < rounds) :
    makecrcLoop rounds (2 ^ m + v) c = Crc.feed crcPolynomial c (bits m v) := by
  induction m generalizing rounds v c with
  | zero =>
      obtain ⟨rounds, rfl⟩ : ∃ k, rounds = k + 1 := ⟨rounds - 1, by omega⟩
      have hone : 2 ^ 0 + v = 1 := by
        rw [Nat.pow_zero] at hv ⊢
        omega
      rw [makecrcLoop, if_pos hone]
      rfl
  | succ m ih =>
      obtain ⟨rounds, rfl⟩ : ∃ k, rounds = k + 1 := ⟨rounds - 1, by omega⟩
      have hpow : 2 ^ (m + 1) = 2 * 2 ^ m := Nat.pow_succ'
      have hpos : 0 < 2 ^ m := Nat.two_pow_pos m
      have hne : 2 ^ (m + 1) + v ≠ 1 := by omega
      have hlow : (2 ^ (m + 1) + v) % 2 = v % 2 := by omega
      have hhigh : (2 ^ (m + 1) + v) / 2 = 2 ^ m + v / 2 := by omega
      have hstep := makecrcLoop_step c (v % 2 == 1)
      rw [makecrcLoop, if_neg hne]
      dsimp only
      rw [hlow, hhigh, ih rounds (v / 2) _ (by omega) (by omega), bits, Crc.feed_cons, ← hstep]
      simp only [beq_iff_eq]

theorem crc32Tab_eq {i : Nat} (h : i < 256) :
    crc32Tab.getD i 0 = Crc.shifts crcPolynomial 8 (BitVec.ofNat 32 i) := by
  cases i with
  | zero => decide
  | succ i =>
      have hpow : i + 1 < 2 ^ 8 := h
      have hor : (1 + i) ||| 256 = 2 ^ 8 + (i + 1) := by
        rw [Nat.lor_comm, Nat.add_comm 1 i]
        exact (Nat.two_pow_add_eq_or_of_lt hpow 1).symm
      have hfeed : Crc.feed crcPolynomial 0 (bits 8 (i + 1)) =
          Crc.shifts crcPolynomial 8 (BitVec.ofNat 32 (i + 1)) := by
        rw [Crc.feed_eq_shifts crcPolynomial 0 (by rw [length_bits]; decide), length_bits, value_bits,
          Nat.mod_eq_of_lt hpow]
        exact congrArg _ (BitVec.zero_xor)
      have hentry : crc32Tab.getD (i + 1) 0 = makecrcLoop 9 ((1 + i) ||| 256) 0 := by
        simp [crc32Tab, List.getD_eq_getElem?_getD, show i < 255 by omega]
      rw [hentry, hor, makecrcLoop_eq 9 (i + 1) 0 h (by decide), hfeed]

/-- The table-driven check sum is the remainder of the message, bit by bit. -/
theorem crcUpdate_eq (c : BitVec 32) (l : List UInt8) :
    crcUpdate c l = Crc.feed crcPolynomial c (ofBytes l) := by
  induction l generalizing c with
  | nil => rfl
  | cons b l ih =>
      have hindex : ((c ^^^ BitVec.ofNat 32 b.toNat) &&& 255#32).toNat < 256 := by
        have hle : ((c ^^^ BitVec.ofNat 32 b.toNat) &&& 255#32).toNat ≤ 255 := by
          rw [BitVec.toNat_and]
          exact Nat.and_le_right
        omega
      have hbyte : crcByte c b = Crc.feed crcPolynomial c (bits 8 b.toNat) := by
        rw [crcByte, crc32Tab_eq hindex, BitVec.ofNat_toNat, BitVec.setWidth_eq,
          Crc.feed_byte_table crcPolynomial (by decide)]
      rw [ofBytes_cons, Crc.feed_append, ← hbyte]
      exact ih (crcByte c b)

theorem crcUpdate_append (c : BitVec 32) (l m : List UInt8) :
    crcUpdate c (l ++ m) = crcUpdate (crcUpdate c l) m := List.foldl_append

/-! ### What the window stands for -/

/-- The window with what was flushed stands for `t`, whose first `WSIZE` bytes are what the window held at the
    start, oldest first. -/
structure Slide.Represents (o : Slide) (t : List UInt8) : Prop where
  size : o.window.length = wsize
  inside : o.outcnt ≤ wsize
  long : wsize ≤ t.length
  recent : t.drop (t.length - wsize) = o.window.drop o.outcnt ++ o.window.take o.outcnt
  written : t.drop wsize = o.output ++ o.window.take o.outcnt
  count : o.bytesOut = ByteMemory.u32 o.output.length
  check : o.crc = crcUpdate 0xffffffff#32 o.output

/-- At the start the window stands for itself. -/
theorem represents_start {window : List UInt8} (h : window.length = wsize) :
    Slide.Represents ⟨window, 0, [], 0, 0xffffffff#32⟩ window :=
  { size := h
    inside := Nat.zero_le _
    long := h.ge
    recent := by simp [h]
    written := by rw [← h, List.drop_length]; rfl
    count := rfl
    check := rfl }

theorem put_represents {o : Slide} {t : List UInt8} (h : o.Represents t) (hroom : o.outcnt < wsize) (c : UInt8) :
    (o.put c).Represents (t ++ [c]) := by
  have hin : o.outcnt < o.window.length := by rw [h.size]; exact hroom
  have htake : (o.window.set o.outcnt c).take (o.outcnt + 1) = o.window.take o.outcnt ++ [c] := by
    rw [List.take_succ_eq_append_getElem (by rwa [List.length_set]), List.getElem_set_self, List.take_set_of_le le_rfl]
  have hdrop : (o.window.set o.outcnt c).drop (o.outcnt + 1) = o.window.drop (o.outcnt + 1) :=
    List.drop_set_of_lt (Nat.lt_succ_self _)
  constructor
  · show (o.window.set o.outcnt c).length = wsize
    rw [List.length_set]
    exact h.size
  · exact hroom
  · rw [List.length_append]
    exact h.long.trans (Nat.le_add_right _ _)
  · have hlong := h.long
    have hlen : (t ++ [c]).length - wsize = (t.length - wsize) + 1 := by
      rw [List.length_append, List.length_singleton]
      omega
    have hsplit : t.drop (t.length - wsize) = o.window[o.outcnt] :: (o.window.drop (o.outcnt + 1) ++
        o.window.take o.outcnt) := by
      rw [h.recent, List.drop_eq_getElem_cons hin, List.cons_append]
    have hpos : t.length - wsize + 1 ≤ t.length := by
      have : 0 < wsize := by decide
      omega
    show _ = (o.window.set o.outcnt c).drop (o.outcnt + 1) ++ (o.window.set o.outcnt c).take (o.outcnt + 1)
    rw [hlen, List.drop_append_of_le_length hpos, ← List.tail_drop, hsplit, List.tail_cons, htake, hdrop,
      List.append_assoc]
  · show _ = o.output ++ (o.window.set o.outcnt c).take (o.outcnt + 1)
    rw [List.drop_append_of_le_length h.long, h.written, htake, List.append_assoc]
  · exact h.count
  · exact h.check

/-- Flushing moves the window's bytes to the output and changes nothing else. -/
theorem flushWindow_output {o : Slide} {t : List UInt8} (h : o.Represents t) :
    (flushWindow o).output = t.drop wsize ∧ (flushWindow o).outcnt = 0 ∧
      (flushWindow o).bytesOut = ByteMemory.u32 (t.drop wsize).length ∧
      (flushWindow o).crc = crcUpdate 0xffffffff#32 (t.drop wsize) := by
  have hlen : (o.window.take o.outcnt).length = o.outcnt := List.length_take_of_le (by rw [h.size]; exact h.inside)
  refine ⟨h.written.symm, rfl, ?_, ?_⟩
  · show ByteMemory.u32 (o.bytesOut + o.outcnt) = _
    rw [h.written, List.length_append, hlen, h.count, ByteMemory.u32, ByteMemory.u32, ByteMemory.u32, Nat.mod_add_mod]
  · show crcUpdate o.crc (o.window.take o.outcnt) = _
    rw [h.written, crcUpdate_append, h.check]

theorem flushWindow_represents {o : Slide} {t : List UInt8} (h : o.Represents t) (hfull : o.outcnt = wsize) :
    (flushWindow o).Represents t := by
  obtain ⟨hout, hcnt, hbytes, hcrc⟩ := flushWindow_output h
  have hall : o.window.take o.outcnt = o.window := by rw [hfull, ← h.size, List.take_length]
  have hnone : o.window.drop o.outcnt = [] := by rw [hfull, ← h.size, List.drop_length]
  constructor
  · exact h.size
  · rw [hcnt]
    exact Nat.zero_le _
  · exact h.long
  · rw [h.recent, hall, hnone, hcnt, List.take_zero, List.drop_zero, List.append_nil]
    rfl
  · rw [hout, hcnt, List.take_zero, List.append_nil]
  · rw [hout, hbytes]
  · rw [hout, hcrc]

/-- After `if (w == WSIZE)` there is room for one more byte. -/
theorem wrap_spec {o : Slide} {t : List UInt8} (h : o.Represents t) :
    o.wrap.Represents t ∧ o.wrap.outcnt < wsize := by
  unfold Slide.wrap
  split
  case isTrue hfull => exact ⟨flushWindow_represents h hfull, Nat.two_pow_pos 15⟩
  case isFalse hroom => exact ⟨h, lt_of_le_of_ne h.inside hroom⟩

theorem putByte_spec {o : Slide} {t : List UInt8} (h : o.Represents t) (hroom : o.outcnt < wsize) (c : UInt8) :
    (putByte o c).Represents (t ++ [c]) ∧ (putByte o c).outcnt < wsize :=
  wrap_spec (put_represents h hroom c)

/-! ### Copies -/

/-- The byte `dist` back stands in the window, `dist` before the write position around the end. -/
theorem getD_window {o : Slide} {t : List UInt8} {dist d : Nat} (h : o.Represents t) (hroom : o.outcnt < wsize)
    (h1 : 1 ≤ dist) (hdist : dist ≤ wsize) (hd : d < wsize) (hcong : (d + dist) % wsize = o.outcnt % wsize) :
    o.window.getD d 0 = back t dist := by
  have hlong := h.long
  have hlast : back t dist = (t.drop (t.length - wsize)).getD (wsize - dist) 0 := by
    rw [back, List.getD_eq_getElem?_getD, List.getD_eq_getElem?_getD, List.getElem?_drop]
    congr 2
    omega
  have hdlen : (o.window.drop o.outcnt).length = wsize - o.outcnt := by rw [List.length_drop, h.size]
  rw [Nat.mod_eq_of_lt hroom] at hcong
  rw [hlast, h.recent]
  by_cases hfar : o.outcnt < dist
  · -- the byte is in the part that was written before the last wrap
    have hd' : d = o.outcnt + (wsize - dist) := by
      have hsum : d + dist = o.outcnt + wsize ∨ d + dist = o.outcnt := by
        rcases Nat.lt_or_ge (d + dist) wsize with hlt | hge
        · exact Or.inr (by rwa [Nat.mod_eq_of_lt hlt] at hcong)
        · have hsub : (d + dist) % wsize = d + dist - wsize := by
            rw [Nat.mod_eq_sub_mod hge, Nat.mod_eq_of_lt (by omega)]
          omega
      omega
    rw [List.getD_append _ _ _ _ (by omega), List.getD_eq_getElem?_getD, List.getD_eq_getElem?_getD,
      List.getElem?_drop, hd']
  · have hd' : d = o.outcnt - dist := by
      have hsum : d + dist = o.outcnt := by
        rcases Nat.lt_or_ge (d + dist) wsize with hlt | hge
        · rwa [Nat.mod_eq_of_lt hlt] at hcong
        · have hsub : (d + dist) % wsize = d + dist - wsize := by
            rw [Nat.mod_eq_sub_mod hge, Nat.mod_eq_of_lt (by omega)]
          omega
      omega
    rw [List.getD_append_right _ _ _ _ (by omega), hdlen, List.getD_eq_getElem?_getD, List.getD_eq_getElem?_getD,
      List.getElem?_take_of_lt (by omega)]
    congr 2
    omega

/-- Byte by byte, as long as neither position passes the end of the window. -/
theorem slowCopy_spec {dist : Nat} (h1 : 1 ≤ dist) (hdist : dist ≤ wsize) :
    ∀ (e : Nat) {d : Nat} {o : Slide} {t : List UInt8}, o.Represents t → o.outcnt + e ≤ wsize → d + e ≤ wsize →
      (d + dist) % wsize = o.outcnt % wsize →
      (slowCopy e d o).Represents (copyBack dist e t) ∧ (slowCopy e d o).outcnt = o.outcnt + e := by
  intro e
  induction e with
  | zero => exact fun h _ _ _ => ⟨h, rfl⟩
  | succ e ih =>
      intro d o t h hw hd hcong
      have hbyte : o.window.getD d 0 = back t dist :=
        getD_window h (by omega) h1 hdist (by omega) hcong
      have hput := put_represents h (by omega) (o.window.getD d 0)
      have hnext : (d + 1 + dist) % wsize = (o.put (o.window.getD d 0)).outcnt % wsize := by
        show _ = (o.outcnt + 1) % wsize
        rw [show d + 1 + dist = d + dist + 1 by ring, Nat.add_mod, hcong, ← Nat.add_mod]
      have hroom : (o.put (o.window.getD d 0)).outcnt + e ≤ wsize := by
        show o.outcnt + 1 + e ≤ wsize
        omega
      obtain ⟨hrep, hcnt⟩ := ih hput hroom (by omega) hnext
      rw [slowCopy, copyBack, ← hbyte]
      refine ⟨hrep, ?_⟩
      rw [hcnt]
      show o.outcnt + 1 + e = _
      ring

/-- `memcpy` runs upwards, so it does what the byte loop does. -/
theorem memcpyLoop_eq (d : Nat) :
    ∀ (e i : Nat) (o : Slide),
      slowCopy e (d + i) { o with outcnt := o.outcnt + i } =
        { o with window := memcpyLoop o.outcnt d e i o.window, outcnt := o.outcnt + i + e } := by
  intro e
  induction e with
  | zero => exact fun _ _ => rfl
  | succ e ih =>
      intro i o
      have hnext := ih (i + 1) { o with window := o.window.set (o.outcnt + i) (o.window.getD (d + i) 0) }
      rw [slowCopy, memcpyLoop, Nat.add_assoc d i 1]
      refine Eq.trans hnext ?_
      rw [Slide.mk.injEq]
      refine ⟨rfl, ?_, rfl, rfl, rfl⟩
      ring

theorem copyChunk_eq (e d : Nat) (o : Slide) : copyChunk e d o = slowCopy e d o := by
  unfold copyChunk
  split
  · exact (memcpyLoop_eq d e 0 o).symm
  · rfl

theorem and_wsize (d : Nat) : d &&& (wsize - 1) = d % wsize :=
  Nat.and_two_pow_sub_one_eq_mod d 15

/-- The whole loop, from any source position that is `dist` back modulo the size of the window. -/
theorem copyLoop_spec {dist : Nat} (h1 : 1 ≤ dist) (hdist : dist ≤ wsize) :
    ∀ (rounds : Nat) {n d : Nat} {o : Slide} {t : List UInt8}, o.Represents t → o.outcnt < wsize → n < rounds →
      (d + dist) % wsize = o.outcnt % wsize →
      (copyLoop rounds n d o).Represents (copyBack dist n t) ∧ (copyLoop rounds n d o).outcnt < wsize := by
  intro rounds
  induction rounds with
  | zero => exact fun _ _ hn => absurd hn (Nat.not_lt_zero _)
  | succ rounds ih =>
      intro n d o t h hroom hn hcong
      obtain ⟨e, he⟩ : ∃ e, e = min (wsize - max (d % wsize) o.outcnt) n := ⟨_, rfl⟩
      have hdlt : d % wsize < wsize := Nat.mod_lt _ (by decide)
      have hcong' : (d % wsize + dist) % wsize = o.outcnt % wsize := by rw [Nat.mod_add_mod, hcong]
      obtain ⟨hchunk, hcnt⟩ := slowCopy_spec h1 hdist e h (by omega) (by omega) hcong'
      obtain ⟨hwrap, hwraproom⟩ := wrap_spec hchunk
      have hwrapmod : (slowCopy e (d % wsize) o).wrap.outcnt % wsize = (o.outcnt + e) % wsize := by
        rw [Slide.wrap, hcnt]
        split
        case isTrue hfull => rw [hfull, Nat.mod_self]; rfl
        case isFalse => rw [hcnt]
      have hnext : (d % wsize + e + dist) % wsize = (slowCopy e (d % wsize) o).wrap.outcnt % wsize := by
        rw [hwrapmod, show d % wsize + e + dist = d % wsize + dist + e by ring, Nat.add_mod, hcong', ← Nat.add_mod]
      simp only [copyLoop, and_wsize, ← he, copyChunk_eq]
      by_cases hmore : n - e ≠ 0
      · rw [if_pos hmore]
        have hsplit : copyBack dist n t = copyBack dist (n - e) (copyBack dist e t) := by
          rw [← Lz77.copyBack_add, Nat.add_sub_cancel' (by omega)]
        rw [hsplit]
        exact ih hwrap hwraproom (by omega) hnext
      · rw [if_neg hmore, show n = e by omega]
        exact ⟨hwrap, hwraproom⟩

/-- A copy appends `n` bytes to the string, each of them `base + extra` back. -/
theorem copyMatch_spec {o : Slide} {t : List UInt8} {base extra : Nat} (h : o.Represents t)
    (hroom : o.outcnt < wsize) (h1 : 1 ≤ base + extra) (hdist : base + extra ≤ wsize) (n : Nat) :
    (copyMatch base extra n o).Represents (copyBack (base + extra) n t) ∧ (copyMatch base extra n o).outcnt < wsize := by
  refine copyLoop_spec h1 hdist (n + 1) h hroom (Nat.lt_succ_self n) ?_
  have hw : wsize = 32768 := rfl
  rw [ByteMemory.sub32, ByteMemory.sub32, ByteMemory.u32, ByteMemory.u32, hw]
  omega

/-! ### Runs of the output side -/

/-- What the loops do to the window: a byte, or a copy of `n` bytes from `base + extra` back. -/
inductive Op where
  | literal (c : UInt8)
  | copy (base extra n : Nat)
deriving DecidableEq, Repr

namespace Op

def run (o : Slide) : Op → Slide
  | literal c => putByte o c
  | copy base extra n => copyMatch base extra n o

/-- What it stands for. -/
def item : Op → Lz77.Item UInt8
  | literal c => .literal c
  | copy base extra n => .copy (base + extra) n

/-- A distance is never zero and never larger than the window. -/
def Valid : Op → Prop
  | literal _ => True
  | copy base extra _ => 1 ≤ base + extra ∧ base + extra ≤ wsize

instance : DecidablePred Valid
  | literal _ => inferInstanceAs (Decidable True)
  | copy base extra _ => inferInstanceAs (Decidable (1 ≤ base + extra ∧ base + extra ≤ wsize))

end Op

theorem op_step {op : Op} (hv : op.Valid) {o : Slide} {t : List UInt8} (h : o.Represents t) (hroom : o.outcnt < wsize) :
    (op.run o).Represents (op.item.expand t) ∧ (op.run o).outcnt < wsize := by
  cases op with
  | literal c => exact putByte_spec h hroom c
  | copy base extra n => exact copyMatch_spec h hroom hv.1 hv.2 n

theorem ops_run :
    ∀ (ops : List Op) {o : Slide} {t : List UInt8}, (∀ op ∈ ops, op.Valid) → o.Represents t → o.outcnt < wsize →
      (ops.foldl Op.run o).Represents (Lz77.expand t (ops.map Op.item)) ∧ (ops.foldl Op.run o).outcnt < wsize := by
  intro ops
  induction ops with
  | nil => exact fun _ h hroom => ⟨h, hroom⟩
  | cons op ops ih =>
      intro o t hv h hroom
      obtain ⟨hstep, hroom'⟩ := op_step (hv op List.mem_cons_self) h hroom
      exact ih (fun op' hmem => hv op' (List.mem_cons_of_mem _ hmem)) hstep hroom'

/-- The window may be written round and round: what is put out in the end is the expansion of the whole sequence, with
    its length and its check sum, whichever of the two copy loops was taken and wherever the window was flushed. -/
theorem ops_output {window : List UInt8} {ops : List Op} (hwindow : window.length = wsize)
    (hv : ∀ op ∈ ops, op.Valid) :
    let o := flushWindow (ops.foldl Op.run ⟨window, 0, [], 0, 0xffffffff#32⟩)
    let out := (Lz77.expand window (ops.map Op.item)).drop wsize
    o.output = out ∧ o.bytesOut = ByteMemory.u32 out.length ∧
      o.crc = Crc.feed crcPolynomial 0xffffffff#32 (ofBytes out) := by
  obtain ⟨hrep, -⟩ := ops_run ops hv (represents_start hwindow) (Nat.two_pow_pos 15)
  obtain ⟨hout, -, hbytes, hcrc⟩ := flushWindow_output hrep
  exact ⟨hout, hbytes, hcrc.trans (crcUpdate_eq _ _)⟩

theorem ops_output_run :
    let o := flushWindow ([Op.literal 7, .copy 1 0 5].foldl Op.run ⟨List.replicate wsize 0, 0, [], 0, 0xffffffff#32⟩)
    o.output = [7, 7, 7, 7, 7, 7] ∧ o.bytesOut = 6 ∧
      o.crc = Crc.feed crcPolynomial 0xffffffff#32 (ofBytes [7, 7, 7, 7, 7, 7]) := by
  have hrun : ∀ window : List UInt8, window.length = wsize →
      (Lz77.expand window ([Op.literal 7, .copy 1 0 5].map Op.item)).drop wsize = [7, 7, 7, 7, 7, 7] := by
    intro window hwindow
    rw [← hwindow]
    exact Lz77.drop_expand ⟨le_rfl, le_rfl, trivial⟩
  have hwindow : (List.replicate wsize (0 : UInt8)).length = wsize := List.length_replicate
  have hops := ops_output hwindow (show ∀ op ∈ [Op.literal 7, .copy 1 0 5], op.Valid by decide)
  rw [hrun _ hwindow] at hops
  exact hops

/-- The running check sum tells two strings apart that differ within 32 bits in a row and nowhere else, wherever these
    bits begin. -/
theorem crcUpdate_burst (c : BitVec 32) {l l' : List UInt8} {pre post burst burst' : List Bool}
    (hl : ofBytes l = pre ++ burst ++ post) (hl' : ofBytes l' = pre ++ burst' ++ post)
    (hlen : burst.length = burst'.length) (hshort : burst.length ≤ 32) (hne : l ≠ l') :
    crcUpdate c l ≠ crcUpdate c l' := by
  intro h
  rw [crcUpdate_eq, crcUpdate_eq, hl, hl'] at h
  have hburst : burst = burst' := Crc.feed_burst crcPolynomial crcPolynomial_msb c pre post hlen hshort h
  apply hne
  apply ofBytes_injective
  rw [hl, hl', hburst]

theorem crcUpdate_burst_byte : crcUpdate 0 [1, 2] ≠ crcUpdate 0 [1, 3] :=
  @crcUpdate_burst 0 [1, 2] [1, 3] (bits 8 1) [] (bits 8 2) (bits 8 3) rfl rfl rfl (by decide) (by decide)

end Cromwell.Gzip
