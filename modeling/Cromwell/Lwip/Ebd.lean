/-
Module: Cromwell.Lwip.Ebd
Layer: Model and proofs
Purpose: The glue between the network card and lwIP: `eth_poll_into` of `etherboot/core/nic.c`, `ebd_poll` and
  `ebd_low_level_output` of `lwip/ebd.c`. Both directions go through a local array of 1500 bytes, which is the payload
  of a full frame without its header. Within the array every frame crosses intact, for every segmentation; a longer
  one leaves it.
Imports: Cromwell.Lib.Buffer
Trusted boundary: reviewed against src/lwip/ebd.c and src/etherboot/core/nic.c; `pbuf_alloc` is a parameter
Main exports: Nic, ebdPoll, Pbuf, ebdLowLevelOutput, PollIntact, OutputIntact, frames_cross_intact
-/
import Cromwell.Lib.Buffer

namespace Cromwell.Lwip

open ByteMemory

/-! ### The driver side -/

/-- What the driver has left in `nic` when its poll answers true. -/
structure Nic where
  packetlen : Nat
  packet : Nat → UInt8

/-- The frame that was received. -/
def Nic.frame (nic : Nic) : List UInt8 := (List.range nic.packetlen).map nic.packet

/-- What `nic.transmit` is called with: the bytes at its pointers. -/
structure Transmit where
  dest : List UInt8
  type : Nat
  payload : List UInt8
deriving DecidableEq, Repr

/-- `eth_poll_into`, with what `eth_poll` has found. `none` when it writes outside `buf`, otherwise the length if
    there is a frame. -/
def ethPollInto (polled : Option Nic) (buf : Buffer) : Option (Option Nat × Buffer) :=
  match polled with
  | none => some (none, buf)
  | some nic => (buf.write 0 nic.packetlen nic.packet).map fun buf => (some nic.packetlen, buf)

/-! ### The lwIP side -/

/-- `char buf[1500]`, with what happens to be on the stack. -/
def localBuf (stack : Mem) : Buffer := ⟨1500, stack⟩

/-- A chain of `pbuf`s: the payloads in order, and `tot_len` of the first. -/
structure Pbuf where
  payloads : List (List UInt8)
  totLen : Nat

/-- The loop of `ebd_poll`: fill the segments one after another from `bufptr` on. -/
def fillSegments (buf : Buffer) : Nat → List Nat → Option (List (List UInt8))
  | _, [] => some []
  | bufptr, len :: rest => do
      let bytes ← buf.slice bufptr len
      let filled ← fillSegments buf (bufptr + len) rest
      pure ((List.range len).map bytes :: filled)

/-- `ebd_poll`. `pbufAlloc` answers the lengths of the segments of a chain for the given length, an `u16_t`. The
    result is `none` when an access leaves `buf`, otherwise the chain or NULL. -/
def ebdPoll (pbufAlloc : Nat → Option (List Nat)) (polled : Option Nic) (stack : Mem) : Option (Option Pbuf) := do
  let (len, buf) ← ethPollInto polled (localBuf stack)
  match len with
  | none => pure none
  | some len =>
      match pbufAlloc (len % 2 ^ 16) with
      | none => pure none
      | some segments => do
          let payloads ← fillSegments buf 0 segments
          pure (some ⟨payloads, len % 2 ^ 16⟩)

/-- The loop of `ebd_low_level_output`. -/
def gatherSegments : Buffer → Nat → List (List UInt8) → Option Buffer
  | buf, _, [] => some buf
  | buf, bufptr, payload :: rest => do
      let buf ← buf.write bufptr payload.length fun i => payload.getD i 0
      gatherSegments buf (bufptr + payload.length) rest

/-- `ebd_low_level_output`: what `eth_transmit` is handed, or `none` when an access leaves `buf`. The size is an
    `unsigned int`, and the type is stored with its high byte first. -/
def ebdLowLevelOutput (p : Pbuf) (stack : Mem) : Option Transmit := do
  let buf ← gatherSegments (localBuf stack) 0 p.payloads
  let dest ← buf.slice 0 6
  let type ← buf.slice 12 2
  let size := sub32 p.totLen 14
  let payload ← buf.slice 14 size
  pure
    { dest := (List.range 6).map dest
      type := (type 0).toNat * 256 + (type 1).toNat
      payload := (List.range size).map payload }

/-! ### What should happen -/

/-- `pbuf_alloc` answers chains of the length that was asked for. -/
def SumsToLength (pbufAlloc : Nat → Option (List Nat)) : Prop :=
  ∀ len segments, pbufAlloc len = some segments → segments.sum = len

/-- The frame reaches lwIP: nothing is written outside the array, and a chain that could be allocated holds it. -/
def PollIntact (pbufAlloc : Nat → Option (List Nat)) (nic : Nic) (stack : Mem) : Prop :=
  ∃ result, ebdPoll pbufAlloc (some nic) stack = some result ∧
    match pbufAlloc nic.packetlen with
    | none => result.isNone
    | some segments => ∃ p, result = some p ∧ p.payloads.map List.length = segments ∧
        p.payloads.flatten = nic.frame ∧ p.totLen = nic.packetlen

/-- The frame reaches the driver: nothing is written outside the array, and its parts are handed over. -/
def OutputIntact (p : Pbuf) (stack : Mem) : Prop :=
  ebdLowLevelOutput p stack = some
    { dest := p.payloads.flatten.take 6
      type := (p.payloads.flatten.getD 12 0).toNat * 256 + (p.payloads.flatten.getD 13 0).toNat
      payload := p.payloads.flatten.drop 14 }

/-! ### Receiving -/

/-- The segments get what is in the buffer, in order. -/
theorem fillSegments_run (size : Nat) (m : Mem) : ∀ (segments : List Nat) (bufptr : Nat),
    bufptr + segments.sum ≤ size → ∃ payloads, fillSegments ⟨size, m⟩ bufptr segments = some payloads ∧
      payloads.map List.length = segments ∧ payloads.flatten = m.bytesFrom bufptr segments.sum
  | [], bufptr, _ => ⟨[], rfl, rfl, rfl⟩
  | len :: rest, bufptr, fits => by
      rw [List.sum_cons] at fits
      obtain ⟨payloads, hrest, hlengths, hbytes⟩ := fillSegments_run size m rest (bufptr + len) (by omega)
      have hslice : (Buffer.mk size m).slice bufptr len = some fun i => m (bufptr + i) :=
        Buffer.slice_inside (by omega)
      refine ⟨m.bytesFrom bufptr len :: payloads, ?_, ?_, ?_⟩
      · simp only [fillSegments, hslice, hrest, Option.bind_eq_bind, Option.bind_some, Option.pure_def]
        rfl
      · rw [List.map_cons, hlengths, Mem.bytesFrom_length]
      · rw [List.flatten_cons, hbytes, List.sum_cons, Mem.bytesFrom_append]

/-- A frame that fits the array crosses intact. -/
theorem poll_intact {pbufAlloc : Nat → Option (List Nat)} (sums : SumsToLength pbufAlloc) {nic : Nic} (stack : Mem)
    (fits : nic.packetlen ≤ 1500) : PollIntact pbufAlloc nic stack := by
  have hwrite : (localBuf stack).write 0 nic.packetlen nic.packet = some ⟨1500, stack.write 0 nic.packetlen nic.packet⟩ :=
    Buffer.write_inside (by omega)
  have hlen : nic.packetlen % 2 ^ 16 = nic.packetlen := Nat.mod_eq_of_lt (by omega)
  cases halloc : pbufAlloc nic.packetlen with
  | none =>
      refine ⟨none, ?_, ?_⟩
      · simp only [ebdPoll, ethPollInto, hwrite, Option.map_some, Option.bind_eq_bind, Option.bind_some, hlen, halloc,
          Option.pure_def]
      · rw [halloc]
        rfl
  | some segments =>
      have hsum := sums _ _ halloc
      obtain ⟨payloads, hfill, hlengths, hbytes⟩ :=
        fillSegments_run 1500 (stack.write 0 nic.packetlen nic.packet) segments 0 (by omega)
      refine ⟨some ⟨payloads, nic.packetlen⟩, ?_, ?_⟩
      · simp only [ebdPoll, ethPollInto, hwrite, Option.map_some, Option.bind_eq_bind, Option.bind_some, hlen, halloc,
          hfill, Option.pure_def]
      · rw [halloc]
        refine ⟨_, rfl, hlengths, ?_, rfl⟩
        rw [hbytes, hsum, Mem.bytesFrom_write_self]
        rfl

/-- A longer frame is written over what lies behind the array. -/
theorem poll_overflows {pbufAlloc : Nat → Option (List Nat)} {nic : Nic} (stack : Mem) (long : 1500 < nic.packetlen) :
    ebdPoll pbufAlloc (some nic) stack = none := by
  have hwrite : (localBuf stack).write 0 nic.packetlen nic.packet = none := if_neg (by
    simp only [localBuf]
    omega)
  simp only [ebdPoll, ethPollInto, hwrite, Option.map_none, Option.bind_eq_bind, Option.bind_none]

/-! ### Sending -/

/-- The segments arrive one behind the other. -/
theorem gatherSegments_run (size : Nat) : ∀ (payloads : List (List UInt8)) (bufptr : Nat) (m : Mem),
    bufptr + payloads.flatten.length ≤ size →
    gatherSegments ⟨size, m⟩ bufptr payloads =
      some ⟨size, m.write bufptr payloads.flatten.length fun i => payloads.flatten.getD i 0⟩
  | [], bufptr, m, _ => by
      rw [List.flatten_nil, List.length_nil, Mem.write_zero]
      rfl
  | payload :: rest, bufptr, m, fits => by
      rw [List.flatten_cons, List.length_append] at fits
      have hwrite : (Buffer.mk size m).write bufptr payload.length (fun i => payload.getD i 0) =
          some ⟨size, m.write bufptr payload.length fun i => payload.getD i 0⟩ := Buffer.write_inside (by omega)
      simp only [gatherSegments, hwrite, Option.bind_eq_bind, Option.bind_some]
      rw [gatherSegments_run size rest _ _ (by omega), List.flatten_cons, List.length_append,
        ← Mem.write_append m bufptr payload.length]
      congr 3
      · refine Mem.write_congr fun k hk => ?_
        rw [List.getD_append _ _ _ _ hk]
      · funext i
        rw [List.getD_append_right _ _ _ _ (Nat.le_add_right _ _), Nat.add_sub_cancel_left]

/-- A frame that does not fit the array leaves it at one of its segments. -/
theorem gatherSegments_overflows (size : Nat) : ∀ (payloads : List (List UInt8)) (bufptr : Nat) (m : Mem),
    bufptr ≤ size → size < bufptr + payloads.flatten.length → gatherSegments ⟨size, m⟩ bufptr payloads = none
  | [], bufptr, m, inside, long => absurd long (Nat.not_lt.mpr inside)
  | payload :: rest, bufptr, m, inside, long => by
      rw [List.flatten_cons, List.length_append] at long
      by_cases hfits : bufptr + payload.length ≤ size
      · have hwrite : (Buffer.mk size m).write bufptr payload.length (fun i => payload.getD i 0) =
            some ⟨size, m.write bufptr payload.length fun i => payload.getD i 0⟩ := Buffer.write_inside hfits
        simp only [gatherSegments, hwrite, Option.bind_eq_bind, Option.bind_some]
        exact gatherSegments_overflows size rest _ _ hfits (by omega)
      · have hwrite : (Buffer.mk size m).write bufptr payload.length (fun i => payload.getD i 0) = none := if_neg hfits
        simp only [gatherSegments, hwrite, Option.bind_eq_bind, Option.bind_none]

/-- The bytes of a list that has been written to the start of a memory. -/
theorem bytesFrom_written (m : Mem) (l : List UInt8) {a n : Nat} (inside : a + n ≤ l.length) :
    ((List.range n).map fun i => (m.write 0 l.length fun i => l.getD i 0) (a + i)) = (l.drop a).take n := by
  apply List.ext_getElem
  · simp only [List.length_map, List.length_range, List.length_take, List.length_drop]
    omega
  · intro i hi hi'
    rw [List.length_map, List.length_range] at hi
    have hbyte : (m.write 0 l.length fun i => l.getD i 0) (0 + (a + i)) = l.getD (a + i) 0 := Mem.write_of_mem (by omega)
    rw [Nat.zero_add] at hbyte
    rw [List.getElem_map, List.getElem_range, hbyte, List.getElem_take, List.getElem_drop,
      List.getD_eq_getElem _ _ (by omega)]

/-- A chain that fits the array is handed over intact. -/
theorem output_intact {p : Pbuf} (stack : Mem) (total : p.totLen = p.payloads.flatten.length) (lo : 14 ≤ p.totLen)
    (fits : p.totLen ≤ 1500) : OutputIntact p stack := by
  have hgather : gatherSegments (localBuf stack) 0 p.payloads = some ⟨1500, stack.write 0 p.payloads.flatten.length
      fun i => p.payloads.flatten.getD i 0⟩ := gatherSegments_run 1500 p.payloads 0 stack (by omega)
  have hsize : sub32 p.totLen 14 = p.totLen - 14 := sub32_of_le lo (by omega)
  have hbytes := fun {a n : Nat} => @bytesFrom_written stack p.payloads.flatten a n
  have hbyte : ∀ a < p.payloads.flatten.length,
      (stack.write 0 p.payloads.flatten.length fun i => p.payloads.flatten.getD i 0) a = p.payloads.flatten.getD a 0 := by
    intro a ha
    have h : (stack.write 0 p.payloads.flatten.length fun i => p.payloads.flatten.getD i 0) (0 + a) =
        p.payloads.flatten.getD a 0 := Mem.write_of_mem ha
    rwa [Nat.zero_add] at h
  generalize (stack.write 0 p.payloads.flatten.length fun i => p.payloads.flatten.getD i 0) = m at hgather hbytes hbyte
  have hdest : (Buffer.mk 1500 m).slice 0 6 = some fun i => m (0 + i) := Buffer.slice_inside (by omega)
  have htype : (Buffer.mk 1500 m).slice 12 2 = some fun i => m (12 + i) := Buffer.slice_inside (by omega)
  have hpayload : (Buffer.mk 1500 m).slice 14 (p.totLen - 14) = some fun i => m (14 + i) :=
    Buffer.slice_inside (by omega)
  have hdest' : (List.range 6).map (fun i => m (0 + i)) = p.payloads.flatten.take 6 := hbytes (by omega)
  have hpayload' : (List.range (p.totLen - 14)).map (fun i => m (14 + i)) = p.payloads.flatten.drop 14 := by
    rw [hbytes (by omega)]
    apply List.take_of_length_le
    rw [List.length_drop]
    omega
  simp only [OutputIntact, ebdLowLevelOutput, hgather, hsize, hdest, htype, hpayload, hdest', hpayload',
    Option.bind_eq_bind, Option.bind_some, Option.pure_def]
  rw [hbyte (12 + 0) (by omega), hbyte (12 + 1) (by omega)]

theorem output_overflows {p : Pbuf} (stack : Mem) (long : 1500 < p.payloads.flatten.length) :
    ebdLowLevelOutput p stack = none := by
  have hgather : gatherSegments (localBuf stack) 0 p.payloads = none :=
    gatherSegments_overflows 1500 p.payloads 0 stack (Nat.zero_le _) (by omega)
  simp only [ebdLowLevelOutput, hgather, Option.bind_eq_bind, Option.bind_none]

/-! ### Both directions -/

/-- For every frame and every segmentation, in both directions: the frame crosses the glue intact exactly when it is
    not longer than the local array. -/
theorem frames_cross_intact (pbufAlloc : Nat → Option (List Nat)) (sums : SumsToLength pbufAlloc) (stack : Mem) :
    (∀ nic : Nic, nic.packetlen ≤ 1514 → (PollIntact pbufAlloc nic stack ↔ nic.packetlen ≤ 1500)) ∧
      ∀ p : Pbuf, p.totLen = (p.payloads.map List.length).sum → 14 ≤ p.totLen → p.totLen ≤ 1514 →
        (OutputIntact p stack ↔ p.totLen ≤ 1500) := by
  constructor
  · intro nic _
    refine ⟨fun hintact => ?_, poll_intact sums stack⟩
    by_contra hlong
    obtain ⟨result, hresult, -⟩ := hintact
    rw [poll_overflows stack (Nat.lt_of_not_le hlong)] at hresult
    cases hresult
  · intro p htotal hlo _
    rw [← List.length_flatten] at htotal
    refine ⟨fun hintact => ?_, output_intact stack htotal hlo⟩
    by_contra hlong
    rw [OutputIntact, output_overflows stack (by omega)] at hintact
    cases hintact

/-- Segments of the pool, 128 bytes each but for the last. -/
def poolSegments (len : Nat) : List Nat := List.replicate (len / 128) 128 ++ [len % 128]

theorem poolSegments_sum (len : Nat) : (poolSegments len).sum = len := by
  simp only [poolSegments, List.sum_append, List.sum_replicate, smul_eq_mul, List.sum_singleton]
  exact Nat.div_add_mod' len 128

/-- A frame in three segments: the first ends in the source address, and both others have bytes of the payload. -/
def splitChain : Pbuf :=
  ⟨[[0xff, 0xff, 0xff, 0xff, 0xff, 0xff, 0x00, 0x50, 0xf2], [0x01, 0x02, 0x03, 0x08, 0x06, 0x10, 0x11, 0x12],
    [0x13, 0x14, 0x15]], 20⟩

/-- The longest frame that crosses to lwIP, and a frame in three segments that crosses to the driver. -/
theorem frames_cross_intact_1500 :
    PollIntact (fun len => some (poolSegments len)) ⟨1500, UInt8.ofNat⟩ (fun _ => 0) ∧
      ebdLowLevelOutput splitChain (fun _ => 0) =
        some ⟨[0xff, 0xff, 0xff, 0xff, 0xff, 0xff], 0x0806, [0x10, 0x11, 0x12, 0x13, 0x14, 0x15]⟩ :=
  have hboth := frames_cross_intact (fun len => some (poolSegments len))
    (fun len segments h => Option.some.inj h ▸ poolSegments_sum len) fun _ => 0
  ⟨(hboth.1 ⟨1500, UInt8.ofNat⟩ (by decide)).mpr (Nat.le_refl _),
    (hboth.2 splitChain rfl (by decide) (by decide)).mpr (by decide)⟩

/-- A full frame does not. -/
theorem full_frame_leaves_array :
    ¬ ∀ (pbufAlloc : Nat → Option (List Nat)) (stack : Mem), SumsToLength pbufAlloc →
      (∀ nic : Nic, nic.packetlen ≤ 1514 → PollIntact pbufAlloc nic stack) ∧
        ∀ p : Pbuf, p.totLen = (p.payloads.map List.length).sum → 14 ≤ p.totLen → p.totLen ≤ 1514 →
          OutputIntact p stack := by
  intro hall
  obtain ⟨hpoll, -⟩ := hall (fun _ => none) (fun _ => 0) fun _ _ h => by cases h
  obtain ⟨result, hresult, -⟩ := hpoll ⟨1514, fun _ => 0xff⟩ (Nat.le_refl _)
  rw [poll_overflows _ (by decide)] at hresult
  cases hresult

end Cromwell.Lwip
