/-
Module: Cromwell.Crypt.Sha1Digest
Layer: Proofs
Purpose: The context computes the hash of the message, in however many pieces it arrives: the words and the
  filled part of the block follow `BlockHash.absorb`, and the padding is absorbed like a last piece. What the
  block held before a reset plays no part.
Imports: Cromwell.Crypt.Sha1
Trusted boundary: none
Main exports: Pending, Absorbing, sha1Input_absorbing, sha1Input_own, sha1Result_eq
-/
import Cromwell.Crypt.Sha1

namespace Cromwell.Crypt

open ByteMemory
open BlockHash (push absorb absorb_cons absorb_append absorb_full absorb_pending_length push_pending)

variable (compress : Sha1Words → List UInt8 → Sha1Words)

/-! ### The words and the block -/

/-- The words are `s.1`, and the bytes `s.2` wait in the block. -/
structure Pending (context : Sha1Context) (s : Sha1Words × List UInt8) : Prop where
  hash : context.intermediateHash = s.1
  index : context.messageBlockIndex = s.2.length
  block : context.messageBlock.bytesFrom 0 s.2.length = s.2

namespace Pending

variable {context : Sha1Context} {h : Sha1Words} {p : List UInt8}

theorem put (hc : Pending context (h, p)) (b : UInt8) : Pending (context.put b) (h, p ++ [b]) := by
  have hindex : context.messageBlockIndex = p.length := hc.index
  have hkeep : (context.messageBlock.store p.length b).bytesFrom 0 p.length = p :=
    (Mem.bytesFrom_congr fun i hi => Mem.store_of_ne (by omega)).trans hc.block
  refine ⟨hc.hash, ?_, ?_⟩
  · rw [Sha1Context.put, List.length_append, List.length_singleton, hindex]
  · rw [Sha1Context.put, hindex, List.length_append, List.length_singleton, Mem.bytesFrom_succ, hkeep,
      Nat.zero_add]
    dsimp only
    rw [Mem.store_self]

theorem zerosTo (hc : Pending context (h, p)) {n : Nat} (hn : p.length ≤ n) :
    Pending (context.zerosTo n) (h, p ++ List.replicate (n - p.length) 0) := by
  have hindex : context.messageBlockIndex = p.length := hc.index
  have hkeep : (context.messageBlock.fill p.length (n - p.length) 0).bytesFrom 0 p.length = p :=
    (Mem.bytesFrom_congr fun i hi => Mem.fill_of_not_mem (by omega)).trans hc.block
  refine ⟨hc.hash, ?_, ?_⟩
  · rw [Sha1Context.zerosTo, List.length_append, List.length_replicate, hindex]
    dsimp only
    omega
  · rw [Sha1Context.zerosTo, hindex, List.length_append, List.length_replicate, Mem.bytesFrom_append, hkeep,
      Nat.zero_add, Mem.bytesFrom_fill_self]

/-- A full block is compressed. -/
theorem process (hc : Pending context (h, p)) (hp : p.length = 64) :
    Pending (sha1ProcessMessageBlock compress context) (compress h p, []) := by
  have hblock : context.messageBlock.bytesFrom 0 64 = p := hp ▸ hc.block
  have hhash : context.intermediateHash = h := hc.hash
  refine ⟨?_, rfl, rfl⟩
  rw [sha1ProcessMessageBlock, hblock, hhash]

end Pending

/-! ### `SHA1Input` -/

/-- A context that has absorbed a message of `n` bytes so far. -/
structure Absorbing (context : Sha1Context) (s : Sha1Words × List UInt8) (n : Nat) : Prop where
  pending : Pending context s
  room : s.2.length < 64
  length : context.lengthLow.toNat + 2 ^ 32 * context.lengthHigh.toNat = 8 * n
  computed : context.computed = false
  corrupted : context.corrupted = 0

@[simp]
theorem Sha1Context.count_messageBlock (context : Sha1Context) :
    context.count.messageBlock = context.messageBlock := by
  simp only [Sha1Context.count]
  split
  · split <;> rfl
  · rfl

@[simp]
theorem Sha1Context.count_messageBlockIndex (context : Sha1Context) :
    context.count.messageBlockIndex = context.messageBlockIndex := by
  simp only [Sha1Context.count]
  split
  · split <;> rfl
  · rfl

/-- The count of bits is exact until the 64 bits are full. -/
theorem Sha1Context.count_spec (context : Sha1Context) {n : Nat}
    (hlen : context.lengthLow.toNat + 2 ^ 32 * context.lengthHigh.toNat = 8 * n) (hn : 8 * (n + 1) < 2 ^ 64) :
    context.count = { context with lengthLow := context.count.lengthLow, lengthHigh := context.count.lengthHigh } ∧
      context.count.lengthLow.toNat + 2 ^ 32 * context.count.lengthHigh.toNat = 8 * (n + 1) := by
  have hlow := context.lengthLow.toNat_lt
  have hhigh := context.lengthHigh.toNat_lt
  have hlow8 : (context.lengthLow + 8).toNat = (context.lengthLow.toNat + 8) % 2 ^ 32 := by
    rw [UInt32.toNat_add]
    rfl
  have hhigh1 : (context.lengthHigh + 1).toNat = (context.lengthHigh.toNat + 1) % 2 ^ 32 := by
    rw [UInt32.toNat_add]
    rfl
  unfold Sha1Context.count
  by_cases hcarry : context.lengthLow + 8 = 0
  · have hzero : (context.lengthLow + 8).toNat = 0 := by rw [hcarry]; rfl
    -- The bound on the length keeps the high word from wrapping around.
    have hno : context.lengthHigh + 1 ≠ 0 := by
      intro hover
      have : (context.lengthHigh + 1).toNat = 0 := by rw [hover]; rfl
      omega
    simp only [if_pos hcarry, if_neg hno]
    exact ⟨trivial, by omega⟩
  · have hnz : (context.lengthLow + 8).toNat ≠ 0 := fun h0 => hcarry (UInt32.toNat_inj.mp h0)
    simp only [if_neg hcarry]
    exact ⟨trivial, by omega⟩

/-- One byte more. -/
theorem sha1InputByte_absorbing {context : Sha1Context} {s : Sha1Words × List UInt8} {n : Nat}
    (hc : Absorbing context s n) (b : UInt8) (hn : 8 * (n + 1) < 2 ^ 64) :
    Absorbing (sha1InputByte compress context b) (push compress 64 s b) (n + 1) := by
  obtain ⟨h, p⟩ := s
  have hput : Pending (context.put b) (h, p ++ [b]) := hc.pending.put b
  obtain ⟨hcount, hlen⟩ := Sha1Context.count_spec (context.put b) hc.length hn
  have hpend : Pending (context.put b).count (h, p ++ [b]) := by
    rw [hcount]
    exact ⟨hput.hash, hput.index, hput.block⟩
  have hcomputed : (context.put b).count.computed = false := by rw [hcount]; exact hc.computed
  have hcorrupted : (context.put b).count.corrupted = 0 := by rw [hcount]; exact hc.corrupted
  have hindex : (context.put b).count.messageBlockIndex = p.length + 1 := by
    rw [hpend.index, List.length_append, List.length_singleton]
  have hroom : (push compress 64 (h, p) b).2.length < 64 := push_pending b hc.room
  unfold sha1InputByte
  unfold push at hroom ⊢
  by_cases hfull : p.length + 1 = 64
  · rw [if_pos (hindex.trans hfull), if_pos hfull]
    refine ⟨hpend.process compress ?_, Nat.zero_lt_succ _, hlen, hcomputed, hcorrupted⟩
    rw [List.length_append, List.length_singleton, hfull]
  · rw [if_neg hfull] at hroom
    rw [if_neg (by rw [hindex]; exact hfull), if_neg hfull]
    exact ⟨hpend, hroom, hlen, hcomputed, hcorrupted⟩

/-- The loop over a message outside the context. -/
theorem sha1InputLoop_absorbing (message : Nat → UInt8) (length i : Nat) {context : Sha1Context}
    {s : Sha1Words × List UInt8} {n : Nat} (hc : Absorbing context s n) (hn : 8 * (n + length) < 2 ^ 64) :
    Absorbing (sha1InputLoop compress (fun _ => message) length i context)
      (absorb compress 64 s (Mem.bytesFrom message i length)) (n + length) := by
  induction length generalizing i context s n with
  | zero =>
      exact hc
  | succ length ih =>
      have hstep := sha1InputByte_absorbing compress hc (message i) (by omega)
      rw [sha1InputLoop, if_neg (by rw [hc.corrupted]; decide), Mem.bytesFrom_cons, absorb_cons,
        show n + (length + 1) = n + 1 + length by omega]
      exact ih (i + 1) hstep (by omega)

/-- `SHA1Input` absorbs the message. -/
theorem sha1Input_absorbing (message : Nat → UInt8) (length : Nat) {context : Sha1Context}
    {s : Sha1Words × List UInt8} {n : Nat} (hc : Absorbing context s n) (hn : 8 * (n + length) < 2 ^ 64) :
    Absorbing (sha1Input compress context (fun _ => message) length).1
      (absorb compress 64 s (Mem.bytesFrom message 0 length)) (n + length) := by
  unfold sha1Input
  by_cases hzero : length = 0
  · subst hzero
    exact hc
  · rw [if_neg hzero, if_neg (by rw [hc.computed]; decide), if_neg (by rw [hc.corrupted]; decide)]
    exact sha1InputLoop_absorbing compress message length 0 hc hn

/-- Reading the block into itself, from a reset on, is reading what it holds: every byte is stored where it
    was read. -/
theorem sha1InputLoop_own (length i : Nat) (context : Sha1Context) (hi : context.messageBlockIndex = i)
    (hlen : i + length < 64) :
    sha1InputLoop compress (fun c => c.messageBlock) length i context =
      sha1InputLoop compress (fun _ => context.messageBlock) length i context := by
  induction length generalizing i context with
  | zero =>
      rfl
  | succ length ih =>
      have hstore : context.messageBlock.store i (context.messageBlock i) = context.messageBlock := by
        funext x
        unfold Mem.store
        split
        case isTrue hx => rw [hx]
        case isFalse => rfl
      have hblock : (context.put (context.messageBlock i)).count.messageBlock = context.messageBlock := by
        rw [Sha1Context.count_messageBlock, Sha1Context.put, hi, hstore]
      have hindex : (context.put (context.messageBlock i)).count.messageBlockIndex = i + 1 := by
        rw [Sha1Context.count_messageBlockIndex, Sha1Context.put, hi]
      have hbyte : sha1InputByte compress context (context.messageBlock i) =
          (context.put (context.messageBlock i)).count := if_neg (by rw [hindex]; omega)
      rw [sha1InputLoop, sha1InputLoop]
      split
      · rfl
      · rw [hbyte, ih (i + 1) _ hindex (by omega), hblock]

theorem sha1Input_own (context : Sha1Context) (hindex : context.messageBlockIndex = 0) {length : Nat}
    (hlen : length < 64) :
    sha1Input compress context (fun c => c.messageBlock) length =
      sha1Input compress context (fun _ => context.messageBlock) length := by
  unfold sha1Input
  rw [sha1InputLoop_own compress length 0 context hindex (by omega)]

/-! ### `SHA1Result` -/

/-- The length in the last octets of the padding. -/
theorem lengthByte_eq {context : Sha1Context} {n : Nat}
    (hlen : context.lengthLow.toNat + 2 ^ 32 * context.lengthHigh.toNat = 8 * n) :
    (List.range 8).map context.lengthByte = lengthBytes (8 * n) := by
  refine List.map_congr_left fun i hi => ?_
  have hi8 : i < 8 := List.mem_range.mp hi
  have hlow := context.lengthLow.toNat_lt
  have hhigh := context.lengthHigh.toNat_lt
  refine UInt8.toNat_inj.mp ?_
  rw [← hlen]
  unfold Sha1Context.lengthByte
  interval_cases i <;>
    simp [UInt32.toNat_shiftRight, Nat.shiftRight_eq_div_pow] <;> omega

/-- The last block: 56 bytes and the length. -/
theorem sha1ProcessMessageBlock_length {context : Sha1Context} {h : Sha1Words} {p : List UInt8} {n : Nat}
    (hc : Pending context (h, p)) (hp : p.length = 56)
    (hlen : context.lengthLow.toNat + 2 ^ 32 * context.lengthHigh.toNat = 8 * n) :
    (sha1ProcessMessageBlock compress
        { context with messageBlock := context.messageBlock.write 56 8 context.lengthByte }).intermediateHash =
      compress h (p ++ lengthBytes (8 * n)) := by
  have hhash : context.intermediateHash = h := hc.hash
  have hblock : context.messageBlock.bytesFrom 0 56 = p := hp ▸ hc.block
  have hbytes : (context.messageBlock.write 56 8 context.lengthByte).bytesFrom 0 64 =
      p ++ lengthBytes (8 * n) := by
    rw [show (64 : Nat) = 56 + 8 from rfl, Mem.bytesFrom_append, Mem.bytesFrom_write _ _ (Or.inl (by decide)),
      hblock, Nat.zero_add, Mem.bytesFrom_write_self, lengthByte_eq hlen]
  rw [sha1ProcessMessageBlock, hbytes, hhash]

/-- `SHA1PadMessage` absorbs the padding. -/
theorem sha1PadMessage_hash {context : Sha1Context} {s : Sha1Words × List UInt8} {n : Nat}
    (hc : Absorbing context s n) (hn : s.2.length = n % 64) :
    (sha1PadMessage compress context).intermediateHash = (absorb compress 64 s (padding n)).1 := by
  obtain ⟨h, p⟩ := s
  have hroom : p.length < 64 := hc.room
  have hmod : n % 64 = p.length := hn.symm
  have hone : Pending (context.put 0x80) (h, p ++ [0x80]) := hc.pending.put 0x80
  have hlong : (p ++ [(0x80 : UInt8)]).length = p.length + 1 := by
    rw [List.length_append, List.length_singleton]
  have hindex : context.messageBlockIndex = p.length := hc.pending.index
  unfold sha1PadMessage
  by_cases hbig : p.length > 55
  · -- The block is finished with zeros, and a second one carries the length.
    have hpad : padding n = (0x80 :: List.replicate (63 - p.length) 0) ++
        (List.replicate 56 0 ++ lengthBytes (8 * n)) := by
      rw [padding, hmod, show (119 - p.length) % 64 = (63 - p.length) + 56 by omega, List.replicate_add]
      simp only [List.cons_append, List.append_assoc]
    have hfirst := (hone.zerosTo (n := 64) (by omega)).process compress
      (by rw [List.length_append, List.length_replicate, hlong]; omega)
    rw [hlong, List.append_assoc, show 64 - (p.length + 1) = 63 - p.length by omega] at hfirst
    have hsecond := hfirst.zerosTo (n := 56) (by decide)
    have habsorb : absorb compress 64 (h, p) (0x80 :: List.replicate (63 - p.length) 0) =
        (compress h (p ++ 0x80 :: List.replicate (63 - p.length) 0), []) :=
      absorb_full (List.cons_ne_nil _ _) (by rw [List.length_cons, List.length_replicate]; omega)
    rw [if_pos (by rw [hindex]; exact hbig), hpad, absorb_append, habsorb,
      absorb_full (by simp) (by simp [lengthBytes])]
    exact sha1ProcessMessageBlock_length compress hsecond (by simp) hc.length
  · have hpad : padding n = 0x80 :: List.replicate (55 - p.length) 0 ++ lengthBytes (8 * n) := by
      rw [padding, hmod, show (119 - p.length) % 64 = 55 - p.length by omega]
    have hlast := hone.zerosTo (n := 56) (by omega)
    rw [hlong, List.append_assoc, show 56 - (p.length + 1) = 55 - p.length by omega] at hlast
    rw [if_neg (by rw [hindex]; exact hbig), hpad, absorb_full (by simp) (by simp [lengthBytes]; omega),
      ← List.append_assoc]
    exact sha1ProcessMessageBlock_length compress hlast (by simp; omega) hc.length

/-- The digest of everything absorbed, in the 20 bytes that the pointer names. -/
theorem sha1Result_eq {context : Sha1Context} {h : Sha1Words} {before : Nat} {message : List UInt8}
    (hb : before % 64 = 0)
    (hc : Absorbing context (absorb compress 64 (h, []) message) (before + message.length)) (m : Mem) (a : Nat) :
    (storeDigest (sha1Result compress context).2 m a).bytesFrom a 20 = sha1From compress h before message := by
  have hpend : (absorb compress 64 (h, []) message).2.length = (before + message.length) % 64 := by
    rw [absorb_pending_length message (Nat.zero_lt_succ _), List.length_nil]
    omega
  have hresult : (sha1Result compress context).2 =
      .ok (sha1PadMessage compress context).intermediateHash.digestByte := by
    rw [sha1Result, if_neg (by rw [hc.corrupted]; decide)]
    simp only [hc.computed, Bool.false_eq_true, if_false]
  rw [hresult, sha1PadMessage_hash compress hc hpend, sha1From, absorb_append]
  exact Mem.bytesFrom_write_self _ _ _ _

example : sha1 sha1Compress [0x61, 0x62, 0x63] =
    [0xA9, 0x99, 0x3E, 0x36, 0x47, 0x06, 0x81, 0x6A, 0xBA, 0x3E,
     0x25, 0x71, 0x78, 0x50, 0xC2, 0x6C, 0x9C, 0xD0, 0xD8, 0x9D] := by
  decide +kernel

end Cromwell.Crypt
