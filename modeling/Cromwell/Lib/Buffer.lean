/-
Module: Cromwell.Lib.Buffer
Layer: Lib
Purpose: Buffers of a fixed size with checked accesses: an access outside the buffer is `none`. Each operation
  has one lemma that says what it does when it stays inside, so that a proof about a program over buffers
  is a proof that its ranges fit followed by reasoning about plain memories.
Imports: Cromwell.Lib.ByteMemory
Trusted boundary: none
Main exports: Mem.write, Mem.bytesFrom, Buffer, Buffer.fill, Buffer.write, Buffer.slice
-/
import Cromwell.Lib.ByteMemory

namespace ByteMemory

namespace Mem

/-- Write the first `n` bytes of `src` from `a` on. -/
def write (m : Mem) (a n : Nat) (src : Nat → UInt8) : Mem :=
  fun x => if a ≤ x ∧ x < a + n then src (x - a) else m x

/-- The `n` bytes from `a` on, in order. -/
def bytesFrom (m : Mem) (a n : Nat) : List UInt8 := (List.range n).map fun i => m (a + i)

theorem write_of_mem {m : Mem} {a n i : Nat} {src : Nat → UInt8} (hi : i < n) :
    m.write a n src (a + i) = src i := by
  simp [write, hi]

theorem write_of_not_mem {m : Mem} {a n x : Nat} {src : Nat → UInt8} (h : ¬ (a ≤ x ∧ x < a + n)) :
    m.write a n src x = m x := by
  simp only [write, if_neg h]

theorem write_zero (m : Mem) (a : Nat) (src : Nat → UInt8) : m.write a 0 src = m :=
  funext fun _ => write_of_not_mem (by omega)

/-- A write of the same bytes. -/
theorem write_congr {m : Mem} {a n : Nat} {src src' : Nat → UInt8} (h : ∀ k < n, src k = src' k) :
    m.write a n src = m.write a n src' := by
  funext x
  simp only [write]
  split
  case isTrue hx =>
    exact h (x - a) (by omega)
  case isFalse =>
    rfl

/-- Two pieces, one behind the other. -/
theorem write_append (m : Mem) (a n k : Nat) (src : Nat → UInt8) :
    (m.write a n src).write (a + n) k (fun i => src (n + i)) = m.write a (n + k) src := by
  funext x
  simp only [write]
  by_cases hx : a ≤ x ∧ x < a + (n + k)
  · rw [if_pos hx]
    by_cases hfirst : x < a + n
    · rw [if_neg (by omega), if_pos ⟨hx.1, hfirst⟩]
    · have hbehind : n + (x - (a + n)) = x - a := by omega
      rw [if_pos (by omega), hbehind]
  · rw [if_neg hx, if_neg (by omega), if_neg (by omega)]

/-- A block in front of the next ones. -/
theorem write_block (m : Mem) (a s n left : Nat) (src : Nat → UInt8) :
    (m.write a n fun k => src (s + k)).write (a + n) (left * n) (fun k => src (s + n + k)) =
      m.write a ((left + 1) * n) fun k => src (s + k) := by
  have happend := write_append m a n (left * n) fun k => src (s + k)
  rw [Nat.succ_mul, Nat.add_comm (left * n), ← happend]
  simp only [Nat.add_assoc]

theorem bytesFrom_congr {m m' : Mem} {a a' n : Nat} (h : ∀ i < n, m (a + i) = m' (a' + i)) :
    m.bytesFrom a n = m'.bytesFrom a' n := by
  refine List.map_congr_left fun i hi => h i (List.mem_range.mp hi)

theorem bytesFrom_write (m : Mem) {a n b k : Nat} (src : Nat → UInt8) (h : b + k ≤ a ∨ a + n ≤ b) :
    (m.write a n src).bytesFrom b k = m.bytesFrom b k :=
  bytesFrom_congr fun i hi => write_of_not_mem (by omega)

theorem bytesFrom_shift (m : Mem) (a n : Nat) : bytesFrom (fun i => m (a + i)) 0 n = m.bytesFrom a n :=
  bytesFrom_congr fun i _ => by rw [Nat.zero_add]

theorem bytesFrom_succ (m : Mem) (a n : Nat) : m.bytesFrom a (n + 1) = m.bytesFrom a n ++ [m (a + n)] := by
  simp [bytesFrom, List.range_succ]

@[simp]
theorem bytesFrom_length (m : Mem) (a n : Nat) : (m.bytesFrom a n).length = n := by
  simp [bytesFrom]

theorem bytesFrom_append (m : Mem) (a n k : Nat) :
    m.bytesFrom a (n + k) = m.bytesFrom a n ++ m.bytesFrom (a + n) k := by
  simp [bytesFrom, List.range_add, Nat.add_assoc]

theorem bytesFrom_cons (m : Mem) (a n : Nat) : m.bytesFrom a (n + 1) = m a :: m.bytesFrom (a + 1) n := by
  rw [Nat.add_comm n 1, bytesFrom_append]
  rfl

theorem getD_bytesFrom (m : Mem) {a n i : Nat} (hi : i < n) : (m.bytesFrom a n).getD i 0 = m (a + i) := by
  rw [List.getD_eq_getElem _ _ (by rwa [bytesFrom_length])]
  simp [bytesFrom]

/-- The bytes of a list. -/
theorem bytesFrom_getD {l : List UInt8} {n : Nat} (h : n ≤ l.length) :
    bytesFrom (fun i => l.getD i 0) 0 n = l.take n := by
  refine List.ext_getElem (by simp [h]) fun i hi hi' => ?_
  rw [bytesFrom_length] at hi
  simp only [bytesFrom, List.getElem_map, List.getElem_range, List.getElem_take, Nat.zero_add]
  exact List.getD_eq_getElem _ _ (by omega)

/-- The byte behind some of them. -/
theorem bytesFrom_split (m : Mem) (a : Nat) {n size : Nat} (h : n < size) :
    m.bytesFrom a size = m.bytesFrom a n ++ m (a + n) :: m.bytesFrom (a + (n + 1)) (size - (n + 1)) := by
  obtain ⟨k, rfl⟩ : ∃ k, size = n + (k + 1) := ⟨size - (n + 1), by omega⟩
  rw [bytesFrom_append, bytesFrom_cons, Nat.add_assoc, show n + (k + 1) - (n + 1) = k by omega]

/-- A list at the start of the bytes. -/
theorem bytesFrom_start {m : Mem} {a len : Nat} {text : List UInt8} (h : text <+: m.bytesFrom a len) :
    m.bytesFrom a text.length = text := by
  have hle := h.length_le
  rw [bytesFrom_length] at hle
  obtain ⟨rest, rfl⟩ := Nat.exists_eq_add_of_le hle
  rw [bytesFrom_append] at h
  have hboth : text <+: m.bytesFrom a text.length :=
    List.prefix_of_prefix_length_le h (List.prefix_append _ _) (by rw [bytesFrom_length])
  exact (hboth.eq_of_length (bytesFrom_length m a text.length).symm).symm

/-- What a write stores is what is read back. -/
theorem bytesFrom_write_self (m : Mem) (a n : Nat) (src : Nat → UInt8) :
    (m.write a n src).bytesFrom a n = (List.range n).map src :=
  List.map_congr_left fun _ hi => write_of_mem (List.mem_range.mp hi)

theorem bytesFrom_fill_self (m : Mem) (a n : Nat) (v : UInt8) :
    (m.fill a n v).bytesFrom a n = List.replicate n v := by
  refine List.eq_replicate_iff.mpr ⟨bytesFrom_length _ _ _, fun b hb => ?_⟩
  obtain ⟨i, hi, rfl⟩ := List.mem_map.mp hb
  exact fill_of_mem (Nat.le_add_right a i) (Nat.add_lt_add_left (List.mem_range.mp hi) a)

end Mem

/-- A buffer of `size` bytes; the bytes outside are never looked at. -/
structure Buffer where
  size : Nat
  bytes : Mem

namespace Buffer

/-- A buffer of zeros. -/
def zeros (size : Nat) : Buffer := ⟨size, fun _ => 0⟩

/-- `memset(&b[a], v, n)`. -/
def fill (b : Buffer) (a n : Nat) (v : UInt8) : Option Buffer :=
  if a + n ≤ b.size then some { b with bytes := b.bytes.fill a n v } else none

/-- `memcpy(&b[a], src, n)`. -/
def write (b : Buffer) (a n : Nat) (src : Nat → UInt8) : Option Buffer :=
  if a + n ≤ b.size then some { b with bytes := b.bytes.write a n src } else none

/-- The `n` bytes at `&b[a]`, for reading. -/
def slice (b : Buffer) (a n : Nat) : Option (Nat → UInt8) :=
  if a + n ≤ b.size then some fun i => b.bytes (a + i) else none

theorem fill_inside {size a n : Nat} {m : Mem} {v : UInt8} (h : a + n ≤ size) :
    (Buffer.mk size m).fill a n v = some ⟨size, m.fill a n v⟩ := if_pos h

theorem write_inside {size a n : Nat} {m : Mem} {src : Nat → UInt8} (h : a + n ≤ size) :
    (Buffer.mk size m).write a n src = some ⟨size, m.write a n src⟩ := if_pos h

theorem slice_inside {size a n : Nat} {m : Mem} (h : a + n ≤ size) :
    (Buffer.mk size m).slice a n = some fun i => m (a + i) := if_pos h

section Success

variable {b b' : Buffer} {a n : Nat}

theorem fill_eq_some {v : UInt8} :
    b.fill a n v = some b' ↔ a + n ≤ b.size ∧ b' = ⟨b.size, b.bytes.fill a n v⟩ := by
  rw [fill]
  split
  case isTrue h => simp [h, eq_comm]
  case isFalse h => simp [h]

theorem write_eq_some {src : Nat → UInt8} :
    b.write a n src = some b' ↔ a + n ≤ b.size ∧ b' = ⟨b.size, b.bytes.write a n src⟩ := by
  rw [write]
  split
  case isTrue h => simp [h, eq_comm]
  case isFalse h => simp [h]

theorem size_of_write {src : Nat → UInt8} (h : b.write a n src = some b') : b'.size = b.size := by
  rw [(write_eq_some.mp h).2]

theorem slice_eq_some {bytes : Nat → UInt8} :
    b.slice a n = some bytes ↔ a + n ≤ b.size ∧ bytes = fun i => b.bytes (a + i) := by
  rw [slice]
  split
  case isTrue h => simp [h, eq_comm]
  case isFalse h => simp [h]

end Success

end Buffer

end ByteMemory
