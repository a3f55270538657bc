/-
Module: Cromwell.Gzip.Huft
Layer: Model
Purpose: `huft_build` of `lib/gzip/inflate.c`: from a list of code lengths to a tree of lookup tables. The tables one
  call allocates are the entries of a list, a pointer to a table is its place in that list, and the null pointer is
  the empty list; the extra entry in front of a table, which only links it for `huft_free`, is left out, and
  `gzip_malloc` always finds room. The stacks `u[]` and `x[]` are one list of frames, top first; `h` is the length of
  that list less one and `w` is `l * h`.
Imports: Mathlib
Trusted boundary: reviewed against src/lib/gzip/inflate.c
Main exports: Huft, Stray, HuftResult, huftBuild
-/
import Mathlib

namespace Cromwell.Gzip

/-- `struct huft`: `e` and `b` as in the source; `v` is the number `v.n`, or the table `v.t` points to. -/
structure Huft where
  e : Nat
  b : Nat
  v : Nat
deriving DecidableEq, Repr, Inhabited

/-- The tables of one call; no table is the null pointer. -/
abbrev Tables := List (List Huft)

/-- The entry a pointer into a table points to. -/
def Tables.at (tables : Tables) (t i : Nat) : Huft := (tables.getD t []).getD i default

/-- `BMAX`. -/
def bmax : Nat := 16

/-- `N_MAX`. -/
def nMax : Nat := 288

/-- What the stack variable `v[]` holds before it is written, and what stands in memory behind `d[]` and `e[]`. -/
structure Stray where
  v : List Nat
  size : v.length = nMax
  behind : Nat → Nat × Nat

/-- Memory that holds zeros. -/
def Stray.zero : Stray where
  v := List.replicate nMax 0
  size := List.length_replicate
  behind := fun _ => (0, 0)

/-- `for each *p: c[*p]++`. -/
def countLengths (b : List Nat) : List Nat :=
  b.foldl (fun c p => c.set p (c.getD p 0 + 1)) (List.replicate (bmax + 1) 0)

/-- `for (; j <= BMAX; j++) if (c[j]) break;`, with the rounds that are left. -/
def firstUsed (c : List Nat) : Nat → Nat → Nat
  | 0, j => j
  | rounds + 1, j => if c.getD j 0 ≠ 0 then j else firstUsed c rounds (j + 1)

/-- `for (; i; i--) if (c[i]) break;`. -/
def lastUsed (c : List Nat) : Nat → Nat
  | 0 => 0
  | i + 1 => if c.getD (i + 1) 0 ≠ 0 then i + 1 else lastUsed c i

/-- The loop that computes `y`, with the rounds that are left to the longest length: nothing if there are more codes
    than bits. -/
def fillOut (c : List Nat) : Nat → Nat → Nat → Option Nat
  | 0, j, y => if y < c.getD j 0 then none else some (y - c.getD j 0)
  | rounds + 1, j, y =>
      if y < c.getD j 0 then none else fillOut c rounds (j + 1) ((y - c.getD j 0) * 2)

/-- `while (--i) *xp++ = (j += *p++);`: the rounds, the next place of `x[]`, and `j`. -/
def offsetsLoop (c : List Nat) : Nat → Nat → Nat → List Nat → List Nat
  | 0, _, _, x => x
  | rounds + 1, k, j, x => offsetsLoop c rounds (k + 1) (j + c.getD k 0) (x.set (k + 1) (j + c.getD k 0))

/-- `x[]`: where the values of each length start. -/
def offsets (c : List Nat) (g : Nat) : List Nat := offsetsLoop c (g - 1) 1 0 (List.replicate (bmax + 1) 0)

/-- `if ((j = *p++) != 0) v[x[j]++] = i;` for every symbol. -/
def valuesLoop : List Nat → Nat → List Nat → List Nat → List Nat
  | [], _, _, v => v
  | j :: b, i, x, v =>
      if j ≠ 0 then valuesLoop b (i + 1) (x.set j (x.getD j 0 + 1)) (v.set (x.getD j 0) i)
      else valuesLoop b (i + 1) x v

/-- A table that is being filled: `u[h]`, `x[h]`. -/
structure Frame where
  table : Nat
  pattern : Nat
deriving DecidableEq, Repr

/-- The variables of the loop that makes the table entries. -/
structure Gen where
  tables : Tables
  stack : List Frame
  q : Nat
  z : Nat
  i : Nat
  p : Nat

/-- What the loop that makes the table entries only reads. -/
structure Build where
  c : List Nat
  g : Nat
  l : Nat
  n : Nat
  s : Nat
  v : List Nat
  d : List Nat
  e : List Nat
  stray : Stray

namespace Build

variable (bd : Build)

/-- `while (++j < z) { if ((f <<= 1) <= *++xp) break; f -= *xp; }`. -/
def growLoop (w z : Nat) : Nat → Nat → Nat → Nat
  | 0, _, j => j
  | rounds + 1, f, j =>
      if j + 1 < z then
        if f * 2 ≤ bd.c.getD (w + (j + 1)) 0 then j + 1
        else growLoop w z rounds (f * 2 - bd.c.getD (w + (j + 1)) 0) (j + 1)
      else j + 1

/-- The size of a new table for codes of `k` bits, of which `a + 1` are left. -/
def tableBits (k a w : Nat) : Nat :=
  let z := min (bd.g - w) bd.l
  let j := k - w
  let f := 2 ^ j
  if f > a + 1 then bd.growLoop w z (z + 1) (f - (a + 1)) j else j

/-- One new table, connected to the table that is being filled if there is one. -/
def openTable (k a : Nat) (st : Gen) : Gen :=
  let w := bd.l * st.stack.length
  let j := bd.tableBits k a w
  let new := st.tables.length
  let tables := st.tables ++ [List.replicate (2 ^ j) default]
  match st.stack with
  | [] => { st with tables := tables, stack := [⟨new, 0⟩], q := new, z := 2 ^ j }
  | parent :: _ =>
      let r : Huft := ⟨16 + j, bd.l, new⟩
      let tables := tables.modify parent.table fun u => u.set (st.i >>> (w - bd.l)) r
      { st with tables := tables, stack := ⟨new, st.i⟩ :: st.stack, q := new, z := 2 ^ j }

/-- `while (k > w + l)`; `k` rounds are always enough. -/
def openTables (k a : Nat) : Nat → Gen → Gen
  | 0, st => st
  | rounds + 1, st => if k > bd.l * st.stack.length then openTables k a rounds (bd.openTable k a st) else st

/-- `e[]` and `d[]` at a place, or what stands behind them. -/
def lookUp (i : Nat) : Nat × Nat :=
  if h : i < bd.e.length ∧ i < bd.d.length then (bd.e.get ⟨i, h.1⟩, bd.d.get ⟨i, h.2⟩) else bd.stray.behind i

/-- The table entry of the value at `p`, for `b` bits. -/
def entry (p b : Nat) : Huft :=
  if p ≥ bd.n then ⟨99, b, 0⟩
  else
    let value := bd.v.getD p 0
    if value < bd.s then ⟨if value < 256 then 16 else 15, b, value⟩
    else ⟨(bd.lookUp (value - bd.s)).1, b, (bd.lookUp (value - bd.s)).2⟩

/-- `for (; j < z; j += f) q[j] = r;`; `z` rounds are always enough. -/
def strideFill (r : Huft) (f z : Nat) : Nat → Nat → List Huft → List Huft
  | 0, _, q => q
  | rounds + 1, j, q => if j < z then strideFill r f z rounds (j + f) (q.set j r) else q

/-- `for (j = 1 << (k - 1); i & j; j >>= 1) i ^= j; i ^= j;`, with the place of the bit of `j` plus one. -/
def backInc : Nat → Nat → Nat
  | 0, i => i
  | m + 1, i => if i.testBit m then backInc m (i ^^^ 2 ^ m) else i ^^^ 2 ^ m

/-- `while ((i & ((1 << w) - 1)) != x[h]) { h--; w -= l; }`. -/
def backUp (i : Nat) : List Frame → List Frame
  | [] => []
  | fr :: rest => if i &&& (2 ^ (bd.l * rest.length) - 1) ≠ fr.pattern then backUp i rest else fr :: rest

/-- The entries of one code of `k` bits. -/
def placeCode (k : Nat) (st : Gen) : Gen :=
  let w := bd.l * (st.stack.length - 1)
  let r := bd.entry st.p (k - w)
  let tables := st.tables.modify st.q fun q => strideFill r (2 ^ (k - w)) st.z st.z (st.i >>> w) q
  let i := backInc k st.i
  { st with tables := tables, i := i, p := st.p + 1, stack := bd.backUp i st.stack }

/-- `while (a--)`. -/
def codesOf (k : Nat) : Nat → Gen → Gen
  | 0, st => st
  | a + 1, st => codesOf k a (bd.placeCode k (bd.openTables k a k st))

/-- `for (; k <= g; k++)`, with the rounds that are left. -/
def lengthsFrom : Nat → Nat → Gen → Gen
  | 0, _, st => st
  | rounds + 1, k, st => lengthsFrom rounds (k + 1) (bd.codesOf k (bd.c.getD k 0) st)

/-- The whole loop. -/
def generate (k : Nat) : Tables :=
  (bd.lengthsFrom (bd.g + 1 - k) k ⟨[], [], 0, 0, 0, 0⟩).tables

end Build

/-- The result code, the tables, and the bits of the first table. -/
structure HuftResult where
  code : Nat
  tables : Tables
  bits : Nat
deriving DecidableEq

/-- `huft_build(b, n, s, d, e, t, m)`, with `n` the length of `b`. -/
def huftBuild (stray : Stray) (b : List Nat) (s : Nat) (d e : List Nat) (m : Nat) : HuftResult :=
  let c := countLengths b
  if c.getD 0 0 = b.length then ⟨0, [], 0⟩
  else
    let j := firstUsed c bmax 1
    let g := lastUsed c bmax
    let l := if m < j then j else m
    let l := if l > g then g else l
    match fillOut c (g - j) j (2 ^ j) with
    | none => ⟨2, [], l⟩
    | some y =>
        let c := c.set g (c.getD g 0 + y)
        let v := valuesLoop b 0 (offsets c g) stray.v
        let tables := Build.generate ⟨c, g, l, b.length, s, v, d, e, stray⟩ j
        ⟨if y ≠ 0 ∧ g ≠ 1 then 1 else 0, tables, l⟩

end Cromwell.Gzip
