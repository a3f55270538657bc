/-
Module: Cromwell.Iso.NameTranslate
Layer: Model and proofs
Purpose: `iso9660_name_translate` with the bytes that it stores and the length that it returns. Its result is a normal
  form of the name: the version is cut off, letters are small, and a semicolon is a period. The comparisons with
  `len - 3` and `len - 2` are those of 32-bit unsigned integers.
Imports: Cromwell.Lib.Buffer, Cromwell.Iso.Iso9660
Trusted boundary: nameTranslateLoop and iso9660NameTranslateInto reviewed against src/fs/cdrom/iso9660.c; human-reviewed
  statement (normalName)
Main exports: iso9660NameTranslateInto, normalName, iso9660NameTranslate_eq, iso9660_name_normal
-/
import Cromwell.Lib.Buffer
import Cromwell.Iso.Iso9660

namespace Cromwell.Iso

open ByteMemory
open Cromwell.BootLibrary (cString cString_zero_notMem)

/-! ### The stores -/

/-- The loop of `iso9660_name_translate` with the stores to `translated`, and the rounds that are left. -/
def nameTranslateLoop (translated : Nat) (old : Nat → UInt8) (len : UInt32) : Nat → Nat → Mem → Nat × Mem
  | 0, i, mem => (i, mem)
  | left + 1, i, mem =>
      let c := old i
      if c = 0 then (i, mem)
      else
        -- lower case
        let c := if isupper c then tolower c else c
        -- Drop trailing '.;1'
        if c = 0x2e ∧ UInt32.ofNat i = len - 3 ∧ old (i + 1) = 0x3b ∧ old (i + 2) = 0x31 then (i, mem)
        -- Drop trailing ';1'
        else if c = 0x3b ∧ UInt32.ofNat i = len - 2 ∧ old (i + 1) = 0x31 then (i, mem)
        -- Convert remaining ';' to '.'
        else
          nameTranslateLoop translated old len left (i + 1)
            (mem.store (translated + i) (if c = 0x3b then 0x2e else c))

/-- `iso9660_name_translate`: what it returns, and the memory with the string at `translated`. -/
def iso9660NameTranslateInto (mem : Mem) (translated : Nat) (old : Nat → UInt8) (len : UInt32) : Nat × Mem :=
  let (i, mem) := nameTranslateLoop translated old len len.toNat 0 mem
  (i, mem.store (translated + i) 0)

/-! ### The normal form -/

/-- A byte of a normal name. -/
def normalByte (c : UInt8) : UInt8 :=
  if c = 0x3b then 0x2e else if 0x41 ≤ c ∧ c ≤ 0x5a then c + 0x20 else c

/-- A name without its version at the end. -/
def withoutVersion (name : List UInt8) : List UInt8 :=
  if [0x2e, 0x3b, 0x31] <:+ name then name.take (name.length - 3)
  else if [0x3b, 0x31] <:+ name then name.take (name.length - 2)
  else name

/-- The normal form of a name. -/
def normalName (name : List UInt8) : List UInt8 := (cString (withoutVersion name)).map normalByte

/-- The version is cut where a rest of the name is one. -/
theorem withoutVersion_cons (b : UInt8) (rest : List UInt8) :
    withoutVersion (b :: rest) =
      if b :: rest = [0x2e, 0x3b, 0x31] ∨ b :: rest = [0x3b, 0x31] then [] else b :: withoutVersion rest := by
  have hcut : ∀ {version : List UInt8}, version <:+ rest →
      (b :: rest).take ((b :: rest).length - version.length) = b :: rest.take (rest.length - version.length) := by
    intro version hversion
    rw [List.length_cons, Nat.succ_sub hversion.length_le, List.take_succ_cons]
  by_cases hwhole : b :: rest = [0x2e, 0x3b, 0x31] ∨ b :: rest = [0x3b, 0x31]
  · rw [if_pos hwhole]
    rcases hwhole with heq | heq
    · rw [heq]
      decide
    · rw [heq]
      decide
  · rw [if_neg hwhole]
    rw [not_or] at hwhole
    have hdot : [0x2e, 0x3b, 0x31] <:+ b :: rest ↔ [0x2e, 0x3b, 0x31] <:+ rest := by
      rw [List.suffix_cons_iff, or_iff_right fun h => hwhole.1 h.symm]
    have hplain : [0x3b, 0x31] <:+ b :: rest ↔ [0x3b, 0x31] <:+ rest := by
      rw [List.suffix_cons_iff, or_iff_right fun h => hwhole.2 h.symm]
    rw [withoutVersion, withoutVersion]
    simp only [hdot, hplain]
    split
    case isTrue h => exact hcut h
    case isFalse _ =>
      split
      case isTrue h => exact hcut h
      case isFalse _ => rfl

theorem withoutVersion_front (name : List UInt8) : withoutVersion name <+: name := by
  rw [withoutVersion]
  split
  · exact List.take_prefix _ _
  · split
    · exact List.take_prefix _ _
    · exact List.prefix_refl _

theorem normalName_length (name : List UInt8) : (normalName name).length ≤ name.length := by
  have hstring : (cString (withoutVersion name)).length ≤ (withoutVersion name).length :=
    (List.takeWhile_prefix _).length_le
  rw [normalName, List.length_map]
  exact Nat.le_trans hstring (withoutVersion_front name).length_le

/-- A byte that is neither a NUL, nor a semicolon, nor a capital letter. -/
def IsNormal (b : UInt8) : Prop := b ≠ 0 ∧ b ≠ 0x3b ∧ ¬ (0x41 ≤ b ∧ b ≤ 0x5a)

theorem normalByte_normal {c : UInt8} (h : c ≠ 0) : IsNormal (normalByte c) := by
  rw [normalByte]
  split
  case isTrue =>
    unfold IsNormal
    decide
  case isFalse hsemicolon =>
    split
    case isTrue hupper =>
      have lo : 0x41 ≤ c.toNat := hupper.1
      have hi : c.toNat ≤ 0x5a := hupper.2
      have hsum : (c + 0x20).toNat = c.toNat + 0x20 := by
        rw [UInt8.toNat_add, Nat.mod_eq_of_lt (by show c.toNat + 0x20 < 2 ^ 8; omega)]
        rfl
      refine ⟨fun heq => ?_, fun heq => ?_, fun hrange => ?_⟩
      · rw [heq] at hsum
        exact absurd hsum (by show 0 ≠ c.toNat + 0x20; omega)
      · rw [heq] at hsum
        exact absurd hsum (by show 0x3b ≠ c.toNat + 0x20; omega)
      · have hle : (c + 0x20).toNat ≤ 0x5a := hrange.2
        omega
    case isFalse hupper =>
      exact ⟨h, hsemicolon, hupper⟩

theorem normalByte_of_normal {b : UInt8} (h : IsNormal b) : normalByte b = b := by
  rw [normalByte, if_neg h.2.1, if_neg h.2.2]

theorem normalName_normal (name : List UInt8) : ∀ b ∈ normalName name, IsNormal b := by
  intro b hb
  obtain ⟨c, hc, rfl⟩ := List.mem_map.mp hb
  apply normalByte_normal
  rintro rfl
  exact cString_zero_notMem _ hc

/-- A name of normal bytes is its own normal form. -/
theorem normalName_of_normal {name : List UInt8} (h : ∀ b ∈ name, IsNormal b) : normalName name = name := by
  have hsemicolon : ∀ {version : List UInt8}, 0x3b ∈ version → ¬ version <:+ name := fun hmem hversion =>
    (h _ (hversion.subset hmem)).2.1 rfl
  have hstring : cString name = name :=
    List.takeWhile_eq_self_iff.mpr fun b hb => decide_eq_true (h b hb).1
  rw [normalName, withoutVersion, if_neg (hsemicolon (by decide)), if_neg (hsemicolon (by decide)), hstring]
  exact (List.map_congr_left fun b hb => normalByte_of_normal (h b hb)).trans (List.map_id name)

theorem normalName_idempotent (name : List UInt8) : normalName (normalName name) = normalName name :=
  normalName_of_normal (normalName_normal name)

/-! ### The loop -/

/-- What becomes of a byte that is stored. -/
theorem lower_eq (c : UInt8) :
    (if (if isupper c then tolower c else c) = 0x3b then 0x2e else if isupper c then tolower c else c) =
      normalByte c := by
  have hrange : isupper c = true ↔ 0x41 ≤ c ∧ c ≤ 0x5a := by
    rw [isupper, decide_eq_true_iff, UInt8.toNat_sub]
    have hc : c.toNat < 256 := c.toNat_lt
    show (256 - 65 + c.toNat) % 256 < 26 ↔ 65 ≤ c.toNat ∧ c.toNat ≤ 90
    omega
  by_cases hupper : isupper c = true
  · have hletter := hrange.mp hupper
    have hlower : tolower c = c + 0x20 := if_pos (of_decide_eq_true hupper)
    have hne : c ≠ 0x3b := by
      rintro rfl
      exact absurd hletter (by decide)
    have hnormal : normalByte c = c + 0x20 := by
      rw [normalByte, if_neg hne, if_pos hletter]
    have hsemicolon : c + 0x20 ≠ 0x3b := by
      rw [← hnormal]
      apply (normalByte_normal _).2.1
      rintro rfl
      exact absurd hletter (by decide)
    rw [if_pos hupper, hlower, if_neg hsemicolon, hnormal]
  · rw [if_neg hupper, normalByte, if_neg fun h => hupper (hrange.mpr h)]

/-- A period or a semicolon is one before letters are made small. -/
theorem lower_eq_iff {c d : UInt8} (hd : d = 0x2e ∨ d = 0x3b) :
    (if isupper c then tolower c else c) = d ↔ c = d := by
  split
  case isFalse => exact Iff.rfl
  case isTrue hupper =>
    have hlt : (c - 0x41).toNat < 26 := of_decide_eq_true hupper
    rw [tolower, if_pos hlt]
    have hne : ∀ d : UInt8, d = 0x2e ∨ d = 0x3b → ¬ (d - 0x41).toNat < 26 ∧ ¬ (d - 0x20 - 0x41).toNat < 26 := by
      rintro d (rfl | rfl)
      · decide
      · decide
    refine iff_of_false (fun heq => ?_) fun heq => ?_
    · have hc : c = d - 0x20 := eq_sub_of_add_eq heq
      exact (hne d hd).2 (hc ▸ hlt)
    · exact (hne d hd).1 (heq ▸ hlt)

theorem bytesFrom_eq_pair {old : Mem} {i left : Nat} {a b : UInt8} :
    old.bytesFrom i left = [a, b] ↔ left = 2 ∧ old i = a ∧ old (i + 1) = b := by
  constructor
  · intro h
    have hleft : left = 2 := by
      rw [← Mem.bytesFrom_length old i left, h]
      rfl
    subst hleft
    cases h
    exact ⟨rfl, rfl, rfl⟩
  · rintro ⟨rfl, rfl, rfl⟩
    rfl

theorem bytesFrom_eq_triple {old : Mem} {i left : Nat} {a b c : UInt8} :
    old.bytesFrom i left = [a, b, c] ↔ left = 3 ∧ old i = a ∧ old (i + 1) = b ∧ old (i + 2) = c := by
  constructor
  · intro h
    have hleft : left = 3 := by
      rw [← Mem.bytesFrom_length old i left, h]
      rfl
    subst hleft
    cases h
    exact ⟨rfl, rfl, rfl, rfl⟩
  · rintro ⟨rfl, rfl, rfl, rfl⟩
    rfl

/-- The string that the loop makes of the bytes that are left is their normal form. -/
theorem translateFrom_eq (old : Mem) {len left i : Nat} (hleft : i + left = len) :
    translateFrom old len left i = normalName (old.bytesFrom i left) := by
  induction left generalizing i with
  | zero =>
      rfl
  | succ left ih =>
      have hdot : ((if isupper (old i) then tolower (old i) else old i) = 0x2e ∧ i + 3 = len ∧ old (i + 1) = 0x3b ∧
          old (i + 2) = 0x31) ↔ old i :: old.bytesFrom (i + 1) left = [0x2e, 0x3b, 0x31] := by
        rw [← Mem.bytesFrom_cons, bytesFrom_eq_triple, lower_eq_iff (Or.inl rfl)]
        exact ⟨fun ⟨h, hlen, hrest⟩ => ⟨by omega, h, hrest⟩, fun ⟨hlen, h, hrest⟩ => ⟨h, by omega, hrest⟩⟩
      have hplain : ((if isupper (old i) then tolower (old i) else old i) = 0x3b ∧ i + 2 = len ∧ old (i + 1) = 0x31) ↔
          old i :: old.bytesFrom (i + 1) left = [0x3b, 0x31] := by
        rw [← Mem.bytesFrom_cons, bytesFrom_eq_pair, lower_eq_iff (Or.inr rfl)]
        exact ⟨fun ⟨h, hlen, hrest⟩ => ⟨by omega, h, hrest⟩, fun ⟨hlen, h, hrest⟩ => ⟨h, by omega, hrest⟩⟩
      rw [translateFrom, Mem.bytesFrom_cons, normalName, withoutVersion_cons]
      dsimp only
      rw [ih (by omega), lower_eq]
      simp only [hdot, hplain]
      by_cases hzero : old i = 0
      · have hends : ¬ (old i :: old.bytesFrom (i + 1) left = [0x2e, 0x3b, 0x31] ∨
            old i :: old.bytesFrom (i + 1) left = [0x3b, 0x31]) := by
          rintro (h | h)
          · exact absurd (List.cons.inj h).1 (by rw [hzero]; decide)
          · exact absurd (List.cons.inj h).1 (by rw [hzero]; decide)
        rw [if_pos hzero, if_neg hends, cString, List.takeWhile_cons_of_neg (by rw [hzero]; decide)]
        rfl
      · rw [if_neg hzero]
        by_cases hversion : old i :: old.bytesFrom (i + 1) left = [0x2e, 0x3b, 0x31] ∨
            old i :: old.bytesFrom (i + 1) left = [0x3b, 0x31]
        · rw [if_pos hversion]
          rcases hversion with h | h
          · rw [if_pos h]
            rfl
          · rw [if_pos h, ite_self]
            rfl
        · rw [if_neg hversion]
          rw [not_or] at hversion
          rw [if_neg hversion.1, if_neg hversion.2, cString, List.takeWhile_cons_of_pos (by simpa using hzero)]
          rfl

/-- The name that the walk through the directories compares. -/
theorem iso9660NameTranslate_eq (old : Nat → UInt8) (len : Nat) :
    iso9660NameTranslate old len = normalName (Mem.bytesFrom old 0 len) := translateFrom_eq old (Nat.zero_add len)

/-- A comparison with `len - 3` or `len - 2` that may wrap: no index is that large. -/
theorem index_eq_iff {i : Nat} {len k : UInt32} (hi : i < len.toNat) (hk : k.toNat ≤ 3) :
    UInt32.ofNat i = len - k ↔ i + k.toNat = len.toNat := by
  have hlen : len.toNat < 2 ^ 32 := len.toNat_lt
  have hindex : (UInt32.ofNat i).toNat = i := UInt32.toNat_ofNat_of_lt' (Nat.lt_trans hi hlen)
  rw [← UInt32.toNat_inj, hindex, UInt32.toNat_sub]
  omega

/-- The loop stores that string. -/
theorem nameTranslateLoop_eq (translated : Nat) (old : Nat → UInt8) (len : UInt32) {left i : Nat} (mem : Mem)
    (hleft : i + left = len.toNat) :
    nameTranslateLoop translated old len left i mem =
      (i + (translateFrom old len.toNat left i).length,
        mem.write (translated + i) (translateFrom old len.toNat left i).length
          fun k => (translateFrom old len.toNat left i).getD k 0) := by
  induction left generalizing i mem with
  | zero =>
      exact congrArg (Prod.mk i) (Mem.write_zero mem _ _).symm
  | succ left ih =>
      have hnone : ((i, mem) : Nat × Mem) =
          (i + ([] : List UInt8).length, mem.write (translated + i) ([] : List UInt8).length fun k => [].getD k 0) :=
        congrArg (Prod.mk i) (Mem.write_zero mem _ _).symm
      have hthree : UInt32.ofNat i = len - 3 ↔ i + 3 = len.toNat := index_eq_iff (by omega) (by decide)
      have htwo : UInt32.ofNat i = len - 2 ↔ i + 2 = len.toNat := index_eq_iff (by omega) (by decide)
      rw [nameTranslateLoop, translateFrom]
      dsimp only
      simp only [hthree, htwo]
      generalize (if isupper (old i) then tolower (old i) else old i) = c
      by_cases hzero : old i = 0
      · rw [if_pos hzero, if_pos hzero]
        exact hnone
      rw [if_neg hzero, if_neg hzero]
      by_cases hdot : c = 0x2e ∧ i + 3 = len.toNat ∧ old (i + 1) = 0x3b ∧ old (i + 2) = 0x31
      · rw [if_pos hdot, if_pos hdot]
        exact hnone
      rw [if_neg hdot, if_neg hdot]
      by_cases hplain : c = 0x3b ∧ i + 2 = len.toNat ∧ old (i + 1) = 0x31
      · rw [if_pos hplain, if_pos hplain]
        exact hnone
      rw [if_neg hplain, if_neg hplain, ih _ (by omega)]
      generalize (if c = 0x3b then 0x2e else c) = b
      generalize translateFrom old len.toNat left (i + 1) = string
      refine Prod.ext ?_ ?_
      · show i + 1 + string.length = i + (b :: string).length
        rw [List.length_cons]
        omega
      · have hone : mem.store (translated + i) b = mem.write (translated + i) 1 fun k => (b :: string).getD k 0 := by
          funext a
          simp only [Mem.store, Mem.write]
          by_cases ha : a = translated + i
          · rw [if_pos ha, if_pos (by omega), ha, Nat.sub_self]
            rfl
          · rw [if_neg ha, if_neg (by omega)]
        have happend := Mem.write_append mem (translated + i) 1 string.length fun k => (b :: string).getD k 0
        have hsource : (fun k => (b :: string).getD (1 + k) 0) = fun k => string.getD k 0 := by
          funext k
          rw [Nat.add_comm, List.getD_cons_succ]
        show (mem.store (translated + i) b).write (translated + (i + 1)) string.length (fun k => string.getD k 0) =
          mem.write (translated + i) (b :: string).length fun k => (b :: string).getD k 0
        rw [hone, ← hsource, ← Nat.add_assoc, happend, List.length_cons, Nat.add_comm 1]

/-- The whole call: the length of the normal form is returned, and it is stored with a NUL behind it. -/
theorem iso9660NameTranslateInto_eq (mem : Mem) (translated : Nat) (old : Nat → UInt8) (len : UInt32) :
    iso9660NameTranslateInto mem translated old len =
      ((normalName (Mem.bytesFrom old 0 len.toNat)).length,
        mem.write translated ((normalName (Mem.bytesFrom old 0 len.toNat)).length + 1)
          fun k => (normalName (Mem.bytesFrom old 0 len.toNat) ++ [0]).getD k 0) := by
  rw [iso9660NameTranslateInto, nameTranslateLoop_eq translated old len mem (Nat.zero_add _),
    translateFrom_eq old (Nat.zero_add _)]
  generalize normalName (Mem.bytesFrom old 0 len.toNat) = string
  rw [Nat.zero_add, Nat.add_zero]
  refine congrArg (Prod.mk string.length) (funext fun a => ?_)
  simp only [Mem.store, Mem.write]
  by_cases hend : a = translated + string.length
  · rw [if_pos hend, if_pos (by omega), hend, Nat.add_sub_cancel_left, List.getD_append_right _ _ _ _ (Nat.le_refl _),
      Nat.sub_self]
    rfl
  · rw [if_neg hend]
    by_cases hin : translated ≤ a ∧ a < translated + string.length
    · rw [if_pos hin, if_pos (by omega), List.getD_append _ _ _ _ (by omega)]
    · rw [if_neg hin, if_neg (by omega)]

/-- For every memory, name and length: the call returns the length of the normal form of the `len` bytes, which is at
    most `len`, and stores the normal form and a NUL and nothing else; all bytes of it are normal; and translated again
    with its own length, wherever to, it is returned unchanged. -/
theorem iso9660_name_normal (mem : Mem) (translated : Nat) (old : Nat → UInt8) (len : UInt32) :
    let r := iso9660NameTranslateInto mem translated old len
    let string := normalName (Mem.bytesFrom old 0 len.toNat)
    r.1 = string.length ∧ r.1 ≤ len.toNat ∧
    (r.2.bytesFrom translated (r.1 + 1) = string ++ [0] ∧
      ∀ a, ¬ (translated ≤ a ∧ a < translated + (r.1 + 1)) → r.2 a = mem a) ∧
    (∀ b ∈ string, b ≠ 0 ∧ b ≠ 0x3b ∧ ¬ (0x41 ≤ b ∧ b ≤ 0x5a)) ∧
    ∀ (mem' : Mem) (translated' : Nat),
      let r' := iso9660NameTranslateInto mem' translated' (fun i => r.2 (translated + i)) (UInt32.ofNat r.1)
      r'.1 = r.1 ∧ r'.2.bytesFrom translated' (r'.1 + 1) = string ++ [0] := by
  have hstored : ∀ (mem : Mem) (translated : Nat) (string : List UInt8),
      (mem.write translated (string.length + 1) fun k => (string ++ [0]).getD k 0).bytesFrom translated
        (string.length + 1) = string ++ [0] := by
    intro mem translated string
    rw [Mem.bytesFrom_write_self]
    apply List.ext_getElem
    · rw [List.length_map, List.length_range, List.length_append, List.length_singleton]
    · intro k hk hk'
      rw [List.getElem_map, List.getElem_range, List.getD_eq_getElem _ _ hk']
  have hlength := normalName_length (Mem.bytesFrom old 0 len.toNat)
  rw [Mem.bytesFrom_length] at hlength
  dsimp only
  rw [iso9660NameTranslateInto_eq]
  refine ⟨rfl, hlength, ⟨hstored _ _ _, fun a ha => if_neg ha⟩, normalName_normal _,
    fun mem' translated' => ?_⟩
  have hagain := normalName_idempotent (Mem.bytesFrom old 0 len.toNat)
  generalize normalName (Mem.bytesFrom old 0 len.toNat) = string at hlength hagain ⊢
  have hcount : (UInt32.ofNat string.length).toNat = string.length :=
    UInt32.toNat_ofNat_of_lt' (Nat.lt_of_le_of_lt hlength len.toNat_lt)
  have hread : Mem.bytesFrom (fun i => mem.write translated (string.length + 1) (fun k => (string ++ [0]).getD k 0)
      (translated + i)) 0 string.length = string := by
    have hboth := hstored mem translated string
    rw [Mem.bytesFrom_succ] at hboth
    rw [Mem.bytesFrom_shift]
    exact List.append_inj_left hboth (Mem.bytesFrom_length _ _ _)
  rw [iso9660NameTranslateInto_eq, hcount, hread, hagain]
  exact ⟨rfl, hstored _ _ _⟩

end Cromwell.Iso
