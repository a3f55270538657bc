/-
Module: Cromwell.Gzip.Decoding
Layer: Proofs
Purpose: Reading one symbol: `NEEDBITS`, the walk through the tables and `DUMPBITS` take exactly the word of a symbol
  from the bits that are left, although the look-ups see more bits than the word has.
Imports: Cromwell.Gzip.Inflate, Cromwell.Gzip.HuftBuild
Trusted boundary: none
Main exports: takeBits_spec, walk_spec, decode_spec, Decodes, Decodes.decode_word, huftBuild_decodes
-/
import Cromwell.Gzip.Inflate
import Cromwell.Gzip.HuftBuild

namespace Cromwell.Gzip

open BitString Canonical

/-- Reading a number of `n` bits. -/
theorem takeBits_spec {s : Inbuf} {r : List Bool} {n : Nat} (h : s.Holds r) (hn : n ≤ 16) (hlen : n ≤ r.length) :
    ∃ s', takeBits n s = .ok (value (r.take n), s') ∧ s'.Holds (r.drop n) ∧ s'.input = s.input := by
  obtain ⟨s', hneed, hholds, hbk, -, hinput⟩ := Inbuf.needbits_spec h hn hlen
  refine ⟨s'.dumpbits n, ?_, Inbuf.dumpbits_spec hholds hbk, hinput⟩
  rw [takeBits, hneed, value_take hlen, ← Inbuf.peek_eq hholds hn hbk]
  rfl

/-- Reading a number that was written with `n` bits. -/
theorem takeBits_append {s : Inbuf} {r : List Bool} {n x : Nat} (h : s.Holds (bits n x ++ r)) (hn : n ≤ 16)
    (hx : x < 2 ^ n) : ∃ s', takeBits n s = .ok (x, s') ∧ s'.Holds r ∧ s'.input = s.input := by
  obtain ⟨s', hrun, hholds, hinput⟩ := takeBits_spec h hn (by rw [List.length_append, length_bits]; omega)
  have htake : (bits n x ++ r).take n = bits n x := List.take_left' (length_bits n x)
  have hdrop : (bits n x ++ r).drop n = r := List.drop_left' (length_bits n x)
  rw [htake, value_bits, Nat.mod_eq_of_lt hx] at hrun
  rw [hdrop] at hholds
  exact ⟨s', hrun, hholds, hinput⟩

/-- Where the walk is after it has come to a table. -/
theorem walk_reach {tables : Tables} {bl t w j : Nat} {s : Inbuf} {r : List Bool} (h : s.Holds r) (hbl : bl ≤ 16)
    (hlen : 32 ≤ r.length) (hr : Reach tables bl (value r) t w j) (hw : w ≤ 16) :
    ∃ s' rounds, bmax + 1 ≤ rounds + w ∧
      (do
        let s ← s.needbits bl
        walk tables (bmax + 1) (tables.at 0 (s.peek bl)) s) =
        walk tables rounds (tables.at t (value r / 2 ^ w % 2 ^ j)) s' ∧
      s'.Holds (r.drop w) ∧ j ≤ s'.bk ∧ s'.input = s.input := by
  induction hr with
  | root =>
      obtain ⟨s', hneed, hholds, hbk, -, hinput⟩ := Inbuf.needbits_spec h hbl (by omega)
      refine ⟨s', bmax + 1, le_rfl, ?_, hholds, hbk, hinput⟩
      rw [hneed, Nat.pow_zero, Nat.div_one, ← Inbuf.peek_eq hholds hbl hbk]
      rfl
  | @step t w j hreach he hle hb hbj _ ih =>
      obtain ⟨s', rounds, hrounds, hrun, hholds, hbk, hinput⟩ := ih (by omega)
      obtain ⟨r', hr'⟩ : ∃ e, e = tables.at t (value r / 2 ^ w % 2 ^ j) := ⟨_, rfl⟩
      rw [← hr'] at he hle hb hbj hrun hw ⊢
      obtain ⟨rounds, rfl⟩ : ∃ n, rounds = n + 1 := ⟨rounds - 1, by have hmax : bmax = 16 := rfl; omega⟩
      have hdump := Inbuf.dumpbits_spec hholds (hbj.trans hbk)
      rw [List.drop_drop] at hdump
      obtain ⟨s'', hneed, hholds', hbk', -, hinput'⟩ := Inbuf.needbits_spec (n := r'.e - 16) hdump (by omega)
        (by rw [List.length_drop]; omega)
      refine ⟨s'', rounds, by omega, ?_, hholds', hbk', hinput'.trans hinput⟩
      have hpeek : s''.peek (r'.e - 16) = value r / 2 ^ (w + r'.b) % 2 ^ (r'.e - 16) := by
        rw [Inbuf.peek_eq hholds' (by omega) hbk', value_drop (by omega)]
      rw [hrun, walk, if_neg (by omega), if_neg (by omega), hneed, ← hpeek]
      rfl

/-- A look-up that comes to the entry of a symbol takes the bits of its word and no others. -/
theorem decode_spec {tables : Tables} {bl w : Nat} {e : Huft} {s : Inbuf} {r : List Bool} (h : s.Holds r)
    (hbl : bl ≤ 16) (hlen : 32 ≤ r.length) (hy : Yields tables bl (value r) e w) (he : e.e ≤ 16)
    (hword : w + e.b ≤ 16) :
    ∃ s', decode tables bl s = .ok (some e, s') ∧ s'.Holds (r.drop (w + e.b)) ∧ s'.input = s.input := by
  obtain ⟨t, j, hreach, hat, hb, hbj⟩ := hy
  obtain ⟨s', rounds, hrounds, hrun, hholds, hbk, hinput⟩ := walk_reach h hbl hlen hreach (by omega)
  obtain ⟨rounds, rfl⟩ : ∃ n, rounds = n + 1 := ⟨rounds - 1, by have hmax : bmax = 16 := rfl; omega⟩
  have hne : tables ≠ [] := by
    rintro rfl
    rw [Tables.at, List.getD_nil, List.getD_nil] at hat
    rw [← hat] at hb
    exact absurd hb (Nat.lt_irrefl 0)
  have hdump := Inbuf.dumpbits_spec hholds (hbj.trans hbk)
  rw [List.drop_drop] at hdump
  refine ⟨s'.dumpbits e.b, ?_, hdump, hinput⟩
  have hdecode : decode tables bl s = (do
      let s ← s.needbits bl
      walk tables (bmax + 1) (tables.at 0 (s.peek bl)) s) := by
    simp only [decode, if_neg hne]
  rw [hdecode, hrun, hat, walk, if_pos he]

/-- Tables that lead from the word of every symbol in use to the entry of the symbol. -/
structure Decodes (tables : Tables) (bl : Nat) (lens : List Nat) (entry : Nat → Nat → Huft) : Prop where
  bits_le : bl ≤ 16
  lens_le : ∀ x ∈ lens, x ≤ 16
  found : ∀ sym < lens.length, lens.getD sym 0 ≠ 0 → ∃ w bits, w + bits = lens.getD sym 0 ∧
    ∀ B, B % 2 ^ lens.getD sym 0 = value (codeWord lens sym) → Yields tables bl B (entry sym bits) w

/-- A symbol in front of other bits is read, and they are left. -/
theorem Decodes.decode_word {tables : Tables} {bl sym : Nat} {lens : List Nat} {entry : Nat → Nat → Huft}
    (hd : Decodes tables bl lens entry) (hused : lens.getD sym 0 ≠ 0) (hb : ∀ bits, (entry sym bits).b = bits)
    (he : ∀ bits, (entry sym bits).e ≤ 16) {s : Inbuf} {r : List Bool} (h : s.Holds (codeWord lens sym ++ r))
    (hlen : 32 ≤ r.length) :
    ∃ bits s', decode tables bl s = .ok (some (entry sym bits), s') ∧ s'.Holds r ∧ s'.input = s.input := by
  have hsym : sym < lens.length := by
    by_contra hout
    exact hused (List.getD_eq_default _ _ (Nat.le_of_not_lt hout))
  obtain ⟨w, n, hw, hfound⟩ := hd.found sym hsym hused
  have hle : lens.getD sym 0 ≤ 16 := by
    rw [List.getD_eq_getElem _ _ hsym]
    exact hd.lens_le _ (List.getElem_mem hsym)
  have hwordlen : (codeWord lens sym).length = lens.getD sym 0 := length_codeWord lens sym
  have hB : value (codeWord lens sym ++ r) % 2 ^ lens.getD sym 0 = value (codeWord lens sym) := by
    have hlt := value_lt (codeWord lens sym)
    rw [hwordlen] at hlt
    rw [value_append, hwordlen, Nat.add_mul_mod_self_left, Nat.mod_eq_of_lt hlt]
  obtain ⟨s', hrun, hholds, hinput⟩ := decode_spec h hd.bits_le (by rw [List.length_append]; omega) (hfound _ hB)
    (he n) (by rw [hb, hw]; exact hle)
  refine ⟨n, s', hrun, ?_, hinput⟩
  rwa [hb, hw, List.drop_left' hwordlen] at hholds

/-- The tables of `huft_build` decode the canonical code of their lengths. -/
theorem huftBuild_decodes (stray : Stray) {b : List Nat} {s m : Nat} {d e : List Nat} (hlens : ∀ x ∈ b, x ≤ bmax)
    (hn : b.length ≤ nMax) (hcode : (huftBuild stray b s d e m).code ≠ 2)
    (hroom : (∀ x ∈ b, x < 2 * m) ∨ ((huftBuild stray b s d e m).code = 0 ∧ b.length < 2 ^ m))
    (hd : ∀ sym, s ≤ sym → sym < b.length → sym - s < e.length ∧ sym - s < d.length) :
    Decodes (huftBuild stray b s d e m).tables (huftBuild stray b s d e m).bits b (symbolEntry s d e) := by
  constructor
  · by_cases hall : ∀ x ∈ b, x = 0
    · have heq : huftBuild stray b s d e m = ⟨0, [], 0⟩ := if_pos ((countLengths_zero hlens).mpr hall)
      rw [heq]
      exact Nat.zero_le _
    · have hused : ∃ x ∈ b, x ≠ 0 := by
        by_contra hno
        exact hall fun x hx => by_contra fun hne => hno ⟨x, hx, hne⟩
      obtain ⟨g, l, -, hg2, -, -, -, hl2, -, hcases⟩ :=
        huftBuild_cases stray s m d e hlens hused
      rcases hcases with ⟨-, heq⟩ | ⟨y, j, -, -, -, -, heq⟩
      · rw [heq]
        exact hl2.trans hg2
      · rw [heq]
        exact hl2.trans hg2
  · exact hlens
  · intro sym hsym hused
    exact huftBuild_yields hlens hn hcode hroom hsym hused fun hle => hd sym hle hsym

/-- The look-up loop reads the canonical code for which the tables were made: from bits that begin with the word of a
    symbol it takes this word and nothing else, and comes to the entry of the symbol. -/
theorem huftBuild_reads (stray : Stray) {b : List Nat} {s m sym : Nat} {d e : List Nat} {inp : Inbuf} {r : List Bool}
    (hlens : ∀ x ∈ b, x ≤ bmax) (hn : b.length ≤ nMax) (hcode : (huftBuild stray b s d e m).code ≠ 2)
    (hroom : (∀ x ∈ b, x < 2 * m) ∨ ((huftBuild stray b s d e m).code = 0 ∧ b.length < 2 ^ m))
    (hd : ∀ sym, s ≤ sym → sym < b.length → sym - s < e.length ∧ sym - s < d.length) (hused : b.getD sym 0 ≠ 0)
    (he : ∀ bits, (symbolEntry s d e sym bits).e ≤ 16) (h : inp.Holds (codeWord b sym ++ r)) (hlen : 32 ≤ r.length) :
    ∃ bits inp', decode (huftBuild stray b s d e m).tables (huftBuild stray b s d e m).bits inp =
        .ok (some (symbolEntry s d e sym bits), inp') ∧ inp'.Holds r := by
  have hdecodes := huftBuild_decodes stray hlens hn hcode hroom hd
  obtain ⟨bits, inp', hrun, hholds, -⟩ := hdecodes.decode_word hused (symbolEntry_b s d e sym) he h hlen
  exact ⟨bits, inp', hrun, hholds⟩

theorem huftBuild_reads_four :
    ∃ bits inp', decode (huftBuild .zero [1, 2, 3, 3] 0 [5, 6, 7, 8] [0, 0, 0, 0] 2).tables
          (huftBuild .zero [1, 2, 3, 3] 0 [5, 6, 7, 8] [0, 0, 0, 0] 2).bits ⟨[7, 0, 0, 0, 0], 5, 0, 0, 0⟩ =
        .ok (some (symbolEntry 0 [5, 6, 7, 8] [0, 0, 0, 0] 3 bits), inp') ∧ inp'.Holds (List.replicate 37 false) := by
  have hcode : (huftBuild .zero [1, 2, 3, 3] 0 [5, 6, 7, 8] [0, 0, 0, 0] 2).code = 0 :=
    huftBuild_code_zero (by decide) (Or.inl (by decide))
  refine huftBuild_reads _ (by decide) (by decide) (by rw [hcode]; decide) (Or.inl (by decide)) ?_ (by decide)
    ?_ ?_ (by decide)
  · intro sym _ hsym
    exact ⟨hsym, hsym⟩
  · exact fun _ => Nat.zero_le _
  · exact ⟨rfl, Nat.zero_le _, by decide, Nat.zero_le _, by decide, by decide⟩

end Cromwell.Gzip
