/-
Module: Cromwell.Gzip.Dynamic
Layer: Proofs
Purpose: Blocks with codes of their own: the code lengths of the code lengths, the coded lengths, the two codes and
  the symbols are read one after the other, each with what was read before it.
Imports: Cromwell.Gzip.Blocks
Trusted boundary: none
Main exports: bitLengths_spec, lengthsLoop_spec, inflateDynamic_spec, inflateBlock_spec
-/
import Cromwell.Gzip.Blocks

namespace Cromwell.Gzip

open BitString Canonical

/-! ### The lengths of the bit length codes -/

theorem bitLengthsLoop_spec {cl : List Nat} {r : List Bool} (hsmall : ∀ x ∈ cl, x < 8) :
    ∀ (places : List Nat) (ll : List Nat) {inp : Inbuf},
      inp.Holds (places.flatMap (fun i => bits 3 (cl.getD i 0)) ++ r) →
      ∃ inp', bitLengthsLoop places ll inp = .ok (places.foldl (fun ll i => ll.set i (cl.getD i 0)) ll, inp') ∧
        inp'.Holds r ∧ inp'.input = inp.input := by
  intro places
  induction places with
  | nil => exact fun ll inp h => ⟨inp, rfl, h, rfl⟩
  | cons i places ih =>
      intro ll inp h
      rw [List.flatMap_cons, List.append_assoc] at h
      have hx : cl.getD i 0 < 2 ^ 3 := by
        by_cases hi : i < cl.length
        · rw [List.getD_eq_getElem _ _ hi]
          exact hsmall _ (List.getElem_mem hi)
        · rw [List.getD_eq_default _ _ (Nat.le_of_not_lt hi)]
          decide
      obtain ⟨inp₁, hrun₁, hholds₁, hinput₁⟩ := takeBits_append h (by decide) hx
      obtain ⟨inp', hrun, hholds, hinput⟩ := ih (ll.set i (cl.getD i 0)) hholds₁
      refine ⟨inp', ?_, hholds, hinput.trans hinput₁⟩
      rw [bitLengthsLoop, hrun₁, List.foldl_cons, ← hrun]
      rfl

theorem getD_foldl_set (f : Nat → Nat) (places : List Nat) :
    ∀ (ll : List Nat) (k : Nat), k < ll.length →
      (places.foldl (fun ll i => ll.set i (f i)) ll).getD k 0 = if k ∈ places then f k else ll.getD k 0 := by
  induction places with
  | nil =>
      intro ll k _
      rw [if_neg List.not_mem_nil]
      rfl
  | cons i places ih =>
      intro ll k hk
      rw [List.foldl_cons, ih _ k (by rwa [List.length_set])]
      by_cases hmem : k ∈ places
      · rw [if_pos hmem, if_pos (List.mem_cons_of_mem _ hmem)]
      · rw [if_neg hmem]
        by_cases hki : k = i
        · subst hki
          rw [if_pos List.mem_cons_self, List.getD_eq_getElem _ _ (by rwa [List.length_set]), List.getElem_set_self]
        · rw [if_neg (by simp [hki, hmem]), List.getD_eq_getElem?_getD, List.getElem?_set_ne (fun e => hki e.symm),
            ← List.getD_eq_getElem?_getD]

theorem length_foldl_set (f : Nat → Nat) (places : List Nat) :
    ∀ ll : List Nat, (places.foldl (fun ll i => ll.set i (f i)) ll).length = ll.length := by
  induction places with
  | nil => exact fun _ => rfl
  | cons i places ih =>
      intro ll
      rw [List.foldl_cons, ih, List.length_set]

/-- `border` names every place. -/
theorem mem_border : ∀ k < 19, k ∈ border := by decide

/-- What was read, with zeros where nothing was, are the lengths. -/
theorem bitLengths_eq {t : Trees} (hplaces : t.cl.length = 19) (hrest : ∀ i ∈ border.drop t.nb, t.cl.getD i 0 = 0) :
    clearLengths (border.drop t.nb)
      ((border.take t.nb).foldl (fun ll i => ll.set i (t.cl.getD i 0)) (List.replicate 19 0)) = t.cl := by
  have hclear (places : List Nat) (hz : ∀ i ∈ places, t.cl.getD i 0 = 0) :
      ∀ ll : List Nat, clearLengths places ll = places.foldl (fun ll i => ll.set i (t.cl.getD i 0)) ll := by
    induction places with
    | nil => exact fun _ => rfl
    | cons i places ih =>
        intro ll
        have hrest := ih (fun i' hi' => hz i' (List.mem_cons_of_mem _ hi')) (ll.set i 0)
        rw [List.foldl_cons, hz i List.mem_cons_self, ← hrest]
        rfl
  rw [hclear _ hrest, ← List.foldl_append, List.take_append_drop]
  apply List.ext_getElem
  · rw [length_foldl_set, List.length_replicate, hplaces]
  · intro k hk hk'
    have hlt : k < 19 := hplaces ▸ hk'
    have hget := getD_foldl_set (fun i => t.cl.getD i 0) border (List.replicate 19 0) k (by rwa [List.length_replicate])
    rw [if_pos (mem_border k hlt)] at hget
    rwa [List.getD_eq_getElem _ _ hk, List.getD_eq_getElem _ _ hk'] at hget

/-! ### The coded lengths -/

theorem expandLengths_lt {cl : List Nat} :
    ∀ (ops : List LengthOp) {last : Nat}, last < 16 → (∀ op ∈ ops, op.Valid cl) →
      ∀ x ∈ expandLengths last ops, x < 16 := by
  intro ops
  induction ops with
  | nil => exact fun _ _ x hx => absurd hx List.not_mem_nil
  | cons op ops ih =>
      intro last hlast hvalid x hx
      have hop := (hvalid op List.mem_cons_self).2
      have hstep : (∀ y ∈ (op.lengths last).1, y < 16) ∧ (op.lengths last).2 < 16 := by
        cases op with
        | length k => exact ⟨fun y hy => (List.mem_singleton.mp hy).trans_lt hop, hop⟩
        | again n => exact ⟨fun y hy => (List.eq_of_mem_replicate hy).trans_lt hlast, hlast⟩
        | zeros n => exact ⟨fun y hy => (List.eq_of_mem_replicate hy).trans_lt (by decide), Nat.succ_pos 15⟩
        | manyZeros n => exact ⟨fun y hy => (List.eq_of_mem_replicate hy).trans_lt (by decide), Nat.succ_pos 15⟩
      rw [expandLengths] at hx
      rcases List.mem_append.mp hx with hnow | hlater
      · exact hstep.1 x hnow
      · exact ih hstep.2 (fun op' hmem => hvalid op' (List.mem_cons_of_mem _ hmem)) x hlater

/-- The table of the bit length codes: a single look-up finds the entry. -/
structure FirstLevel (tl : Tables) (bl : Nat) (cl : List Nat) : Prop where
  bits_le : bl ≤ 16
  found : ∀ sym < 19, cl.getD sym 0 ≠ 0 → ∃ n, n = cl.getD sym 0 ∧ n ≤ bl ∧
    ∀ B, B % 2 ^ n = value (codeWord cl sym) → tl ≠ [] ∧ tl.at 0 (B % 2 ^ bl) = ⟨16, n, sym⟩

theorem bitLengths_firstLevel (stray : Stray) {cl : List Nat} (hplaces : cl.length = 19) (hsmall : ∀ x ∈ cl, x < 8)
    (husable : Usable cl) :
    (huftBuild stray cl 19 [] [] 7).code = 0 ∧
      FirstLevel (huftBuild stray cl 19 [] [] 7).tables (huftBuild stray cl 19 [] [] 7).bits cl := by
  have hlens : ∀ x ∈ cl, x ≤ bmax := fun x hx => (hsmall x hx).le.trans (by decide)
  have hcode : (huftBuild stray cl 19 [] [] 7).code = 0 := huftBuild_code_zero hlens husable
  have hdecodes : Decodes (huftBuild stray cl 19 [] [] 7).tables (huftBuild stray cl 19 [] [] 7).bits cl
      (symbolEntry 19 [] []) :=
    huftBuild_decodes stray hlens (by rw [hplaces]; decide) (by rw [hcode]; decide)
      (Or.inl fun x hx => (hsmall x hx).trans (by decide)) (fun sym hle hsym => by omega)
  refine ⟨hcode, hdecodes.bits_le, ?_⟩
  intro sym hsym hused
  rw [← hplaces] at hsym
  obtain ⟨w, n, hw, hfound⟩ := hdecodes.found sym hsym hused
  have hmem : cl.getD sym 0 ∈ cl := by
    rw [List.getD_eq_getElem _ _ hsym]
    exact List.getElem_mem hsym
  have hle : cl.getD sym 0 ≤ (huftBuild stray cl 19 [] [] 7).bits :=
    huftBuild_bits hlens (fun x hx => Nat.le_of_lt_succ (hsmall x hx)) _ hmem
  have hentry : symbolEntry 19 [] [] sym n = ⟨16, n, sym⟩ := by
    rw [hplaces] at hsym
    simp only [symbolEntry, if_pos hsym, if_pos (show sym < 256 by omega)]
  have hn (B : Nat) (hB : B % 2 ^ cl.getD sym 0 = value (codeWord cl sym)) :=
    (hfound B hB).first (by rw [symbolEntry_b, hw]; exact hle)
  have hw0 : w = 0 := by
    have hlt := value_lt (codeWord cl sym)
    rw [length_codeWord] at hlt
    exact (hn (value (codeWord cl sym)) (Nat.mod_eq_of_lt hlt)).1
  rw [hw0, Nat.zero_add] at hw
  refine ⟨n, hw, hw ▸ hle, ?_⟩
  intro B hB
  rw [hw] at hB
  have hat := (hn B hB).2
  rw [hentry] at hat
  refine ⟨?_, hat⟩
  intro hnil
  rw [hnil, Tables.at, List.getD_nil, List.getD_nil] at hat
  exact absurd (congrArg Huft.e hat) (by decide : ¬ (0 : Nat) = 16)

/-- The look-up and `DUMPBITS` for the word of an operation. -/
theorem lengthsLoop_word {tl : Tables} {bl sym : Nat} {cl : List Nat} (hf : FirstLevel tl bl cl) (hsym : sym < 19)
    (hused : cl.getD sym 0 ≠ 0) {inp : Inbuf} {r : List Bool} (h : inp.Holds (codeWord cl sym ++ r))
    (hlen : 32 ≤ r.length) :
    ∃ inp', inp.needbits bl = .ok inp' ∧ tl ≠ [] ∧
      (∃ n, tl.at 0 (inp'.peek bl) = ⟨16, n, sym⟩ ∧ (inp'.dumpbits n).Holds r) ∧ inp'.input = inp.input := by
  obtain ⟨n, hn, hnbl, hfound⟩ := hf.found sym hsym hused
  have hbl := hf.bits_le
  obtain ⟨inp', hneed, hholds, hbk, -, hinput⟩ := Inbuf.needbits_spec h hbl
    (by rw [List.length_append]; omega)
  have hwordlen : (codeWord cl sym).length = n := by rw [length_codeWord, hn]
  have hB : value (codeWord cl sym ++ r) % 2 ^ n = value (codeWord cl sym) := by
    have hlt := value_lt (codeWord cl sym)
    rw [hwordlen] at hlt
    rw [value_append, hwordlen, Nat.add_mul_mod_self_left, Nat.mod_eq_of_lt hlt]
  obtain ⟨hne, hat⟩ := hfound _ hB
  have hdump := Inbuf.dumpbits_spec hholds (hnbl.trans hbk)
  rw [List.drop_left' hwordlen] at hdump
  refine ⟨inp', hneed, hne, ⟨n, ?_, hdump⟩, hinput⟩
  rw [Inbuf.peek_eq hholds hbl hbk, hat]

/-- One operation. -/
theorem lengthsLoop_op {tl : Tables} {bl : Nat} {cl : List Nat} (n last : Nat) (ll : List Nat) (hf : FirstLevel tl bl cl)
    {op : LengthOp} (hop : op.Valid cl) {inp : Inbuf} {r : List Bool} (h : inp.Holds (codeWord cl op.symbol ++ op.extra ++ r))
    (hlen : 32 ≤ r.length) (hfits : ll.length + (op.lengths last).1.length ≤ n) (rounds : Nat) :
    ∃ inp', lengthsLoop tl bl n (rounds + 1) last ll inp =
        lengthsLoop tl bl n rounds (op.lengths last).2 (ll ++ (op.lengths last).1) inp' ∧
      inp'.Holds r ∧ inp'.input = inp.input := by
  obtain ⟨hused, hextra⟩ := hop
  rw [List.append_assoc] at h
  have hsym : op.symbol < 19 := by
    cases op with
    | length k => exact lt_of_lt_of_le hextra (by decide)
    | again x => exact (by decide : 16 < 19)
    | zeros x => exact (by decide : 17 < 19)
    | manyZeros x => exact (by decide : 18 < 19)
  have hmore : 1 ≤ (op.lengths last).1.length := by
    cases op with
    | length k => exact le_rfl
    | again x => rw [LengthOp.lengths, List.length_replicate]; omega
    | zeros x => rw [LengthOp.lengths, List.length_replicate]; omega
    | manyZeros x => rw [LengthOp.lengths, List.length_replicate]; omega
  obtain ⟨inp₁, hneed, hne, ⟨b, hat, hholds₁⟩, hinput₁⟩ :=
    lengthsLoop_word hf hsym hused h (by rw [List.length_append]; omega)
  have hstep : lengthsLoop tl bl n (rounds + 1) last ll inp =
      if op.symbol < 16 then lengthsLoop tl bl n rounds op.symbol (ll ++ [op.symbol]) (inp₁.dumpbits b)
      else if op.symbol = 16 then takeBits 2 (inp₁.dumpbits b) >>= fun p =>
        if ll.length + (3 + p.1) > n then .ok (none, p.2)
        else lengthsLoop tl bl n rounds last (ll ++ List.replicate (3 + p.1) last) p.2
      else if op.symbol = 17 then takeBits 3 (inp₁.dumpbits b) >>= fun p =>
        if ll.length + (3 + p.1) > n then .ok (none, p.2)
        else lengthsLoop tl bl n rounds 0 (ll ++ List.replicate (3 + p.1) 0) p.2
      else takeBits 7 (inp₁.dumpbits b) >>= fun p =>
        if ll.length + (11 + p.1) > n then .ok (none, p.2)
        else lengthsLoop tl bl n rounds 0 (ll ++ List.replicate (11 + p.1) 0) p.2 := by
    rw [lengthsLoop, if_pos (by omega), hneed]
    show (if tl = [] then _ else _) = _
    rw [if_neg hne, hat]
  rw [hstep]
  cases op with
  | length k =>
      have hk : k < 16 := hextra
      refine ⟨inp₁.dumpbits b, if_pos hk, hholds₁, hinput₁⟩
  | again x =>
      have hx : x < 2 ^ 2 := hextra
      obtain ⟨inp₂, hrun₂, hholds₂, hinput₂⟩ := takeBits_append hholds₁ (by decide) hx
      have hroom : ¬ ll.length + (3 + x) > n := by
        rw [LengthOp.lengths, List.length_replicate] at hfits
        omega
      refine ⟨inp₂, ?_, hholds₂, hinput₂.trans hinput₁⟩
      rw [LengthOp.symbol, if_neg (by decide), if_pos rfl, hrun₂]
      exact if_neg hroom
  | zeros x =>
      have hx : x < 2 ^ 3 := hextra
      obtain ⟨inp₂, hrun₂, hholds₂, hinput₂⟩ := takeBits_append hholds₁ (by decide) hx
      have hroom : ¬ ll.length + (3 + x) > n := by
        rw [LengthOp.lengths, List.length_replicate] at hfits
        omega
      refine ⟨inp₂, ?_, hholds₂, hinput₂.trans hinput₁⟩
      rw [LengthOp.symbol, if_neg (by decide), if_neg (by decide), if_pos rfl, hrun₂]
      exact if_neg hroom
  | manyZeros x =>
      have hx : x < 2 ^ 7 := hextra
      obtain ⟨inp₂, hrun₂, hholds₂, hinput₂⟩ := takeBits_append hholds₁ (by decide) hx
      have hroom : ¬ ll.length + (11 + x) > n := by
        rw [LengthOp.lengths, List.length_replicate] at hfits
        omega
      refine ⟨inp₂, ?_, hholds₂, hinput₂.trans hinput₁⟩
      rw [LengthOp.symbol, if_neg (by decide), if_neg (by decide), if_neg (by decide), hrun₂]
      exact if_neg hroom

/-- All of them. -/
theorem lengthsLoop_spec {tl : Tables} {bl n : Nat} {cl : List Nat} (hf : FirstLevel tl bl cl) {r : List Bool}
    (hlen : 32 ≤ r.length) :
    ∀ (ops : List LengthOp) (rounds last : Nat) (ll : List Nat) {inp : Inbuf}, (∀ op ∈ ops, op.Valid cl) →
      inp.Holds (lengthsBits cl ops ++ r) → ll.length + (expandLengths last ops).length = n →
      n < rounds + ll.length →
      ∃ inp', lengthsLoop tl bl n rounds last ll inp = .ok (some (ll ++ expandLengths last ops), inp') ∧
        inp'.Holds r ∧ inp'.input = inp.input := by
  intro ops
  induction ops with
  | nil =>
      intro rounds last ll inp _ h htotal hrounds
      have hdone : ll.length = n := htotal
      obtain ⟨rounds, rfl⟩ : ∃ k, rounds = k + 1 := ⟨rounds - 1, by omega⟩
      refine ⟨inp, ?_, h, rfl⟩
      rw [lengthsLoop, if_neg (by omega), expandLengths, List.append_nil]
  | cons op ops ih =>
      intro rounds last ll inp hvalid h htotal hrounds
      rw [expandLengths, List.length_append] at htotal
      have hone : 1 ≤ (op.lengths last).1.length := by
        cases op with
        | length k => exact le_rfl
        | again x => rw [LengthOp.lengths, List.length_replicate]; omega
        | zeros x => rw [LengthOp.lengths, List.length_replicate]; omega
        | manyZeros x => rw [LengthOp.lengths, List.length_replicate]; omega
      obtain ⟨rounds, rfl⟩ : ∃ k, rounds = k + 1 := ⟨rounds - 1, by omega⟩
      have hword : inp.Holds (codeWord cl op.symbol ++ op.extra ++ (lengthsBits cl ops ++ r)) := by
        simpa only [lengthsBits, List.flatMap_cons, List.append_assoc] using h
      obtain ⟨inp₁, hrun₁, hholds₁, hinput₁⟩ := lengthsLoop_op n last ll hf
        (hvalid op List.mem_cons_self) hword (by rw [List.length_append]; omega) (by omega) rounds
      obtain ⟨inp', hrun, hholds, hinput⟩ := ih rounds (op.lengths last).2 (ll ++ (op.lengths last).1)
        (fun op' hmem => hvalid op' (List.mem_cons_of_mem _ hmem)) hholds₁
        (by rw [List.length_append]; omega) (by rw [List.length_append]; omega)
      refine ⟨inp', ?_, hholds, hinput.trans hinput₁⟩
      rw [hrun₁, hrun, expandLengths, List.append_assoc]

/-! ### The block -/

/-- The tables of both codes. -/
theorem trees_coding {trees : Trees} (hv : trees.Valid) (stray stray' : Stray) :
    (huftBuild stray trees.ll 257 cplens cplext lbits).code = 0 ∧
      (huftBuild stray' trees.dl 0 cpdist cpdext dbits).code = 0 ∧
      Coding (huftBuild stray trees.ll 257 cplens cplext lbits).tables
        (huftBuild stray' trees.dl 0 cpdist cpdext dbits).tables
        (huftBuild stray trees.ll 257 cplens cplext lbits).bits
        (huftBuild stray' trees.dl 0 cpdist cpdext dbits).bits trees.ll trees.dl := by
  have hlt : ∀ x ∈ trees.all, x < 16 := expandLengths_lt trees.ops (by decide) hv.ops
  have hl : ∀ x ∈ trees.ll, x < 16 := fun x hx => hlt x (List.mem_of_mem_take hx)
  have hd : ∀ x ∈ trees.dl, x < 16 := fun x hx => hlt x (List.mem_of_mem_drop hx)
  have hllen : trees.ll.length = trees.nl := by
    rw [Trees.ll, List.length_take, hv.length]
    exact Nat.min_eq_left (Nat.le_add_right _ _)
  have hdlen : trees.dl.length = trees.nd := by
    rw [Trees.dl, List.length_drop, hv.length]
    exact Nat.add_sub_cancel_left _ _
  have hnl := hv.nl
  have hnd := hv.nd
  have hmax : bmax = 16 := rfl
  have hcode : (huftBuild stray trees.ll 257 cplens cplext lbits).code = 0 :=
    huftBuild_code_zero (fun x hx => (hl x hx).le) hv.ll
  have hcode' : (huftBuild stray' trees.dl 0 cpdist cpdext dbits).code = 0 :=
    huftBuild_code_zero (fun x hx => (hd x hx).le) hv.dl
  refine ⟨hcode, hcode', ?_, ?_⟩
  · apply huftBuild_decodes _ (fun x hx => (hl x hx).le) (by rw [hllen, nMax]; omega)
      (by rw [hcode]; decide)
    · exact Or.inl fun x hx => (hl x hx).trans (by decide)
    · intro sym hle hsym
      rw [hllen] at hsym
      exact ⟨show sym - 257 < 31 by omega, show sym - 257 < 31 by omega⟩
  · apply huftBuild_decodes _ (fun x hx => (hd x hx).le) (by rw [hdlen, nMax]; omega)
      (by rw [hcode']; decide)
    · exact Or.inr ⟨hcode', by rw [hdlen, dbits]; omega⟩
    · intro sym _ hsym
      rw [hdlen] at hsym
      exact ⟨show sym - 0 < 30 by omega, show sym - 0 < 30 by omega⟩

theorem inflateDynamic_spec (memory : Memory) {trees : Trees} {symbols : List Symbol} {r : List Bool} {inp : Inbuf}
    {o : Slide} {t : List UInt8} (hlen : 32 ≤ r.length) (hv : trees.Valid)
    (hvalid : ∀ x ∈ symbols, x.Valid trees.ll trees.dl)
    (h : inp.Holds (trees.bits ++ (codedBits trees.ll trees.dl symbols ++ r))) (ho : o.Represents t)
    (hroom : o.outcnt < wsize) :
    ∃ inp' o', inflateDynamic memory ⟨inp, o⟩ = .ok (0, ⟨inp', o'⟩) ∧ inp'.Holds r ∧
      o'.Represents (Lz77.expand t (symbols.map Symbol.item)) ∧ o'.outcnt < wsize ∧ inp'.input = inp.input := by
  have hnl := hv.nl
  have hnd := hv.nd
  have hnb := hv.nb
  simp only [Trees.bits, List.append_assoc] at h
  obtain ⟨inp₁, hrun₁, hholds₁, hinput₁⟩ := takeBits_append h (by decide) (by omega)
  obtain ⟨inp₂, hrun₂, hholds₂, hinput₂⟩ := takeBits_append hholds₁ (by decide) (by omega)
  obtain ⟨inp₃, hrun₃, hholds₃, hinput₃⟩ := takeBits_append hholds₂ (by decide) (by omega)
  obtain ⟨inp₄, hrun₄, hholds₄, hinput₄⟩ := bitLengthsLoop_spec hv.small (border.take trees.nb)
    (List.replicate 19 0) hholds₃
  obtain ⟨hcode₀, hfirst⟩ := bitLengths_firstLevel (memory inp₄ 0) hv.places hv.small hv.cl
  obtain ⟨inp₅, hrun₅, hholds₅, hinput₅⟩ := lengthsLoop_spec (n := trees.nl + trees.nd) hfirst
    (by rw [List.length_append]; omega) trees.ops (trees.nl + trees.nd + 1) 0 [] hv.ops hholds₄
    (by rw [List.length_nil, Nat.zero_add]; exact hv.length) (by rw [List.length_nil]; omega)
  obtain ⟨hcode₁, hcode₂, hcoding⟩ := trees_coding hv (memory inp₅ 1) (memory inp₅ 2)
  obtain ⟨inp', o', hrun, hholds, hrep, hroom', hinput⟩ :=
    inflateCodes_spec hcoding hv.finish hlen hvalid hholds₅ ho hroom
  refine ⟨inp', o', ?_, hholds, hrep, hroom', ?_⟩
  · have htrees : inflateTrees memory trees.nl trees.all ⟨inp₅, o⟩ = .ok (0, ⟨inp', o'⟩) := by
      have hll : trees.all.take trees.nl = trees.ll := rfl
      have hdl : trees.all.drop trees.nl = trees.dl := rfl
      simp only [inflateTrees, hll, hdl]
      rw [if_neg (not_not.mpr hcode₁), if_neg (not_not.mpr hcode₂), hrun]
      rfl
    simp only [inflateDynamic, hrun₁, ok_bind, hrun₂, hrun₃]
    rw [Nat.add_sub_cancel' hnl.1, Nat.add_sub_cancel' hnd.1, Nat.add_sub_cancel' hnb.1, if_neg (by omega), hrun₄]
    simp only [ok_bind]
    rw [bitLengths_eq hv.places hv.rest, if_neg (not_not.mpr hcode₀), hrun₅]
    simp only [ok_bind, List.nil_append]
    exact htrees
  · rw [hinput, hinput₅, hinput₄, hinput₃, hinput₂, hinput₁]

/-! ### The kinds of blocks -/

section Kinds

variable {memory : Memory} {inp inp₁ inp₂ : Inbuf} {o : Slide} {e code : Nat} {st : Statics}

theorem inflateBlock_stored (he : takeBits 1 inp = .ok (e, inp₁)) (ht : takeBits 2 inp₁ = .ok (0, inp₂))
    (hrun : inflateStored ⟨inp₂, o⟩ = .ok (code, st)) : inflateBlock memory ⟨inp, o⟩ = .ok (e, code, st) := by
  rw [inflateBlock, he, ok_bind]
  dsimp only
  rw [ht, ok_bind]
  dsimp only
  rw [if_neg (by decide), if_pos rfl, hrun, ok_bind]

theorem inflateBlock_fixed (he : takeBits 1 inp = .ok (e, inp₁)) (ht : takeBits 2 inp₁ = .ok (1, inp₂))
    (hrun : inflateFixed memory ⟨inp₂, o⟩ = .ok (code, st)) : inflateBlock memory ⟨inp, o⟩ = .ok (e, code, st) := by
  rw [inflateBlock, he, ok_bind]
  dsimp only
  rw [ht, ok_bind]
  dsimp only
  rw [if_neg (by decide), if_neg (by decide), if_pos rfl, hrun, ok_bind]

theorem inflateBlock_dynamic (he : takeBits 1 inp = .ok (e, inp₁)) (ht : takeBits 2 inp₁ = .ok (2, inp₂))
    (hrun : inflateDynamic memory ⟨inp₂, o⟩ = .ok (code, st)) : inflateBlock memory ⟨inp, o⟩ = .ok (e, code, st) := by
  rw [inflateBlock, he, ok_bind]
  dsimp only
  rw [ht, ok_bind]
  dsimp only
  rw [if_pos rfl, hrun, ok_bind]

end Kinds

/-- A block of any kind. -/
theorem inflateBlock_spec (memory : Memory) {b : Block} {final : Bool} {off : Nat} {r : List Bool} {inp : Inbuf}
    {o : Slide} {t : List UInt8} (hlen : 32 ≤ r.length) (hv : b.Valid off)
    (hoff : (off + (b.bits final).length + r.length) % 8 = 0) (h : inp.Holds (b.bits final ++ r))
    (ho : o.Represents t) (hroom : o.outcnt < wsize) :
    ∃ inp' o', inflateBlock memory ⟨inp, o⟩ = .ok (final.toNat, 0, ⟨inp', o'⟩) ∧ inp'.Holds r ∧
      o'.Represents (Lz77.expand t b.items) ∧ o'.outcnt < wsize ∧ inp'.input = inp.input := by
  have hbit : ∀ rest : List Bool, final :: rest = bits 1 final.toNat ++ rest := by
    intro rest
    cases final <;> rfl
  have hflag : final.toNat < 2 ^ 1 := Bool.toNat_lt final
  cases b with
  | stored pad data =>
      obtain ⟨hpad, halign, hdata⟩ := hv
      rw [Block.bits, hbit, List.append_assoc] at h
      obtain ⟨inp₁, hrun₁, hholds₁, hinput₁⟩ := takeBits_append h (by decide) hflag
      rw [List.append_assoc] at hholds₁
      obtain ⟨inp₂, hrun₂, hholds₂, hinput₂⟩ := takeBits_append hholds₁ (by decide) (by decide)
      simp only [List.append_assoc] at hholds₂
      have hr : r.length % 8 = 0 := by
        simp only [Block.bits, List.length_cons, List.length_append, length_bits, length_ofBytes] at hoff
        omega
      obtain ⟨inp', o', hrun, hholds, hrep, hroom', hinput⟩ := inflateStored_spec hpad hdata hr hholds₂ ho hroom
      refine ⟨inp', o', ?_, hholds, hrep, hroom', hinput.trans (hinput₂.trans hinput₁)⟩
      exact inflateBlock_stored hrun₁ hrun₂ hrun
  | fixed symbols =>
      rw [Block.bits, hbit, List.append_assoc] at h
      obtain ⟨inp₁, hrun₁, hholds₁, hinput₁⟩ := takeBits_append h (by decide) hflag
      rw [List.append_assoc] at hholds₁
      obtain ⟨inp₂, hrun₂, hholds₂, hinput₂⟩ := takeBits_append hholds₁ (by decide) (by decide)
      obtain ⟨inp', o', hrun, hholds, hrep, hroom', hinput⟩ := inflateFixed_spec memory hlen hv hholds₂ ho hroom
      refine ⟨inp', o', ?_, hholds, hrep, hroom', hinput.trans (hinput₂.trans hinput₁)⟩
      exact inflateBlock_fixed hrun₁ hrun₂ hrun
  | dynamic trees symbols =>
      obtain ⟨htrees, hsymbols⟩ := hv
      rw [Block.bits, hbit, List.append_assoc] at h
      obtain ⟨inp₁, hrun₁, hholds₁, hinput₁⟩ := takeBits_append h (by decide) hflag
      rw [List.append_assoc] at hholds₁
      obtain ⟨inp₂, hrun₂, hholds₂, hinput₂⟩ := takeBits_append hholds₁ (by decide) (by decide)
      rw [List.append_assoc] at hholds₂
      obtain ⟨inp', o', hrun, hholds, hrep, hroom', hinput⟩ :=
        inflateDynamic_spec memory hlen htrees hsymbols hholds₂ ho hroom
      refine ⟨inp', o', ?_, hholds, hrep, hroom', hinput.trans (hinput₂.trans hinput₁)⟩
      exact inflateBlock_dynamic hrun₁ hrun₂ hrun

end Cromwell.Gzip
