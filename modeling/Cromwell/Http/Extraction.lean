/-
Module: Cromwell.Http.Extraction
Layer: Proofs
Purpose: What `handle_post` makes of a multipart body: a boundary line, header lines, an empty line, the payload, and
  the boundary again. The three scans are followed over the parts of the body; they end at the two ends of the
  payload, for every payload that does not contain the boundary. A header line of nothing but carriage returns
  counts as an empty one, so the others are asked for.
Imports: Cromwell.Http.Run
Trusted boundary: human-reviewed statement (multipartBody, Extracted)
Main exports: multipartBody, Stores, Extracted, multipart_extracted
-/
import Cromwell.Http.Run

namespace Cromwell.Http

open ByteMemory

/-! ### Texts in memory -/

/-- The text stands in memory from an address on. -/
def Stores (m : Mem) : Nat → List UInt8 → Prop
  | _, [] => True
  | a, c :: rest => m (u32 a) = c ∧ Stores m (a + 1) rest

instance Stores.decidable (m : Mem) : (a : Nat) → (l : List UInt8) → Decidable (Stores m a l)
  | _, [] => isTrue trivial
  | a, c :: rest =>
      haveI := Stores.decidable m (a + 1) rest
      inferInstanceAs (Decidable (m (u32 a) = c ∧ Stores m (a + 1) rest))

theorem stores_append (m : Mem) : ∀ (l l' : List UInt8) (a : Nat),
    Stores m a (l ++ l') ↔ Stores m a l ∧ Stores m (a + l.length) l'
  | [], l', a => by simp [Stores]
  | c :: rest, l', a => by
      rw [List.cons_append, Stores, stores_append m rest l', Stores, and_assoc, List.length_cons]
      have hshift : a + 1 + rest.length = a + (rest.length + 1) := by omega
      rw [hshift]

theorem Stores.get {m : Mem} : ∀ {l : List UInt8} {a : Nat}, Stores m a l → ∀ {i : Nat} (hi : i < l.length),
    m (u32 (a + i)) = l[i]
  | c :: rest, a, h, 0, _ => h.1
  | c :: rest, a, h, i + 1, hi => by
      have hshift : a + (i + 1) = a + 1 + i := by omega
      rw [hshift]
      exact h.2.get (Nat.lt_of_succ_lt_succ hi)

theorem Stores.at_eq {m : Mem} {l : List UInt8} {a a' : Nat} (h : Stores m a l) (same : a = a') : Stores m a' l :=
  same ▸ h

theorem Stores.congr {m m' : Mem} : ∀ {l : List UInt8} {a : Nat}, Stores m a l →
    (∀ i < l.length, m' (u32 (a + i)) = m (u32 (a + i))) → Stores m' a l
  | [], _, _, _ => trivial
  | c :: rest, a, h, same => by
      refine ⟨(same 0 (Nat.succ_pos _)).trans h.1, h.2.congr fun i hi => ?_⟩
      have hshift : a + 1 + i = a + (i + 1) := by omega
      rw [hshift]
      exact same (i + 1) (Nat.succ_lt_succ hi)

/-! ### The scans over a text -/

/-- The first scan passes over a text without a line end. -/
theorem findLineEnd_text {m : Mem} {pd : Nat} : ∀ {l : List UInt8} {i : Nat} (r : Nat), Stores m (pd + i) l →
    (∀ c ∈ l, c ≠ 0x0a ∧ c ≠ 0x0d) → findLineEnd m pd (l.length + r) i = findLineEnd m pd r (i + l.length)
  | [], i, r, _, _ => by simp
  | c :: rest, i, r, h, text => by
      have hc := text c List.mem_cons_self
      have hlength : (c :: rest).length + r = (rest.length + r) + 1 := by
        rw [List.length_cons]
        omega
      have hshift : i + (c :: rest).length = i + 1 + rest.length := by
        rw [List.length_cons]
        omega
      rw [hlength, hshift, findLineEnd, h.1, if_neg (not_or.mpr hc)]
      exact findLineEnd_text r h.2 fun c hmem => text c (List.mem_cons_of_mem _ hmem)

/-- The second scan passes over a text without a line feed; the count is cleared by anything that is not a carriage
    return. -/
theorem findBlank_text {m : Mem} {pd : Nat} : ∀ {l : List UInt8} {i : Nat} (r ncnt : Nat), Stores m (pd + i) l →
    0x0a ∉ l → findBlank m pd (l.length + r) i ncnt =
      findBlank m pd r (i + l.length) (if ∀ c ∈ l, c = 0x0d then ncnt else 0)
  | [], i, r, ncnt, _, _ => by simp
  | c :: rest, i, r, ncnt, h, feed => by
      have hc : c ≠ 0x0a := fun heq => feed (heq ▸ List.mem_cons_self)
      have hrest : 0x0a ∉ rest := fun hmem => feed (List.mem_cons_of_mem _ hmem)
      have hnext : Stores m (pd + (i + 1)) rest := h.2
      have hlength : (c :: rest).length + r = (rest.length + r) + 1 := by
        rw [List.length_cons]
        omega
      have hshift : i + (c :: rest).length = i + 1 + rest.length := by
        rw [List.length_cons]
        omega
      rw [hlength, hshift, findBlank, h.1]
      by_cases hcr : c = 0x0d
      · rw [if_pos hcr, findBlank_text r ncnt hnext hrest]
        simp only [List.forall_mem_cons, hcr, true_and]
      · rw [if_neg hcr, if_neg hc, findBlank_text r 0 hnext hrest, ite_self,
          if_neg fun hall => hcr (hall c List.mem_cons_self)]

/-- A line end, with something else before it on the line. -/
theorem findBlank_lineEnd {m : Mem} {pd i r : Nat} (h : Stores m (pd + i) [0x0d, 0x0a]) :
    findBlank m pd (2 + r) i 0 = findBlank m pd r (i + 2) 1 := by
  have hlength : 2 + r = r + 1 + 1 := by omega
  have hfeed : m (u32 (pd + (i + 1))) = 0x0a := h.2.1
  rw [hlength, findBlank, h.1, if_pos rfl, findBlank, hfeed, if_neg (by decide), if_pos rfl, if_neg (by decide)]

/-- An empty line. -/
theorem findBlank_empty {m : Mem} {pd i r : Nat} (h : Stores m (pd + i) [0x0d, 0x0a]) :
    findBlank m pd (2 + r) i 1 = some (i + 1) := by
  have hlength : 2 + r = r + 1 + 1 := by omega
  have hfeed : m (u32 (pd + (i + 1))) = 0x0a := h.2.1
  rw [hlength, findBlank, h.1, if_pos rfl, findBlank, hfeed, if_neg (by decide), if_pos rfl, if_pos rfl]

/-- A line end. -/
def crlf : List UInt8 := [0x0d, 0x0a]

/-- Header lines, each with its line end. -/
def headerLines (headers : List (List UInt8)) : List UInt8 := headers.flatMap fun h => h ++ crlf

/-- A header line: it is not empty for the second scan. -/
def HeaderLine (h : List UInt8) : Prop := 0x0a ∉ h ∧ ∃ c ∈ h, c ≠ 0x0d

instance (h : List UInt8) : Decidable (HeaderLine h) := inferInstanceAs (Decidable (_ ∧ _))

/-- The second scan passes over header lines. -/
theorem findBlank_headers {m : Mem} {pd : Nat} : ∀ {headers : List (List UInt8)} {i : Nat} (r : Nat),
    Stores m (pd + i) (headerLines headers) → (∀ h ∈ headers, HeaderLine h) →
    findBlank m pd ((headerLines headers).length + r) i 1 = findBlank m pd r (i + (headerLines headers).length) 1
  | [], i, r, _, _ => by simp [headerLines]
  | h :: rest, i, r, stored, lines => by
      obtain ⟨hfeed, c, hc, hother⟩ := lines h List.mem_cons_self
      have hsplit : headerLines (h :: rest) = h ++ (crlf ++ headerLines rest) := by
        simp [headerLines]
      rw [hsplit, stores_append, stores_append] at stored
      obtain ⟨hline, hend, hrest⟩ := stored
      have hlength : (headerLines (h :: rest)).length + r = h.length + (2 + ((headerLines rest).length + r)) := by
        simp only [hsplit, List.length_append, crlf, List.length_cons, List.length_nil]
        omega
      have hshift : i + (headerLines (h :: rest)).length = i + h.length + 2 + (headerLines rest).length := by
        simp only [hsplit, List.length_append, crlf, List.length_cons, List.length_nil]
        omega
      have hcount : ¬ ∀ c ∈ h, c = 0x0d := fun hall => hother (hall c hc)
      rw [hlength, hshift, findBlank_text _ 1 hline hfeed, if_neg hcount]
      rw [Nat.add_assoc] at hend
      rw [findBlank_lineEnd hend]
      apply findBlank_headers r
      · have haddress : pd + (i + h.length + 2) = pd + i + h.length + crlf.length := by
          simp only [crlf, List.length_cons, List.length_nil]
          omega
        rw [haddress]
        exact hrest
      · exact fun h hmem => lines h (List.mem_cons_of_mem _ hmem)

/-! ### The body -/

/-- A multipart body: the boundary line, header lines, an empty line, the payload, and the boundary once more, with
    anything behind it. -/
def multipartBody (b : List UInt8) (headers : List (List UInt8)) (p t : List UInt8) : List UInt8 :=
  b ++ (crlf ++ (headerLines headers ++ (crlf ++ (p ++ (crlf ++ (b ++ t))))))

/-- Where the payload begins. -/
def payloadStart (b : List UInt8) (headers : List (List UInt8)) : Nat := b.length + 2 + (headerLines headers).length + 2

theorem multipartBody_length (b : List UInt8) (headers : List (List UInt8)) (p t : List UInt8) :
    (multipartBody b headers p t).length = payloadStart b headers + p.length + 2 + b.length + t.length := by
  simp only [multipartBody, payloadStart, crlf, List.length_append, List.length_cons, List.length_nil]
  omega

/-- The parts behind the first line, each where it stands. -/
structure Parts (m : Mem) (pd : Nat) (b : List UInt8) (headers : List (List UInt8)) (p : List UInt8) : Prop where
  feed : m (u32 (pd + (b.length + 1))) = 0x0a
  lines : Stores m (pd + (b.length + 2)) (headerLines headers)
  empty : Stores m (pd + (b.length + 2 + (headerLines headers).length)) crlf
  payload : Stores m (pd + payloadStart b headers) p
  payloadEnd : Stores m (pd + (payloadStart b headers + p.length)) crlf
  again : Stores m (pd + (payloadStart b headers + p.length + 2)) b

/-- What stands behind the carriage return of the first line. -/
def behindLine (b : List UInt8) (headers : List (List UInt8)) (p t : List UInt8) : List UInt8 :=
  0x0a :: (headerLines headers ++ (crlf ++ (p ++ (crlf ++ (b ++ t)))))

theorem parts_of_stores {m : Mem} {pd : Nat} {b : List UInt8} {headers : List (List UInt8)} {p t : List UInt8}
    (h : Stores m (pd + (b.length + 1)) (behindLine b headers p t)) : Parts m pd b headers p := by
  obtain ⟨hfeed, hrest⟩ := h
  simp only [stores_append, crlf, List.length_cons, List.length_nil] at hrest
  obtain ⟨hheaders, hempty, hp, hpend, hagain, -⟩ := hrest
  exact
    { feed := hfeed
      lines := hheaders.at_eq (by omega)
      empty := hempty.at_eq (by omega)
      payload := hp.at_eq (by unfold payloadStart; omega)
      payloadEnd := hpend.at_eq (by unfold payloadStart; omega)
      again := hagain.at_eq (by unfold payloadStart; omega) }

/-- The first line end is overwritten, and the boundary and everything behind are left. -/
theorem stores_cut {m : Mem} {pd : Nat} {b : List UInt8} {headers : List (List UInt8)} {p t : List UInt8}
    (room : pd + (multipartBody b headers p t).length < 2 ^ 32) (h : Stores m pd (multipartBody b headers p t)) :
    m (u32 (pd + b.length)) = 0x0d ∧ Stores (m.store (u32 (pd + b.length)) 0) pd b ∧
      Parts (m.store (u32 (pd + b.length)) 0) pd b headers p := by
  have hsplit : multipartBody b headers p t = b ++ (0x0d :: behindLine b headers p t) := rfl
  rw [hsplit, stores_append] at h
  rw [hsplit, List.length_append, List.length_cons] at room
  obtain ⟨hb, hcr, hrest⟩ := h
  have hother : ∀ {a : Nat}, a ≠ pd + b.length → a < 2 ^ 32 → (m.store (u32 (pd + b.length)) 0) (u32 a) = m (u32 a) := by
    intro a hne hlt
    refine Mem.store_of_ne fun heq => hne ?_
    simp only [u32] at heq
    omega
  refine ⟨hcr, hb.congr fun i hi => hother (by omega) (by omega), parts_of_stores (t := t) ?_⟩
  exact hrest.congr fun i hi => hother (by omega) (by omega)

section Extraction

variable {m : Mem} {pd : Nat} {b : List UInt8} {headers : List (List UInt8)} {p t : List UInt8}

/-- The first scan ends at the end of the boundary line. -/
theorem findLineEnd_body (boundary : ∀ c ∈ b, c ≠ 0x0a ∧ c ≠ 0x0d) (h : Stores m pd (multipartBody b headers p t)) :
    findLineEnd m pd (multipartBody b headers p t).length 0 = some b.length := by
  have hsplit : multipartBody b headers p t = b ++ (0x0d :: behindLine b headers p t) := rfl
  rw [hsplit] at h ⊢
  rw [stores_append] at h
  obtain ⟨hb, hcr, -⟩ := h
  have hcr' : m (u32 (pd + b.length)) = 0x0d := hcr
  rw [List.length_append, findLineEnd_text (i := 0) _ hb boundary, Nat.zero_add, List.length_cons, findLineEnd, hcr',
    if_pos (Or.inr rfl)]

/-- The second scan ends before the payload. -/
theorem findBlank_body (parts : Parts m pd b headers p) (cut : m (u32 (pd + b.length)) = 0)
    (lines : ∀ h ∈ headers, HeaderLine h) {q r : Nat}
    (hq : q = 1 + (1 + ((headerLines headers).length + (2 + r)))) :
    findBlank m pd q b.length 0 = some (payloadStart b headers - 1) := by
  have hfirst : findBlank m pd q b.length 0 =
      findBlank m pd ((headerLines headers).length + (2 + r)) (b.length + 2) 1 := by
    have hlength : q = ((headerLines headers).length + (2 + r)) + 1 + 1 := by omega
    rw [hlength, findBlank, cut, if_neg (by decide), if_neg (by decide), findBlank, parts.feed, if_neg (by decide),
      if_pos rfl, if_neg (by decide)]
  rw [hfirst, findBlank_headers _ parts.lines lines, findBlank_empty parts.empty]
  unfold payloadStart
  congr 1

/-- The boundary is not met before its second place. -/
theorem not_repeats_before (hb : Stores m pd b) (parts : Parts m pd b headers p) (nonempty : b ≠ [])
    (boundary : ∀ c ∈ b, c ≠ 0x0a ∧ c ≠ 0x0d) (payload : ¬ b <:+: p) {k : Nat} (lo : payloadStart b headers - 1 ≤ k)
    (hi : k < payloadStart b headers + p.length + 2) : ¬ Repeats (view m pd) b.length k := by
  intro hrep
  have hpos : 0 < b.length := List.length_pos_iff.mpr nonempty
  have hbyte : ∀ x (hx : x < b.length), m (u32 (pd + (k + x))) = b[x] := fun x hx => (hrep x hx).trans (hb.get hx)
  -- a byte of the boundary is neither of the two bytes of a line end
  have hnever : ∀ x < b.length, m (u32 (pd + (k + x))) ≠ 0x0a ∧ m (u32 (pd + (k + x))) ≠ 0x0d := by
    intro x hx
    rw [hbyte x hx]
    exact boundary _ (List.getElem_mem hx)
  have hstart : 1 ≤ payloadStart b headers := by
    unfold payloadStart
    omega
  rcases Nat.lt_or_ge k (payloadStart b headers) with hbefore | hin
  · have hk : k = b.length + 2 + (headerLines headers).length + 1 := by
      unfold payloadStart at lo hbefore
      omega
    exact (hnever 0 hpos).1 (by rw [hk]; exact parts.empty.2.1)
  · rcases Nat.lt_or_ge (payloadStart b headers + p.length) (k + b.length) with hover | hfits
    · rcases Nat.lt_or_ge (payloadStart b headers + p.length) k with hlate | hearly
      · have hk : k = payloadStart b headers + p.length + 1 := by omega
        exact (hnever 0 hpos).1 (by rw [hk]; exact parts.payloadEnd.2.1)
      · have hx : payloadStart b headers + p.length - k < b.length := by omega
        have hk : k + (payloadStart b headers + p.length - k) = payloadStart b headers + p.length := by omega
        exact (hnever _ hx).2 (by rw [hk]; exact parts.payloadEnd.1)
    · apply payload
      obtain ⟨d, rfl⟩ := Nat.exists_eq_add_of_le hin
      refine ⟨p.take d, p.drop (d + b.length), ?_⟩
      have hmiddle : (p.drop d).take b.length = b := by
        apply List.ext_getElem
        · rw [List.length_take, List.length_drop]
          omega
        · intro x hx hx'
          rw [List.getElem_take, List.getElem_drop, ← hbyte x hx', ← parts.payload.get (by omega)]
          congr 2
          omega
      have hrest := List.take_append_drop b.length (p.drop d)
      rw [hmiddle, List.drop_drop] at hrest
      rw [List.append_assoc, hrest, List.take_append_drop]

/-- The third scan ends at the second place of the boundary. -/
theorem findBoundary_body (hb : Stores m pd b) (parts : Parts m pd b headers p) (nonempty : b ≠ [])
    (boundary : ∀ c ∈ b, c ≠ 0x0a ∧ c ≠ 0x0d) (payload : ¬ b <:+: p) {n q : Nat}
    (hn : payloadStart b headers - 1 + q = n) (room : payloadStart b headers + p.length + 2 < n) :
    findBoundary m pd b.length q (payloadStart b headers - 1) = some (payloadStart b headers + p.length + 2) := by
  have hagain : Repeats (view m pd) b.length (payloadStart b headers + p.length + 2) := by
    intro x hx
    have haddress : pd + (payloadStart b headers + p.length + 2 + x) = pd + (payloadStart b headers + p.length + 2) + x := by
      omega
    rw [view, haddress, view, parts.again.get hx, hb.get hx]
  have hspec := findBoundary_spec m pd b.length n (payloadStart b headers - 1) q _ hn (Nat.le_refl _)
    fun k hk hki => absurd hki (Nat.not_lt_of_le hk)
  cases hfind : findBoundary m pd b.length q (payloadStart b headers - 1) with
  | none =>
      rw [hfind] at hspec
      exact absurd hagain (hspec _ (by omega) room)
  | some k =>
      rw [hfind] at hspec
      obtain ⟨hlo, -, hrep, hfirst⟩ := hspec
      rcases Nat.lt_trichotomy k (payloadStart b headers + p.length + 2) with hlt | heq | hgt
      · exact absurd hrep (not_repeats_before hb parts nonempty boundary payload hlo hlt)
      · exact congrArg some heq
      · exact absurd hagain (hfirst _ (by omega) hgt)

end Extraction

/-! ### handle_post -/

/-- The payload is taken, if it has the expected size. -/
structure Extracted (files : Nat → Nat) (expected : Nat) (hs : HttpState) (m : Mem) (start : Nat) (p : List UInt8)
    (r : Nat × HttpState × Mem) : Prop where
  returns : r.1 = 1 ↔ p.length = expected
  taken : p.length = expected → r.2.1.biosStart = start ∧ r.2.1.biosLen = p.length
  refused : p.length ≠ expected →
    r.1 = 0 ∧ r.2.1.biosStart = hs.biosStart ∧ r.2.1.file = some ⟨3, 0⟩ ∧ r.2.1.left = files 3
  untouched : Stores r.2.2 start p

/-- The two pointers are right: the difference is the size of the payload. -/
theorem judge_extracts (files : Nat → Nat) (expected : Nat) (hs : HttpState) {m : Mem} {start : Nat} {p : List UInt8}
    (stored : Stores m start p) (short : p.length < 2 ^ 31) :
    Extracted files expected hs m start p
      ((judge files expected start (start + p.length + 2) hs).1, (judge files expected start (start + p.length + 2) hs).2,
        m) := by
  have hend : start + p.length + 2 ≠ 0 := Nat.succ_ne_zero _
  have hlen : (((start + p.length + 2 : Nat) : Int) - 2 - (start : Nat)).bmod (2 ^ 32) = p.length := by
    rw [Int.bmod_eq_of_le (by omega) (by omega)]
    omega
  simp only [judge, hlen, if_neg hend]
  by_cases hsize : p.length = expected
  · have hsame : ¬ (p.length : Int) ≠ expected := not_not.mpr (congrArg Nat.cast hsize)
    rw [if_neg hsame]
    exact ⟨iff_of_true rfl hsize, fun _ => ⟨rfl, rfl⟩, fun h => absurd hsize h, stored⟩
  · have hother : (p.length : Int) ≠ expected := fun h => hsize (Int.ofNat_inj.mp h)
    rw [if_pos hother]
    exact ⟨iff_of_false Nat.zero_ne_one hsize, fun h => absurd h hsize, fun _ => ⟨rfl, rfl, rfl, rfl⟩, stored⟩

/-- For every boundary, header lines, payload and tail: `handle_post` takes exactly the payload when it has the
    expected size, and shows the page for a bad size otherwise; the payload stays as it was received. -/
theorem multipart_extracted (files : Nat → Nat) (expected : Nat) (ans : Answers) (hs : HttpState) (m : Mem)
    (b : List UInt8) (headers : List (List UInt8)) (p t : List UInt8)
    (nonempty : b ≠ []) (boundary : ∀ c ∈ b, c ≠ 0x0a ∧ c ≠ 0x0d) (lines : ∀ h ∈ headers, HeaderLine h)
    (payload : ¬ b <:+: p) (stored : Stores m hs.postdata (multipartBody b headers p t))
    (postlen : hs.postlen = (multipartBody b headers p t).length) (short : (multipartBody b headers p t).length < 2 ^ 31)
    (lo : 0 < hs.postdata) (room : hs.postdata + (multipartBody b headers p t).length < 2 ^ 32) :
    Extracted files expected hs m (hs.postdata + payloadStart b headers) p (handlePost files expected ans hs m) := by
  obtain ⟨-, hb, hparts⟩ := stores_cut room stored
  have hcut : (m.store (u32 (hs.postdata + b.length)) 0) (u32 (hs.postdata + b.length)) = 0 := Mem.store_self _ _ _
  have hline := findLineEnd_body boundary stored
  have hlength := multipartBody_length b headers p t
  generalize multipartBody b headers p t = body at *
  have hstart : b.length + 2 + (headerLines headers).length + 2 = payloadStart b headers := rfl
  have hpos : 0 < b.length := List.length_pos_iff.mpr nonempty
  have hblank := findBlank_body hparts hcut lines (q := body.length - b.length)
    (r := p.length + 2 + b.length + t.length) (by omega)
  have hbound := findBoundary_body hb hparts nonempty boundary payload (n := body.length)
    (q := body.length - (payloadStart b headers - 1)) (by omega) (by omega)
  have htoNat : hs.postlen.toNat = body.length := by
    rw [postlen]
    exact Int.toNat_natCast _
  have hs₅ : (hs.select files 5).postlen.toNat = body.length := htoNat
  have haddress : u32 (hs.postdata + (payloadStart b headers - 1) + 1) = hs.postdata + payloadStart b headers := by
    rw [u32_of_lt (by omega)]
    omega
  have hend : u32 (hs.postdata + (payloadStart b headers + p.length + 2)) =
      hs.postdata + payloadStart b headers + p.length + 2 := by
    rw [u32_of_lt (by omega)]
    omega
  have hnonzero : hs.postdata + payloadStart b headers ≠ 0 := by omega
  have hjudge := judge_extracts files expected (hs.select files 5) hparts.payload (by omega)
  have hpost : handlePost files expected ans hs m =
      ((judge files expected (hs.postdata + payloadStart b headers) (hs.postdata + payloadStart b headers + p.length + 2)
          (hs.select files 5)).1,
        (judge files expected (hs.postdata + payloadStart b headers)
          (hs.postdata + payloadStart b headers + p.length + 2) (hs.select files 5)).2,
        m.store (u32 (hs.postdata + b.length)) 0) := by
    have hpd : (hs.select files 5).postdata = hs.postdata := rfl
    simp only [handlePost, hs₅, hpd, hline, hblank, haddress, if_neg hnonzero, hbound, hend]
  rw [hpost]
  exact ⟨hjudge.returns, hjudge.taken, hjudge.refused, hjudge.untouched⟩

/-- A body in an otherwise zeroed memory, and the connection that has received it. -/
def bodyMem (body : List UInt8) : Mem := fun a => body.getD (a - 0x1000) 0

def bodyState (body : List UInt8) : HttpState :=
  { freshConn.hs with postdata := 0x1000, postlen := body.length }

/-- A payload with a line end and a part of the boundary in it, behind one header line. -/
theorem multipart_extracted_partial :
    Extracted (fun _ => 0) 4 (bodyState (multipartBody [0x2d, 0x2d] [[0x41]] [0x61, 0x0d, 0x0a, 0x2d] [0x2d]))
      (bodyMem (multipartBody [0x2d, 0x2d] [[0x41]] [0x61, 0x0d, 0x0a, 0x2d] [0x2d])) (0x1000 + 9)
      [0x61, 0x0d, 0x0a, 0x2d]
      (handlePost (fun _ => 0) 4 (freshAnswers 0 0)
        (bodyState (multipartBody [0x2d, 0x2d] [[0x41]] [0x61, 0x0d, 0x0a, 0x2d] [0x2d]))
        (bodyMem (multipartBody [0x2d, 0x2d] [[0x41]] [0x61, 0x0d, 0x0a, 0x2d] [0x2d]))) :=
  multipart_extracted (fun _ => 0) 4 (freshAnswers 0 0) _ _ [0x2d, 0x2d] [[0x41]] [0x61, 0x0d, 0x0a, 0x2d] [0x2d]
    (by decide) (by simp) (by decide) (by decide) (by decide) (by decide) (by decide) (by decide) (by decide)

/-- A header line that is a carriage return ends the header, and the payload is taken from there. -/
theorem carriage_return_line_ends_header :
    ¬ ∀ (files : Nat → Nat) (expected : Nat) (ans : Answers) (hs : HttpState) (m : Mem) (b : List UInt8)
      (headers : List (List UInt8)) (p t : List UInt8), b ≠ [] → (∀ c ∈ b, c ≠ 0x0a ∧ c ≠ 0x0d) →
      (∀ h ∈ headers, h ≠ [] ∧ 0x0a ∉ h) → ¬ b <:+: p → Stores m hs.postdata (multipartBody b headers p t) →
      hs.postlen = (multipartBody b headers p t).length → (multipartBody b headers p t).length < 2 ^ 31 →
      0 < hs.postdata → hs.postdata + (multipartBody b headers p t).length < 2 ^ 32 →
      Extracted files expected hs m (hs.postdata + payloadStart b headers) p (handlePost files expected ans hs m) := by
  intro hall
  have hextracted := hall (fun _ => 0) 1 (freshAnswers 0 0) (bodyState (multipartBody [0x2d] [[0x0d]] [0x61] []))
    (bodyMem (multipartBody [0x2d] [[0x0d]] [0x61] [])) [0x2d] [[0x0d]] [0x61] [] (by decide) (by simp) (by decide)
    (by decide) (by decide) (by decide) (by decide) (by decide) (by decide)
  have hcode : (handlePost (fun _ => 0) 1 (freshAnswers 0 0) (bodyState (multipartBody [0x2d] [[0x0d]] [0x61] []))
      (bodyMem (multipartBody [0x2d] [[0x0d]] [0x61] []))).1 = 0 := by
    decide
  have hone := hextracted.returns.mpr rfl
  rw [hcode] at hone
  cases hone

end Cromwell.Http
