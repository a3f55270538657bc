/-
Module: Cromwell.Lib.RetryScan
Layer: Lib
Purpose: A scan over positions that acts on each position that is not yet right and then looks at it again. Positions
  with one key share a bounded number of tries; the counter starts anew when the scan meets another key. The run
  keeps a history of its attempts. Whatever the checks answer, the scan ends and the tries of a key are not exceeded.
Imports: Cromwell.Lib.Settles
Trusted boundary: none
Main exports: RetryScan, RetryScan.run, RetryScan.run_bounds, RetryScan.run_settles, RetryScan.run_rule
-/
import Cromwell.Lib.Settles

open Comp

/-- What a scan does at each position, and which positions share their tries. -/
structure RetryScan (σ : Type) where
  key : Nat → Nat
  /-- Tries of a key. -/
  tries : Nat
  /-- Whether the position needs an attempt. -/
  wrong : Nat → Comp σ Bool
  /-- An attempt with the tries left; false when there is no point in another one. -/
  attempt : Nat → Nat → Nat → Comp σ Bool
  giveUp : Nat → Comp σ Bool
  /-- Passing a position that is right; false when the scan is to stop. -/
  advance : Nat → Comp σ Bool
  abort : Comp σ Unit
  finish : Comp σ Bool

/-- How a scan ends. -/
inductive ScanOutcome where
  | completed
  | stopped
  | failed
  | exhausted (position : Nat)
deriving DecidableEq, Repr

/-- The attempts of a scan in their order, and its end. -/
structure ScanHistory where
  attempts : List Nat
  outcome : ScanOutcome
deriving Repr

namespace ScanHistory

def succeeded (h : ScanHistory) : Bool := h.outcome = .completed

def after (h : ScanHistory) (position : Nat) : ScanHistory := { h with attempts := position :: h.attempts }

@[simp] theorem succeeded_after (h : ScanHistory) (position : Nat) : (h.after position).succeeded = h.succeeded := rfl

end ScanHistory

namespace RetryScan

variable {σ : Type} (c : RetryScan σ)

/-- The scan from a position on, with the positions left, the key attempted last and its tries left. -/
def run (spin : Nat) : Nat → Nat → Nat → Nat → Nat → Comp σ ScanHistory
  | 0, _, _, _, _ => Comp.stuck
  | fuel + 1, i, left, lastKey, tries =>
      if left = 0 then do
        let ok ← c.finish
        pure ⟨[], if ok then .completed else .stopped⟩
      else do
        let wrong ← c.wrong i
        if wrong then
          if lastKey = c.key i then
            if tries - 1 = 0 then do
              let _ ← c.giveUp i
              pure ⟨[], .exhausted i⟩
            else do
              let more ← c.attempt spin (tries - 1) i
              if more then do
                let h ← run spin fuel i left lastKey (tries - 1)
                pure (h.after i)
              else pure ⟨[i], .failed⟩
          else do
            let more ← c.attempt spin c.tries i
            if more then do
              let h ← run spin fuel i left (c.key i) c.tries
              pure (h.after i)
            else pure ⟨[i], .failed⟩
        else do
          let goOn ← c.advance i
          if goOn then run spin fuel (i + 1) (left - 1) lastKey tries
          else do
            c.abort
            pure ⟨[], .stopped⟩

/-- The scan without its history. -/
theorem succeeded_run (spin fuel i left lastKey tries : Nat) :
    ScanHistory.succeeded <$> c.run spin (fuel + 1) i left lastKey tries =
      (if left = 0 then c.finish
      else do
        let wrong ← c.wrong i
        if wrong then
          if lastKey = c.key i then
            if tries - 1 = 0 then do
              let _ ← c.giveUp i
              pure false
            else do
              let more ← c.attempt spin (tries - 1) i
              if more then ScanHistory.succeeded <$> c.run spin fuel i left lastKey (tries - 1) else pure false
          else do
            let more ← c.attempt spin c.tries i
            if more then ScanHistory.succeeded <$> c.run spin fuel i left (c.key i) c.tries else pure false
        else do
          let goOn ← c.advance i
          if goOn then ScanHistory.succeeded <$> c.run spin fuel (i + 1) (left - 1) lastKey tries
          else do
            c.abort
            pure false) := by
  have hmap : ∀ {p : Prop} [Decidable p] (m m' : Comp σ ScanHistory), ScanHistory.succeeded <$> (if p then m else m') =
      if p then ScanHistory.succeeded <$> m else ScanHistory.succeeded <$> m' := fun m m' => apply_ite _ _ _ _
  have hstopped : ScanHistory.succeeded ⟨[], .stopped⟩ = false := rfl
  have hexhausted : ScanHistory.succeeded ⟨[], .exhausted i⟩ = false := rfl
  have hfailed : ScanHistory.succeeded ⟨[i], .failed⟩ = false := rfl
  have hfinish : (do let ok ← c.finish; pure (ScanHistory.succeeded ⟨[], if ok then .completed else .stopped⟩)) =
      c.finish := by
    simp [ScanHistory.succeeded]
  rw [run]
  simp only [hmap, map_bind, map_pure, hfinish, hstopped, hexhausted, hfailed, ScanHistory.succeeded_after]
  simp only [bind_pure_comp]

variable {c}

/-! ### The rule for a scan -/

section Rule

variable {J W : Nat → Nat → Nat → σ → Prop} {A : σ → Prop} {F : ScanOutcome → σ → Prop} {n : Nat}

/-- What the parts of a scan do with an invariant: `J` holds at a position with the key attempted last and its tries
    left, `W` when the position has been found wrong, `F` at the end. -/
structure Keeps (c : RetryScan σ) (n : Nat) (J W : Nat → Nat → Nat → σ → Prop) (A : σ → Prop)
    (F : ScanOutcome → σ → Prop) : Prop where
  wrong : ∀ i k t, i < n →
    Triple (J i k t) (c.wrong i) fun wrong s => if wrong then W i k t s else J (i + 1) k t s
  advance : ∀ i k t, i < n →
    Triple (J (i + 1) k t) (c.advance i) fun goOn s => if goOn then J (i + 1) k t s else A s
  abort : Triple A c.abort fun _ => F .stopped
  again : ∀ spin i k t, i < n → k = c.key i → t - 1 ≠ 0 →
    Triple (W i k t) (c.attempt spin (t - 1) i) fun more s => if more then J i k (t - 1) s else F .failed s
  anew : ∀ spin i k t, i < n → k ≠ c.key i →
    Triple (W i k t) (c.attempt spin c.tries i) fun more s => if more then J i (c.key i) c.tries s else F .failed s
  giveUp : ∀ i k t, i < n → k = c.key i → t - 1 = 0 → Triple (W i k t) (c.giveUp i) fun _ => F (.exhausted i)
  finish : ∀ k t, Triple (J n k t) c.finish fun ok => F (if ok then .completed else .stopped)

/-- The invariant carries the scan to its end. -/
theorem run_rule (keeps : Keeps c n J W A F) (spin fuel : Nat) : ∀ i left k t, i + left = n →
    Triple (J i k t) (c.run spin fuel i left k t) fun h => F h.outcome := by
  induction fuel with
  | zero =>
      intro i left k t _
      exact Triple.stuck
  | succ fuel ih =>
      intro i left k t hn
      unfold run
      refine Triple.ite (fun hleft => ?_) fun hleft => ?_
      · have hi : i = n := by rw [← hn, hleft, Nat.add_zero]
        subst hi
        exact Triple.bind (keeps.finish k t) fun ok => Triple.pure fun s hs => hs
      · have hi : i < n := by omega
        -- after an attempt the same position is looked at again
        have hafter : ∀ (m : Comp σ Bool) (k' t' : Nat),
            Triple (W i k t) m (fun more s => if more then J i k' t' s else F .failed s) →
            Triple (W i k t) (do
              let more ← m
              if more then do
                let h ← c.run spin fuel i left k' t'
                pure (h.after i)
              else pure ⟨[i], .failed⟩) fun h => F h.outcome := by
          intro m k' t' hm
          refine Triple.bind hm fun more => ?_
          cases more with
          | true => exact Triple.bind (ih i left k' t' hn) fun h => Triple.pure fun s hs => hs
          | false => exact Triple.pure fun s hs => hs
        refine Triple.bind (keeps.wrong i k t hi) fun wrong => ?_
        cases wrong with
        | true =>
            rw [if_pos rfl]
            refine Triple.ite (fun hkey => Triple.ite (fun hzero => ?_) fun hmore => ?_) fun hkey => ?_
            · exact Triple.bind (keeps.giveUp i k t hi hkey hzero) fun _ => Triple.pure fun s hs => hs
            · exact hafter _ _ _ (keeps.again spin i k t hi hkey hmore)
            · exact hafter _ _ _ (keeps.anew spin i k t hi hkey)
        | false =>
            refine Triple.bind (keeps.advance i k t hi) fun goOn => ?_
            cases goOn with
            | true => exact ih (i + 1) (left - 1) k t (by omega)
            | false => exact Triple.bind keeps.abort fun _ => Triple.pure fun s hs => hs

end Rule

/-! ### The tries -/

/-- The attempts made for a key. -/
def attemptsFor (c : RetryScan σ) (h : ScanHistory) (k : Nat) : Nat := h.attempts.countP fun j => c.key j = k

/-- The keys come in order. -/
def Ordered (c : RetryScan σ) (n : Nat) : Prop := ∀ i j, i ≤ j → j < n → c.key i ≤ c.key j

/-- The bounds on a history, for a scan that starts at `i` with the key `lastKey` attempted before. -/
structure Bounded (c : RetryScan σ) (n i lastKey tries : Nat) (h : ScanHistory) : Prop where
  ahead : ∀ j ∈ h.attempts, i ≤ j ∧ j < n
  perKey : ∀ k, c.attemptsFor h k ≤ if k = lastKey ∧ k ≤ c.key i then tries - 1 else c.tries
  /-- All tries of a key are made before the scan gives up, counting those before its start. -/
  exhausted : ∀ j, h.outcome = .exhausted j → (i ≤ j ∧ j < n) ∧
    (c.attemptsFor h (c.key j) = c.tries ∨ c.key j = lastKey ∧ c.attemptsFor h (c.key j) = tries - 1)

theorem attemptsFor_after (h : ScanHistory) (i k : Nat) :
    c.attemptsFor (h.after i) k = c.attemptsFor h k + if c.key i = k then 1 else 0 := by
  simp [attemptsFor, ScanHistory.after, List.countP_cons]

/-- A history without an attempt. -/
theorem Bounded.nil {n i lastKey tries : Nat} {o : ScanOutcome} (ho : ∀ j, o ≠ .exhausted j) :
    Bounded c n i lastKey tries ⟨[], o⟩ where
  ahead := fun _ hj => absurd hj List.not_mem_nil
  perKey := fun _ => Nat.zero_le _
  exhausted := fun j hj => absurd hj (ho j)

/-- No key before that of the position is attempted. -/
theorem Bounded.behind {n i lastKey tries k : Nat} {h : ScanHistory} (hb : Bounded c n i lastKey tries h)
    (ordered : c.Ordered n) (hk : k < c.key i) : c.attemptsFor h k = 0 := by
  apply List.countP_eq_zero.mpr
  intro j hj
  have hle := ordered i j (hb.ahead j hj).1 (hb.ahead j hj).2
  have hne : c.key j ≠ k := fun heq => by omega
  simpa using hne

/-- One more attempt for the key attempted last. -/
theorem Bounded.again {n i tries : Nat} {h : ScanHistory} (hb : Bounded c n i (c.key i) (tries - 1) h) (hi : i < n)
    (htries : tries ≤ c.tries) (hmore : tries - 1 ≠ 0) : Bounded c n i (c.key i) tries (h.after i) where
  ahead := by
    intro j hj
    rcases List.mem_cons.mp hj with rfl | hj
    · exact ⟨Nat.le_refl j, hi⟩
    · exact hb.ahead j hj
  perKey := by
    intro k
    have hk := hb.perKey k
    rw [attemptsFor_after]
    by_cases heq : c.key i = k
    · subst heq
      simp only [Nat.le_refl, and_self, if_true] at hk ⊢
      omega
    · have hne : ¬ (k = c.key i ∧ k ≤ c.key i) := fun h => heq h.1.symm
      rw [if_neg hne] at hk ⊢
      rw [if_neg heq]
      exact hk
  exhausted := by
    intro j hj
    obtain ⟨hrange, hcount⟩ := hb.exhausted j hj
    refine ⟨hrange, ?_⟩
    rw [attemptsFor_after]
    have hk := hb.perKey (c.key j)
    by_cases heq : c.key j = c.key i
    · rw [heq] at hk hcount ⊢
      simp only [Nat.le_refl, and_self, if_true, true_and] at hk hcount ⊢
      omega
    · rw [if_neg fun h => heq h.symm]
      rcases hcount with hcount | ⟨hkey, -⟩
      · exact Or.inl hcount
      · exact absurd hkey heq

/-- The first attempt for another key. -/
theorem Bounded.anew {n i lastKey tries : Nat} {h : ScanHistory} (hb : Bounded c n i (c.key i) c.tries h) (hi : i < n)
    (ordered : c.Ordered n) (hpos : 0 < c.tries) (hkey : lastKey ≠ c.key i) :
    Bounded c n i lastKey tries (h.after i) where
  ahead := by
    intro j hj
    rcases List.mem_cons.mp hj with rfl | hj
    · exact ⟨Nat.le_refl j, hi⟩
    · exact hb.ahead j hj
  perKey := by
    intro k
    have hk := hb.perKey k
    rw [attemptsFor_after]
    by_cases heq : c.key i = k
    · subst heq
      have hne : ¬ (c.key i = lastKey ∧ c.key i ≤ c.key i) := fun h => hkey h.1.symm
      rw [if_neg hne]
      simp only [Nat.le_refl, and_self, if_true] at hk ⊢
      omega
    · have hne : ¬ (k = c.key i ∧ k ≤ c.key i) := fun h => heq h.1.symm
      rw [if_neg hne] at hk
      rw [if_neg heq]
      by_cases hlast : k = lastKey ∧ k ≤ c.key i
      · -- the key before is behind, and the scan does not come back to it
        rw [hb.behind ordered (lt_of_le_of_ne hlast.2 (Ne.symm heq))]
        exact Nat.zero_le _
      · rw [if_neg hlast]
        exact hk
  exhausted := by
    intro j hj
    obtain ⟨hrange, hcount⟩ := hb.exhausted j hj
    refine ⟨hrange, Or.inl ?_⟩
    rw [attemptsFor_after]
    have hk := hb.perKey (c.key j)
    by_cases heq : c.key j = c.key i
    · rw [heq] at hk hcount ⊢
      simp only [Nat.le_refl, and_self, if_true, true_and] at hk hcount ⊢
      omega
    · rw [if_neg fun h => heq h.symm]
      rcases hcount with hcount | ⟨hkey', -⟩
      · exact hcount
      · exact absurd hkey' heq

/-- A position is passed. -/
theorem Bounded.advance {n i lastKey tries : Nat} {h : ScanHistory} (hb : Bounded c n (i + 1) lastKey tries h)
    (ordered : c.Ordered n) (htries : tries ≤ c.tries) : Bounded c n i lastKey tries h where
  ahead := fun j hj => ⟨Nat.le_of_succ_le (hb.ahead j hj).1, (hb.ahead j hj).2⟩
  perKey := by
    intro k
    have hk := hb.perKey k
    by_cases hlast : k = lastKey ∧ k ≤ c.key i
    · rw [if_pos hlast]
      by_cases hnext : i + 1 < n
      · have hle : c.key i ≤ c.key (i + 1) := ordered i (i + 1) (Nat.le_succ i) hnext
        rwa [if_pos ⟨hlast.1, le_trans hlast.2 hle⟩] at hk
      · have hnone : c.attemptsFor h k = 0 := by
          apply List.countP_eq_zero.mpr
          intro j hj
          have hrange := hb.ahead j hj
          omega
        rw [hnone]
        exact Nat.zero_le _
    · rw [if_neg hlast]
      split at hk <;> omega
  exhausted := by
    intro j hj
    obtain ⟨hrange, hcount⟩ := hb.exhausted j hj
    exact ⟨⟨Nat.le_of_succ_le hrange.1, hrange.2⟩, hcount⟩

/-- A single attempt, which was the last one. -/
theorem Bounded.failed {n i lastKey tries : Nat} (hi : i < n) (ordered : c.Ordered n) (hpos : 0 < c.tries)
    (htries : tries ≤ c.tries) (hmore : lastKey = c.key i → tries - 1 ≠ 0) :
    Bounded c n i lastKey tries ⟨[i], .failed⟩ := by
  have hnil : ∀ k t, Bounded c n i k t ⟨[], .failed⟩ := fun _ _ => Bounded.nil fun _ => ScanOutcome.noConfusion
  by_cases hkey : lastKey = c.key i
  · subst hkey
    exact (hnil _ _).again hi htries (hmore rfl)
  · exact (hnil _ _).anew hi ordered hpos hkey

/-- Whatever the parts of the scan answer, its history is bounded. -/
theorem run_bounds {n : Nat} (ordered : c.Ordered n) (hpos : 0 < c.tries) (spin fuel : Nat) :
    ∀ i left k t, i + left = n → 0 < t → t ≤ c.tries →
      Triple (fun _ => True) (c.run spin fuel i left k t) fun h _ => Bounded c n i k t h := by
  induction fuel with
  | zero =>
      intro i left k t _ _ _
      exact Triple.stuck
  | succ fuel ih =>
      intro i left k t hn hpos' htries
      have hany : ∀ {α : Type} (m : Comp σ α), Triple (fun _ => True) m fun _ _ => True :=
        fun _ _ _ _ _ _ => trivial
      unfold run
      refine Triple.ite (fun _ => ?_) fun hleft => ?_
      · refine Triple.bind (hany _) fun ok => Triple.pure fun _ _ => Bounded.nil fun j => ?_
        cases ok <;> exact ScanOutcome.noConfusion
      · have hi : i < n := by omega
        refine Triple.bind (hany _) fun wrong => Triple.ite (fun _ => ?_) fun _ => ?_
        · refine Triple.ite (fun hkey => ?_) fun hkey => ?_
          · subst hkey
            refine Triple.ite (fun hzero => ?_) fun hmore => ?_
            · refine Triple.bind (hany _) fun _ => Triple.pure fun _ _ => ⟨?_, fun _ => Nat.zero_le _, ?_⟩
              · exact fun _ hj => absurd hj List.not_mem_nil
              · intro j hj
                cases hj
                exact ⟨⟨Nat.le_refl i, hi⟩, Or.inr ⟨rfl, hzero.symm⟩⟩
            · refine Triple.bind (hany _) fun more => Triple.ite (fun _ => ?_) fun _ => ?_
              · refine Triple.bind (ih i left (c.key i) (t - 1) hn (by omega) (by omega)) fun h => ?_
                exact Triple.pure fun _ hb => hb.again hi htries hmore
              · exact Triple.pure fun _ _ => Bounded.failed hi ordered hpos htries fun _ => hmore
          · refine Triple.bind (hany _) fun more => Triple.ite (fun _ => ?_) fun _ => ?_
            · refine Triple.bind (ih i left (c.key i) c.tries hn hpos (Nat.le_refl _)) fun h => ?_
              exact Triple.pure fun _ hb => hb.anew hi ordered hpos hkey
            · exact Triple.pure fun _ _ => Bounded.failed hi ordered hpos htries fun h => absurd h hkey
        · refine Triple.bind (hany _) fun goOn => Triple.ite (fun _ => ?_) fun _ => ?_
          · refine (ih (i + 1) (left - 1) k t (by omega) hpos' htries).post fun h _ hb => ?_
            exact hb.advance ordered htries
          · exact Triple.bind (hany _) fun _ => Triple.pure fun _ _ => Bounded.nil fun _ => ScanOutcome.noConfusion

/-! ### The end -/

/-- The parts of the scan end, and keep an invariant. -/
structure Responds (c : RetryScan σ) (I : σ → Prop) : Prop where
  wrong : ∀ i s, I s → Settles (fun _ => c.wrong i) s fun _ => I
  attempt : ∀ t i s, I s → Settles (fun spin => c.attempt spin t i) s fun _ => I
  giveUp : ∀ i s, I s → Settles (fun _ => c.giveUp i) s fun _ => I
  advance : ∀ i s, I s → Settles (fun _ => c.advance i) s fun _ => I
  abort : ∀ s, I s → Settles (fun _ => c.abort) s fun _ => I
  finish : ∀ s, I s → Settles (fun _ => c.finish) s fun _ => I

/-- The scan ends. Each round has fewer positions left, or fewer tries for the same position: the tries of a key
    not met yet count as one more than all of them. -/
theorem run_settles {I : σ → Prop} (responds : c.Responds I) : ∀ (measure : Nat) (spin : Nat → Nat)
    (i left k t : Nat) (s : σ), (∀ fuel, fuel ≤ spin fuel) → I s → t ≤ c.tries →
    left * (c.tries + 2) + (if k = c.key i then t else c.tries + 1) ≤ measure →
    Settles (fun fuel => c.run (spin fuel) fuel i left k t) s fun _ => I := by
  intro measure
  induction measure with
  | zero =>
      intro spin i left k t s hspin hs ht hmeasure
      have hleft : left = 0 := by
        by_contra hne
        have := Nat.mul_le_mul_right (c.tries + 2) (Nat.one_le_iff_ne_zero.mpr hne)
        omega
      subst hleft
      apply Settles.succ
      simp only [run, if_true]
      exact (responds.finish s hs).bind fun _ _ hs => Settles.pure hs
  | succ measure ih =>
      intro spin i left k t s hspin hs ht hmeasure
      apply Settles.succ
      simp only [run]
      apply Settles.ite
      · intro _
        exact (responds.finish s hs).bind fun _ _ hs => Settles.pure hs
      · intro hleft
        obtain ⟨left, rfl⟩ := Nat.exists_eq_add_one_of_ne_zero hleft
        have hspin' : ∀ fuel, fuel ≤ spin (fuel + 1) := fun fuel => Nat.le_of_succ_le (hspin (fuel + 1))
        have hafter : ∀ k' t' s, I s → t' ≤ c.tries →
            (left + 1) * (c.tries + 2) + (if k' = c.key i then t' else c.tries + 1) ≤ measure →
            Settles (fun fuel => do
              let more ← c.attempt (spin (fuel + 1)) t' i
              if more then do
                let h ← c.run (spin (fuel + 1)) fuel i (left + 1) k' t'
                pure (h.after i)
              else pure ⟨[i], .failed⟩) s fun _ => I := by
          intro k' t' s hs ht' hm
          refine ((responds.attempt t' i s hs).shift hspin').bind fun more s₁ hs₁ =>
            Settles.ite (fun _ => ?_) fun _ => Settles.pure hs₁
          exact (ih _ i (left + 1) k' t' s₁ hspin' hs₁ ht' hm).bind fun _ _ hs => Settles.pure hs
        refine (responds.wrong i s hs).bind fun wrong s₁ hs₁ => Settles.ite (fun _ => ?_) fun _ => ?_
        · refine Settles.ite (fun hkey => ?_) fun hkey => ?_
          · refine Settles.ite (fun _ => ?_) fun hmore => ?_
            · exact (responds.giveUp i s₁ hs₁).bind fun _ _ hs => Settles.pure hs
            · rw [if_pos hkey] at hmeasure
              exact hafter k (t - 1) s₁ hs₁ (by omega) (by rw [if_pos hkey]; omega)
          · rw [if_neg hkey] at hmeasure
            exact hafter (c.key i) c.tries s₁ hs₁ (Nat.le_refl _) (by rw [if_pos rfl]; omega)
        · refine (responds.advance i s₁ hs₁).bind fun goOn s₂ hs₂ => Settles.ite (fun _ => ?_) fun _ => ?_
          · refine ih _ (i + 1) left k t s₂ hspin' hs₂ ht ?_
            rw [Nat.add_one_mul] at hmeasure
            split <;> split at hmeasure <;> omega
          · exact (responds.abort s₂ hs₂).bind fun _ _ hs => Settles.pure hs

end RetryScan
