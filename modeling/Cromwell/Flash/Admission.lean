/-
Module: Cromwell.Flash.Admission
Layer: Proofs
Purpose: Which reflash requests are handled as requests for their own region. The sanity checks compare a 32-bit sum
  with the length of the chip, and the verify pass reads the flash from its start. Both are right exactly for the
  requests that start at zero, the empty ones, and those that no known chip admits; for these a device that erases
  and programs correctly is done after one round.
Imports: Cromwell.Flash.Detection, Cromwell.Flash.Retries
Trusted boundary: human-reviewed statement (verifyRegion, WorksCorrectly, RightRegion)
Main exports: sanityChecks, bootReflashAndReset_eq, verifyRegion, WorksCorrectly, RightRegion, Honest.works,
  rightRegion_iff
-/
import Cromwell.Flash.Detection
import Cromwell.Flash.Retries

namespace Cromwell.Flash

open Comp
open ByteMemory (u32 sub32)

variable {D : Type}

/-! ### The parts of a request -/

/-- What `BootReflashAndReset` does before it is committed; the return code of a refusal, or `none`. -/
def sanityChecks (bus : FlashBus D) (dwStartOffset dwLength : Nat) : FlashM D (Option Nat) := do
  Comp.modify fun s => { s with pof := { s.pof with
    dwStartOffset := dwStartOffset, dwLengthUsedArea := dwLength } }
  let seen ← bootFlashGetDescriptor bus aknownflashtypesDefault
  let s ← Comp.get
  if seen = false then pure (some 1)
  else if s.pof.fIsBelievedCapableOfWriteAndErase = false then pure (some 2)
  else if s.pof.dwLengthInBytes < u32 (dwStartOffset + dwLength) then pure (some 3)
  else pure none

/-- The request gets past the sanity checks, in the second state. -/
def Admitted (bus : FlashBus D) (dwStartOffset dwLength : Nat) (s s₁ : FlashState D) : Prop :=
  sanityChecks bus dwStartOffset dwLength s = some (none, s₁)

theorem bootReflashAndReset_eq (bus : FlashBus D) (fuel passes : Nat) (pbNewData : Nat → UInt8)
    (dwStartOffset dwLength : Nat) :
    bootReflashAndReset bus fuel passes pbNewData dwStartOffset dwLength = (do
      let refusal ← sanityChecks bus dwStartOffset dwLength
      match refusal with
      | some code => pure (.returned code)
      | none => do
          reflashLoop bus fuel pbNewData dwLength passes
          pure .reset) := by
  unfold bootReflashAndReset sanityChecks
  simp only [bind_assoc]
  congr 1
  funext _
  congr 1
  funext seen
  congr 1
  funext s
  split
  · rfl
  · split
    · rfl
    · split <;> rfl

/-- The comparison of the data with the region: byte `i` with what the flash shows at `dwStartOffset + i`. -/
def verifyRegion (bus : FlashBus D) (pbNewData : Nat → UInt8) (dwStartOffset : Nat) : Nat → Nat → Bool → FlashM D Bool
  | 0, _, fMore => pure fMore
  | remaining + 1, i, fMore => do
      let b ← readByte bus (dwStartOffset + i)
      verifyRegion bus pbNewData dwStartOffset remaining (i + 1) (fMore || pbNewData i != b)

/-! ### What the request is for -/

/-- A device that does what the driver asks for. `Fresh` are the states in which it is handed to the driver, `Ready`
    those after it was detected, with the convention that was found. Its sectors are made of whole 4K blocks. -/
structure WorksCorrectly (bus : FlashBus D) (contents : D → Nat → UInt8) (Fresh : D → Prop) (Ready : Bool → D → Prop)
    (sector : Nat → Nat) : Prop where
  waits : ∀ convention28 d, Ready convention28 d → BusyWaitsEnd bus convention28
  blocks : ∀ a b, block4K a = block4K b → sector a = sector b
  read : ∀ dw conv d, Ready conv d →
    (bus.read dw d).1 = contents d dw ∧ Ready conv (bus.read dw d).2 ∧ contents (bus.read dw d).2 = contents d
  agrees : ∀ callback, bus.callback = some callback → ∀ ee dwPos dwExtent conv d, Ready conv d →
    (callback ee dwPos dwExtent d).1 = true ∧ Ready conv (callback ee dwPos dwExtent d).2 ∧
      contents (callback ee dwPos dwExtent d).2 = contents d
  detected : Triple (fun s => Fresh s.dev) (bootFlashGetDescriptor bus aknownflashtypesDefault)
    fun seen s => seen = true → Ready s.pof.fDetectedUsing28xxxConventions s.dev
  erases : ∀ spin dw tries before, Triple
    (fun s => Ready s.pof.fDetectedUsing28xxxConventions s.dev ∧ contents s.dev = before)
    (eraseAttempt bus spin dw tries)
    fun more s => more = true ∧ Ready s.pof.fDetectedUsing28xxxConventions s.dev ∧
      (∀ a, sector a = sector dw → contents s.dev a = 0xff) ∧
      ∀ a, contents s.dev a = before a ∨ contents s.dev a = 0xff
  programs : ∀ spin dw data before, before dw = 0xff → Triple
    (fun s => Ready s.pof.fDetectedUsing28xxxConventions s.dev ∧ contents s.dev = before)
    (programAttempt bus spin dw data)
    fun more s => more = true ∧ Ready s.pof.fDetectedUsing28xxxConventions s.dev ∧
      contents s.dev = Function.update before dw data

/-- A request is handled as one for its own region: it is admitted only when the region fits the chip, it is verified
    in the region, and a device that works correctly is done after one round, with the data in place. -/
structure RightRegion (dwStartOffset dwLength : Nat) : Prop where
  admits : ∀ (D : Type) (bus : FlashBus D) (s s₁ : FlashState D), Admitted bus dwStartOffset dwLength s s₁ →
    dwStartOffset + dwLength ≤ s₁.pof.dwLengthInBytes
  verifies : ∀ (D : Type) (bus : FlashBus D) (s s₁ : FlashState D), Admitted bus dwStartOffset dwLength s s₁ →
    ∀ pbNewData, verify bus pbNewData dwLength 0 = verifyRegion bus pbNewData dwStartOffset dwLength 0
  ends : ∀ (D : Type) (bus : FlashBus D) (contents : D → Nat → UInt8) (Fresh : D → Prop) (Ready : Bool → D → Prop)
    (sector : Nat → Nat), WorksCorrectly bus contents Fresh Ready sector →
    ∀ s s₁, Fresh s.dev → Admitted bus dwStartOffset dwLength s s₁ → ∀ pbNewData,
      ∃ fuel s', bootReflashAndReset bus fuel 1 pbNewData dwStartOffset dwLength s = some (.reset, s') ∧
        ∀ i < dwLength, contents s'.dev (dwStartOffset + i) = pbNewData i

/-! ### The region stays -/

section RegionStays

variable (bus : FlashBus D) (start len : Nat)

theorem gotSomeResult_region (ba0 ba1 : UInt8) :
    Triple (fun s => Region start len s.pof) (gotSomeResult bus ba0 ba1) fun _ s => Region start len s.pof := by
  refine Triple.get fun r _ => Triple.ite (fun _ => Triple.pure fun _ hs => hs) fun _ => ?_
  exact Triple.bind (readByte_steady bus (Region start len) 1) fun b => Triple.pure fun _ hs => hs

theorem blockLocks_region (offsets : List Nat) :
    Triple (fun s => Region start len s.pof) (blockLocks bus offsets) fun _ s => Region start len s.pof := by
  induction offsets with
  | nil => exact Triple.pure fun _ hs => hs
  | cons n rest ih =>
      refine Triple.bind (Q := fun _ s => Region start len s.pof) (Triple.modify fun _ hs => hs) fun _ => ?_
      refine Triple.bind (readByte_steady bus (Region start len) _) fun b => ?_
      exact Triple.bind ih fun more => Triple.pure fun _ hs => hs

theorem lockReport_region (detected28 : Bool) (dwLengthInBytes : Nat) :
    Triple (fun s => Region start len s.pof) (lockReport bus detected28 dwLengthInBytes)
      fun _ s => Region start len s.pof := by
  refine Triple.ite (fun _ => ?_) fun _ => Triple.pure fun _ hs => hs
  refine Triple.bind (Q := fun _ s => Region start len s.pof) (Triple.modify fun _ hs => hs) fun _ => ?_
  refine Triple.bind (readByte_steady bus (Region start len) 3) fun masterLock => ?_
  refine Triple.bind (Q := fun _ s => Region start len s.pof) (Triple.modify fun _ hs => hs) fun _ => ?_
  refine Triple.bind (blockLocks_region bus start len _) fun locks => ?_
  exact Triple.bind (writeBytes_steady bus (Region start len) _) fun _ => Triple.pure fun _ hs => hs

theorem identify_region (ba0 ba1 : UInt8) :
    Triple (fun s => Region start len s.pof) (identify bus ba0 ba1) fun _ s => Region start len s.pof := by
  have hread := readByte_steady bus (Region start len)
  have hwrites := writeBytes_steady bus (Region start len)
  have hmodify : ∀ dw v, Triple (fun s => Region start len s.pof) (writeByte bus dw v) fun _ s => Region start len s.pof :=
    fun _ _ => Triple.modify fun _ hs => hs
  refine Triple.bind (Q := fun _ s => Region start len s.pof) ?_ fun _ =>
    Triple.bind (gotSomeResult_region bus start len _ _) fun done =>
      Triple.ite (fun _ => Triple.pure fun _ hs => hs) fun _ => ?_
  · refine Triple.bind (hwrites _) fun _ => Triple.bind (hread 0) fun _ => Triple.bind (hmodify _ _) fun _ => ?_
    exact Triple.bind (hread 1) fun _ => Triple.bind (hmodify _ _) fun _ => Triple.modify fun _ hs => hs
  · refine Triple.bind (Q := fun _ s => Region start len s.pof) ?_ fun _ =>
      Triple.bind (gotSomeResult_region bus start len _ _) fun _ => Triple.pure fun _ hs => hs
    refine Triple.bind (hwrites _) fun _ => Triple.bind (hread 0) fun _ => Triple.bind (hread 1) fun _ => ?_
    exact Triple.bind (hmodify _ _) fun _ => Triple.modify fun _ hs => hs

/-- The longest chip of the table. -/
theorem known_length_le : ∀ kft ∈ aknownflashtypesDefault, kft.dwLengthInBytes ≤ 0x200000 := by
  decide

/-- Detection keeps the region, and it finds no chip longer than the longest of the table. -/
theorem bootFlashGetDescriptor_region :
    Triple (fun s => Region start len s.pof) (bootFlashGetDescriptor bus aknownflashtypesDefault)
      fun seen s => Region start len s.pof ∧ (seen = true → s.pof.dwLengthInBytes ≤ 0x200000) := by
  refine Triple.bind (Q := fun _ s => Region start len s.pof) (Triple.modify fun _ hs => hs) fun _ => ?_
  refine Triple.bind (readByte_steady bus (Region start len) 0) fun ba0 => ?_
  refine Triple.bind (readByte_steady bus (Region start len) 1) fun ba1 => ?_
  refine Triple.bind (identify_region bus start len ba0 ba1) fun _ => Triple.get fun r _ => ?_
  split
  case h_1 kft hfind =>
    have hlength : kft.dwLengthInBytes ≤ 0x200000 := known_length_le kft (List.mem_of_find?_eq_some hfind)
    refine Triple.bind (lockReport_region bus start len _ _) fun report => ?_
    refine Triple.bind (Q := fun _ s => Region start len s.pof ∧ s.pof.dwLengthInBytes ≤ 0x200000)
      (Triple.modify fun _ hs => ⟨hs, hlength⟩) fun _ => Triple.pure fun _ hs => ⟨hs.1, fun _ => hs.2⟩
  case h_2 =>
    refine Triple.bind (gotSomeResult_region bus start len _ _) fun unlike => ?_
    refine Triple.bind (Q := fun _ s => Region start len s.pof) (Triple.modify fun _ hs => hs) fun _ =>
      Triple.pure fun _ hs => ⟨hs, fun h => by cases h⟩

end RegionStays

/-- What an admitted request has passed. -/
theorem sanityChecks_admitted (bus : FlashBus D) (start len : Nat) :
    Triple (fun _ => True) (sanityChecks bus start len) fun refusal s => refusal = none →
      Region start len s.pof ∧ u32 (start + len) ≤ s.pof.dwLengthInBytes ∧ s.pof.dwLengthInBytes ≤ 0x200000 := by
  refine Triple.bind (Q := fun _ s => Region start len s.pof) (Triple.modify fun _ _ => ⟨rfl, rfl⟩) fun _ => ?_
  refine Triple.bind (bootFlashGetDescriptor_region bus start len) fun seen => Triple.get_same fun r hr => ?_
  refine Triple.ite (fun _ => Triple.pure fun _ _ h => by cases h) fun hseen => ?_
  refine Triple.ite (fun _ => Triple.pure fun _ _ h => by cases h) fun _ => ?_
  refine Triple.ite (fun _ => Triple.pure fun _ _ h => by cases h) fun hfits => ?_
  refine Triple.pure fun s hs _ => ?_
  subst hs
  exact ⟨hr.1, Nat.le_of_not_lt hfits, hr.2 (Bool.eq_true_of_not_eq_false hseen)⟩

/-- A device that works correctly is ready when the request is admitted. -/
theorem WorksCorrectly.admitted {bus : FlashBus D} {contents : D → Nat → UInt8} {Fresh : D → Prop}
    {Ready : Bool → D → Prop} {sector : Nat → Nat} (works : WorksCorrectly bus contents Fresh Ready sector)
    (start len : Nat) :
    Triple (fun s => Fresh s.dev) (sanityChecks bus start len) fun refusal s => refusal = none →
      Ready s.pof.fDetectedUsing28xxxConventions s.dev := by
  refine Triple.bind (Q := fun _ s => Fresh s.dev) (Triple.modify fun _ hs => hs) fun _ => ?_
  refine Triple.bind works.detected fun seen => Triple.get fun r hr => ?_
  refine Triple.ite (fun _ => Triple.pure fun _ _ h => by cases h) fun hseen => ?_
  refine Triple.ite (fun _ => Triple.pure fun _ _ h => by cases h) fun _ => ?_
  refine Triple.ite (fun _ => Triple.pure fun _ _ h => by cases h) fun hfits => ?_
  exact Triple.pure fun s hs _ => hs (Bool.eq_true_of_not_eq_false hseen)

/-! ### A device that works correctly -/

section Works

variable {bus : FlashBus D} {contents : D → Nat → UInt8} {Fresh : D → Prop} {Ready : Bool → D → Prop}
  {sector : Nat → Nat} {start len : Nat} {pba : Nat → UInt8}

/-- The driver at work on a region of the device, with the contents as they are. -/
structure AtWork (contents : D → Nat → UInt8) (Ready : Bool → D → Prop) (start len : Nat)
    (A : (Nat → UInt8) → Prop) (s : FlashState D) : Prop where
  ready : Ready s.pof.fDetectedUsing28xxxConventions s.dev
  region : Region start len s.pof
  contents : A (contents s.dev)

theorem WorksCorrectly.readByte (works : WorksCorrectly bus contents Fresh Ready sector) {A : (Nat → UInt8) → Prop}
    (dw : Nat) :
    Triple (AtWork contents Ready start len A) (Flash.readByte bus dw)
      fun b s => AtWork contents Ready start len A s ∧ b = contents s.dev dw := by
  intro s hs b s' run
  cases run
  obtain ⟨hvalue, hready, hcontents⟩ := works.read dw _ _ hs.ready
  exact ⟨⟨hready, hs.region, hcontents ▸ hs.contents⟩, hvalue.trans (congrFun hcontents.symm dw)⟩

theorem WorksCorrectly.notify (works : WorksCorrectly bus contents Fresh Ready sector) {A : (Nat → UInt8) → Prop}
    (ee : EnumEvents) (dwPos dwExtent : Nat) :
    Triple (AtWork contents Ready start len A) (Flash.notify bus ee dwPos dwExtent)
      fun goOn s => goOn = true ∧ AtWork contents Ready start len A s := by
  intro s hs goOn s' run
  unfold Flash.notify at run
  cases hcallback : bus.callback with
  | none =>
      rw [hcallback] at run
      cases run
      exact ⟨rfl, hs⟩
  | some callback =>
      rw [hcallback] at run
      cases run
      obtain ⟨htrue, hready, hcontents⟩ := works.agrees callback hcallback ee dwPos dwExtent _ _ hs.ready
      exact ⟨htrue, hready, hs.region, hcontents ▸ hs.contents⟩

theorem atWork_setErrorInfo {A : (Nat → UInt8) → Prop} (text : String) :
    Triple (AtWork contents Ready start len A) (setErrorInfo text) fun _ => AtWork contents Ready start len A :=
  Triple.modify fun _ hs => ⟨hs.ready, hs.region, hs.contents⟩

/-- Progress is accepted. -/
theorem WorksCorrectly.progress (works : WorksCorrectly bus contents Fresh Ready sector) {A : (Nat → UInt8) → Prop}
    (ee : EnumEvents) (dw dwPos dwExtent : Nat) :
    Triple (AtWork contents Ready start len A) (notifyEvery1K bus ee dw dwPos dwExtent)
      fun goOn s => goOn = true ∧ AtWork contents Ready start len A s :=
  Triple.ite (fun _ => works.notify ee dwPos dwExtent) fun _ => Triple.pure fun _ hs => ⟨rfl, hs⟩

/-- The first `i` bytes of the region are erased, and so is the 4K block attempted last. -/
def ErasedUpTo (start len i block : Nat) (array : Nat → UInt8) : Prop :=
  (∀ j < i, array (start + j) = 0xff) ∧ ∀ j < len, block4K (start + j) = block → array (start + j) = 0xff

/-- Erasing the sector of a byte of the region. -/
theorem ErasedUpTo.erase {i block : Nat} {before array : Nat → UInt8} {dw : Nat}
    (h : ErasedUpTo start len i block before) (hsector : ∀ a, block4K a = block4K dw → array a = 0xff)
    (helse : ∀ a, array a = before a ∨ array a = 0xff) : ErasedUpTo start len i (block4K dw) array := by
  refine ⟨fun j hj => ?_, fun j _ hblock => hsector _ hblock⟩
  rcases helse (start + j) with hsame | herased
  · rw [hsame]
    exact h.1 j hj
  · exact herased

/-- On such a device the erase loop meets a byte that is not erased at most once in each 4K block. -/
theorem WorksCorrectly.erase_keeps (works : WorksCorrectly bus contents Fresh Ready sector)
    (fits : ∀ i < len, start + i < 0xfffff000) :
    RetryScan.Keeps (eraseScan bus start) len
      (fun i block _ => AtWork contents Ready start len (ErasedUpTo start len i block))
      (fun i block _ => AtWork contents Ready start len fun array =>
        ErasedUpTo start len i block array ∧ array (start + i) ≠ 0xff)
      (fun _ => False)
      (fun o s => o = .completed ∧ AtWork contents Ready start len (fun array => ∀ i < len, array (start + i) = 0xff) s)
    where
  wrong := by
    intro i k t hi
    have haddress : u32 (start + i) = start + i := Nat.mod_eq_of_lt (by have := fits i hi; omega)
    refine Triple.bind (works.readByte _) fun b => Triple.pure fun s hs => ?_
    rw [haddress] at hs
    obtain ⟨hs, rfl⟩ := hs
    by_cases hb : contents s.dev (start + i) = 0xff
    · rw [if_neg (by simp [hb])]
      refine { hs with contents := ⟨fun j hj => ?_, hs.contents.2⟩ }
      rcases Nat.lt_succ_iff_lt_or_eq.mp hj with hj | rfl
      · exact hs.contents.1 j hj
      · exact hb
    · rw [if_pos (by simp [hb])]
      exact { hs with contents := ⟨hs.contents, hb⟩ }
  advance := by
    intro i k t hi
    refine Triple.get fun r _ => (works.progress _ _ _ _).post fun goOn s hs => ?_
    rw [if_pos hs.1]
    exact hs.2
  abort := fun _ h => h.elim
  again := by
    intro spin i k t hi hk _ s hs
    have haddress : u32 (start + i) = start + i := Nat.mod_eq_of_lt (by have := fits i hi; omega)
    have hblock : block4K (start + i) = k := by
      rw [hk, ← haddress]
      rfl
    exact absurd (hs.contents.1.2 i hi hblock) hs.contents.2
  anew := by
    intro spin i k t hi hk s hs more s' run
    have haddress : u32 (start + i) = start + i := Nat.mod_eq_of_lt (by have := fits i hi; omega)
    have hkey : (eraseScan bus start).key i = block4K (start + i) := congrArg block4K haddress
    have hattempt : eraseAttempt bus spin (start + i) maxEraseRetriesIn4KBlockBeforeFailing s = some (more, s') := by
      rw [← haddress]
      exact run
    obtain ⟨rfl, hready, hsector, helse⟩ :=
      works.erases spin (start + i) _ (contents s.dev) s ⟨hs.ready, rfl⟩ more s' hattempt
    rw [if_pos rfl, hkey]
    refine ⟨hready, eraseAttempt_steady bus (region_steady start len) _ _ _ s hs.region _ s' hattempt, ?_⟩
    exact hs.contents.1.erase (fun a ha => hsector a (works.blocks a _ ha)) helse
  giveUp := by
    intro i k t hi hk _ s hs
    have haddress : u32 (start + i) = start + i := Nat.mod_eq_of_lt (by have := fits i hi; omega)
    have hblock : block4K (start + i) = k := by
      rw [hk, ← haddress]
      rfl
    exact absurd (hs.contents.1.2 i hi hblock) hs.contents.2
  finish := by
    intro k t
    refine (works.notify _ _ _).post fun ok s hs => ?_
    rw [hs.1, if_pos rfl]
    exact ⟨rfl, { hs.2 with contents := hs.2.contents.1 }⟩

/-- The programming has got to byte `i`: the bytes before are in place, those behind are erased, and byte `i` is one or
    the other. The byte attempted last is in place. -/
structure ProgrammedUpTo (start len : Nat) (pba : Nat → UInt8) (i last : Nat) (array : Nat → UInt8) : Prop where
  done : ∀ j < i, array (start + j) = pba j
  left : ∀ j, i < j → j < len → array (start + j) = 0xff
  here : i < len → array (start + i) = 0xff ∨ array (start + i) = pba i
  behind : last ≤ start + i ∨ last = 0xffffffff
  attempted : i < len → last = start + i → array (start + i) = pba i

theorem ProgrammedUpTo.next {i last : Nat} {array : Nat → UInt8} (h : ProgrammedUpTo start len pba i last array)
    (hlast : start + i < 0xfffff000) (hlen : i + 1 < len → start + (i + 1) < 0xfffff000)
    (hi : array (start + i) = pba i) : ProgrammedUpTo start len pba (i + 1) last array where
  done := by
    intro j hj
    rcases Nat.lt_succ_iff_lt_or_eq.mp hj with hj | rfl
    · exact h.done j hj
    · exact hi
  left := fun j hj hlen => h.left j (Nat.lt_of_succ_lt hj) hlen
  here := fun hlen => Or.inl (h.left (i + 1) (Nat.lt_succ_self i) hlen)
  behind := h.behind.imp_left fun hle => Nat.le_succ_of_le hle
  attempted := by
    intro hlt heq
    have hbelow := hlen hlt
    rcases h.behind with hle | htop <;> omega

/-- Programming the byte. -/
theorem ProgrammedUpTo.program {i last : Nat} {array : Nat → UInt8} (h : ProgrammedUpTo start len pba i last array) :
    ProgrammedUpTo start len pba i (start + i) (Function.update array (start + i) (pba i)) where
  done := by
    intro j hj
    rw [Function.update_of_ne (by omega)]
    exact h.done j hj
  left := by
    intro j hj hlen
    rw [Function.update_of_ne (by omega)]
    exact h.left j hj hlen
  here := fun _ => Or.inr (Function.update_self ..)
  behind := Or.inl (Nat.le_refl _)
  attempted := fun _ _ => Function.update_self ..

/-- On such a device each byte is programmed at most once. -/
theorem WorksCorrectly.program_keeps (works : WorksCorrectly bus contents Fresh Ready sector)
    (fits : ∀ i < len, start + i < 0xfffff000) :
    RetryScan.Keeps (programScan bus pba start) len
      (fun i last _ => AtWork contents Ready start len (ProgrammedUpTo start len pba i last))
      (fun i last _ => AtWork contents Ready start len fun array =>
        ProgrammedUpTo start len pba i last array ∧ array (start + i) ≠ pba i)
      (fun _ => False)
      (fun o s => o = .completed ∧ AtWork contents Ready start len (fun array => ∀ i < len, array (start + i) = pba i) s)
    where
  wrong := by
    intro i k t hi
    have haddress : u32 (start + i) = start + i := Nat.mod_eq_of_lt (by have := fits i hi; omega)
    have hsource : u32 i = i := Nat.mod_eq_of_lt (by have := fits i hi; omega)
    refine Triple.bind (works.readByte _) fun b => Triple.pure fun s hs => ?_
    rw [haddress] at hs
    rw [hsource]
    obtain ⟨hs, rfl⟩ := hs
    by_cases hb : contents s.dev (start + i) = pba i
    · rw [if_neg (by simp [hb])]
      exact { hs with contents := hs.contents.next (fits i hi) (fits (i + 1)) hb }
    · rw [if_pos (by simp [hb])]
      exact { hs with contents := ⟨hs.contents, hb⟩ }
  advance := by
    intro i k t hi
    refine Triple.get fun r _ => (works.progress _ _ _ _).post fun goOn s hs => ?_
    rw [if_pos hs.1]
    exact hs.2
  abort := fun _ h => h.elim
  again := by
    intro spin i k t hi hk _ s hs
    have haddress : u32 (start + i) = start + i := Nat.mod_eq_of_lt (by have := fits i hi; omega)
    exact absurd (hs.contents.1.attempted hi (hk.trans haddress)) hs.contents.2
  anew := by
    intro spin i k t hi hk s hs more s' run
    have haddress : u32 (start + i) = start + i := Nat.mod_eq_of_lt (by have := fits i hi; omega)
    have hsource : u32 i = i := Nat.mod_eq_of_lt (by have := fits i hi; omega)
    have hattempt : programAttempt bus spin (start + i) (pba i) s = some (more, s') := by
      rw [← haddress]
      nth_rewrite 2 [← hsource]
      exact run
    have herased : contents s.dev (start + i) = 0xff := (hs.contents.1.here hi).resolve_right hs.contents.2
    obtain ⟨rfl, hready, hcontents⟩ :=
      works.programs spin (start + i) (pba i) (contents s.dev) herased s ⟨hs.ready, rfl⟩ more s' hattempt
    have hkey : (programScan bus pba start).key i = start + i := haddress
    rw [if_pos rfl, hkey]
    refine ⟨hready, programAttempt_steady bus (region_steady start len) _ _ _ s hs.region _ s' hattempt, ?_⟩
    rw [hcontents]
    exact hs.contents.1.program
  giveUp := by
    intro i k t hi hk _ s hs
    have haddress : u32 (start + i) = start + i := Nat.mod_eq_of_lt (by have := fits i hi; omega)
    exact absurd (hs.contents.1.attempted hi (hk.trans haddress)) hs.contents.2
  finish := fun _ _ => Triple.pure fun s hs => ⟨rfl, { hs with contents := hs.contents.done }⟩

theorem WorksCorrectly.erase (works : WorksCorrectly bus contents Fresh Ready sector)
    (fits : ∀ i < len, start + i < 0xfffff000) (offset : start < 2 ^ 32) (fuel : Nat) :
    Triple (AtWork contents Ready start len fun _ => True) (bootFlashEraseMinimalRegion bus fuel)
      fun ok s => ok = true ∧ AtWork contents Ready start len (fun array => ∀ i < len, array (start + i) = 0xff) s := by
  have hhistory : Triple (AtWork contents Ready start len fun _ => True) (eraseHistory bus fuel) fun h s =>
      h.outcome = .completed ∧ AtWork contents Ready start len (fun array => ∀ i < len, array (start + i) = 0xff) s := by
    refine Triple.bind (atWork_setErrorInfo _) fun _ => Triple.bind (works.notify _ _ _) fun goOn =>
      Triple.ite (fun _ => Triple.get fun r hr => ?_) fun hstop => ?_
    · rw [hr.2.region.1, hr.2.region.2]
      refine (RetryScan.run_rule (works.erase_keeps fits) fuel fuel 0 len _ _ (Nat.zero_add len)).weaken (fun s hs => ?_)
        fun _ _ h => h
      refine { hs.2 with contents := ⟨fun _ hj => absurd hj (Nat.not_lt_zero _), fun j hj hblock => ?_⟩ }
      have hbelow := fits j hj
      rw [block4K] at hblock
      omega
    · intro s hs
      exact absurd hs.1 hstop
  intro s hs ok s' run
  obtain ⟨h, hrun, rfl⟩ := run_of_history (bootFlashEraseMinimalRegion_eq bus fuel (hs.region.1 ▸ offset)) run
  obtain ⟨hcompleted, hafter⟩ := hhistory s hs h s' hrun
  exact ⟨decide_eq_true hcompleted, hafter⟩

theorem WorksCorrectly.program (works : WorksCorrectly bus contents Fresh Ready sector)
    (fits : ∀ i < len, start + i < 0xfffff000) (offset : start < 2 ^ 32) (fuel : Nat) :
    Triple (AtWork contents Ready start len fun array => ∀ i < len, array (start + i) = 0xff)
      (bootFlashProgram bus fuel pba)
      fun ok s => ok = true ∧ AtWork contents Ready start len (fun array => ∀ i < len, array (start + i) = pba i) s := by
  have hhistory : Triple (AtWork contents Ready start len fun array => ∀ i < len, array (start + i) = 0xff)
      (programHistory bus fuel pba) fun h s => h.outcome = .completed ∧
        AtWork contents Ready start len (fun array => ∀ i < len, array (start + i) = pba i) s := by
    refine Triple.bind (atWork_setErrorInfo _) fun _ => Triple.bind (works.notify _ _ _) fun goOn =>
      Triple.ite (fun _ => Triple.get fun r hr => ?_) fun hstop => ?_
    · rw [hr.2.region.1, hr.2.region.2]
      refine (RetryScan.run_rule (works.program_keeps fits) fuel fuel 0 len _ _ (Nat.zero_add len)).weaken
        (fun s hs => ?_) fun _ _ h => h
      refine { hs.2 with contents := ⟨fun _ hj => absurd hj (Nat.not_lt_zero _), fun j _ hj => hs.2.contents j hj,
        fun hlen => Or.inl (hs.2.contents 0 hlen), Or.inr rfl, fun hlen htop => ?_⟩ }
      have hbelow := fits 0 hlen
      omega
    · intro s hs
      exact absurd hs.1 hstop
  intro s hs ok s' run
  obtain ⟨h, hrun, rfl⟩ := run_of_history (bootFlashProgram_eq bus fuel pba (hs.region.1 ▸ offset)) run
  obtain ⟨hcompleted, hafter⟩ := hhistory s hs h s' hrun
  exact ⟨decide_eq_true hcompleted, hafter⟩

theorem verify_total (bus : FlashBus D) (pba : Nat → UInt8) (remaining address : Nat) (fMore : Bool) :
    Total (verify bus pba remaining address fMore) := by
  induction remaining generalizing address fMore with
  | zero => exact Total.pure
  | succ remaining ih => exact (readByte_total bus address).bind fun b => ih _ _

/-- The verify pass finds nothing when the region begins where it reads. -/
theorem WorksCorrectly.verify (works : WorksCorrectly bus contents Fresh Ready sector) (aligned : start = 0 ∨ len = 0)
    (remaining : Nat) : ∀ address, address + remaining ≤ len →
      Triple (AtWork contents Ready start len fun array => ∀ i < len, array (start + i) = pba i)
        (Flash.verify bus pba remaining address false) fun fMore s => fMore = false ∧
          AtWork contents Ready start len (fun array => ∀ i < len, array (start + i) = pba i) s := by
  induction remaining with
  | zero => exact fun address _ => Triple.pure fun s hs => ⟨rfl, hs⟩
  | succ remaining ih =>
      intro address hlen
      refine Triple.bind (works.readByte address) fun b s hs => ?_
      have hstart : start = 0 := aligned.resolve_right (by omega)
      have hsame : b = pba address := by
        rw [hs.2, ← hs.1.contents address (by omega), hstart, Nat.zero_add]
      rw [hsame, bne_self_eq_false, Bool.or_self]
      exact ih (address + 1) (by omega) s hs.1

/-- One round of the retry loop is enough. -/
theorem WorksCorrectly.reflash (works : WorksCorrectly bus contents Fresh Ready sector) (aligned : start = 0 ∨ len = 0)
    (fits : ∀ i < len, start + i < 0xfffff000) (offset : start < 2 ^ 32) {s : FlashState D}
    (hs : AtWork contents Ready start len (fun _ => True) s) :
    Settles (fun fuel => reflashLoop bus fuel pba len 1) s fun _ s' =>
      ∀ i < len, contents s'.dev (start + i) = pba i := by
  have herase := (bootFlashEraseMinimalRegion_settles (works.waits _ _ hs.ready) (hs.region.1.symm ▸ offset)).triple
    (works.erase fits offset) hs
  have hpass : Settles (fun fuel => reflashPass bus fuel pba len) s fun fMore s' => fMore = false ∧
      AtWork contents Ready start len (fun array => ∀ i < len, array (start + i) = pba i) s' := by
    refine Settles.bind (Q := fun fMore s' => fMore = false ∧
      AtWork contents Ready start len (fun array => ∀ i < len, array (start + i) = pba i) s') ?_ fun fMore s₁ hs₁ => ?_
    · refine herase.bind fun erased s₁ hs₁ => ?_
      obtain ⟨-, rfl, hs₁⟩ := hs₁
      have hprogram := (bootFlashProgram_settles (works.waits _ _ hs₁.ready) pba (hs₁.region.1.symm ▸ offset)).triple
        (works.program fits offset) hs₁
      refine Settles.ite (fun _ => hprogram.bind fun programmed s₂ hs₂ => ?_) fun h => absurd rfl h
      obtain ⟨-, rfl, hs₂⟩ := hs₂
      exact Settles.pure ⟨rfl, hs₂⟩
    · obtain ⟨rfl, hs₁⟩ := hs₁
      exact ((Settles.of_total (verify_total bus pba len 0 false)).triple
        (fun _ => works.verify aligned len 0 (by omega)) hs₁).post fun _ _ h => h.2
  refine hpass.bind fun fMore s₁ hs₁ => ?_
  obtain ⟨rfl, hs₁⟩ := hs₁
  exact Settles.pure hs₁.contents

end Works

/-! ### A chip that works correctly -/

/-- A chip that executes what it is told: an erase reaches the whole sector, and programming clears bits. -/
def honestBus (β : NorBehaviour) : FlashBus NorChip :=
  { norBus β with
    write := fun a v c =>
      NorChip.write { β with programmed := fun _ => c.array a &&& v, erased := fun _ _ => true } a v c }

/-- A 29xxx chip with sectors of whole 4K blocks. -/
structure Honest (β : NorBehaviour) : Prop where
  uses29 : β.uses28 = false
  blocks : ∀ a b, block4K a = block4K b → β.sector a = β.sector b
  status : ∀ poll, β.status poll = 0x80

theorem readByte_array {β : NorBehaviour} {s : FlashState NorChip} (mode : s.dev.mode = .array) (dw : Nat) :
    readByte (norBus β) dw s = some (s.dev.array dw, s) := by
  simp only [readByte, norBus, NorChip.read, mode]

section Honest

variable {β : NorBehaviour} (honest : Honest β)

theorem toggleWait_honest (dw fuel : Nat) : ∀ b n,
    toggleWait (honestBus β) dw fuel b n = toggleWait (norBus β) dw fuel b n := by
  induction fuel with
  | zero => exact fun _ _ => rfl
  | succ fuel ih =>
      intro b n
      rw [toggleWait, toggleWait]
      simp only [ih]
      rfl

/-- There are two values of the bit. -/
theorem other_bit (value b : UInt8) (differs : value &&& 0x40 ≠ b &&& 0x40) :
    value &&& 0x40 = (b ^^^ 0x40) &&& 0x40 := by
  have htwo : ∀ x : UInt8, x &&& 0x40 = 0 ∨ x &&& 0x40 = 0x40 := by decide +kernel
  have hflip : ∀ x : UInt8, (x ^^^ 0x40) &&& 0x40 = (x &&& 0x40) ^^^ 0x40 := by decide +kernel
  rw [hflip]
  rcases htwo value with hv | hv <;> rcases htwo b with hb | hb <;> rw [hv, hb] at differs ⊢ <;>
    first | rfl | exact absurd rfl differs

include honest

/-- A chip that is not busy shows the same value again. -/
theorem Honest.read_again (dw : Nat) (c : NorChip) (idle : ∀ reads, c.mode ≠ .busy reads) :
    (NorChip.read β dw (NorChip.read β dw c).2).1 = (NorChip.read β dw c).1 := by
  obtain ⟨mode, array, commands, polls⟩ := c
  cases mode with
  | busy reads => exact absurd rfl (idle reads)
  | _ => simp [NorChip.read, honest.status]

theorem Honest.idle_ends (dw : Nat) (b : UInt8) (n : Nat) (s : FlashState NorChip)
    (idle : ∀ reads, s.dev.mode ≠ .busy reads) : ∃ fuel, toggleWait (norBus β) dw fuel b n s ≠ none := by
  have hread : readByte (norBus β) dw s = some ((NorChip.read β dw s.dev).1, ⟨s.pof, (NorChip.read β dw s.dev).2⟩) := rfl
  have hagain := honest.read_again dw s.dev idle
  generalize (NorChip.read β dw s.dev).1 = value at hread hagain
  generalize (NorChip.read β dw s.dev).2 = c at hread hagain
  have hread' : readByte (norBus β) dw ⟨s.pof, c⟩ = some (value, ⟨s.pof, (NorChip.read β dw c).2⟩) := by
    rw [← hagain]
    rfl
  by_cases hbit : value &&& 0x40 ≠ b &&& 0x40
  · have hflip : ¬ value &&& 0x40 ≠ (b ^^^ 0x40) &&& 0x40 := not_not.mpr (other_bit value b hbit)
    refine ⟨2, ?_⟩
    rw [toggleWait, bind_run hread, if_pos hbit, toggleWait, bind_run hread', if_neg hflip]
    exact Option.some_ne_none _
  · refine ⟨1, ?_⟩
    rw [toggleWait, bind_run hread, if_neg hbit]
    exact Option.some_ne_none _

/-- Whatever the chip is doing, it stops toggling: each read of a busy chip leaves fewer of them. -/
theorem Honest.toggle_ends (dw : Nat) (reads : Nat) : ∀ (b : UInt8) (n : Nat) (s : FlashState NorChip),
    (∀ k, s.dev.mode = .busy k → k < reads) → ∃ fuel, toggleWait (norBus β) dw fuel b n s ≠ none := by
  induction reads with
  | zero =>
      intro b n s hmode
      exact honest.idle_ends dw b n s fun k hk => Nat.not_lt_zero k (hmode k hk)
  | succ reads ih =>
      intro b n s hmode
      by_cases hbusy : ∃ k, s.dev.mode = .busy k
      · obtain ⟨k, hk⟩ := hbusy
        have hlt := hmode k hk
        have hread : readByte (norBus β) dw s =
            some ((NorChip.read β dw s.dev).1, ⟨s.pof, (NorChip.read β dw s.dev).2⟩) := rfl
        have hfewer : ∀ k', (NorChip.read β dw s.dev).2.mode = .busy k' → k' < reads := by
          intro k' hk'
          simp only [NorChip.read, hk] at hk'
          split at hk'
          · cases hk'
          · cases hk'
            omega
        by_cases hbit : (NorChip.read β dw s.dev).1 &&& 0x40 ≠ b &&& 0x40
        · obtain ⟨fuel, hrun⟩ := ih (b ^^^ 0x40) (u32 (n + 1)) ⟨s.pof, (NorChip.read β dw s.dev).2⟩ hfewer
          refine ⟨fuel + 1, ?_⟩
          rw [toggleWait, bind_run hread, if_pos hbit]
          exact hrun
        · refine ⟨1, ?_⟩
          rw [toggleWait, bind_run hread, if_neg hbit]
          exact Option.some_ne_none _
      · exact honest.idle_ends dw b n s fun k hk => hbusy ⟨k, hk⟩

theorem Honest.waits : BusyWaitsEnd (honestBus β) false where
  erase28 := fun h => by cases h
  program28 := fun h => by cases h
  toggle := by
    intro _ dw command s
    obtain ⟨⟨_, s₁⟩, hwrites⟩ := Option.ne_none_iff_exists'.mp (writeBytes_total (honestBus β) command s)
    obtain ⟨⟨b, s₂⟩, hread⟩ := Option.ne_none_iff_exists'.mp (readByte_total (honestBus β) dw s₁)
    obtain ⟨reads, hreads⟩ : ∃ reads, ∀ k, s₂.dev.mode = .busy k → k < reads := by
      cases hmode : s₂.dev.mode with
      | busy k => exact ⟨k + 1, fun k' hk' => by cases hk'; exact Nat.lt_succ_self k⟩
      | _ => exact ⟨0, fun k' hk' => by cases hk'⟩
    obtain ⟨fuel, hrun⟩ := honest.toggle_ends dw reads b 0 s₂ hreads
    refine ⟨fuel, ?_⟩
    rw [eraseCommand29, bind_run hwrites, bind_run hread, toggleWait_honest]
    exact hrun

omit honest in
/-- The chip after a list of writes, and the end of its work. -/
theorem honest_command {A A' : (Nat → UInt8) → Prop} {start len : Nat} (fuel dw : Nat) (command : List (Nat × UInt8))
    (step : ∀ c : NorChip, c.mode = .array → A c.array →
      Working ((command.foldl (fun c w => (honestBus β).write w.1 w.2 c) c).mode) ∧
        A' (command.foldl (fun c w => (honestBus β).write w.1 w.2 c) c).array) :
    Triple (InArray β start len A) (eraseCommand29 (honestBus β) fuel dw command) fun _ => InArray β start len A' := by
  have hwrites : ∀ (l : List (Nat × UInt8)) (s : FlashState NorChip), writeBytes (honestBus β) l s =
      some ((), { s with dev := l.foldl (fun c w => (honestBus β).write w.1 w.2 c) s.dev }) := by
    intro l
    induction l with
    | nil => exact fun _ => rfl
    | cons w rest ih => exact fun s => ih { s with dev := (honestBus β).write w.1 w.2 s.dev }
  intro s hs n s' run
  obtain ⟨_, s₁, hfirst, run⟩ := bind_eq_some run
  rw [hwrites] at hfirst
  cases hfirst
  obtain ⟨hmode, hcontents⟩ := step s.dev hs.mode hs.contents
  obtain ⟨b, s₂, hread, run⟩ := bind_eq_some run
  rw [toggleWait_honest] at run
  have hs₁ : Standing β start len Working A'
      { s with dev := command.foldl (fun c w => (honestBus β).write w.1 w.2 c) s.dev } :=
    ⟨hmode, hs.convention, hs.startOffset, hs.usedArea, hcontents⟩
  exact toggleWait_spec dw fuel b 0 s₂ (readByte_toggling dw _ hs₁ b s₂ hread) n s' run

/-- An erase command sets the bytes of its range, which for a sector erase is the whole sector. -/
theorem Honest.erase_writes (dw : Nat) (v : UInt8) (command : v = 0x30 ∨ v = 0x50 ∨ dw = 0x5555 ∧ v = 0x10)
    (c : NorChip) (mode : c.mode = .array) :
    let c' := (eraseUnlock ++ [(dw, v)]).foldl (fun c w => (honestBus β).write w.1 w.2 c) c
    Working c'.mode ∧ ∃ within : Nat → Bool, c'.array = (fun x => if within x then 0xff else c.array x) ∧
      (v ≠ 0x10 → ∀ x, β.sector x = β.sector dw → within x = true) := by
  have hlast : ∀ c₅ : NorChip, c₅.mode = .eraseUnlocked2 → c₅.array = c.array →
      let c' := (honestBus β).write dw v c₅
      Working c'.mode ∧ ∃ within : Nat → Bool, c'.array = (fun x => if within x then 0xff else c.array x) ∧
        (v ≠ 0x10 → ∀ x, β.sector x = β.sector dw → within x = true) := by
    intro c₅ hmode harray
    simp only [honestBus, NorChip.write, honest.uses29, NorChip.write29, hmode]
    rcases command with h | h | ⟨ha, hv⟩
    · rw [if_neg Bool.false_ne_true, if_pos (Or.inl h)]
      refine ⟨executing_working _, fun x => β.sector x == β.sector dw, ?_, fun _ x hx => beq_iff_eq.mpr hx⟩
      simp only [NorChip.erase, harray, Bool.and_true]
    · rw [if_neg Bool.false_ne_true, if_pos (Or.inr h)]
      refine ⟨executing_working _, fun x => β.sector x == β.sector dw, ?_, fun _ x hx => beq_iff_eq.mpr hx⟩
      simp only [NorChip.erase, harray, Bool.and_true]
    · rw [if_neg Bool.false_ne_true, if_neg (by rw [hv]; decide), if_pos ⟨ha, hv⟩]
      refine ⟨executing_working _, fun x => decide (x < β.length), ?_, fun h => absurd hv h⟩
      simp only [NorChip.erase, harray, Bool.and_true]
  simp only [eraseUnlock, List.cons_append, List.nil_append, List.foldl_cons, List.foldl_nil]
  apply hlast
  · simp [honestBus, NorChip.write, honest.uses29, NorChip.write29, mode]
  · simp [honestBus, NorChip.write, honest.uses29, NorChip.write29, mode]

theorem Honest.reset_writes (c : NorChip) (mode : c.mode = .array) :
    let c' := resetUnlock.foldl (fun c w => (honestBus β).write w.1 w.2 c) c
    c'.mode = .array ∧ c'.array = c.array := by
  simp [resetUnlock, honestBus, NorChip.write, honest.uses29, NorChip.write29, mode]

/-- The sector of `dw` is erased, and no byte got another value. -/
def SectorErased (β : NorBehaviour) (dw : Nat) (before array : Nat → UInt8) : Prop :=
  (∀ a, β.sector a = β.sector dw → array a = 0xff) ∧ ∀ a, array a = before a ∨ array a = 0xff

omit honest in
/-- More erasing does not undo it. -/
theorem SectorErased.more {dw : Nat} {before array : Nat → UInt8} (h : SectorErased β dw before array)
    (within : Nat → Bool) : SectorErased β dw before fun x => if within x then 0xff else array x := by
  constructor
  · intro a ha
    dsimp only
    rw [h.1 a ha, ite_self]
  · intro a
    dsimp only
    cases within a with
    | true => exact Or.inr rfl
    | false => exact h.2 a

/-- Another command after the reset sequence. -/
theorem Honest.again {dw : Nat} {before : Nat → UInt8} {start len : Nat} (fuel a : Nat) (v : UInt8)
    (command : v = 0x30 ∨ v = 0x50 ∨ a = 0x5555 ∧ v = 0x10) :
    Triple (InArray β start len (SectorErased β dw before))
      (eraseCommand29 (honestBus β) fuel dw (resetUnlock ++ eraseUnlock ++ [(a, v)]))
      fun _ => InArray β start len (SectorErased β dw before) := by
  apply honest_command
  intro c hmode hcontents
  rw [List.append_assoc, List.foldl_append]
  obtain ⟨hreset, hsame⟩ := honest.reset_writes c hmode
  obtain ⟨hworking, within, harray, -⟩ := honest.erase_writes a v command _ hreset
  refine ⟨hworking, ?_⟩
  rw [harray, hsame]
  exact hcontents.more within

theorem Honest.eraseAttempt29 {start len : Nat} (spin dw tries : Nat) (before : Nat → UInt8) :
    Triple (InArray β start len (· = before)) (Flash.eraseAttempt29 (honestBus β) spin dw tries)
      fun _ => InArray β start len (SectorErased β dw before) := by
  have hfirst : Triple (InArray β start len (· = before))
      (eraseCommand29 (honestBus β) spin dw (eraseUnlock ++ [(dw, 0x50)]))
      fun _ => InArray β start len (SectorErased β dw before) := by
    apply honest_command
    intro c hmode hcontents
    obtain ⟨hworking, within, harray, hsector⟩ := honest.erase_writes dw 0x50 (Or.inr (Or.inl rfl)) c hmode
    refine ⟨hworking, ?_⟩
    rw [harray, hcontents]
    constructor
    · intro a ha
      exact if_pos (hsector (by decide) a ha)
    · intro a
      dsimp only
      cases within a with
      | true => exact Or.inr rfl
      | false => exact Or.inl rfl
  refine Triple.bind hfirst fun n => ?_
  refine Triple.bind (Q := fun _ => InArray β start len (SectorErased β dw before))
    (Triple.ite (fun _ => ?_) fun _ => ?_) fun n' => ?_
  · exact honest.again spin dw 0x30 (Or.inl rfl)
  · exact Triple.pure fun _ h => h
  · refine Triple.get fun s _ => Triple.ite (fun _ => ?_) fun _ => Triple.pure fun _ h => h
    exact Triple.bind (honest.again spin 0x5555 0x10 (Or.inr (Or.inr ⟨rfl, rfl⟩))) fun _ => Triple.pure fun _ h => h

/-- An erased byte takes the value that it is given. -/
theorem Honest.programAttempt29 {start len : Nat} (spin dw : Nat) (data : UInt8) (before : Nat → UInt8)
    (erased : before dw = 0xff) :
    Triple (InArray β start len (· = before)) (Flash.programAttempt29 (honestBus β) spin dw data)
      fun _ => InArray β start len (· = Function.update before dw data) := by
  have hbits : ∀ x : UInt8, 0xff &&& x = x := by decide +kernel
  have hcommand : Triple (InArray β start len (· = before))
      (eraseCommand29 (honestBus β) spin dw [(0x5555, 0xaa), (0x2aaa, 0x55), (0x5555, 0xa0), (dw, data)])
      fun _ => InArray β start len (· = Function.update before dw data) := by
    apply honest_command
    intro c hmode hcontents
    simp only [List.foldl_cons, List.foldl_nil, honestBus, NorChip.write, honest.uses29, Bool.false_eq_true, if_false]
    simp only [NorChip.write29, hmode, and_self, if_true, NorChip.program, hcontents, erased, hbits]
    refine ⟨executing_working _, ?_⟩
    funext x
    rw [Function.update_apply]
  rw [programAttempt29_eq]
  exact Triple.bind hcommand fun _ => Triple.pure fun _ h => h

/-- Detection sees the chip through the second try, and leaves it as it is. -/
theorem Honest.identify (pof : ObjectFlash) (c : NorChip) (mode : c.mode = .array) :
    Flash.identify (honestBus β) (c.array 0) (c.array 1) ⟨pof, c⟩ =
      some ((), ⟨identified pof (β.identifier 0) (β.identifier 1) false, c⟩) := by
  obtain ⟨m, array, commands, polls⟩ := c
  subst mode
  have hfirst : identify28 (honestBus β) ⟨pof, .array, array, commands, polls⟩ =
      some ((), ⟨identified pof (array 0) (array 1) true, .array, array, commands, polls⟩) := by
    simp [identify28, bind, writeBytes, writeByte, Flash.readByte, Comp.modify, honestBus, norBus, NorChip.write,
      honest.uses29, NorChip.write29, NorChip.read, identified]
    rfl
  have hsecond : identify29 (honestBus β) ⟨identified pof (array 0) (array 1) true, .array, array, commands, polls⟩ =
      some ((), ⟨identified pof (β.identifier 0) (β.identifier 1) false, .array, array, commands, polls⟩) := by
    simp [identify29, bind, writeBytes, writeByte, Flash.readByte, Comp.modify, honestBus, norBus, NorChip.write,
      honest.uses29, NorChip.write29, NorChip.read, identified]
    rfl
  have hgot : ∀ t : FlashState NorChip, gotSomeResult (honestBus β) (array 0) (array 1) t =
      gotSomeResult (norBus β) (array 0) (array 1) t := fun _ => rfl
  unfold Flash.identify
  rw [bind_run hfirst, bind_run ((hgot _).trans (gotSomeResult_array _ _ _ _ rfl))]
  simp only [identified, bne_self_eq_false, Bool.or_self, Bool.false_eq_true, if_false]
  exact (bind_run hsecond).trans ((bind_run ((hgot _).trans (gotSomeResult_array _ _ _ _ rfl))).trans rfl)

theorem Honest.detected :
    Triple (fun s => s.dev.mode = .array) (bootFlashGetDescriptor (honestBus β) aknownflashtypesDefault)
      fun _ s => s.pof.fDetectedUsing28xxxConventions = false ∧ s.dev.mode = .array := by
  intro s hs seen s' run
  have hread : ∀ dw pof, Flash.readByte (honestBus β) dw ⟨pof, s.dev⟩ = some (s.dev.array dw, ⟨pof, s.dev⟩) := by
    intro dw pof
    simp only [Flash.readByte, honestBus, norBus, NorChip.read, hs]
  rw [bootFlashGetDescriptor] at run
  obtain ⟨_, s₁, hset, run⟩ := bind_eq_some run
  cases hset
  rw [bind_run (hread 0 _), bind_run (hread 1 _), bind_run (honest.identify _ s.dev hs), get_bind_run] at run
  dsimp only [identified] at run
  generalize aknownflashtypesDefault.find? _ = found at run
  cases found with
  | some kft =>
      cases run
      exact ⟨rfl, hs⟩
  | none =>
      obtain ⟨_, s₂, hgot, run⟩ := bind_eq_some run
      have hsame := hgot.symm.trans (gotSomeResult_array _ _ _ _ hs)
      cases hsame
      cases run
      exact ⟨rfl, hs⟩

/-- Such a chip is a device that works correctly. -/
theorem Honest.works : WorksCorrectly (honestBus β) NorChip.array (fun d => d.mode = .array)
    (fun convention28 d => convention28 = false ∧ d.mode = .array) β.sector where
  waits := by
    rintro _ d ⟨rfl, -⟩
    exact honest.waits
  blocks := honest.blocks
  read := by
    rintro dw conv d ⟨hconv, hmode⟩
    have hread : (honestBus β).read dw d = (d.array dw, d) := by
      simp only [honestBus, norBus, NorChip.read, hmode]
    rw [hread]
    exact ⟨rfl, ⟨hconv, hmode⟩, rfl⟩
  agrees := by
    intro callback hcallback ee dwPos dwExtent conv d hready
    cases hcallback
    exact ⟨rfl, hready, rfl⟩
  detected := honest.detected.post fun _ s hs _ => hs
  erases := by
    rintro spin dw tries before s ⟨⟨hconv, hmode⟩, hcontents⟩ more s' run
    have hs : InArray β s.pof.dwStartOffset s.pof.dwLengthUsedArea (· = before) s :=
      ⟨hmode, hconv.trans honest.uses29.symm, rfl, rfl, hcontents⟩
    rw [eraseAttempt, get_bind_run, if_neg (by rw [hconv]; exact Bool.false_ne_true)] at run
    obtain ⟨_, s₁, hattempt, run⟩ := bind_eq_some run
    have hs₁ := honest.eraseAttempt29 spin dw tries before s hs _ s₁ hattempt
    cases run
    exact ⟨rfl, ⟨hs₁.convention.trans honest.uses29, hs₁.mode⟩, hs₁.contents⟩
  programs := by
    rintro spin dw data before herased s ⟨⟨hconv, hmode⟩, hcontents⟩ more s' run
    have hs : InArray β s.pof.dwStartOffset s.pof.dwLengthUsedArea (· = before) s :=
      ⟨hmode, hconv.trans honest.uses29.symm, rfl, rfl, hcontents⟩
    rw [programAttempt, get_bind_run, if_neg (by rw [hconv]; exact Bool.false_ne_true)] at run
    obtain ⟨_, s₁, hattempt, run⟩ := bind_eq_some run
    have hs₁ := honest.programAttempt29 spin dw data before herased s hs _ s₁ hattempt
    cases run
    exact ⟨rfl, ⟨hs₁.convention.trans honest.uses29, hs₁.mode⟩, hs₁.contents⟩

end Honest

/-! ### Which requests are right -/

/-- No known chip admits the request, or it begins at zero, or it is empty. -/
def Harmless (dwStartOffset dwLength : Nat) : Prop :=
  0x200000 < u32 (dwStartOffset + dwLength) ∨ dwStartOffset = 0 ∨ dwLength = 0

instance (dwStartOffset dwLength : Nat) : Decidable (Harmless dwStartOffset dwLength) :=
  inferInstanceAs (Decidable (_ ∨ _ ∨ _))

theorem verify_eq_of_aligned (bus : FlashBus D) (pbNewData : Nat → UInt8) (remaining : Nat) :
    ∀ i fMore, verify bus pbNewData remaining i fMore = verifyRegion bus pbNewData 0 remaining i fMore := by
  induction remaining with
  | zero => exact fun _ _ => rfl
  | succ remaining ih =>
      intro i fMore
      rw [verify, verifyRegion, Nat.zero_add]
      simp only [ih]

theorem rightRegion_of_harmless {start len : Nat} (hstart : start < 2 ^ 32) (hlen : len < 2 ^ 32)
    (h : Harmless start len) : RightRegion start len := by
  -- nothing is admitted in the first case, and in the other two the sum is exact
  have hadmitted : ∀ {D : Type} {bus : FlashBus D} {s s₁ : FlashState D}, Admitted bus start len s s₁ →
      (start = 0 ∨ len = 0) ∧ Region start len s₁.pof ∧ start + len ≤ s₁.pof.dwLengthInBytes ∧
        s₁.pof.dwLengthInBytes ≤ 0x200000 := by
    intro D bus s s₁ hrun
    obtain ⟨hregion, hsum, hlength⟩ := sanityChecks_admitted bus start len s trivial none s₁ hrun rfl
    have haligned : start = 0 ∨ len = 0 := h.resolve_left (by omega)
    have hexact : u32 (start + len) = start + len := Nat.mod_eq_of_lt (by omega)
    exact ⟨haligned, hregion, hexact ▸ hsum, hlength⟩
  refine ⟨fun D bus s s₁ hrun => (hadmitted hrun).2.2.1, fun D bus s s₁ hrun pbNewData => ?_, ?_⟩
  · funext fMore
    rcases (hadmitted hrun).1 with rfl | rfl
    · exact verify_eq_of_aligned bus pbNewData len 0 fMore
    · rfl
  · intro D bus contents Fresh Ready sector works s s₁ hfresh hrun pbNewData
    obtain ⟨haligned, hregion, hsum, hlength⟩ := hadmitted hrun
    have hready := works.admitted start len s hfresh none s₁ hrun rfl
    have hfits : ∀ i < len, start + i < 0xfffff000 := by
      intro i hi
      omega
    have hround : Settles (fun fuel => reflashLoop bus fuel pbNewData len 1) s₁ fun _ s' =>
        ∀ i < len, contents s'.dev (start + i) = pbNewData i :=
      works.reflash haligned hfits hstart ⟨hready, hregion, trivial⟩
    obtain ⟨fuel, _, s', hloop, hcontents⟩ := hround.run
    refine ⟨fuel, s', ?_, hcontents⟩
    rw [bootReflashAndReset_eq]
    refine (bind_run hrun).trans ?_
    exact bind_run hloop

/-- The longest known chip. -/
def am29F016 : NorBehaviour where
  uses28 := false
  length := 0x200000
  sector := fun a => a / 0x10000
  identifier := fun a => if a = 0 then 0x01 else 0xad
  programmed := fun _ => 0xff
  erased := fun _ _ => true
  busyReads := fun _ => 3
  status := fun _ => 0x80

theorem am29F016_honest : Honest am29F016 where
  uses29 := rfl
  blocks := by
    intro a b hblock
    have hsame : a / 0x1000 = b / 0x1000 := hblock
    have hsector : ∀ x, x / 0x10000 = x / 0x1000 / 0x10 := fun x => (Nat.div_div_eq_div_mul x 0x1000 0x10).symm
    exact (hsector a).trans ((congrArg (· / 0x10) hsame).trans (hsector b).symm)
  status := fun _ => rfl

/-- The chip, erased but for its first byte. -/
def firstByteProgrammed : FlashState NorChip where
  pof := ⟨0, 0, "", "", 0, 0, 0, false, false⟩
  dev := ⟨.array, fun a => if a = 0 then 0 else 0xff, 0, 0⟩

/-- The chip admits every request whose 32-bit sum is not above its length. -/
theorem am29F016_admits {start len : Nat} (hsum : u32 (start + len) ≤ 0x200000) :
    ∃ s₁, Admitted (norBus am29F016) start len firstByteProgrammed s₁ := by
  have hknown : (⟨0x01, 0xad, "AMD - Am29F016", 0x200000⟩ : KnownFlashType) ∈ aknownflashtypesDefault :=
    List.mem_cons_of_mem _ List.mem_cons_self
  obtain ⟨c', hrun, -⟩ := @bootFlashGetDescriptor_run am29F016 _ hknown rfl rfl
    { firstByteProgrammed.pof with dwStartOffset := start, dwLengthUsedArea := len } firstByteProgrammed.dev rfl
  have hanswers : answers28 am29F016 firstByteProgrammed.dev.array = false := rfl
  rw [hanswers] at hrun
  have hseen : ¬ true = false := Bool.noConfusion
  have hfits : ¬ 0x200000 < u32 (start + len) := Nat.not_lt_of_le hsum
  refine ⟨⟨described am29F016 ⟨0x01, 0xad, "AMD - Am29F016", 0x200000⟩ false
    { firstByteProgrammed.pof with dwStartOffset := start, dwLengthUsedArea := len }, c'⟩, ?_⟩
  refine (bind_run rfl).trans ((bind_run hrun).trans ?_)
  rw [get_bind_run, if_neg hseen]
  exact (congrFun (if_neg hseen) _).trans (congrFun (if_neg hfits) _)

/-- So a sum that wraps gets a request past the checks that does not fit the chip. -/
theorem wrapped_sum_admitted {start len : Nat} (hwraps : 2 ^ 32 ≤ start + len)
    (hsum : u32 (start + len) ≤ 0x200000) :
    ∃ s₁, Admitted (norBus am29F016) start len firstByteProgrammed s₁ ∧ s₁.pof.dwLengthInBytes < start + len := by
  obtain ⟨s₁, hadmitted⟩ := am29F016_admits hsum
  obtain ⟨-, -, hlength⟩ := sanityChecks_admitted _ start len firstByteProgrammed trivial none s₁ hadmitted rfl
  exact ⟨s₁, hadmitted, by omega⟩

/-- A mismatch is not forgotten. -/
theorem verify_mismatch {β : NorBehaviour} (pbNewData : Nat → UInt8) {s : FlashState NorChip}
    (mode : s.dev.mode = .array) (remaining address : Nat) :
    verify (norBus β) pbNewData remaining address true s = some (true, s) := by
  induction remaining generalizing address with
  | zero => rfl
  | succ remaining ih =>
      rw [verify, bind_run (readByte_array mode address), Bool.true_or]
      exact ih (address + 1)

theorem verifyRegion_match {β : NorBehaviour} {pbNewData : Nat → UInt8} {start : Nat} {s : FlashState NorChip}
    (mode : s.dev.mode = .array) (same : ∀ i, s.dev.array (start + i) = pbNewData i) (remaining i : Nat) :
    verifyRegion (norBus β) pbNewData start remaining i false s = some (false, s) := by
  induction remaining generalizing i with
  | zero => rfl
  | succ remaining ih =>
      rw [verifyRegion, bind_run (readByte_array mode (start + i)), same i, bne_self_eq_false, Bool.or_self]
      exact ih (i + 1)

/-- The verify pass looks at the first byte of the chip, which is none of the region. -/
theorem verify_ne_verifyRegion {start len : Nat} (hstart : start ≠ 0) (hlen : len ≠ 0) :
    verify (norBus am29F016) (fun _ => 0xff) len 0 ≠ verifyRegion (norBus am29F016) (fun _ => 0xff) start len 0 := by
  intro heq
  obtain ⟨remaining, rfl⟩ := Nat.exists_eq_add_one_of_ne_zero hlen
  have hverify : verify (norBus am29F016) (fun _ => 0xff) (remaining + 1) 0 false firstByteProgrammed =
      some (true, firstByteProgrammed) := by
    rw [verify, bind_run (readByte_array rfl 0)]
    exact verify_mismatch _ rfl remaining 1
  have hregion : verifyRegion (norBus am29F016) (fun _ => 0xff) start (remaining + 1) 0 false firstByteProgrammed =
      some (false, firstByteProgrammed) := by
    apply verifyRegion_match rfl
    intro i
    have hne : start + i ≠ 0 := by omega
    exact if_neg hne
  rw [heq, hregion] at hverify
  cases hverify

theorem not_rightRegion {start len : Nat} (h : ¬ Harmless start len) : ¬ RightRegion start len := by
  simp only [Harmless, not_or, Nat.not_lt] at h
  obtain ⟨hsum, hstart, hlen⟩ := h
  obtain ⟨s₁, hadmitted⟩ := am29F016_admits hsum
  intro hright
  exact verify_ne_verifyRegion hstart hlen (hright.verifies _ _ _ _ hadmitted _)

/-- The requests that are handled as requests for their own region. -/
theorem rightRegion_iff (dwStartOffset dwLength : Nat) (hstart : dwStartOffset < 2 ^ 32) (hlength : dwLength < 2 ^ 32) :
    RightRegion dwStartOffset dwLength ↔ Harmless dwStartOffset dwLength := by
  constructor
  · intro hright
    by_contra hharm
    exact not_rightRegion hharm hright
  · exact rightRegion_of_harmless hstart hlength

/-- An image of 256K at the start of the flash. -/
theorem rightRegion_image : RightRegion 0 0x40000 :=
  (rightRegion_iff 0 0x40000 (by decide) (by decide)).mpr (Or.inr (Or.inl rfl))

/-- A chip that works correctly is not left in the loop. -/
theorem honest_reflash {β : NorBehaviour} (honest : Honest β) {start len : Nat} (right : RightRegion start len)
    {s s₁ : FlashState NorChip} (mode : s.dev.mode = .array) (admitted : Admitted (honestBus β) start len s s₁)
    (pbNewData : Nat → UInt8) :
    ∃ fuel s', bootReflashAndReset (honestBus β) fuel 1 pbNewData start len s = some (.reset, s') ∧
      ∀ i < len, s'.dev.array (start + i) = pbNewData i :=
  right.ends _ _ _ _ _ _ honest.works s s₁ mode admitted pbNewData

/-- The second 256K of a chip are verified against the first. -/
theorem second_half_not_rightRegion :
    ¬ ∀ dwStartOffset dwLength : Nat, dwStartOffset < 2 ^ 32 → dwLength < 2 ^ 32 →
      RightRegion dwStartOffset dwLength := by
  intro hall
  refine not_rightRegion ?_ (hall 0x40000 0x40000 (by decide) (by decide))
  decide

end Cromwell.Flash
