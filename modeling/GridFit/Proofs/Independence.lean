import GridFit.Proofs.Congruence
import GridFit.Proofs.Safety

/-!
# Hinting is independent of what happened before

Machines that differ only in memory that is not in use run alike (`Machine.agrees_run`). At the start
of a glyph program all of the working memory is of that kind, so its contents do not matter
(`Snapshot.run_alike`). And an instance is what its last successful configuration made of it, so a
glyph comes out the same after any history of calls (`Session.hint_after_history`).
-/

namespace GridFit

/-! ### Instructions -/

namespace Machine.Like

variable {m m' : Machine}

theorem definitions (h : m.Like m') (k : DefinitionKind) : m.definitions k = m'.definitions k := by
  cases k with
  | function => exact h.functions
  | instruction => exact h.instructions

theorem store (h : m.Like m') (k : DefinitionKind) (slot : Nat) (d : Definition) :
    (m.store k slot d).Like (m'.store k slot d) := by
  cases k with
  | function => exact { h with functions := congrArg (·.store slot d) h.functions }
  | instruction => exact { h with instructions := congrArg (·.store slot d) h.instructions }

theorem restart (h : m.Like m') (p : Program) : (m.restart p).Like (m'.restart p) :=
  { h with
    flow := congrArg (·.reset p) h.flow
    graphics := congrArg Graphics.reset h.graphics }

theorem outline (h : m.Like m') (o : Outline) : m.outline o = m'.outline o := by
  simp only [Machine.outline, h.glyph]

end Machine.Like

theorem Machine.congruence_like : Machine.Congruence Eq Machine.Like where
  flows := Flow.congruence_eq
  plain h := h.agrees
  flow _ _ h := h.flow
  withFlow _ _ _ _ h hf := { h with flow := hf }
  definitions _ _ k h := h.definitions k
  store _ _ k slot d h := h.store k slot d
  axisCount _ _ h := h.axisCount

/-- No instruction sees memory that is not in use. -/
theorem Exec.agrees_execute (i : Instruction) : Agrees Machine.Like (execute i) :=
  Machine.congruence_like.execute fun _ => .refl _

/-! ### Runs -/

namespace Machine

theorem agrees_step : Agrees Like step :=
  fun _ _ h => congruence_like.step h fun b m₁ m₁' _ h₁ => Exec.agrees_execute (.ofByte b) m₁ m₁' h₁

/-- Machines that differ only in memory that is not in use run alike. -/
theorem agrees_runFrom (fuel : Nat) : Agrees Like (runFrom fuel) := by
  induction fuel with
  | zero =>
    intro m m' h
    by_cases hf : m'.flow.finished
    · rw [runFrom_finished 0 hf, runFrom_finished 0 (by rwa [h.flow])]
      exact ⟨rfl, h⟩
    · rw [runFrom_zero hf, runFrom_zero (by rwa [h.flow])]
      exact ⟨by rw [failure, failure, h.flow], h⟩
  | succ fuel ih =>
    intro m m' h
    by_cases hf : m'.flow.finished
    · rw [runFrom_finished _ hf, runFrom_finished _ (by rwa [h.flow])]
      exact ⟨rfl, h⟩
    have hf' : ¬m.flow.finished := by rwa [h.flow]
    rcases (agrees_step m m' h).cases with ⟨_, m₁, m₁', hr, hr', h₁⟩ | ⟨f, m₁, m₁', hr, hr', h₁⟩
    · rw [runFrom_step hf' hr, runFrom_step hf hr']
      exact ih _ _ h₁
    · rw [runFrom_error hf' hr, runFrom_error hf hr']
      exact ⟨rfl, h₁⟩

theorem agrees_run (p : Program) : Agrees Like (run p) :=
  fun _ _ h => agrees_runFrom budget _ _ (h.restart p)

end Machine

/-! ### Hinting -/

theorem Scratch.fits_ofSizes (n : ScratchSizes) : (Scratch.ofSizes n).Fits n := by
  simp [fits_iff, ofSizes]

namespace Snapshot

variable {s : Snapshot} {n : Nat} {sc sc' : Scratch}

theorem seedTwilight_eq (h : s.twilight.Regular n) (sc : Scratch) :
    s.seedTwilight sc =
      { scaled := s.twilight.scaled, points := s.twilight.points, flags := s.twilight.flags } := by
  unfold seedTwilight
  dsimp only
  rw [Scratch.seed_eq sc.twilightScaled (h.scaled.trans h.points.symm),
    Scratch.seed_eq sc.twilightPoints rfl,
    Scratch.seed_eq sc.twilightFlags (h.flags.trans h.points.symm)]

theorem size_stack (h : sc.Fits s.sizes) : (sc.stack.extract 0 s.stackSize).size = s.stackSize := by
  have hs : s.stackSize ≤ sc.stack.size := h.stack
  simp only [Array.size_extract]
  omega

/-- At the start of a glyph program no part of the working memory is in use. -/
theorem like_machine (ht : s.twilight.Regular n) (o : Outline) (h : sc.Fits s.sizes)
    (h' : sc'.Fits s.sizes) : (s.machine o sc h).Like (s.machine o sc' h') where
  flow := rfl
  graphics := rfl
  stack := ⟨(size_stack h).trans (size_stack h').symm, rfl⟩
  controlValues := Table.like_fresh s.controlValues _ _ _ _
  storage := Table.like_fresh s.storage _ _ _ _
  twilight := (seedTwilight_eq ht sc).trans (seedTwilight_eq ht sc').symm
  glyph := rfl
  functions := rfl
  instructions := rfl
  coords := rfl
  axisCount := rfl

/-- What the working memory holds makes no difference to a glyph. -/
theorem run_alike (ht : s.twilight.Regular n) (o : Outline) (hc : Phantom.count ≤ o.scaled.size)
    (h : sc.Fits s.sizes) (h' : sc'.Fits s.sizes) :
    (s.run o sc hc h).error = (s.run o sc' hc h').error ∧
      (s.run o sc hc h).outline = (s.run o sc' hc h').outline := by
  have hr := Machine.agrees_run .glyph _ _
    (like_machine ht { o with phantom := .ofEnd o.scaled hc } h h')
  unfold run
  dsimp only
  by_cases hb : o.bytecode.isEmpty
  · rw [if_pos hb, if_pos hb]
    exact ⟨rfl, rfl⟩
  rw [if_neg hb, if_neg hb]
  rcases hr.cases with ⟨_, m, m', hx, hx', hm⟩ | ⟨f, m, m', hx, hx', hm⟩
  · rw [hx, hx']
    dsimp only
    rw [hm.outline, hm.graphics]
    split
    · exact ⟨rfl, rfl⟩
    · split <;> exact ⟨rfl, rfl⟩
  · rw [hx, hx']
    exact ⟨rfl, hm.outline _⟩

theorem hint_eq_run {o : Outline} (hc : o.isConsistent) (h : sc.Fits s.sizes) :
    s.hint o (some sc) = s.run o sc (Outline.count_le_scaled hc) h := by
  simp only [hint, dif_pos hc, dif_pos h]

/-- Hinting with working memory that is large enough comes to the same as hinting with cleared
memory. -/
theorem hint_alike (ht : s.twilight.Regular n) (o : Outline) (h : sc.Fits s.sizes) :
    (s.hint o (some sc)).error = (s.hint o (some (.ofSizes s.sizes))).error ∧
      (s.hint o (some sc)).outline = (s.hint o (some (.ofSizes s.sizes))).outline := by
  by_cases hc : o.isConsistent
  · have h' := Scratch.fits_ofSizes s.sizes
    rw [hint_eq_run hc h, hint_eq_run hc h']
    exact run_alike ht o (Outline.count_le_scaled hc) h h'
  · simp only [hint, dif_neg hc, and_self]

end Snapshot

/-! ### Histories -/

/-- What an instance is configured for. -/
structure Configuration where
  source : Source
  scale : Int32
  ppem : Int32
  mode : Mode
  coords : Array Int16

namespace Configuration

/-- The outcome of the programs of the font. -/
def outcome (c : Configuration) : Except Failure Snapshot :=
  c.source.configure c.scale c.ppem c.mode c.coords

/-- Configures an instance. -/
def apply (c : Configuration) (i : Instance) : Instance :=
  (i.reconfigure c.source c.scale c.ppem c.mode c.coords).2

variable {c : Configuration}

theorem apply_of_ok {s : Snapshot} (h : c.outcome = .ok s) (i : Instance) : c.apply i = ⟨some s⟩ := by
  rw [outcome] at h
  rw [apply, Instance.reconfigure, h]

theorem apply_of_error {f : Failure} (h : c.outcome = .error f) (i : Instance) : c.apply i = i := by
  rw [outcome] at h
  rw [apply, Instance.reconfigure, h]

end Configuration

/-- What can be asked of an instance and of the working memory that is used with it. -/
inductive Request where
  /-- Configures the instance. -/
  | configure (c : Configuration)
  /-- Takes other working memory, or none. -/
  | provide (sc? : Option Scratch)
  /-- Hints a glyph in the working memory at hand. -/
  | hint (o : Outline)

/-- An instance and the working memory at hand. -/
structure Session where
  current : Instance := {}
  scratch : Option Scratch := none

namespace Session

/-- Answers a request. Hinting leaves its traces in the working memory, and the instance stays as it
is: a glyph program can change neither the definitions nor the values of the font
(`Snapshot.hinting_keeps`). -/
def answer (s : Session) : Request → Session
  | .configure c => { s with current := c.apply s.current }
  | .provide sc? => { s with scratch := sc? }
  | .hint o => { s with scratch := (s.current.hint o s.scratch).scratch }

/-- The session after a history of requests, the first of them first. -/
def after (history : List Request) : Session := history.foldl answer {}

/-- The last configuration of a history that was successful. -/
def lastSuccessful (history : List Request) : Option Configuration :=
  history.reverse.findSome? fun
    | .configure c => if c.outcome.isOk then some c else none
    | _ => none

variable {history : List Request}

/-- The instance is what the last successful configuration made of it. -/
theorem current_foldl (history : List Request) (s : Session) :
    (history.foldl answer s).current =
      match lastSuccessful history with
      | some c => c.apply {}
      | none => s.current := by
  induction history generalizing s with
  | nil => rfl
  | cons r history ih =>
    rw [List.foldl_cons, ih, lastSuccessful, lastSuccessful, List.reverse_cons, List.findSome?_append]
    cases history.reverse.findSome? _ with
    | some c => rfl
    | none =>
      cases r with
      | provide sc? => rfl
      | hint o => rfl
      | configure c =>
        simp only [answer, Option.none_or, List.findSome?_singleton]
        cases hc : c.outcome with
        | ok t => simp [Except.isOk, Except.toBool, Configuration.apply_of_ok hc]
        | error f => simp [Except.isOk, Except.toBool, Configuration.apply_of_error hc]

theorem lastSuccessful_isOk {c : Configuration} (h : lastSuccessful history = some c) :
    ∃ s, c.outcome = .ok s := by
  obtain ⟨r, -, hr⟩ := List.exists_of_findSome?_eq_some h
  cases r with
  | provide sc? => cases hr
  | hint o => cases hr
  | configure c' =>
    dsimp only at hr
    split at hr
    · rename_i hok
      cases hr
      cases hc : c.outcome with
      | ok s => exact ⟨s, rfl⟩
      | error f =>
        rw [hc] at hok
        cases hok
    · cases hr

/-- A glyph that is hinted after any history of requests, in any working memory that is large enough,
comes out as with cleared memory on a new instance which has seen nothing but the last successful
configuration. -/
theorem hint_after_history (history : List Request) (o : Outline) {sc : Scratch} {s : Snapshot}
    (hs : (after history).current.snapshot = some s) (hf : sc.Fits s.sizes) :
    ∃ c, lastSuccessful history = some c ∧
      ((after history).current.hint o (some sc)).error =
        ((c.apply {}).hint o (c.apply {}).newScratch).error ∧
      ((after history).current.hint o (some sc)).outline =
        ((c.apply {}).hint o (c.apply {}).newScratch).outline := by
  have hcur := current_foldl history {}
  rw [after] at hs ⊢
  cases hl : lastSuccessful history with
  | none =>
    rw [hl] at hcur
    dsimp only at hcur
    rw [hcur] at hs
    cases hs
  | some c =>
    rw [hl] at hcur
    dsimp only at hcur
    obtain ⟨t, ht⟩ := lastSuccessful_isOk hl
    have ha := Configuration.apply_of_ok ht {}
    rw [hcur, ha] at hs
    cases hs
    refine ⟨c, rfl, ?_⟩
    rw [hcur, ha]
    exact Snapshot.hint_alike (Source.configure_regular ht) o hf

/-- A font whose only program is its control value program. -/
def withProgram (program : Bytes) : Configuration where
  source := { maxima := { stack := 4, storage := 1 }, controlValueProgram := program }
  scale := 65536
  ppem := 16
  mode := default
  coords := #[]

/-- A glyph that consists of phantom points. -/
def emptyGlyph (program : Bytes) : Outline where
  scaled := .replicate 4 {}
  points := .replicate 4 {}
  flags := .replicate 4 {}
  bytecode := program

/-- Memory that marks both its storage cells as written. -/
def staleScratch : Scratch where
  stack := .replicate 40 5
  storage := #[9, 9]
  storageWritten := #[3]
  twilightScaled := .replicate 6 ⟨7, 7⟩
  twilightPoints := .replicate 6 ⟨7, 7⟩
  twilightFlags := .replicate 6 {}

/-- The control value program stores 7, a glyph program stores 9 in the same cell, and then a
configuration fails. -/
def busyHistory : List Request :=
  [.configure (withProgram #[0xb1, 0, 7, 0x42]), .provide (some staleScratch),
    .hint (emptyGlyph #[0xb1, 0, 9, 0x42]), .configure (withProgram #[0x21])]

/-- The glyph moves a point to the coordinate in the storage cell. -/
theorem hint_after_busyHistory :
    ∃ s, (after busyHistory).current.snapshot = some s ∧ staleScratch.Fits s.sizes ∧
      ∃ c, lastSuccessful busyHistory = some c ∧
        ((after busyHistory).current.hint (emptyGlyph #[0, 0xb1, 0, 0, 0x43, 0x48])
            (some staleScratch)).error =
          ((c.apply {}).hint (emptyGlyph #[0, 0xb1, 0, 0, 0x43, 0x48])
            (c.apply {}).newScratch).error ∧
        ((after busyHistory).current.hint (emptyGlyph #[0, 0xb1, 0, 0, 0x43, 0x48])
            (some staleScratch)).outline =
          ((c.apply {}).hint (emptyGlyph #[0, 0xb1, 0, 0, 0x43, 0x48])
            (c.apply {}).newScratch).outline := by
  have h : ((after busyHistory).current.snapshot.any
      fun s => decide (staleScratch.Fits s.sizes)) = true := by decide +kernel
  obtain ⟨s, hs, hf⟩ := (Option.any_eq_true _ _).1 h
  have hf := of_decide_eq_true hf
  exact ⟨s, hs, hf, hint_after_history busyHistory _ hs hf⟩

end Session

end GridFit
