import GridFit.Proofs.Glyph.Buffer
import GridFit.Proofs.Memory

/-!
# Hinters can be used again

A hinter keeps the configuration of the last font and the working memory of the last glyph. Whatever
it has been used for, it is coherent (`Hinter.Coherent`): its state is the outcome of the
configuration that its key stands for, and its working memory is large enough for that configuration.
A failed configuration leaves the one before in the instance, but then the hinter is not active.

Two hinters that reflect the same key load glyphs alike (`Hinter.Reflects.load_alike`), so any
coherent hinter loads them as a new one does (`Hinter.Coherent.load`). Nor does it matter what a
glyph buffer held before. So a glyph comes out the same after any history of loading glyphs
(`Loader.load_after_history`).
-/

namespace GridFit

namespace Glyph

variable {ctx : Context} {r : Progress → Progress → Prop}

/-! ### Loading depends on the working memory through hinting only -/

theorem agrees_ofFont {α : Type} (x : FontM α) : Agrees r (ofFont x) := by
  intro s t h
  cases x <;> exact ⟨rfl, h⟩

variable (hh : ∀ inst ∈ ctx.hinting, ∀ i program composite c,
  Agrees r (hint inst i program composite c))
include hh

theorem agrees_hintWith (i : UInt16) (program : Bytes) (composite : Bool) (c : Contours) :
    Agrees r (hintWith ctx.hinting i program composite c) := by
  unfold hintWith
  cases hi : ctx.hinting with
  | none => exact .pure c
  | some inst => exact .ite (.pure c) (hh inst hi i program composite c)

theorem agrees_finish (i : UInt16) (bounds : Bounds) (t : Placing) (body : Contours)
    (program : Bytes) (composite : Bool) (origin? : Option Int32) :
    Agrees r (finish ctx i bounds t body program composite origin?) :=
  (agrees_ofFont _).bind fun _ => (agrees_hintWith hh i program composite _).bind fun _ =>
    (agrees_ofFont _).bind fun _ => (agrees_ofFont _).bind fun _ => .pure _

theorem agrees_loadPiece (depth : Nat) (i : UInt16) (offset : Point) (rounds : Bool) :
    Agrees r (loadPiece ctx depth i offset rounds) := by
  induction depth generalizing i offset rounds with
  | zero => exact .throw _
  | succ depth ih =>
    refine (agrees_ofFont _).bind fun record => ?_
    dsimp only
    cases record.shape with
    | simple g => exact agrees_finish hh i _ _ _ _ _ _
    | compound g =>
      exact (Agrees.mapM fun c _ => (ih c.glyph _ _).bind fun _ => .pure _).bind fun _ =>
        (agrees_ofFont _).bind fun _ => agrees_finish hh i _ _ _ _ _ _

omit hh

/-- The working memory is large enough for `snap`. -/
def Progress.Fits (snap : Snapshot) (s : Progress) : Prop :=
  ∃ sc, s.scratch = some sc ∧ sc.Fits snap.sizes

/-- Two states that differ in the contents of a working memory which is large enough for `snap`. -/
structure Progress.Alike (snap : Snapshot) (s t : Progress) : Prop where
  hintError : s.hintError = t.hintError
  left : s.Fits snap
  right : t.Fits snap

/-- Takes over what hinting the contours `c` has come to. -/
def takeHinted (c : Contours) (h : Hinted) : LoadM Contours := do
  match h.error with
  | none =>
    modify fun s => { s with scratch := h.scratch }
    let ⟨points, hp⟩ ← ofFont (hintedPoints c.points h.outline)
    return c.withPoints points hp
  | some e =>
    set ({ scratch := h.scratch, hintError := some e } : Progress)
    return c.unhint

theorem takeHinted_alike {snap : Snapshot} {s t : Progress} {h h' : Hinted} (c : Contours)
    (he : h.error = h'.error) (ho : h.outline = h'.outline)
    (hs : ∃ sc, h.scratch = some sc ∧ sc.Fits snap.sizes)
    (hs' : ∃ sc, h'.scratch = some sc ∧ sc.Fits snap.sizes) (hst : s.hintError = t.hintError) :
    SameOutcome (Progress.Alike snap) (takeHinted c h s) (takeHinted c h' t) := by
  unfold takeHinted
  rw [← he, ← ho]
  cases h.error with
  | none => exact (agrees_ofFont _).bind (fun _ => .pure _) _ _ ⟨hst, hs, hs'⟩
  | some e => exact ⟨rfl, rfl, hs, hs'⟩

/-- The contents of the working memory make no difference to a hinted glyph. -/
theorem agrees_hint {inst : Instance} {snap : Snapshot} {n : Nat} (hi : inst.snapshot = some snap)
    (hr : snap.twilight.Regular n) (i : UInt16) (program : Bytes) (composite : Bool) (c : Contours) :
    Agrees (Progress.Alike snap) (hint inst i program composite c) := by
  refine (agrees_ofFont _).bind fun rounded => ?_
  rintro s t ⟨he, ⟨sc, hs, hf⟩, ⟨sc', ht, hf'⟩⟩
  have hinst : inst.hint (outline i program composite c rounded) =
      snap.hint (outline i program composite c rounded) := by
    funext sc?
    rw [Instance.hint, hi]
  show SameOutcome _ (takeHinted c (inst.hint _ s.scratch) s) (takeHinted c (inst.hint _ t.scratch) t)
  rw [hinst, hs, ht]
  have h := Snapshot.hint_alike hr (outline i program composite c rounded) hf
  have h' := Snapshot.hint_alike hr (outline i program composite c rounded) hf'
  exact takeHinted_alike c (h.1.trans h'.1.symm) (h.2.trans h'.2.symm) (Snapshot.fits_hint hf _)
    (Snapshot.fits_hint hf' _) he

theorem agrees_loadWith {hinting : Option Instance}
    (hh : ∀ inst ∈ hinting, ∀ i program composite c, Agrees r (hint inst i program composite c))
    (hr : ∀ s t, r s t → s.hintError = t.hintError) (f : Font) (scale : Int32) (i : UInt16) :
    Agrees r (loadWith f scale i hinting) :=
  (agrees_loadPiece hh maxDepth i _ _).bind fun _ =>
    .get (fun s t h => by rw [hr s t h]) fun _ => .pure _

end Glyph

/-! ### Coherence -/

namespace Configuration

variable {c : Configuration}

theorem reconfigure_of_ok {s : Snapshot} (h : c.outcome = .ok s) (i : Instance) :
    i.reconfigure c.source c.scale c.ppem c.mode c.coords = (none, ⟨some s⟩) := by
  rw [outcome] at h
  rw [Instance.reconfigure, h]

theorem reconfigure_of_error {e : Failure} (h : c.outcome = .error e) (i : Instance) :
    i.reconfigure c.source c.scale c.ppem c.mode c.coords = (some e, i) := by
  rw [outcome] at h
  rw [Instance.reconfigure, h]

end Configuration

/-- The configuration that a key stands for. -/
def HinterKey.configuration (k : HinterKey) : Configuration where
  source := k.source
  scale := Fixed.scaleFactor k.scale (Int64.ofNat k.unitsPerEm)
  ppem := Hinter.pixels k.scale
  mode := k.mode
  coords := #[]

namespace Hinter

def keyFor (h : Hinter) (f : Font) (scale : Int32) : HinterKey :=
  ⟨f.source, f.unitsPerEm, scale, h.mode⟩

/-- The state of the hinter is the outcome of the configuration of `k`. -/
inductive Reflects (h : Hinter) (k : HinterKey) : Prop
  | ok {s : Snapshot} {sc : Scratch} : k.configuration.outcome = .ok s → h.failure = none →
      h.current = ⟨some s⟩ → h.scratch = some sc → sc.Fits s.sizes → Reflects h k
  | error {e : Failure} : k.configuration.outcome = .error e → h.failure = some e → Reflects h k

/-- If the hinter has been configured, its state is the outcome of that. -/
def Coherent (h : Hinter) : Prop := ∀ k ∈ h.key, h.Reflects k

variable {h h' : Hinter} {k : HinterKey} {f : Font} {scale : Int32} {i : UInt16}

theorem coherent_new (mode : Mode) : Coherent { mode } := fun _ hk => nomatch hk

theorem Coherent.withMode (hc : h.Coherent) (mode : Mode) : { h with mode : Hinter }.Coherent := by
  intro k hk
  cases hc k hk with
  | ok ho hf hcur hs hfit => exact .ok ho hf hcur hs hfit
  | error ho hf => exact .error ho hf

/-- A hinter that has been prepared is configured for its task. -/
theorem Coherent.prepare (hc : h.Coherent) (f : Font) (scale : Int32) :
    (h.prepare f scale).key = some (h.keyFor f scale) ∧
      (h.prepare f scale).Reflects (h.keyFor f scale) := by
  unfold Hinter.prepare
  dsimp only
  split
  · rename_i hk
    exact ⟨hk, hc _ hk⟩
  cases ho : (h.keyFor f scale).configuration.outcome with
  | ok s =>
    have hr : h.current.reconfigure f.source (Fixed.scaleFactor scale (Int64.ofNat f.unitsPerEm))
        (pixels scale) h.mode #[] = (none, ⟨some s⟩) :=
      Configuration.reconfigure_of_ok ho h.current
    rw [hr]
    exact ⟨rfl, .ok ho rfl rfl rfl (Scratch.fits_ofSizes s.sizes)⟩
  | error e =>
    -- The instance stays as it was, for another key. With the failure on record it is not used.
    have hr : h.current.reconfigure f.source (Fixed.scaleFactor scale (Int64.ofNat f.unitsPerEm))
        (pixels scale) h.mode #[] = (some e, h.current) :=
      Configuration.reconfigure_of_error ho h.current
    rw [hr]
    exact ⟨rfl, .error ho rfl⟩

/-- The instance by which the hinter hints, if it is active. -/
def hinting (h : Hinter) : Option Instance := if h.isActive then some h.current else none

theorem Reflects.hinting_eq (hr : h.Reflects k) (hr' : h'.Reflects k) : h.hinting = h'.hinting := by
  cases hr with
  | ok ho hf hcur =>
    cases hr' with
    | ok ho' hf' hcur' =>
      cases ho.symm.trans ho'
      simp only [hinting, isActive, hf, hcur, hf', hcur']
    | error ho' => cases ho.symm.trans ho'
  | error ho hf =>
    cases hr' with
    | ok ho' => cases ho.symm.trans ho'
    | error ho' hf' => simp [hinting, isActive, hf, hf']

/-- Hinters that reflect the same key load glyphs alike, and afterwards they reflect it still. -/
theorem Reflects.load_alike (hr : h.Reflects k) (hr' : h'.Reflects k) (f : Font) (scale : Int32)
    (i : UInt16) :
    SameOutcome (fun s t => { h with scratch := s.scratch : Hinter }.Reflects k ∧
        { h' with scratch := t.scratch : Hinter }.Reflects k)
      (Glyph.loadWith f scale i h.hinting { scratch := h.scratch })
      (Glyph.loadWith f scale i h'.hinting { scratch := h'.scratch }) := by
  rw [← hr.hinting_eq hr']
  cases hr with
  | @ok s _ ho hf hcur hs hfit =>
    cases hr' with
    | error ho' => cases ho.symm.trans ho'
    | ok ho' hf' hcur' hs' hfit' =>
      cases ho.symm.trans ho'
      have hh : ∀ inst ∈ h.hinting, ∀ i program composite c,
          Agrees (Glyph.Progress.Alike s) (Glyph.hint inst i program composite c) := by
        intro inst hi
        have hinst : inst.snapshot = some s := by
          unfold hinting at hi
          split at hi
          · cases hi
            rw [hcur]
          · cases hi
        exact Glyph.agrees_hint hinst (Source.configure_regular ho)
      have ha := Glyph.agrees_loadWith hh (fun _ _ hst => hst.hintError) f scale i
        { scratch := h.scratch } { scratch := h'.scratch } ⟨rfl, ⟨_, hs, hfit⟩, ⟨_, hs', hfit'⟩⟩
      refine ha.mono fun s₁ t₁ ⟨_, ⟨_, hs₁, hf₁⟩, ⟨_, ht₁, hf₁'⟩⟩ => ?_
      exact ⟨.ok ho hf hcur hs₁ hf₁, .ok ho hf' hcur' ht₁ hf₁'⟩
  | error ho hf =>
    cases hr' with
    | ok ho' => cases ho.symm.trans ho'
    | error ho' hf' =>
      -- No program runs, so nothing looks at the working memory.
      have hn : h.hinting = none := by simp [hinting, isActive, hf]
      have ha : Agrees (fun s t => s.hintError = t.hintError)
          (Glyph.loadWith f scale i h.hinting) :=
        Glyph.agrees_loadWith (fun _ hi => absurd (hn ▸ hi) (Option.not_mem_none _))
          (fun _ _ hst => hst) f scale i
      exact (ha { scratch := h.scratch } { scratch := h'.scratch } rfl).mono fun _ _ _ =>
        ⟨.error ho hf, .error ho' hf'⟩

theorem mode_prepare (h : Hinter) (f : Font) (scale : Int32) :
    (h.prepare f scale).mode = h.mode := by
  unfold prepare
  dsimp only
  split
  · rfl
  · split <;> rfl

theorem load_of_ok {g : Glyph} {s : Glyph.Progress} (hg : Glyph.loadWith f scale i
      (h.prepare f scale).hinting { scratch := (h.prepare f scale).scratch } = .ok g s) :
    Glyph.load f scale i (some h) =
      (.ok g, some { h.prepare f scale with scratch := s.scratch }) := by
  unfold hinting at hg
  simp only [Glyph.load, Option.map_some, hg]

theorem load_of_error {e : FontError} {s : Glyph.Progress} (he : Glyph.loadWith f scale i
      (h.prepare f scale).hinting { scratch := (h.prepare f scale).scratch } = .error e s) :
    Glyph.load f scale i (some h) =
      (.error e, some { h.prepare f scale with scratch := s.scratch }) := by
  unfold hinting at he
  simp only [Glyph.load, Option.map_some, he]

/-- A coherent hinter loads glyphs as a new one does, and is coherent still. -/
theorem Coherent.load (hc : h.Coherent) (f : Font) (scale : Int32) (i : UInt16) :
    (Glyph.load f scale i (some h)).1 = (Glyph.load f scale i (some { mode := h.mode })).1 ∧
      ∃ h', (Glyph.load f scale i (some h)).2 = some h' ∧ h'.mode = h.mode ∧ h'.Coherent := by
  obtain ⟨hk, hr⟩ := hc.prepare f scale
  have hnew := ((coherent_new h.mode).prepare f scale).2
  have hcoherent : ∀ s : Glyph.Progress,
      { h.prepare f scale with scratch := s.scratch : Hinter }.Reflects (h.keyFor f scale) →
      { h.prepare f scale with scratch := s.scratch : Hinter }.Coherent := by
    intro s hs k hk'
    cases hk.symm.trans hk'
    exact hs
  obtain ⟨g, s, t, hx, hy, hst⟩ | ⟨e, s, t, hx, hy, hst⟩ := (hr.load_alike hnew f scale i).cases
  · rw [load_of_ok hx, load_of_ok hy]
    exact ⟨rfl, _, rfl, mode_prepare h f scale, hcoherent s hst.1⟩
  · rw [load_of_error hx, load_of_error hy]
    exact ⟨rfl, _, rfl, mode_prepare h f scale, hcoherent s hst.1⟩

end Hinter

/-! ### After any history -/

/-- A buffer and a hinter with which one glyph after the other is loaded. -/
structure Loader where
  buffer : GlyphBuffer
  hinter : BufferedHinter

namespace Loader

/-- Loads a glyph, with or without the hinter, and shows it. -/
def load (l : Loader) (f : Font) (scale : Int32) (i : UInt16) (hinted : Bool) :
    FontM GlyphView × Loader :=
  let (result, buffer, hinter?) := l.buffer.load f scale i (if hinted then some l.hinter else none)
  (result.map fun _ => buffer.view, ⟨buffer, hinter?.getD l.hinter⟩)

inductive Task where
  | setMode (mode : Mode)
  | load (f : Font) (scale : Int32) (i : UInt16) (hinted : Bool)

def perform (l : Loader) : Task → Loader
  | .setMode mode => { l with hinter := { l.hinter with mode } }
  | .load f scale i hinted => (l.load f scale i hinted).2

/-- A new buffer, with memory for `room` points, and a new hinter. -/
def new (room : Nat) (mode : Mode) : Loader where
  buffer := { cells := Array.replicate room {} }
  hinter := { mode }

/-- A buffer and a hinter that were new and have been used. -/
def after (room : Nat) (mode : Mode) (history : List Task) : Loader :=
  history.foldl perform (new room mode)

/-- The mode after a task, if it was `mode` before. -/
def Task.mode (mode : Mode) : Task → Mode
  | .setMode mode' => mode'
  | .load .. => mode

def lastMode (mode : Mode) (history : List Task) : Mode := history.foldl Task.mode mode

variable {l : Loader}

structure Ready (l : Loader) (mode : Mode) : Prop where
  coherent : l.hinter.toHinter.Coherent
  mode_eq : l.hinter.mode = mode

variable {mode : Mode}

/-- What is loaded depends on the mode only, whatever the buffer holds. -/
theorem Ready.load_eq (h : l.Ready mode) (f : Font) (scale : Int32) (i : UInt16) (hinted : Bool) :
    (l.load f scale i hinted).1 =
      (Glyph.load f scale i (if hinted then some { mode } else none)).1.map Glyph.view := by
  cases hinted with
  | false => exact (l.buffer.load_eq f scale i none).1
  | true =>
    have hbuffer := (l.buffer.load_eq f scale i (some l.hinter)).1
    rw [Option.map_some, (h.coherent.load f scale i).1, h.mode_eq] at hbuffer
    exact hbuffer

theorem Ready.perform (h : l.Ready mode) (t : Task) : (l.perform t).Ready (t.mode mode) := by
  cases t with
  | setMode mode' => exact ⟨h.coherent.withMode mode', rfl⟩
  | load f scale i hinted =>
    cases hinted with
    | false =>
      have hnone : (l.buffer.load f scale i none).2.2 = none := by
        unfold GlyphBuffer.load
        dsimp only
        split <;> rfl
      have hhinter : (l.perform (.load f scale i false)).hinter = l.hinter :=
        congrArg (Option.getD · l.hinter) hnone
      refine ⟨?_, ?_⟩
      · rw [hhinter]
        exact h.coherent
      · rw [hhinter]
        exact h.mode_eq
    | true =>
      obtain ⟨-, h', hload, hmode, hcoherent⟩ := h.coherent.load f scale i
      have hsame := (l.buffer.load_eq f scale i (some l.hinter)).2
      rw [Option.map_some, hload] at hsame
      obtain ⟨h'', hsome, rfl⟩ := Option.map_eq_some_iff.1 hsame
      have hhinter : (l.perform (.load f scale i true)).hinter = h'' :=
        congrArg (Option.getD · l.hinter) hsome
      refine ⟨?_, ?_⟩
      · rw [hhinter]
        exact hcoherent
      · rw [hhinter]
        exact hmode.trans h.mode_eq

theorem ready_new (room : Nat) (mode : Mode) : (new room mode).Ready mode :=
  ⟨Hinter.coherent_new mode, rfl⟩

theorem Ready.foldl (h : l.Ready mode) (history : List Task) :
    (history.foldl Loader.perform l).Ready (lastMode mode history) := by
  induction history generalizing l mode with
  | nil => exact h
  | cons t history ih => exact ih (h.perform t)

/-- A glyph comes out the same after any history: as from a new buffer with a new hinter, and as if
it were loaded anew. -/
theorem load_after_history (room room' : Nat) (mode : Mode) (history : List Task) (f : Font)
    (scale : Int32) (i : UInt16) (hinted : Bool) :
    ((after room mode history).load f scale i hinted).1 =
        ((new room' (lastMode mode history)).load f scale i hinted).1 ∧
      ((after room mode history).load f scale i hinted).1 =
        (Glyph.load f scale i (if hinted then some { mode := lastMode mode history } else none)).1.map
          Glyph.view := by
  have hused := ((ready_new room mode).foldl history).load_eq f scale i hinted
  have hnew := (ready_new room' (lastMode mode history)).load_eq f scale i hinted
  exact ⟨hused.trans hnew.symm, hused⟩

end Loader

end GridFit
