import GridFit.Proofs.Glyph.Buffer
import GridFit.Proofs.Glyph.Flattening

/-!
# Calls of the interpreter while a glyph is loaded

Loading a glyph in place brings its contours together in the buffer (`gather`), adds the phantom
points and scales what is not scaled yet (`stage`), and then hints the points of the glyph if there is
a program to do so. `Calls ctx depth i offset rounds s k` says that adding glyph `i` comes to the call
`k` of `hint`, for its own points or for those of a component, and `HintCall.outline` is what such a
call hands to the interpreter. Nothing else reaches the interpreter: two instances that hint these
outlines alike add the glyph alike (`add_congr`).

At a call the buffer holds the contours of what was added before, and then those of the glyph with its
phantom points (`Calls.at`).
-/

namespace GridFit

namespace Glyph

variable {ctx : Context} {depth : Nat} {i : UInt16} {offset : Point} {rounds : Bool}
  {r : GlyphRecord} {s s' : Progress} {d : Draft}

/-- Brings the contours of a glyph together. -/
def assemble (ctx : Context) (depth : Nat) (offset : Point) (rounds : Bool) (r : GlyphRecord) :
    LoadM Draft :=
  match r.shape with
  | .simple g =>
    pure ⟨r.bounds, Placing.contours ⟨ctx.factor, offset, rounds⟩ g.points g.ends, g.program, false,
      none⟩
  | .compound g => do
    let pieces ← loadComponents ctx depth offset g.components
    let program ← ofFont g.rest
    return ⟨r.bounds, .join (pieces.map (·.2.contours)), program, true, metricsOrigin pieces⟩

theorem assemble_ok (hr : ctx.font.record i = .ok r) :
    assemble ctx depth offset rounds r s = .ok d s' ↔
      Assembled ctx depth i offset rounds s d s' := by
  unfold assemble
  refine ⟨fun h => ?_, fun h => ?_⟩
  · cases hg : r.shape with
    | simple g =>
      rw [hg] at h
      cases h
      exact .simple hr hg
    | compound g =>
      rw [hg] at h
      obtain ⟨pieces, s₁, hpieces, h₁⟩ := exists_of_bind_ok h
      obtain ⟨program, hprogram, h₂⟩ := exists_of_bind_ofFont h₁
      cases h₂
      obtain ⟨hmap, hl⟩ := loadComponents_ok.1 hpieces
      exact .compound hr hg hmap hl hprogram
  · cases h with
    | simple hr' hg =>
      cases hr.symm.trans hr'
      rw [hg]
      rfl
    | compound hr' hg hmap hl hprogram =>
      cases hr.symm.trans hr'
      rw [hg]
      exact (bind_of_ok (loadComponents_ok.2 ⟨hmap, hl⟩)).trans (bind_ofFont hprogram _ _)

end Glyph

namespace GlyphBuffer

open Glyph (Placing Context)

/-! ### The steps of loading -/

/-- What is known of a glyph when its contours have been brought together in the buffer. Its points
from `first` on are in font units. -/
structure Gathered where
  first : Nat
  program : Bytes
  composite : Bool
  origin? : Option Int32

/-- Brings the contours of a glyph together, with room for its phantom points. -/
def gather (ctx : Context) (depth : Nat) (offset : Point) (r : GlyphRecord) : BufferM Gathered := do
  let before ← buffer
  match r.shape with
  | .simple g =>
    onBuffer (·.addSimple g)
    return ⟨before.count, g.program, false, none⟩
  | .compound g =>
    let origin? ← g.components.foldlM (addComponent ctx depth offset) none
    let program ← ofFont g.rest
    let n := (← buffer).count
    onBuffer fun b => return b.resize (n + Phantom.count)
    return ⟨n, program, true, origin?⟩

/-- Sets the phantom points of a glyph, and scales the points from `first` on. -/
def stage (ctx : Context) (i : UInt16) (bounds : Bounds) (t : Placing) (first : Nat) :
    BufferM Unit := do
  let metric ← ofFont (ctx.font.hmetric i)
  onBuffer (·.setPhantoms (Glyph.phantoms bounds metric))
  onBuffer (·.place t first)

/-- Takes the metrics of a glyph from its phantom points, which are dropped. -/
def measure (bounds : Bounds) (t : Placing) (origin? : Option Int32) : BufferM Metrics := do
  let b ← buffer
  let n := b.count - Phantom.count
  let left ← ofFont (FontM.elementAt b.cells n)
  let right ← ofFont (FontM.elementAt b.cells (n + 1))
  onBuffer (·.truncate n)
  return {
    origin := origin?.getD (left.x - t.scaledOffset.x)
    advance := right.x - left.x
    bounds }

theorem finish_eq (ctx : Context) (i : UInt16) (bounds : Bounds) (t : Placing)
    (start firstEnd first : Nat) (program : Bytes) (composite : Bool) (origin? : Option Int32) :
    finish ctx i bounds t start firstEnd first program composite origin? = (do
      stage ctx i bounds t first
      hintWith ctx.hinting i program composite start firstEnd
      measure bounds t origin?) := by
  simp only [finish, stage, measure, bind_assoc]

/-- A glyph is hinted after it has been gathered and staged. -/
theorem add_succ (ctx : Context) (depth : Nat) (i : UInt16) (offset : Point) (rounds : Bool) :
    add ctx (depth + 1) i offset rounds = (do
      let r ← ofFont (ctx.font.record i)
      let before ← buffer
      let a ← gather ctx depth offset r
      let t : Placing := ⟨ctx.factor, offset, rounds⟩
      stage ctx i r.bounds t a.first
      hintWith ctx.hinting i a.program a.composite before.count before.ends.size
      measure r.bounds t a.origin?) := by
  show (ofFont (ctx.font.record i) >>= fun r => _) = _
  congr 1
  funext r
  simp only [← finish_eq]
  funext s
  have hbuffer : buffer s = .ok s.buffer s := rfl
  refine (bind_of_ok hbuffer).trans (.symm ((bind_of_ok hbuffer).trans ?_))
  unfold gather
  cases r.shape with
  | simple g =>
    rw [bind_assoc, bind_of_ok hbuffer]
    simp only [bind_assoc, pure_bind]
  | compound g =>
    rw [bind_assoc, bind_of_ok hbuffer]
    simp only [bind_assoc, pure_bind]
    rfl

variable {ctx : Context} {depth n : Nat} {i : UInt16} {offset : Point} {rounds : Bool}
  {r : GlyphRecord} {c : Contours} {d : Glyph.Draft} {s s₁ s₂ : Bench}

namespace Matches

variable {α β : Type} {q : α → β → Bench → Prop}

theorem ok_left {a : α} {r : EStateM.Result FontError Glyph.Progress β}
    (h : Matches q (.ok a s) r) : ∃ b, r = .ok b s.progress ∧ q a b s := by
  cases r with
  | ok b t =>
    obtain ⟨hq, rfl⟩ := h
    exact ⟨b, rfl, hq⟩
  | error e t => exact h.elim

theorem ok_right {r : EStateM.Result FontError Bench α} {b : β} {t : Glyph.Progress}
    (h : Matches q r (.ok b t)) : ∃ a s, r = .ok a s ∧ q a b s := by
  cases r with
  | ok a s => exact ⟨a, s, rfl, h.1⟩
  | error e s => exact h.elim

end Matches

theorem exists_of_ofFont_ok {α : Type} {x : FontM α} {a : α} (h : ofFont x s = .ok a s₁) :
    x = .ok a := by
  cases x with
  | ok b =>
    cases h
    rfl
  | error e => cases h

/-- After the contours `c` the buffer holds what the draft `d` of a glyph consists of, and it is staged
from `a.first` on. -/
structure Gathers (c : Contours) (t : Placing) (r : GlyphRecord) (a : Gathered) (d : Glyph.Draft)
    (s : Bench) : Prop where
  parts : ∃ (pre : Contours) (raw room : Array GlyphPoint) (ends : Array Nat),
    s.buffer.HoldsRaw pre (raw ++ room) ends ∧ room.size = Phantom.count ∧
      a.first = pre.points.size ∧ ∀ m,
        pre.append (t.contours (raw ++ Glyph.phantoms d.bounds m) ends) =
          c.append (d.withPhantoms t m)
  bounds : d.bounds = r.bounds
  program : a.program = d.program
  composite : a.composite = d.composite

theorem gather_matches (h : s.buffer.Holds c) (r : GlyphRecord) :
    Matches (Gathers c ⟨ctx.factor, offset, rounds⟩ r) (gather ctx depth offset r s)
      (Glyph.assemble ctx depth offset rounds r s.progress) := by
  refine .step (x := buffer) rfl ?_
  unfold Glyph.assemble
  cases r.shape with
  | simple g =>
    obtain ⟨b, room, hadd, hraw, hroom, he⟩ := addSimple_ok h g
    refine .step (onBuffer_ok hadd) ?_
    refine ⟨⟨⟨c, g.points, room, g.ends, hraw, hroom, h.count, fun m => ?_⟩, rfl, rfl, rfl⟩, ?_⟩
    · rw [contours_append]
      rfl
    · rw [Bench.progress, Bench.progress, he]
  | compound g =>
    refine (addComponents_matches (fun k h => add_matches ctx depth k.glyph _ _ h) g.components none
      h).bind fun o pieces s₁ hpieces _ => ?_
    refine .ofFont_bind fun program _ => ?_
    refine .step (x := buffer) rfl ?_
    obtain ⟨room, hraw, hroom⟩ := resize_holdsRaw hpieces.1
    refine .step (onBuffer_ok rfl) ?_
    have hempty : #[] ++ room = room := Array.empty_append
    rw [← hempty] at hraw
    refine ⟨⟨⟨_, #[], room, #[], hraw, hroom, hpieces.1.count, fun m => ?_⟩, rfl, rfl, rfl⟩, rfl⟩
    rw [Array.empty_append, Contours.append_assoc]
    rfl

theorem stage_ok {t : Placing} {a : Gathered} {m : HMetric} (hg : Gathers c t r a d s)
    (hm : ctx.font.hmetric i = .ok m) :
    ∃ b, stage ctx i r.bounds t a.first s = .ok () { s with buffer := b } ∧
      b.Holds (c.append (d.withPhantoms t m)) := by
  obtain ⟨pre, raw, room, ends, hraw, hroom, hfirst, happend⟩ := hg.parts
  rw [← hg.bounds]
  obtain ⟨b₁, h₁, hset, -⟩ := setPhantoms_ok hraw hroom (Glyph.phantoms d.bounds m) rfl
  obtain ⟨b₂, h₂, hplaced, -⟩ := place_ok hset t
  rw [happend m] at hplaced
  refine ⟨b₂, ?_, hplaced⟩
  rw [hfirst]
  refine (bind_of_ok (ofFont_ok hm s)).trans ((bind_of_ok (onBuffer_ok h₁)).trans ?_)
  exact onBuffer_ok (s := { s with buffer := b₁ }) h₂

theorem ofFont_bind_congr {α β : Type} {x : FontM α} {f g : α → BufferM β}
    (h : ∀ a, x = .ok a → f a s = g a s) : (ofFont x >>= f) s = (ofFont x >>= g) s := by
  cases x with
  | ok a => exact h a rfl
  | error e => rfl

/-! ### Calls -/

/-- A call of `hint` for a glyph the points of which start at `start`, and the contours with number
`firstEnd`. -/
structure HintCall where
  glyph : UInt16
  program : Bytes
  composite : Bool
  start : Nat
  firstEnd : Nat
  bench : Bench

namespace HintCall

variable {k : HintCall} {o : Outline}

def run (k : HintCall) (inst : Instance) : EStateM.Result FontError Bench Unit :=
  hint inst k.glyph k.program k.composite k.start k.firstEnd k.bench

/-- The contour ends of the glyph. Like all ends in the buffer they count its points from its first
one. -/
def ends (k : HintCall) : Array Nat :=
  k.bench.buffer.ends.extract k.firstEnd k.bench.buffer.ends.size

/-- The number of points of the glyph, without the phantom points. -/
def pointCount (k : HintCall) : Nat := k.bench.buffer.count - k.start - Phantom.count

/-- The outline that is hinted. -/
def outline (k : HintCall) : FontM Outline := do
  let b := k.bench.buffer
  let points ← Memory.slice b.cells k.start b.count
  let units ← Memory.slice b.units k.start b.count
  let ends ← Memory.slice b.ends k.firstEnd b.ends.size
  let rounded ← Glyph.roundPhantoms points
  let contours := ends.map fun e => UInt16.ofNat (e - k.start - 1)
  return (k.bench.outlines.fill rounded units).outline points.size k.glyph k.program k.composite
    contours

/-- A call asks the instance to hint this outline, and nothing else. -/
theorem run_congr {inst inst' : Instance}
    (h : ∀ o, k.outline = .ok o → inst.hint o k.bench.scratch = inst'.hint o k.bench.scratch) :
    k.run inst = k.run inst' := by
  unfold run hint
  rw [bind_of_ok (x := buffer) (s := k.bench) rfl, bind_of_ok (x := buffer) (s := k.bench) rfl]
  refine ofFont_bind_congr fun points hpoints => ofFont_bind_congr fun units hunits =>
    ofFont_bind_congr fun ends hends => ofFont_bind_congr fun rounded hrounded =>
    ofFont_bind_congr fun cells _ => ?_
  have hget : (get : BufferM Bench) k.bench = .ok k.bench k.bench := rfl
  rw [bind_of_ok hget, bind_of_ok hget, bind_of_ok hget, bind_of_ok hget, h _ ?_]
  simp only [outline, hpoints, hunits, hends, hrounded, FontM.ok_bind]
  rfl

end HintCall

/-- Adding glyph `i` to the buffer calls `hint` as `k` says, for the glyph itself or for one of its
components. -/
inductive Calls (ctx : Context) : Nat → UInt16 → Point → Bool → Bench → HintCall → Prop
  | own {depth : Nat} {i : UInt16} {offset : Point} {rounds : Bool} {r : GlyphRecord} {a : Gathered}
      {s s₁ s₂ : Bench} {inst : Instance} : ctx.font.record i = .ok r →
      gather ctx depth offset r s = .ok a s₁ →
      stage ctx i r.bounds ⟨ctx.factor, offset, rounds⟩ a.first s₁ = .ok () s₂ →
      ctx.hinting = some inst → a.program.isEmpty = false →
      Calls ctx (depth + 1) i offset rounds s
        ⟨i, a.program, a.composite, s.buffer.count, s.buffer.ends.size, s₂⟩
  | component {depth : Nat} {i : UInt16} {offset : Point} {rounds : Bool} {r : GlyphRecord}
      {g : Compound} {before after : List Component} {j : Component} {s s₁ : Bench}
      {origin? : Option Int32} {k : HintCall} : ctx.font.record i = .ok r → r.shape = .compound g →
      g.components = before ++ j :: after →
      before.foldlM (addComponent ctx depth offset) none s = .ok origin? s₁ →
      Calls ctx depth j.glyph (offset + j.offset) j.roundsOffset s₁ k →
      Calls ctx (depth + 1) i offset rounds s k

theorem gather_congr {ctx' : Context} (h : ∀ g before j after origin? s₁, r.shape = .compound g →
      g.components = before ++ j :: after →
      before.foldlM (addComponent ctx depth offset) none s = .ok origin? s₁ →
      add ctx depth j.glyph (offset + j.offset) j.roundsOffset s₁ =
        add ctx' depth j.glyph (offset + j.offset) j.roundsOffset s₁) :
    gather ctx depth offset r s = gather ctx' depth offset r s := by
  unfold gather
  refine bind_congr_at rfl fun _ _ hbuffer => ?_
  cases hbuffer
  cases hg : r.shape with
  | simple g => rfl
  | compound g =>
    refine bind_congr_at ?_ fun _ _ _ => rfl
    refine foldlM_congr_at fun before j after origin? s₁ hcomponents hbefore => ?_
    exact bind_congr_at (h g before j after origin? s₁ hg hcomponents hbefore) fun _ _ _ => rfl

theorem hintWith_congr {inst inst' : Instance} {program : Bytes} {composite : Bool}
    {start firstEnd : Nat}
    (h : program.isEmpty = false → hint inst i program composite start firstEnd s =
      hint inst' i program composite start firstEnd s) :
    hintWith (some inst) i program composite start firstEnd s =
      hintWith (some inst') i program composite start firstEnd s := by
  unfold hintWith
  dsimp only
  by_cases hp : program.isEmpty
  · rw [if_pos hp, if_pos hp]
  · rw [if_neg hp, if_neg hp]
    exact h (Bool.not_eq_true _ ▸ hp)

/-- The instance matters to a glyph only by how it hints the outlines of the calls: one that hints them
in the same way adds the same glyph to the buffer. -/
theorem add_congr {inst inst' : Instance} (hi : ctx.hinting = some inst)
    (h : ∀ k, Calls ctx depth i offset rounds s k → ∀ o, k.outline = .ok o →
      inst.hint o k.bench.scratch = inst'.hint o k.bench.scratch) :
    add ctx depth i offset rounds s =
      add { ctx with hinting := some inst' } depth i offset rounds s := by
  induction depth generalizing i offset rounds s with
  | zero => rfl
  | succ depth ih =>
    rw [add_succ, add_succ]
    refine ofFont_bind_congr fun r hr => ?_
    have hbuffer : buffer s = .ok s.buffer s := rfl
    rw [bind_of_ok hbuffer, bind_of_ok hbuffer]
    have hgather : gather ctx depth offset r s =
        gather { ctx with hinting := some inst' } depth offset r s := by
      refine gather_congr fun g before j after origin? s₁ hg hcomponents hbefore => ih ?_
      exact fun k hk => h k (.component hr hg hcomponents hbefore hk)
    refine bind_congr_at hgather fun a s₁ ha => ?_
    dsimp only
    refine bind_congr_at (Eq.refl (stage ctx i r.bounds ⟨ctx.factor, offset, rounds⟩ a.first s₁)) ?_
    intro _ s₂ hs
    refine bind_congr_at ?_ fun _ _ _ => rfl
    rw [hi]
    refine hintWith_congr fun hp => ?_
    have hk := h _ (.own hr ha hs hi hp)
    exact HintCall.run_congr hk

/-- Loading glyph `i` into the buffer calls `hint` as `k` says. These calls are all that the hinter
does for the glyph (`add_congr`). -/
def LoadCalls (b : GlyphBuffer) (f : Font) (scale : Int32) (i : UInt16) (h : BufferedHinter)
    (k : HintCall) : Prop :=
  Calls (Glyph.contextFor f scale (some h.toHinter)) Glyph.maxDepth i {} false
    ⟨b.reset, h.outlines, (h.prepare f scale).scratch⟩ k

/-- At the call `k` the buffer holds the contours `c` of what was added before, and after them those
of a glyph of which `d` is the draft. -/
structure HintCall.At (k : HintCall) (c : Contours) (d : Glyph.Draft) (t : Placing) (m : HMetric) :
    Prop where
  holds : k.bench.buffer.Holds (c.append (d.withPhantoms t m))
  start : k.start = c.points.size
  firstEnd : k.firstEnd = c.ends.size
  program : k.program = d.program
  composite : k.composite = d.composite

theorem Calls.at {k : HintCall} (hk : Calls ctx depth i offset rounds s k)
    (h : s.buffer.Holds c) : ∃ c d t m, k.At c d t m ∧
      ∃ depth j offset rounds s₁ s₂, Glyph.Assembled ctx depth j offset rounds s₁ d s₂ := by
  induction hk generalizing c with
  | @own depth i offset rounds r a s s₁ s₂ inst hr hgather hstage _ _ =>
    have hmatches : Matches (Gathers c ⟨ctx.factor, offset, rounds⟩ r)
        (gather ctx depth offset r s) _ := gather_matches h r
    rw [hgather] at hmatches
    obtain ⟨d, hd, hg⟩ := hmatches.ok_left
    obtain ⟨m, _, hm, -⟩ := exists_of_bind_ok hstage
    obtain ⟨b, hb, hholds⟩ := stage_ok hg (exists_of_ofFont_ok hm)
    rw [hb] at hstage
    cases hstage
    refine ⟨c, d, _, m, ⟨hholds, h.count, congrArg Array.size h.ends, hg.program, hg.composite⟩, ?_⟩
    exact ⟨_, _, _, _, _, _, (Glyph.assemble_ok hr).1 hd⟩
  | @component depth i offset rounds r g before after j s s₁ origin? k hr hg hcomponents hbefore _ ih =>
    have hmatches : Matches _ (before.foldlM (addComponent ctx depth offset) none s) _ :=
      addComponents_matches (fun k h => add_matches ctx depth k.glyph _ _ h) before none h
    rw [hbefore] at hmatches
    obtain ⟨pieces, -, hpieces⟩ := hmatches.ok_left
    exact ih hpieces.1

/-- A glyph whose contours can be brought together calls `hint`, if it has a program and there is an
instance to run it. -/
theorem exists_calls {m : HMetric} {inst : Instance} {t : Glyph.Progress} (h : s.buffer.Holds c)
    (hr : ctx.font.record i = .ok r)
    (ha : Glyph.Assembled ctx depth i offset rounds s.progress d t)
    (hm : ctx.font.hmetric i = .ok m) (hi : ctx.hinting = some inst)
    (hp : d.program.isEmpty = false) :
    ∃ k, Calls ctx (depth + 1) i offset rounds s k ∧
      k.At c d ⟨ctx.factor, offset, rounds⟩ m := by
  have hmatches : Matches (Gathers c ⟨ctx.factor, offset, rounds⟩ r)
      (gather ctx depth offset r s) _ := gather_matches h r
  rw [(Glyph.assemble_ok hr).2 ha] at hmatches
  obtain ⟨a, s₁, hgather, hg⟩ := hmatches.ok_right
  obtain ⟨b, hb, hholds⟩ := stage_ok hg hm
  rw [← hg.program] at hp
  exact ⟨_, .own hr hgather hb hi hp,
    ⟨hholds, h.count, congrArg Array.size h.ends, hg.program, hg.composite⟩⟩

end GlyphBuffer

end GridFit
