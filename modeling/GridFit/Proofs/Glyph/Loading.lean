import GridFit.Glyph.Load
import GridFit.Proofs.Font.Tables
import GridFit.Proofs.Glyph.Record
import GridFit.Proofs.Independence

/-!
# Loading glyphs of parsed fonts

A glyph of a parsed font is loaded without breaches, at any scale and with or without a hinter
(`Font.parse_safe`). The tables of the font are large enough, so reading is safe. The contours that
are hinted end with the four phantom points and have their points in three arrays of one size.
Hinting changes no sizes, so what it has hinted can be taken over point by point. A program that
fails does so with a declared fault.
-/

namespace GridFit

/-! ### Hinting keeps sizes -/

def HintError.IsDeclared (e : HintError) : Prop := ∃ f, e = .failed f ∧ f.fault.IsDeclared

namespace Configuration

variable {c : Configuration} {s : Snapshot} {o : Outline}

theorem hint_declared (hs : c.outcome = .ok s) {sc? : Option Scratch} {e : HintError}
    (he : (s.hint o sc?).error = some e) : e.IsDeclared := by
  refine Snapshot.hint_declared (n := Machine.glyphSize c.source o)
    (fun ho sc hf => Source.ready_snapshot hs ho sc hf) (fun ho => ?_) he
  exact ((Outline.isConsistent_iff o).1 ho).1

theorem size_hint (hs : c.outcome = .ok s) (ho : o.isConsistent) (sc? : Option Scratch) :
    (s.hint o sc?).outline.points.size = o.points.size ∧
      (s.hint o sc?).outline.flags.size = o.points.size := by
  have hflags := ((Outline.isConsistent_iff o).1 ho).2.2.1
  unfold Snapshot.hint
  rw [dif_pos ho]
  cases sc? with
  | none => exact ⟨rfl, hflags⟩
  | some sc =>
    dsimp only
    by_cases hf : sc.Fits s.sizes
    · have hr := Machine.ready_run (Machine.glyphSize c.source o) .glyph
      have hm := Source.ready_snapshot hs ho sc hf
      obtain ⟨m, hm, hp, hfl⟩ := Snapshot.outline_run (Outline.count_le_scaled ho) hf
        (hr.stop _ (hr.restart _ hm)) (hr.run hm).anything
      rw [dif_pos hf, hp, hfl]
      exact ⟨hm.glyph.points, hm.glyph.flags⟩
    · rw [dif_neg hf]
      exact ⟨rfl, hflags⟩

end Configuration

/-- The instance has been configured with success. -/
def Instance.Configured (i : Instance) : Prop :=
  ∃ s, i.snapshot = some s ∧ ∃ c : Configuration, c.outcome = .ok s

/-! ### Steps of loading -/

namespace Glyph

/-- No program has failed but with a declared fault. -/
def Progress.Declared (s : Progress) : Prop := ∀ e ∈ s.hintError, e.IsDeclared

/-- The step ends with a value that has `post` or with an error other than a breach, and programs
fail with declared faults only. -/
def Loads {α : Type} (x : LoadM α) (post : α → Prop) : Prop :=
  ∀ s : Progress, s.Declared → match x s with
    | .ok a s' => post a ∧ s'.Declared
    | .error e s' => e ≠ .breach ∧ s'.Declared

namespace Loads

variable {α β : Type} {x : LoadM α} {f : α → LoadM β} {p : α → Prop} {q : β → Prop}

protected theorem pure {a : α} (h : p a) : Loads (pure a) p := fun _ hs => ⟨h, hs⟩

protected theorem get : Loads (get : LoadM Progress) Progress.Declared := fun _ hs => ⟨hs, hs⟩

theorem bind (hx : Loads x p) (hf : ∀ a, p a → Loads (f a) q) : Loads (x >>= f) q := by
  intro s hs
  have h := hx s hs
  show match EStateM.bind x f s with | .ok a s' => _ | .error e s' => _
  unfold EStateM.bind
  cases hr : x s with
  | ok a s' =>
    rw [hr] at h
    exact hf a h.1 s' h.2
  | error e s' =>
    rw [hr] at h
    exact h

theorem ofFont {x : FontM α} (h : Safely x p) : Loads (Glyph.ofFont x) p := by
  intro s hs
  cases x with
  | ok a => exact ⟨h, hs⟩
  | error e => exact ⟨h, hs⟩

theorem mapM {l : List α} (h : ∀ a ∈ l, Loads (f a) Anything) : Loads (l.mapM f) Anything := by
  induction l with
  | nil =>
    rw [List.mapM_nil]
    exact .pure trivial
  | cons a l ih =>
    rw [List.mapM_cons]
    exact (h a (by simp)).bind fun _ _ => (ih fun a ha => h a (by simp [ha])).bind fun _ _ =>
      .pure trivial

end Loads

/-! ### Hinting the points of a glyph -/

variable {c : Contours} {inst : Instance}

theorem roundPhantoms_surely {points : Array GlyphPoint} (h : Phantom.count ≤ points.size) :
    Surely (roundPhantoms points) fun rounded => rounded.size = points.size := by
  unfold roundPhantoms
  dsimp only
  rw [if_neg (Nat.not_lt.2 h)]
  show Array.size _ = _
  simp only [Array.size_modify]

theorem size_outline (i : UInt16) (program : Bytes) (composite : Bool) {rounded : Array GlyphPoint}
    (hr : rounded.size = c.points.size) :
    (outline i program composite c rounded).points.size = c.points.size :=
  Array.size_map.trans hr

theorem isConsistent_outline (i : UInt16) (program : Bytes) (composite : Bool)
    {rounded : Array GlyphPoint} (h : Phantom.count ≤ c.points.size)
    (hr : rounded.size = c.points.size) : (outline i program composite c rounded).isConsistent := by
  rw [Outline.isConsistent_iff, size_outline i program composite hr]
  refine ⟨h, Array.size_map.trans hr, Array.size_map, fun u hu => ?_⟩
  cases hu
  exact Array.size_map.trans c.size_units

theorem hintedPoints_surely {points : Array GlyphPoint} {o : Outline}
    (h : Phantom.count ≤ points.size) (hp : o.points.size = points.size)
    (hf : o.flags.size = points.size) : Surely (hintedPoints points o) Anything := by
  unfold hintedPoints
  dsimp only
  rw [dif_pos ⟨h, by omega, by omega⟩]
  trivial

theorem loads_hint (hi : inst.Configured) (i : UInt16) (program : Bytes) (composite : Bool)
    (h : Phantom.count ≤ c.points.size) :
    Loads (hint inst i program composite c) fun c' => c'.points.size = c.points.size := by
  obtain ⟨s, hs, cfg, hc⟩ := hi
  refine (Loads.ofFont (roundPhantoms_surely h).safely).bind fun rounded hr =>
    Loads.get.bind fun progress _ => ?_
  -- The outline is consistent, so its arrays keep their sizes whatever the program does.
  have ho := isConsistent_outline i program composite h hr
  have hsize := Configuration.size_hint hc ho progress.scratch
  rw [size_outline i program composite hr] at hsize
  have hh : inst.hint (outline i program composite c rounded) progress.scratch =
      s.hint (outline i program composite c rounded) progress.scratch := by
    rw [Instance.hint, hs]
  rw [hh]
  dsimp only
  cases he : (s.hint (outline i program composite c rounded) progress.scratch).error with
  | none =>
    refine Loads.bind (p := Anything) (fun s hs => ⟨trivial, hs⟩) fun _ _ => ?_
    exact (Loads.ofFont (hintedPoints_surely h hsize.1 hsize.2).safely).bind fun ⟨_, hp⟩ _ => .pure hp
  | some e =>
    have hd : e.IsDeclared := Configuration.hint_declared hc he
    refine Loads.bind (p := Anything) (fun s hs => ⟨trivial, fun e' h' => ?_⟩) fun _ _ =>
      .pure c.size_unhinted
    cases h'
    exact hd

theorem loads_hintWith {hinting : Option Instance} (hi : ∀ inst ∈ hinting, inst.Configured)
    (i : UInt16) (program : Bytes) (composite : Bool) (h : Phantom.count ≤ c.points.size) :
    Loads (hintWith hinting i program composite c) fun c' => c'.points.size = c.points.size := by
  cases hinting with
  | none => exact .pure rfl
  | some inst =>
    unfold hintWith
    dsimp only
    split
    · exact .pure rfl
    · exact loads_hint (hi inst rfl) i program composite h

/-! ### Pieces -/

/-- A context with a parsed font and an instance that has been configured. -/
structure Context.Valid (ctx : Context) : Prop where
  font : ctx.font.Ample
  hinting : ∀ inst ∈ ctx.hinting, inst.Configured

variable {ctx : Context}

theorem size_append_phantoms (body : Contours) (t : Placing) (b : Bounds) (m : HMetric) :
    (body.append (t.contours (phantoms b m) #[])).points.size = body.points.size + Phantom.count := by
  show (body.points ++ (phantoms b m).map t.scaled).size = _
  rw [Array.size_append, Array.size_map]
  rfl

theorem loads_finish (hv : ctx.Valid) (i : UInt16) (bounds : Bounds) (t : Placing) (body : Contours)
    (program : Bytes) (composite : Bool) (origin? : Option Int32) :
    Loads (finish ctx i bounds t body program composite origin?) Anything := by
  refine (Loads.ofFont (hv.font.hmetric_surely i).safely).bind fun metric _ => ?_
  have hsize := size_append_phantoms body t bounds metric
  refine (loads_hintWith hv.hinting i program composite (by omega)).bind fun c hc => ?_
  have hn : body.points.size + 4 = c.points.size := (hc.trans hsize).symm
  exact (Loads.ofFont (yields_elementAt (by omega))).bind fun _ _ =>
    (Loads.ofFont (yields_elementAt (by omega))).bind fun _ _ => .pure trivial

/-- Components may refer to each other in a circle: the depth ends the recursion. -/
theorem loads_loadPiece (hv : ctx.Valid) (depth : Nat) (i : UInt16) (offset : Point) (rounds : Bool) :
    Loads (loadPiece ctx depth i offset rounds) Anything := by
  induction depth generalizing i offset rounds with
  | zero => exact fun _ hs => ⟨nofun, hs⟩
  | succ depth ih =>
    rw [loadPiece]
    have hread : Safely (do GlyphRecord.read (← ctx.font.glyphData i)) fun r => r.shape.Readable :=
      (hv.font.glyphData_safely i).bind fun d _ => GlyphRecord.read_safely d
    refine (Loads.ofFont hread).bind fun record hr => ?_
    dsimp only
    split
    · exact loads_finish hv i _ _ _ _ _ _
    · rename_i g hg
      rw [hg] at hr
      refine (Loads.mapM fun c _ => ?_).bind fun pieces _ => (Loads.ofFont hr).bind fun program _ => ?_
      · exact (ih c.glyph _ _).bind fun _ _ => .pure trivial
      · exact loads_finish hv i _ _ _ _ _ _

theorem loads_loadWith {f : Font} (hf : f.Ample) (hinting : Option Instance)
    (hi : ∀ inst ∈ hinting, inst.Configured) (scale : Int32) (i : UInt16) :
    Loads (loadWith f scale i hinting) fun g => ∀ e ∈ g.hintError, e.IsDeclared :=
  (loads_loadPiece ⟨hf, hi⟩ maxDepth i {} false).bind fun _ _ => Loads.get.bind fun _ hs => .pure hs

end Glyph

/-! ### Hinters -/

namespace Hinter

/-- The hinters that there can be: new ones, and those that have been given another mode or have
loaded a glyph. -/
inductive Used : Hinter → Prop
  | new (mode : Mode) : Used { mode }
  | withMode {h : Hinter} (mode : Mode) : Used h → Used { h with mode }
  | load {h h' : Hinter} (f : Font) (scale : Int32) (i : UInt16) : Used h →
      (Glyph.load f scale i (some h)).2 = some h' → Used h'

/-- The instance of the hinter is new or has been configured with success, and a configuration that
failed did so with a declared fault. -/
structure Sound (h : Hinter) : Prop where
  current : ∀ s ∈ h.current.snapshot, h.current.Configured
  failure : ∀ e ∈ h.failure, e.fault.IsDeclared

theorem Sound.prepare {h : Hinter} (hs : h.Sound) (f : Font) (scale : Int32) :
    (h.prepare f scale).Sound := by
  unfold Hinter.prepare
  dsimp only
  split
  · exact hs
  let c : Configuration :=
    ⟨f.source, Fixed.scaleFactor scale (Int64.ofNat f.unitsPerEm), pixels scale, h.mode, #[]⟩
  cases hc : c.outcome with
  | ok s =>
    have hr : h.current.reconfigure c.source c.scale c.ppem c.mode c.coords = (none, ⟨some s⟩) := by
      rw [Configuration.outcome] at hc
      rw [Instance.reconfigure, hc]
    rw [hr]
    refine ⟨fun _ _ => ⟨s, rfl, c, hc⟩, fun e he => ?_⟩
    cases he
  | error e =>
    have hr : h.current.reconfigure c.source c.scale c.ppem c.mode c.coords = (some e, h.current) := by
      rw [Configuration.outcome] at hc
      rw [Instance.reconfigure, hc]
    rw [hr]
    refine ⟨hs.current, fun e' he => ?_⟩
    cases he
    exact Fault.isDeclared ((Machine.ready_invariant _).allowed_fault
      (Machine.ready_machine c.source c.scale c.ppem c.mode c.coords) hc)

theorem load_eq (f : Font) (scale : Int32) (i : UInt16) (h : Hinter) :
    ∃ sc?, (Glyph.load f scale i (some h)).2 = some { h.prepare f scale with scratch := sc? } := by
  unfold Glyph.load
  dsimp only [Option.map_some]
  split
  · exact ⟨_, rfl⟩
  · exact ⟨_, rfl⟩

theorem Sound.withScratch {h : Hinter} (hs : h.Sound) (sc? : Option Scratch) :
    { h with scratch := sc? : Hinter }.Sound :=
  ⟨hs.current, hs.failure⟩

theorem Used.sound {h : Hinter} (hu : h.Used) : h.Sound := by
  induction hu with
  | new mode => exact ⟨fun _ hs => (nomatch hs), fun _ he => nomatch he⟩
  | withMode mode hu ih => exact ⟨ih.current, ih.failure⟩
  | @load h h' f scale i hu hl ih =>
    obtain ⟨sc?, he⟩ := load_eq f scale i h
    rw [he] at hl
    cases hl
    exact (ih.prepare f scale).withScratch sc?

theorem Sound.configured {h : Hinter} (hs : h.Sound) (ha : h.isActive) : h.current.Configured := by
  obtain ⟨-, he⟩ := Bool.and_eq_true_iff.1 ha
  obtain ⟨s, hsnap, -⟩ := (Option.any_eq_true _ _).1 he
  exact hs.current s hsnap

end Hinter

/-! ### Parsed fonts -/

namespace Font

variable {f : Font}

theorem Ample.load_safely (hf : f.Ample) (scale : Int32) (i : UInt16) {hinter? : Option Hinter}
    (hh : ∀ h ∈ hinter?, h.Sound) :
    Safely (Glyph.load f scale i hinter?).1 fun g => ∀ e ∈ g.hintError, e.IsDeclared := by
  unfold Glyph.load
  cases hinter? with
  | none =>
    have hl := Glyph.loads_loadWith hf none (fun _ h => nomatch h) scale i {} fun _ h => nomatch h
    dsimp only [Option.map_none]
    cases hx : Glyph.loadWith f scale i none {} with
    | ok g s =>
      rw [hx] at hl
      exact hl.1
    | error e s =>
      rw [hx] at hl
      exact hl.1
  | some h =>
    have hs := (hh h rfl).prepare f scale
    have hi : ∀ inst ∈
        (if (h.prepare f scale).isActive then some (h.prepare f scale).current else none),
        inst.Configured := by
      intro inst hi
      split at hi
      · cases hi
        exact hs.configured ‹_›
      · cases hi
    have hl := Glyph.loads_loadWith hf _ hi scale i { scratch := (h.prepare f scale).scratch }
      fun _ h => nomatch h
    dsimp only [Option.map_some]
    split
    · rename_i hx
      rw [hx] at hl
      exact hl.1
    · rename_i hx
      rw [hx] at hl
      exact hl.1

/-- Whatever is asked of the font, nothing is read out of bounds. Characters, metrics and kerning
always have an answer. The data of a glyph, a name and a loaded glyph may be refused with an error of
the format, and a glyph may come unhinted, with the declared fault of its program. -/
structure Safe (f : Font) : Prop where
  unitsPerEm : 0 < f.unitsPerEm
  index : ∀ code, ∃ g, f.index code = .ok g
  hmetric : ∀ i, ∃ m, f.hmetric i = .ok m
  kerning : ∀ left right, ∃ k, f.kerning left right = .ok k
  glyphData : ∀ i, f.glyphData i ≠ .error .breach
  nameOf : ∀ id decoder, f.nameOf id decoder ≠ .error .breach
  load : ∀ scale i hinter?, (∀ h ∈ hinter?, h.Used) →
    (Glyph.load f scale i hinter?).1 ≠ .error .breach ∧
    (∀ g, (Glyph.load f scale i hinter?).1 = .ok g → ∀ e ∈ g.hintError, e.IsDeclared) ∧
    ∀ h ∈ (Glyph.load f scale i hinter?).2, ∀ e ∈ h.failure, e.fault.IsDeclared

theorem Ample.safe (hf : f.Ample) : f.Safe where
  unitsPerEm := hf.unitsPerEm
  index code := (CharMap.glyph_surely f.charMap code).exists_ok
  hmetric i := (hf.hmetric_surely i).exists_ok
  kerning left right := (hf.kerning_surely left right).exists_ok
  glyphData i := (hf.glyphData_safely i).ne_breach
  nameOf id decoder := (Names.find_safely decoder f.name id).ne_breach
  load scale i hinter? hh := by
    have hl := hf.load_safely scale i fun h hm => (hh h hm).sound
    refine ⟨hl.ne_breach, fun g hg => hl.ok hg, fun h' hm => ?_⟩
    cases hinter? with
    | none =>
      unfold Glyph.load at hm
      dsimp only [Option.map_none] at hm
      split at hm <;> cases hm
    | some h => exact (Hinter.Used.load f scale i (hh h rfl) hm).sound.failure

/-- Every byte string is refused with an error of the format or is a font that is safe to use. -/
theorem parse_safe (file : Bytes) : Safely (parse file) Safe :=
  (ample_parse file).mono fun _ hf => hf.safe

/-- A font with two triangles (glyph 2), a segment of two characters, two kerning pairs and the name
`Tri`. -/
@[irreducible] def assorted : Bytes :=
  let pair := compoundData [[0x00, 0x22, 0, 1, 0, 0], [0x00, 0x02, 0, 1, 100, 0]]
  let kern := [0, 0, 0, 1, 0, 0, 0, 26, 0, 1, 0, 2, 0, 0, 0, 0, 0, 0] ++ [0, 1, 0, 2, 0xff, 0xf6] ++
    [0, 2, 0, 1, 0, 7]
  let cmap := [0, 0, 0, 1, 0, 0, 0, 3, 0, 0, 0, 12] ++ [0, 4, 0, 32, 0, 0, 0, 4, 0, 0, 0, 0, 0, 0] ++
    [0, 66, 0xff, 0xff] ++ [0, 0] ++ [0, 65, 0xff, 0xff] ++ [0xff, 0xc0, 0, 1] ++ [0, 0, 0, 0]
  let name := [0, 0, 0, 1, 0, 18] ++ [0, 1, 0, 0, 0, 0, 0, 1, 0, 3, 0, 0] ++ [84, 114, 105]
  sample [([], 500), (triangleData [], 500), (pair, 700)] kern cmap [([110, 97, 109, 101], name)]

theorem parse_safe_assorted : ∃ f, parse assorted = .ok f ∧ f.index 66 = .ok 2 ∧
    f.kerning 1 2 = .ok (-10) ∧ f.nameOf 1 = .ok "Tri" ∧
    (Glyph.load f 1024 2 none).1.toOption.any (·.contours.points.size = 6) ∧ f.Safe := by
  have hgood : (parse assorted).toOption.any fun f =>
      (f.index 66).toOption = some 2 ∧ (f.kerning 1 2).toOption = some (-10) ∧
        (f.nameOf 1).toOption = some "Tri" ∧
        (Glyph.load f 1024 2 none).1.toOption.any (·.contours.points.size = 6) := by
    decide +kernel
  obtain ⟨f, hf, hgood⟩ := FontM.exists_of_any hgood
  obtain ⟨hindex, hkerning, hname, hload⟩ := of_decide_eq_true hgood
  refine ⟨f, hf, ?_, ?_, ?_, hload, (parse_safe assorted).ok hf⟩
  · exact FontM.ok_of_toOption hindex
  · exact FontM.ok_of_toOption hkerning
  · exact FontM.ok_of_toOption hname

end Font

end GridFit
