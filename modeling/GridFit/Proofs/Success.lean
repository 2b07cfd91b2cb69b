import GridFit.Machine.Step
import GridFit.Proofs.OperandStack

/-!
# What a successful action has done

An instruction is a chain of pops, checks and changes of zones. Each lemma here says of one link
what its success tells: which operand was on top, that a point exists, how the zone changed. A
property of an instruction follows from its links one by one (`exists_of_bind_ok`).

An action on a zone is `Local` to a point if it moves no other.
-/

namespace GridFit

theorem exists_of_whenever_ok {ε σ β : Type} {c : Prop} [Decidable c] {x : EStateM ε σ Unit}
    {f : Unit → EStateM ε σ β} {s s'' : σ} {b : β}
    (h : (if c then x >>= f else f ()) s = .ok b s'') :
    ∃ s', (c ∧ x s = .ok () s' ∨ ¬c ∧ s' = s) ∧ f () s' = .ok b s'' := by
  split at h
  · obtain ⟨⟨⟩, s', hx, h⟩ := exists_of_bind_ok h
    exact ⟨s', .inl ⟨‹_›, hx⟩, h⟩
  · exact ⟨s, .inr ⟨‹_›, rfl⟩, h⟩

theorem exists_of_whenever₂_ok {ε σ α β : Type} {c : Prop} [Decidable c] {x : EStateM ε σ α}
    {y : α → EStateM ε σ Unit} {f : Unit → EStateM ε σ β} {s s'' : σ} {b : β}
    (h : (if c then x >>= fun a => y a >>= f else f ()) s = .ok b s'') :
    ∃ s', ((∃ a s₁, x s = .ok a s₁ ∧ y a s₁ = .ok () s') ∨ s' = s) ∧ f () s' = .ok b s'' := by
  split at h
  · obtain ⟨a, s₁, hx, h⟩ := exists_of_bind_ok h
    obtain ⟨⟨⟩, s', hy, h⟩ := exists_of_bind_ok h
    exact ⟨s', .inl ⟨a, s₁, hx, hy⟩, h⟩
  · exact ⟨s, .inr rfl, h⟩

/-! ### Zones -/

namespace ZoneM

variable {z z' : Zone} {i j : Nat} {p : Point} {f : Point → Point} {u : Unit}

theorem check_ok (h : check i z = .ok u z') : i < z.points.size ∧ z' = z := by
  unfold check at h
  split at h
  · cases h
    exact ⟨‹_›, rfl⟩
  · cases h

theorem checked_ok {a : Array Point} (h : checked a i z = .ok p z') : a[i]? = some p ∧ z' = z := by
  unfold checked at h
  split at h
  · cases h
    exact ⟨Array.getElem?_eq_getElem _, rfl⟩
  · cases h

theorem unguarded_ok {a : Array Point} (h : unguarded a i z = .ok p z') :
    a[i]? = some p ∧ z' = z := by
  unfold unguarded at h
  split at h
  · cases h
    exact ⟨Array.getElem?_eq_getElem _, rfl⟩
  · cases h

theorem point_ok (h : point i z = .ok p z') : z.points[i]? = some p ∧ z' = z := checked_ok h

theorem pointAt_ok (h : pointAt i z = .ok p z') : z.points[i]? = some p ∧ z' = z := unguarded_ok h

theorem scaledAt_ok (h : scaledAt i z = .ok p z') : z.scaled[i]? = some p ∧ z' = z :=
  unguarded_ok h

theorem modifyPoint_ok (h : modifyPoint i f z = .ok u z') :
    z' = { z with points := z.points.modify i f } := by
  unfold modifyPoint at h
  split at h
  · cases h
    rfl
  · cases h

theorem modifyScaled_ok (h : modifyScaled i f z = .ok u z') : z'.points = z.points := by
  unfold modifyScaled at h
  split at h
  · cases h
    rfl
  · cases h

theorem touch_ok {m : PointFlags} (h : touch i m z = .ok u z') : z'.points = z.points := by
  unfold touch modifyFlags at h
  split at h
  · cases h
    rfl
  · cases h

/-- Whenever `x` succeeds, all points but `i` are where they were. -/
def Local {α : Type} (i : Nat) (x : ZoneM α) : Prop :=
  ∀ ⦃z a z'⦄, x z = .ok a z' → ∀ ⦃j⦄, j ≠ i → z'.points[j]? = z.points[j]?

namespace Local

variable {α β : Type} {x : ZoneM α} {k : α → ZoneM β}

theorem of_points (h : ∀ z a z', x z = .ok a z' → z'.points = z.points) : Local i x :=
  fun _ _ _ hx _ _ => by rw [h _ _ _ hx]

theorem bind (hx : Local i x) (hk : ∀ a, Local i (k a)) : Local i (x >>= k) := by
  intro z b z'' h j hj
  obtain ⟨a, z', hx', hk'⟩ := exists_of_bind_ok h
  exact (hk a hk' hj).trans (hx hx' hj)

protected theorem ite {c : Prop} [Decidable c] {y : ZoneM α} (hx : Local i x) (hy : Local i y) :
    Local i (if c then x else y) := by
  split
  · exact hx
  · exact hy

theorem whenever {c : Prop} [Decidable c] {x : ZoneM Unit} {k : Unit → ZoneM β} (hx : Local i x)
    (hk : ∀ u, Local i (k u)) : Local i (if c then x >>= k else k ()) :=
  .ite (hx.bind hk) (hk ())

theorem check : Local i (check j) := of_points fun _ _ _ h => by rw [(check_ok h).2]

theorem point : Local i (point j) := of_points fun _ _ _ h => by rw [(point_ok h).2]

theorem pointAt : Local i (pointAt j) := of_points fun _ _ _ h => by rw [(pointAt_ok h).2]

theorem scaled : Local i (scaled j) := of_points fun _ _ _ h => by rw [(checked_ok h).2]

theorem scaledAt : Local i (scaledAt j) := of_points fun _ _ _ h => by rw [(scaledAt_ok h).2]

theorem touch (m : PointFlags) : Local i (touch j m) := of_points fun _ _ _ => touch_ok

theorem modifyScaled : Local i (modifyScaled j f) := of_points fun _ _ _ => modifyScaled_ok

theorem modifyPoint : Local i (modifyPoint i f) := by
  intro z a z' h j hj
  rw [modifyPoint_ok h, Array.getElem?_modify, if_neg (Ne.symm hj)]

theorem shift (g : Graphics) (d : Point) (mark : Bool) : Local i (shift g i d mark) := by
  have hdone : Local i (pure () : ZoneM Unit) := of_points fun _ _ _ h => by cases h; rfl
  have hy : Local i (if g.fv.y ≠ 0 then
      if !g.isFrozen then ZoneM.modifyPoint i (fun p => { p with y := p.y + d.y }) >>= fun _ =>
        if mark then ZoneM.touch i .touchedY else pure ()
      else if mark then ZoneM.touch i .touchedY else pure ()
    else pure ()) :=
    .ite (.whenever modifyPoint fun _ => .ite (touch _) hdone) hdone
  exact check.bind fun _ =>
    .ite (.whenever modifyPoint fun _ => .whenever (touch _) fun _ => hy) hy

theorem moveScaled (g : Graphics) (d : Int32) : Local i (moveScaled g i d) :=
  scaled.bind fun _ => .whenever modifyScaled fun _ =>
    .ite modifyScaled (of_points fun _ _ _ h => by cases h; rfl)

theorem resetPoint : Local i (resetPoint i) := scaledAt.bind fun _ => modifyPoint

end Local

/-- One coordinate of a shift: the point moves if `c`, and is marked if `mark`. -/
theorem points_of_shift_ok {c : Prop} [Decidable c] {mark : Bool} {m : PointFlags}
    {k : Unit → ZoneM Unit}
    (h : (if c then modifyPoint i f >>= fun _ => if mark then touch i m >>= k else k ()
      else k ()) z = .ok u z') : ∃ z₁, z₁.points = (if c then z.points.modify i f else z.points) ∧
        k () z₁ = .ok u z' := by
  split at h
  · obtain ⟨⟨⟩, z₁, hmodify, hrest⟩ := exists_of_bind_ok h
    obtain ⟨z₂, hmark, hk⟩ := exists_of_whenever_ok hrest
    refine ⟨z₂, ?_, hk⟩
    have h₁ : z₁.points = z.points.modify i f := by rw [modifyPoint_ok hmodify]
    rcases hmark with ⟨-, htouch⟩ | ⟨-, rfl⟩
    · rw [touch_ok htouch, h₁, if_pos ‹_›]
    · rw [h₁, if_pos ‹_›]
  · exact ⟨z, (if_neg ‹_›).symm, h⟩

theorem shift_ok {g : Graphics} {d : Point} {mark : Bool} (hfree : ¬g.backwardCompatible)
    (h : shift g i d mark z = .ok u z') : z'.points[i]? = z.points[i]?.map fun p =>
      ⟨if g.fv.x ≠ 0 then p.x + d.x else p.x, if g.fv.y ≠ 0 then p.y + d.y else p.y⟩ := by
  have hfrozen : ¬g.isFrozen := by simp [Graphics.isFrozen, hfree]
  obtain ⟨⟨⟩, z₁, hcheck, hx⟩ := exists_of_bind_ok h
  obtain ⟨-, rfl⟩ := check_ok hcheck
  simp only [hfree, hfrozen, Bool.not_false, ↓reduceIte] at hx
  obtain ⟨z₂, hz₂, hy⟩ := points_of_shift_ok hx
  have hz' : z'.points = if g.fv.y ≠ 0 then z₂.points.modify i fun p => ⟨p.x, p.y + d.y⟩
      else z₂.points := by
    split at hy
    · obtain ⟨⟨⟩, z₃, hmodify, hmark⟩ := exists_of_bind_ok hy
      have h₃ : z'.points = z₃.points := by
        split at hmark
        · exact touch_ok hmark
        · cases hmark
          rfl
      rw [h₃, modifyPoint_ok hmodify, if_pos ‹_›]
    · cases hy
      rw [if_neg ‹_›]
  rw [hz', hz₂]
  split <;> split <;> simp [Array.getElem?_modify, Function.comp_def]

end ZoneM

/-! ### Machines -/

theorem StackM.pile_of_pop_ok {s s' : OperandStack} {v : Int32} (h : pop s = .ok v s') :
    s.pile = v :: s'.pile := by
  have hr := Refines.pop s
  rw [h] at hr
  cases hp : s.pile with
  | nil =>
    rw [hp] at hr
    exact hr.elim
  | cons w l =>
    rw [hp] at hr
    obtain ⟨rfl, rfl, -⟩ := hr
    rfl

namespace Machine

def zone (m : Machine) : ZonePointer → Zone
  | .twilight => m.twilight
  | .glyph => m.glyph

def withZone (m : Machine) (zp : ZonePointer) (z : Zone) : Machine :=
  match zp with
  | .twilight => { m with twilight := z }
  | .glyph => { m with glyph := z }

def withStack (m : Machine) (s : OperandStack) : Machine := { m with stack := s }

def withGraphics (m : Machine) (g : Graphics) : Machine := { m with graphics := g }

variable {m : Machine} {zp zq : ZonePointer} {z : Zone} {s : OperandStack} {g : Graphics}

theorem zone_withZone : (m.withZone zp z).zone zq = if zq = zp then z else m.zone zq := by
  cases zp <;> cases zq <;> rfl

@[simp] theorem zone_withZone_self : (m.withZone zp z).zone zp = z := by
  cases zp <;> rfl

@[simp] theorem graphics_withZone : (m.withZone zp z).graphics = m.graphics := by
  cases zp <;> rfl

@[simp] theorem stack_withZone : (m.withZone zp z).stack = m.stack := by
  cases zp <;> rfl

@[simp] theorem controlValues_withZone : (m.withZone zp z).controlValues = m.controlValues := by
  cases zp <;> rfl

theorem withZone_zone (m : Machine) (zp : ZonePointer) : m.withZone zp (m.zone zp) = m := by
  cases zp <;> rfl

@[simp] theorem zone_withStack : (m.withStack s).zone zp = m.zone zp := by
  cases zp <;> rfl

@[simp] theorem graphics_withStack : (m.withStack s).graphics = m.graphics := rfl

@[simp] theorem stack_withStack : (m.withStack s).stack = s := rfl

@[simp] theorem controlValues_withStack : (m.withStack s).controlValues = m.controlValues := rfl

@[simp] theorem zone_withGraphics : (m.withGraphics g).zone zp = m.zone zp := by
  cases zp <;> rfl

@[simp] theorem graphics_withGraphics : (m.withGraphics g).graphics = g := rfl

@[simp] theorem stack_withGraphics : (m.withGraphics g).stack = m.stack := rfl

end Machine

namespace Exec

variable {m m' : Machine} {u : Unit} {zp : ZonePointer}

def succeeds (x : Exec Unit) (m : Machine) : Bool :=
  match x m with
  | .ok _ _ => true
  | .error _ _ => false

theorem exists_ok {x : Exec Unit} (h : succeeds x m = true) : ∃ m', x m = .ok () m' := by
  unfold succeeds at h
  cases hx : x m with
  | ok a m' => exact ⟨m', rfl⟩
  | error e m' =>
    rw [hx] at h
    cases h

theorem onStack_ok {α : Type} {x : StackM α} {a : α} (h : onStack x m = .ok a m') :
    ∃ s, x m.stack = .ok a s ∧ m' = m.withStack s := by
  unfold onStack at h
  dsimp only at h
  cases hx : x m.stack with
  | ok b s =>
    rw [hx] at h
    cases h
    exact ⟨s, rfl, rfl⟩
  | error e s =>
    rw [hx] at h
    cases h

theorem pop_ok {v : Int32} (h : pop m = .ok v m') :
    ∃ s, m.stack.pile = v :: s.pile ∧ m' = m.withStack s := by
  obtain ⟨s, hs, rfl⟩ := onStack_ok h
  exact ⟨s, StackM.pile_of_pop_ok hs, rfl⟩

theorem popIndex_ok {i : Nat} (h : popIndex m = .ok i m') :
    ∃ v s, m.stack.pile = v :: s.pile ∧ i = OperandStack.toIndex v ∧ m' = m.withStack s := by
  obtain ⟨s, hs, rfl⟩ := onStack_ok h
  rw [StackM.popIndex, map_eq_pure_bind] at hs
  obtain ⟨v, s', hpop, hpure⟩ := exists_of_bind_ok hs
  cases hpure
  exact ⟨v, s, StackM.pile_of_pop_ok hpop, rfl, rfl⟩

/-- A pop from a pile that is not empty succeeds. -/
theorem pop_of_pile {v : Int32} {l : List Int32} (h : m.stack.pile = v :: l) :
    ∃ s, pop m = .ok v (m.withStack s) := by
  have hr : SameOutcome _ (StackM.pop m.stack) (PileM.pop m.stack.pile) := Refines.pop m.stack
  rw [h] at hr
  rcases hr.cases with ⟨w, s, l, hs, hl, -⟩ | ⟨e, s, l, -, hl, -⟩
  · cases hl
    refine ⟨s, ?_⟩
    rw [pop, onStack, hs]
    rfl
  · cases hl

theorem modifyGraphics_ok {f : Graphics → Graphics} (h : modifyGraphics f m = .ok u m') :
    m' = m.withGraphics (f m.graphics) := by
  cases h
  rfl

theorem onZone_eq {α : Type} (x : ZoneM α) : onZone zp x m = match x (m.zone zp) with
    | .ok a z => .ok a (m.withZone zp z)
    | .error e z => .error e (m.withZone zp z) := by
  cases zp <;> rfl

theorem onZone_ok {α : Type} {x : ZoneM α} {a : α} (h : onZone zp x m = .ok a m') :
    ∃ z, x (m.zone zp) = .ok a z ∧ m' = m.withZone zp z := by
  rw [onZone_eq] at h
  cases hx : x (m.zone zp) with
  | ok b z =>
    rw [hx] at h
    cases h
    exact ⟨z, rfl, rfl⟩
  | error e z =>
    rw [hx] at h
    cases h

theorem onZone_point_ok {i : Nat} {p : Point} (h : onZone zp (ZoneM.point i) m = .ok p m') :
    (m.zone zp).points[i]? = some p ∧ m' = m := by
  obtain ⟨z, hp, rfl⟩ := onZone_ok h
  obtain ⟨hsome, rfl⟩ := ZoneM.point_ok hp
  exact ⟨hsome, m.withZone_zone zp⟩

theorem onZone_scaledAt_ok {i : Nat} {p : Point} (h : onZone zp (ZoneM.scaledAt i) m = .ok p m') :
    m' = m := by
  obtain ⟨z, hp, rfl⟩ := onZone_ok h
  rw [(ZoneM.scaledAt_ok hp).2, m.withZone_zone zp]

theorem onZone_check_ok {i : Nat} (h : onZone zp (ZoneM.check i) m = .ok u m') :
    i < (m.zone zp).points.size ∧ m' = m := by
  obtain ⟨z, hcheck, rfl⟩ := onZone_ok h
  obtain ⟨hi, rfl⟩ := ZoneM.check_ok hcheck
  exact ⟨hi, m.withZone_zone zp⟩

/-- An action that is local to a point moves no other point of either zone. -/
theorem points_onZone {α : Type} {x : ZoneM α} {a : α} {i j : Nat} {zq : ZonePointer}
    (hx : ZoneM.Local i x) (h : onZone zp x m = .ok a m') (hne : (zq, j) ≠ (zp, i)) :
    (m'.zone zq).points[j]? = (m.zone zq).points[j]? := by
  obtain ⟨z, hz, rfl⟩ := onZone_ok h
  rw [Machine.zone_withZone]
  split
  · rename_i hq
    subst hq
    exact hx hz fun hj => hne (hj ▸ rfl)
  · rfl

theorem controlValue_ok {i : Int} {v : Int32} (h : controlValue i m = .ok v m') :
    m.controlValues.get? i = some v ∧ m' = m := by
  unfold controlValue at h
  split at h
  · cases h
    exact ⟨‹_›, rfl⟩
  · cases h

end Exec

end GridFit
