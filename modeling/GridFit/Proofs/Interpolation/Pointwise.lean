import GridFit.Machine.Step
import GridFit.Proofs.Interpolation.Coordinates
import Mathlib.Data.Nat.Init
import Mathlib.Logic.Basic

/-!
# Interpolation of untouched points, point by point

A contour is walked once, from its first touched point to its last, then on to its end and from its
start to the first touched point. Taken together these ranges hold every untouched point once, with
the touched points next to it on either side (`Contour.Settled`). Contours do not overlap, so what
holds of one contour holds of all of them, and points in no contour stay (`Zone.Interpolated`).
-/

namespace GridFit

/-- The points from `first` to `last`, in a ring. -/
structure Contour where
  first : Nat
  last : Nat
deriving DecidableEq, Repr

/-- `p` is the first point with `P` that is met from `i` on, one `step` after the other. -/
inductive Nearest (P : Nat → Prop) (step : Nat → Nat) : Nat → Nat → Prop
  | next {i : Nat} : P (step i) → Nearest P step i (step i)
  | later {i p : Nat} : ¬P (step i) → Nearest P step (step i) p → Nearest P step i p

namespace Contour

instance : Membership Nat Contour := ⟨fun c i => c.first ≤ i ∧ i ≤ c.last⟩

def next (c : Contour) (i : Nat) : Nat := if i = c.last then c.first else i + 1

def prev (c : Contour) (i : Nat) : Nat := if i = c.first then c.last else i - 1

/-- The points that are touched along an axis, in ascending order. -/
def touched (c : Contour) (z : Zone) (a : Axis) : List Nat :=
  (List.range' c.first (c.last + 1 - c.first)).filter (z.isTouched a)

/-- What interpolation makes of the coordinates `f` of the points of a contour: they become `f'`. -/
structure Settled (c : Contour) (z : Zone) (a : Axis) (f f' : Nat → Int32) : Prop where
  untouched : (∀ j ∈ c, ¬z.isTouched a j) → ∀ i ∈ c, f' i = f i
  single : ∀ p ∈ c, z.isTouched a p → (∀ j ∈ c, z.isTouched a j → j = p) →
    f' p = f p ∧ ∀ i ∈ c, i ≠ p → f' i = f i + (f p - z.scaledCoord a p)
  several : ∀ p ∈ c, ∀ q ∈ c, p ≠ q → z.isTouched a p → z.isTouched a q → ∀ i ∈ c,
    (z.isTouched a i → f' i = f i) ∧
    (¬z.isTouched a i → ∃ s ∈ c, ∃ t ∈ c, Nearest (z.isTouched a ·) c.prev i s ∧
      Nearest (z.isTouched a ·) c.next i t ∧ f' i = z.between a s (f s) t (f t) i)

theorem mem_touched {c : Contour} {z : Zone} {a : Axis} {i : Nat} :
    i ∈ c.touched z a ↔ i ∈ c ∧ z.isTouched a i := by
  have hmem : i ∈ c ↔ c.first ≤ i ∧ i ≤ c.last := Iff.rfl
  rw [touched, List.mem_filter, List.mem_range'_1, hmem]
  refine and_congr ?_ Iff.rfl
  omega

theorem pairwise_touched (c : Contour) (z : Zone) (a : Axis) :
    (c.touched z a).Pairwise (· < ·) :=
  List.Pairwise.filter _ List.pairwise_lt_range'

/-! ### Neighbours in a ring -/

variable {c : Contour} {P : Nat → Prop} {i p : Nat}

theorem nearest_of_eq {step : Nat → Nat} (h : step i = p) (hP : P p) : Nearest P step i p := by
  subst h
  exact .next hP

theorem nearest_of_step {step : Nat → Nat} {j : Nat} (h : step i = j) (hP : ¬P j)
    (hn : Nearest P step j p) : Nearest P step i p := by
  subst h
  exact .later hP hn

theorem prev_succ {k : Nat} (h : c.first ≤ k) : c.prev (k + 1) = k := by
  rw [prev, if_neg (by omega), Nat.add_sub_cancel]

theorem next_of_lt (h : i < c.last) : c.next i = i + 1 :=
  if_neg (by omega)

theorem nearest_prev (hp : c.first ≤ p) (hi : p < i) (hP : P p)
    (h : ∀ j, p < j → j < i → ¬P j) : Nearest P c.prev i p := by
  induction i, hi using Nat.le_induction with
  | base => exact nearest_of_eq (prev_succ hp) hP
  | succ k hk ih =>
    have hrest := ih fun j hj hjk => h j hj (by omega)
    exact nearest_of_step (prev_succ (by omega)) (h k (by omega) (by omega)) hrest

theorem nearest_next (hi : i < p) (hp : p ≤ c.last) (hP : P p)
    (h : ∀ j, i < j → j < p → ¬P j) : Nearest P c.next i p := by
  have hle : i ≤ p - 1 := Nat.le_sub_one_of_lt hi
  induction hle using Nat.decreasingInduction with
  | self => exact nearest_of_eq (by rw [next_of_lt (by omega)]; omega) hP
  | of_succ k hk ih =>
    have hrest := ih (by omega) fun j hj hjp => h j (by omega) hjp
    exact nearest_of_step (next_of_lt (by omega)) (h (k + 1) (by omega) (by omega)) hrest

/-- Back from a point with no `P` before it, round the end of the ring. -/
theorem nearest_prev_round (hi : c.first ≤ i) (hP : P p) (hp : p ∈ c)
    (hbefore : ∀ j, c.first ≤ j → j < i → ¬P j) (hafter : ∀ j, p < j → j ≤ c.last → ¬P j) :
    Nearest P c.prev i p := by
  induction i, hi using Nat.le_induction with
  | base =>
    have hprev : c.prev c.first = c.last := if_pos rfl
    rcases Nat.eq_or_lt_of_le hp.2 with hl | hl
    · exact nearest_of_eq (hprev.trans hl.symm) hP
    · have hrest := nearest_prev hp.1 hl hP fun j hj hjl => hafter j hj (by omega)
      exact nearest_of_step hprev (hafter _ hl (Nat.le_refl _)) hrest
  | succ k hk ih =>
    have hrest := ih fun j hj hjk => hbefore j hj (by omega)
    exact nearest_of_step (prev_succ hk) (hbefore k hk (by omega)) hrest

/-- On from a point with no `P` behind it, round the end of the ring. -/
theorem nearest_next_round (hi : i ≤ c.last) (hP : P p) (hp : p ∈ c)
    (hafter : ∀ j, i < j → j ≤ c.last → ¬P j) (hbefore : ∀ j, c.first ≤ j → j < p → ¬P j) :
    Nearest P c.next i p := by
  induction hi using Nat.decreasingInduction with
  | self =>
    have hnext : c.next c.last = c.first := if_pos rfl
    rcases Nat.eq_or_lt_of_le hp.1 with hf | hf
    · exact nearest_of_eq (hnext.trans hf) hP
    · have hrest := nearest_next hf hp.2 hP fun j hj hjp => hbefore j (by omega) hjp
      exact nearest_of_step hnext (hbefore _ (Nat.le_refl _) hf) hrest
  | of_succ k hk ih =>
    have hrest := ih fun j hj hjl => hafter j (by omega) hjl
    exact nearest_of_step (next_of_lt hk) (hafter _ (by omega) (by omega)) hrest

theorem Settled.congr {z : Zone} {a : Axis} {f f' g g' : Nat → Int32} (h : c.Settled z a f f')
    (hf : ∀ i ∈ c, f i = g i) (hf' : ∀ i ∈ c, f' i = g' i) : c.Settled z a g g' := by
  refine ⟨fun hn i hi => ?_, fun p hp ht hu => ?_, fun p hp q hq hpq htp htq i hi => ?_⟩
  · rw [← hf i hi, ← hf' i hi]
    exact h.untouched hn i hi
  · obtain ⟨hkeep, hmove⟩ := h.single p hp ht hu
    rw [← hf p hp, ← hf' p hp]
    refine ⟨hkeep, fun i hi hip => ?_⟩
    rw [← hf i hi, ← hf' i hi]
    exact hmove i hi hip
  · obtain ⟨hkeep, hplace⟩ := h.several p hp q hq hpq htp htq i hi
    rw [← hf i hi, ← hf' i hi]
    refine ⟨hkeep, fun hti => ?_⟩
    obtain ⟨s, hs, t, ht, hps, hnt, heq⟩ := hplace hti
    exact ⟨s, hs, t, ht, hps, hnt, by rw [heq, hf s hs, hf t ht]⟩

/-! ### Touched points -/

section Touched

variable {z : Zone} {a : Axis} {f f' : Nat → Int32} {q : Nat}

theorem touched_neighbours (hp : p ∈ c.touched z a) (hq : q ∈ c.touched z a) (hpi : p < i)
    (hiq : i < q) (hnone : ∀ j ∈ c.touched z a, ¬(p < j ∧ j < q)) :
    Nearest (z.isTouched a ·) c.prev i p ∧ Nearest (z.isTouched a ·) c.next i q := by
  obtain ⟨⟨hfirst, -⟩, htp⟩ := mem_touched.1 hp
  obtain ⟨⟨-, hlast⟩, htq⟩ := mem_touched.1 hq
  have huntouched : ∀ j, p < j → j < q → ¬z.isTouched a j := by
    intro j hj hjq ht
    exact hnone j (mem_touched.2 ⟨⟨by omega, by omega⟩, ht⟩) ⟨hj, hjq⟩
  constructor
  · exact nearest_prev hfirst hpi htp fun j hj hji => huntouched j hj (by omega)
  · exact nearest_next hiq hlast htq fun j hij hj => huntouched j (by omega) hj

/-- Before the first touched point and behind the last one, these two are the nearest. -/
theorem touched_neighbours_round (hp : p ∈ c.touched z a) (hq : q ∈ c.touched z a)
    (hall : ∀ j ∈ c.touched z a, p ≤ j ∧ j ≤ q) (hi : c.first ≤ i ∧ i < p ∨ q < i ∧ i ≤ c.last) :
    Nearest (z.isTouched a ·) c.prev i q ∧ Nearest (z.isTouched a ·) c.next i p := by
  obtain ⟨hpc, htp⟩ := mem_touched.1 hp
  obtain ⟨hqc, htq⟩ := mem_touched.1 hq
  have hbefore : ∀ j, c.first ≤ j → j < p → ¬z.isTouched a j := by
    intro j hj hjp ht
    have := hpc.2
    have := hall j (mem_touched.2 ⟨⟨hj, by omega⟩, ht⟩)
    omega
  have hafter : ∀ j, q < j → j ≤ c.last → ¬z.isTouched a j := by
    intro j hj hjl ht
    have := hqc.1
    have := hall j (mem_touched.2 ⟨⟨by omega, hjl⟩, ht⟩)
    omega
  rcases hi with ⟨hif, hip⟩ | ⟨hqi, hil⟩
  · constructor
    · exact nearest_prev_round hif htq hqc (fun j hj hji => hbefore j hj (by omega)) hafter
    · exact nearest_next hip hpc.2 htp fun j hij hj => hbefore j (by omega) hj
  · constructor
    · exact nearest_prev hqc.1 hqi htq fun j hj hji => hafter j hj (by omega)
    · exact nearest_next_round hil htp hpc (fun j hij hj => hafter j (by omega) hj) hbefore

theorem settled_of_none (h : c.touched z a = []) : c.Settled z a f f := by
  have hnone {j : Nat} (hj : j ∈ c) (ht : z.isTouched a j) : False := by
    have := mem_touched.2 ⟨hj, ht⟩
    simp [h] at this
  constructor
  · exact fun _ _ _ => rfl
  · exact fun p hp ht => (hnone hp ht).elim
  · exact fun p hp _ _ _ ht => (hnone hp ht).elim

theorem settled_of_single (h : c.touched z a = [p]) (hp : f' p = f p)
    (hmove : ∀ i ∈ c, i ≠ p → f' i = f i + (f p - z.scaledCoord a p)) : c.Settled z a f f' := by
  have honly {j : Nat} (hj : j ∈ c) (ht : z.isTouched a j) : j = p := by
    have := mem_touched.2 ⟨hj, ht⟩
    simpa [h] using this
  have hself : p ∈ c ∧ z.isTouched a p := mem_touched.1 (by simp [h])
  constructor
  · exact fun hn => (hn p hself.1 hself.2).elim
  · intro q hq ht _
    rw [honly hq ht]
    exact ⟨hp, hmove⟩
  · intro s hs t ht hst hts htt
    exact (hst ((honly hs hts).trans (honly ht htt).symm)).elim

theorem settled_of_several (hp : p ∈ c.touched z a) (hq : q ∈ c.touched z a) (hpq : p ≠ q)
    (h : ∀ i ∈ c, (z.isTouched a i → f' i = f i) ∧
      (¬z.isTouched a i → ∃ s ∈ c, ∃ t ∈ c, Nearest (z.isTouched a ·) c.prev i s ∧
        Nearest (z.isTouched a ·) c.next i t ∧ f' i = z.between a s (f s) t (f t) i)) :
    c.Settled z a f f' := by
  obtain ⟨hpc, htp⟩ := mem_touched.1 hp
  obtain ⟨hqc, htq⟩ := mem_touched.1 hq
  constructor
  · exact fun hn => (hn p hpc htp).elim
  · intro s _ _ honly
    exact (hpq ((honly p hpc htp).trans (honly q hqc htq).symm)).elim
  · exact fun _ _ _ _ _ _ _ => h

/-- What a chain of touched points, from `p` on through `l` to `q`, makes of the coordinates `f`:
its own points stay, and so do all points outside it; a point inside lies between two that follow
each other. -/
structure Chained (z : Zone) (a : Axis) (f f' : Nat → Int32) (p : Nat) (l : List Nat) (q : Nat) :
    Prop where
  mem : q ∈ p :: l
  le : ∀ j ∈ p :: l, j ≤ q
  keeps : ∀ i, i ≤ p ∨ q ≤ i ∨ i ∈ l → f' i = f i
  places : ∀ i, p < i → i < q → i ∉ l → ∃ s ∈ p :: l, ∃ t ∈ p :: l, s < i ∧ i < t ∧
    (∀ j ∈ p :: l, ¬(s < j ∧ j < t)) ∧ f' i = z.between a s (f s) t (f t) i

theorem chained_self (z : Zone) (a : Axis) (f : Nat → Int32) (p : Nat) :
    Chained z a f f p [] p := by
  constructor
  · simp
  · simp
  · exact fun _ _ => rfl
  · intro i hpi hip
    omega

/-- One more link at the front of a chain. -/
theorem Chained.cons {f₁ : Nat → Int32} {r : Nat} {l : List Nat} (h : Chained z a f₁ f' r l q)
    (hpr : p < r) (hl : ∀ j ∈ l, r < j)
    (hin : ∀ i, p < i → i < r → f₁ i = z.between a p (f p) r (f r) i)
    (hout : ∀ i, i ≤ p ∨ r ≤ i → f₁ i = f i) : Chained z a f f' p (r :: l) q := by
  have hfrom : ∀ j ∈ r :: l, r ≤ j := by
    intro j hj
    rcases List.mem_cons.1 hj with rfl | hj
    · exact Nat.le_refl _
    · exact Nat.le_of_lt (hl j hj)
  have hrq : r ≤ q := h.le r (by simp)
  constructor
  · exact List.mem_cons_of_mem _ h.mem
  · intro j hj
    rcases List.mem_cons.1 hj with rfl | hj
    · omega
    · exact h.le j hj
  · intro i hi
    have hwhere : i ≤ p ∨ r ≤ i ∧ (i ≤ r ∨ q ≤ i ∨ i ∈ l) := by
      rcases hi with hi | hi | hi
      · exact .inl hi
      · exact .inr ⟨by omega, .inr (.inl hi)⟩
      · refine .inr ⟨hfrom i hi, ?_⟩
        rcases List.mem_cons.1 hi with rfl | hi
        · exact .inl (Nat.le_refl _)
        · exact .inr (.inr hi)
    rcases hwhere with hi | ⟨hri, hi⟩
    · rw [h.keeps i (.inl (by omega)), hout i (.inl hi)]
    · rw [h.keeps i hi, hout i (.inr hri)]
  · intro i hpi hiq hil
    have hir : i ≠ r := fun heq => hil (by simp [heq])
    rcases Nat.lt_or_gt_of_ne hir with hlt | hgt
    · refine ⟨p, by simp, r, by simp, hpi, hlt, fun j hj => ?_, ?_⟩
      · rcases List.mem_cons.1 hj with rfl | hj
        · omega
        · have := hfrom j hj
          omega
      · rw [h.keeps i (.inl (by omega)), hin i hpi hlt]
    · obtain ⟨s, hs, t, ht, hsi, hit, hnone, heq⟩ := h.places i hgt hiq fun hi => hil (by simp [hi])
      -- The rest of the chain has been placed from `f₁`, which is `f` from `r` on.
      have hrs := hfrom s hs
      have hrt := hfrom t ht
      refine ⟨s, by simp [hs], t, by simp [ht], hsi, hit, fun j hj => ?_, ?_⟩
      · rcases List.mem_cons.1 hj with rfl | hj
        · omega
        · exact hnone j hj
      · rw [heq, hout s (.inr hrs), hout t (.inr hrt)]

/-- A chain of all touched points settles the contour, when the points before its first point and
those behind its last one are placed between these two. -/
theorem Chained.settled {f₁ : Nat → Int32} {l : List Nat} (h : Chained z a f f₁ p l q)
    (hpq : p < q) (ht : c.touched z a = p :: l)
    (hf' : ∀ i, f' i =
      if c.first ≤ i ∧ i < p ∨ q < i ∧ i ≤ c.last then z.between a q (f₁ q) p (f₁ p) i else f₁ i) :
    c.Settled z a f f' := by
  have hmem {i : Nat} : i ∈ p :: l ↔ i ∈ c ∧ z.isTouched a i := ht ▸ mem_touched
  have hp : p ∈ c ∧ z.isTouched a p := hmem.1 (by simp)
  have hq : q ∈ c ∧ z.isTouched a q := hmem.1 h.mem
  have hall : ∀ j ∈ c.touched z a, p ≤ j ∧ j ≤ q := by
    intro j hj
    have hsorted := c.pairwise_touched z a
    rw [ht] at hj hsorted
    rcases List.mem_cons.1 hj with rfl | hjl
    · exact ⟨Nat.le_refl _, h.le j hj⟩
    · exact ⟨Nat.le_of_lt ((List.pairwise_cons.1 hsorted).1 j hjl), h.le j hj⟩
  refine settled_of_several (mem_touched.2 hp) (mem_touched.2 hq) (Nat.ne_of_lt hpq) fun i hi => ?_
  constructor
  · intro hti
    have := hall i (mem_touched.2 ⟨hi, hti⟩)
    rw [hf', if_neg (by omega)]
    rcases List.mem_cons.1 (hmem.2 ⟨hi, hti⟩) with rfl | hil
    · exact h.keeps i (.inl (Nat.le_refl _))
    · exact h.keeps i (.inr (.inr hil))
  · intro hti
    rw [hf']
    -- Outside the chain its two ends are the neighbours, round the ring.
    by_cases hends : c.first ≤ i ∧ i < p ∨ q < i ∧ i ≤ c.last
    · obtain ⟨hprev, hnext⟩ :=
        touched_neighbours_round (mem_touched.2 hp) (mem_touched.2 hq) hall hends
      refine ⟨q, hq.1, p, hp.1, hprev, hnext, ?_⟩
      rw [if_pos hends, h.keeps q (by omega), h.keeps p (by omega)]
    · have hip : i ≠ p := fun heq => hti (heq ▸ hp.2)
      have hiq : i ≠ q := fun heq => hti (heq ▸ hq.2)
      have hfirst : c.first ≤ i := hi.1
      have hlast : i ≤ c.last := hi.2
      obtain ⟨s, hs, t, ht', hsi, hit, hnone, heq⟩ := h.places i (by omega) (by omega)
        fun hil => hti (hmem.1 (List.mem_cons_of_mem _ hil)).2
      rw [← ht] at hnone
      obtain ⟨hprev, hnext⟩ := touched_neighbours (mem_touched.2 (hmem.1 hs))
        (mem_touched.2 (hmem.1 ht')) hsi hit hnone
      exact ⟨s, (hmem.1 hs).1, t, (hmem.1 ht').1, hprev, hnext, (if_neg hends).trans heq⟩

end Touched

end Contour

/-! ### One contour -/

namespace ZoneM

variable {z : Zone} {n : Nat} {a : Axis} {f : Nat → Int32} {c : Contour} {p q : Nat}

theorem filterAuxM_of_ok {α : Type} {test : α → ZoneM Bool} {g : α → Bool} :
    ∀ {l r : List α}, (∀ x ∈ l, test x z = .ok (g x) z) →
      l.filterAuxM test r z = .ok ((l.filter g).reverse ++ r) z
  | [], _, _ => rfl
  | x :: l, r, h => by
    have hrest := filterAuxM_of_ok (l := l) (r := cond (g x) (x :: r) r)
      fun y hy => h y (by simp [hy])
    refine (bind_of_ok (h x (by simp))).trans (hrest.trans ?_)
    cases hx : g x <;> simp [hx]

theorem touchedBetween_placed (hz : z.Regular n) (hlast : c.last < n) :
    touchedBetween a c.first c.last (z.placed a f) = .ok (c.touched z a) (z.placed a f) := by
  have hflags : ∀ i ∈ List.range' c.first (c.last + 1 - c.first),
      (do return (← flagsAt i).meets (.touched a) : ZoneM Bool) (z.placed a f) =
        .ok (z.isTouched a i) (z.placed a f) := by
    intro i hi
    rw [List.mem_range'_1] at hi
    exact flagsAt_placed hz (by omega)
  refine (bind_of_ok (filterAuxM_of_ok hflags)).trans ?_
  show EStateM.Result.ok _ _ = _
  simp [Contour.touched]

theorem interpolateChain_placed (hz : z.Regular n) :
    ∀ {l : List Nat} {p : Nat} {f : Nat → Int32}, (p :: l).Pairwise (· < ·) →
      (∀ q ∈ p :: l, q < n) → ∃ q f',
        interpolateChain a p l (z.placed a f) = .ok q (z.placed a f') ∧
          Contour.Chained z a f f' p l q
  | [], p, f, _, _ => ⟨p, f, rfl, Contour.chained_self z a f p⟩
  | r :: l, p, f, hsorted, hn => by
    obtain ⟨hp, hrest⟩ := List.pairwise_cons.1 hsorted
    have hpr : p < r := hp r (by simp)
    have hrn : r < n := hn r (by simp)
    have hstep : interpolate a (p + 1) (r - 1) p r (z.placed a f) = .ok () _ :=
      interpolate_placed hz (by omega) (hn p (by simp)) hrn
    obtain ⟨q, f', hchain, hchained⟩ :=
      interpolateChain_placed hz hrest fun q hq => hn q (List.mem_cons_of_mem _ hq)
    refine ⟨q, f', (bind_of_ok hstep).trans hchain, hchained.cons hpr ?_ ?_ ?_⟩
    · exact (List.pairwise_cons.1 hrest).1
    · exact fun i hpi hir => if_pos (by omega)
    · exact fun i hi => if_neg (by omega)

/-- What comes after the chain: the points behind its last point `q` and those before its first
point `p` lie between `q` and `p`, round the end of the contour. -/
theorem interpolateEnds_placed (hz : z.Regular n) (hlast : c.last < n) (hp : p ∈ c) (hq : q ∈ c)
    (hpq : p ≤ q) :
    (do
      interpolate a (q + 1) c.last q p
      if c.first < p then interpolate a c.first (p - 1) q p : ZoneM Unit) (z.placed a f) =
      .ok () (z.placed a fun i => if c.first ≤ i ∧ i < p ∨ q < i ∧ i ≤ c.last
        then z.between a q (f q) p (f p) i else f i) := by
  have hpn : p < n := Nat.lt_of_le_of_lt hp.2 hlast
  have hqn : q < n := Nat.lt_of_le_of_lt hq.2 hlast
  refine (bind_of_ok (interpolate_placed hz hlast hqn hpn)).trans ?_
  by_cases hfirst : c.first < p
  · have hkeep {j : Nat} (hj : j ≤ q) : (if q + 1 ≤ j ∧ j ≤ c.last
        then z.between a q (f q) p (f p) j else f j) = f j := if_neg (by omega)
    rw [if_pos hfirst, interpolate_placed hz (by omega) hqn hpn]
    congr 2
    funext i
    rw [hkeep (Nat.le_refl q), hkeep hpq, ← ite_or]
    exact if_congr (by omega) rfl rfl
  · have : c.first = p := Nat.le_antisymm hp.1 (Nat.le_of_not_lt hfirst)
    rw [if_neg hfirst]
    show EStateM.Result.ok _ _ = _
    congr 2
    funext i
    exact if_congr (by omega) rfl rfl

/-- A contour with two touched points or more: the chain from the first of them to the last, and
then the ends. -/
theorem interpolateRing_placed (hz : z.Regular n) (hlast : c.last < n) {r : Nat} {l : List Nat}
    (ht : c.touched z a = p :: r :: l) :
    ∃ f', (do
        let q ← interpolateChain a p (r :: l)
        interpolate a (q + 1) c.last q p
        if c.first < p then interpolate a c.first (p - 1) q p : ZoneM Unit) (z.placed a f) =
          .ok () (z.placed a f') ∧
      (∀ i, i ∉ c → f' i = f i) ∧ c.Settled z a f f' := by
  have hmem {i : Nat} (hi : i ∈ p :: r :: l) : i ∈ c := (Contour.mem_touched.1 (ht ▸ hi)).1
  have hsorted : (p :: r :: l).Pairwise (· < ·) := ht ▸ c.pairwise_touched z a
  obtain ⟨q, f₁, hchain, hchained⟩ := interpolateChain_placed (a := a) (f := f) hz hsorted
    fun i hi => Nat.lt_of_le_of_lt (hmem hi).2 hlast
  have hpq : p < q := by
    have := (List.pairwise_cons.1 hsorted).1 r (by simp)
    have := hchained.le r (by simp)
    omega
  have hpc : p ∈ c := hmem (by simp)
  have hqc : q ∈ c := hmem hchained.mem
  have hends := interpolateEnds_placed (a := a) (f := f₁) hz hlast hpc hqc (Nat.le_of_lt hpq)
  refine ⟨_, (bind_of_ok hchain).trans hends, fun i hi => ?_, ?_⟩
  · have hout : ¬(c.first ≤ i ∧ i ≤ c.last) := hi
    have := hpc.1
    have := hqc.2
    exact (if_neg (by omega)).trans (hchained.keeps i (by omega))
  · exact hchained.settled hpq ht fun i => rfl

theorem interpolateContour_placed (hz : z.Regular n) (hlast : c.last < n) :
    ∃ f', interpolateContour a c.first c.last (z.placed a f) = .ok () (z.placed a f') ∧
      (∀ i, i ∉ c → f' i = f i) ∧ c.Settled z a f f' := by
  have hfind := touchedBetween_placed (f := f) (a := a) hz hlast
  rcases ht : c.touched z a with _ | ⟨p, _ | ⟨r, l⟩⟩
  · rw [ht] at hfind
    exact ⟨f, bind_of_ok hfind, fun _ _ => rfl, Contour.settled_of_none ht⟩
  · rw [ht] at hfind
    have hp : p ∈ c := ((Contour.mem_touched (z := z) (a := a)).1 (by simp [ht])).1
    have hmove : followPoint a c.first c.last p (z.placed a f) = .ok () _ :=
      followPoint_placed hz hlast (Nat.lt_of_le_of_lt hp.2 hlast)
    refine ⟨_, (bind_of_ok hfind).trans hmove, fun i hi => ?_, ?_⟩
    · exact if_neg fun h => hi ⟨h.1, h.2.1⟩
    · refine Contour.settled_of_single ht (if_neg fun h => h.2.2 rfl) fun i hi hip => ?_
      exact if_pos ⟨hi.1, hi.2, hip⟩
  · rw [ht] at hfind
    obtain ⟨f', hring, hout, hsettled⟩ := interpolateRing_placed (f := f) hz hlast ht
    exact ⟨f', (bind_of_ok hfind).trans hring, hout, hsettled⟩

end ZoneM

/-! ### All contours -/

namespace Zone

def IsContour (z : Zone) (c : Contour) : Prop := ∃ k, z.contour k = .ok (c.first, c.last)

/-- The point behind the contours before the one at `k`. -/
def contourStart (z : Zone) (k : Nat) : Nat :=
  if k = 0 then 0 else (z.contours.getD (k - 1) 0).toNat + 1

/-- Interpolation along an axis, from the zone `z` to `z'`. -/
structure Interpolated (z : Zone) (a : Axis) (z' : Zone) : Prop where
  rest : z' = { z with points := z'.points }
  size : z'.points.size = z.points.size
  across : ∀ b, b ≠ a → ∀ i, z'.currentCoord b i = z.currentCoord b i
  outside : ∀ i, (∀ c, z.IsContour c → i ∉ c) → z'.currentCoord a i = z.currentCoord a i
  contours : ∀ c, z.IsContour c → c.Settled z a (z.currentCoord a) (z'.currentCoord a)

/-- What the walk over `m` contours from the one at `k` on makes of the coordinates `f`. -/
structure Walked (z : Zone) (a : Axis) (k m : Nat) (f f' : Nat → Int32) : Prop where
  before : ∀ i, i < z.contourStart k → f' i = f i
  outside : ∀ i, (∀ c, z.IsContour c → i ∉ c) → f' i = f i
  settled : ∀ j, k ≤ j → j < k + m → ∃ c : Contour, z.contour j = .ok (c.first, c.last) ∧
    z.contourStart k ≤ c.first ∧ c.Settled z a f f'

variable {z : Zone} {a : Axis} {c : Contour} {k m : Nat} {f f₁ f' : Nat → Int32}

theorem lt_of_contour {r : Nat × Nat} (h : z.contour k = .ok r) : k < z.contours.size := by
  by_contra hk
  rw [Zone.contour, dif_neg hk] at h
  cases h

theorem bounds_of_contour (h : z.contour k = .ok (c.first, c.last)) :
    c.first = z.contourStart k ∧ c.last + 1 = z.contourStart (k + 1) ∧ c.first ≤ c.last ∧
      c.last < z.points.size := by
  have hk := lt_of_contour h
  have hstart : (if k = 0 then 0 else z.contours[k - 1].toNat + 1) = z.contourStart k := by
    have : k - 1 < z.contours.size := by omega
    simp [contourStart, this]
  have hend : z.contours[k].toNat + 1 = z.contourStart (k + 1) := by
    simp [contourStart, hk]
  simp only [Zone.contour, dif_pos hk, hstart] at h
  split at h
  · next hb =>
    obtain ⟨hfirst, hlast⟩ := Prod.mk.inj (Except.ok.inj h)
    rw [← hfirst, ← hlast]
    exact ⟨rfl, hend, hb⟩
  · cases h

theorem contour_placed : (z.placed a f).contour k = z.contour k := by
  rw [Zone.contour, Zone.contour, z.size_placed]
  rfl

theorem walked_nil (z : Zone) (a : Axis) (k : Nat) (f : Nat → Int32) : z.Walked a k 0 f f := by
  constructor
  · exact fun _ _ => rfl
  · exact fun _ _ => rfl
  · intro j hk hj
    omega

theorem Walked.cons (h : z.Walked a (k + 1) m f₁ f') (hc : z.contour k = .ok (c.first, c.last))
    (hout : ∀ i, i ∉ c → f₁ i = f i) (hs : c.Settled z a f f₁) : z.Walked a k (m + 1) f f' := by
  obtain ⟨hfirst, hlast, hle, -⟩ := bounds_of_contour hc
  have hmem {i : Nat} : i ∈ c ↔ c.first ≤ i ∧ i ≤ c.last := Iff.rfl
  constructor
  · intro i hi
    rw [h.before i (by omega), hout i (by rw [hmem]; omega)]
  · intro i hi
    rw [h.outside i hi, hout i (hi c ⟨k, hc⟩)]
  · intro j hkj hj
    rcases Nat.eq_or_lt_of_le hkj with rfl | hlt
    · refine ⟨c, hc, Nat.le_of_eq hfirst.symm, hs.congr (fun _ _ => rfl) fun i hi => ?_⟩
      rw [hmem] at hi
      exact (h.before i (by omega)).symm
    · -- A later contour starts behind this one, so this one's changes do not show in it.
      obtain ⟨d, hd, hstart, hsettled⟩ := h.settled j hlt (by omega)
      refine ⟨d, hd, by omega, hsettled.congr (fun i hi => hout i ?_) fun _ _ => rfl⟩
      have := hi.1
      rw [hmem]
      omega

theorem Walked.interpolated (h : z.Walked a 0 z.contours.size (z.currentCoord a) f') :
    z.Interpolated a (z.placed a f') := by
  constructor
  · rfl
  · exact z.size_placed a f'
  · exact fun b hb i => currentCoord_placed_of_ne hb
  · intro i hi
    by_cases hs : i < z.points.size
    · rw [currentCoord_placed hs, h.outside i hi]
    · simp [currentCoord, z.size_placed, hs]
  · rintro c ⟨k, hk⟩
    obtain ⟨d, hd, -, hsettled⟩ := h.settled k (Nat.zero_le k) (by simpa using lt_of_contour hk)
    have hcd : c = d := by
      obtain ⟨hfirst, hlast⟩ := Prod.mk.inj (Except.ok.inj (hk.symm.trans hd))
      cases c
      cases d
      simp_all
    subst hcd
    refine hsettled.congr (fun _ _ => rfl) fun i hi => (currentCoord_placed ?_).symm
    exact Nat.lt_of_le_of_lt hi.2 (bounds_of_contour hk).2.2.2

end Zone

namespace ZoneM

variable {z : Zone} {n k : Nat} {a : Axis} {f : Nat → Int32} {c : Contour}

theorem contourStep_placed (hz : z.Regular n) (hc : z.contour k = .ok (c.first, c.last)) :
    ∃ f', (do
        let (first, last) ← contour k
        interpolateContour a first last : ZoneM Unit) (z.placed a f) = .ok () (z.placed a f') ∧
      (∀ i, i ∉ c → f' i = f i) ∧ c.Settled z a f f' := by
  obtain ⟨-, -, -, hlast⟩ := Zone.bounds_of_contour hc
  rw [hz.points] at hlast
  obtain ⟨f', hone, hout, hsettled⟩ := interpolateContour_placed (a := a) (f := f) hz hlast
  have hcontour : contour k (z.placed a f) = .ok (c.first, c.last) (z.placed a f) := by
    rw [contour, Zone.contour_placed, hc]
  exact ⟨f', (bind_of_ok hcontour).trans hone, hout, hsettled⟩

theorem forContours_placed (hz : z.Regular n) :
    ∀ {m k : Nat} {f : Nat → Int32},
      (∃ f', ((List.range' k m).forM fun c => do
          let (first, last) ← contour c
          interpolateContour a first last) (z.placed a f) = .ok () (z.placed a f') ∧
        z.Walked a k m f f') ∨
      ∃ j e s, j < k + m ∧ z.contour j = .error e ∧ ((List.range' k m).forM fun c => do
          let (first, last) ← contour c
          interpolateContour a first last) (z.placed a f) = .error e s
  | 0, k, f => .inl ⟨f, rfl, z.walked_nil a k f⟩
  | m + 1, k, f => by
    cases hc : z.contour k with
    | error e =>
      have hcontour : contour k (z.placed a f) = .error e (z.placed a f) := by
        rw [contour, Zone.contour_placed, hc]
      exact .inr ⟨k, e, _, by omega, hc, bind_of_error (bind_of_error hcontour)⟩
    | ok r =>
      obtain ⟨f₁, hone, hout, hsettled⟩ :=
        contourStep_placed (a := a) (f := f) (c := ⟨r.1, r.2⟩) hz hc
      rcases forContours_placed hz (m := m) (k := k + 1) (f := f₁) with
        ⟨f', hrest, hwalk⟩ | ⟨j, e, s, hj, he, hrest⟩
      · exact .inl ⟨f', (bind_of_ok hone).trans hrest, hwalk.cons hc hout hsettled⟩
      · exact .inr ⟨j, e, s, by omega, he, (bind_of_ok hone).trans hrest⟩

/-- Interpolation succeeds or stops at a contour that is out of bounds. -/
theorem interpolateUntouched_cases (hz : z.Regular n) :
    (∃ z', interpolateUntouched a z = .ok () z' ∧ z.Interpolated a z') ∨
      ∃ k e z', k < z.contours.size ∧ z.contour k = .error e ∧
        interpolateUntouched a z = .error e z' := by
  have hwalk := forContours_placed (a := a) (f := z.currentCoord a) (k := 0)
    (m := z.contours.size) hz
  rw [z.placed_currentCoord, ← List.range_eq_range'] at hwalk
  rcases hwalk with ⟨f', hok, hwalk⟩ | ⟨k, e, z', hk, he, herror⟩
  · exact .inl ⟨_, hok, hwalk.interpolated⟩
  · exact .inr ⟨k, e, z', by omega, he, herror⟩

end ZoneM

namespace Exec

variable {m : Machine} {n : Nat} {a : Axis}

theorem execute_iup (hfree : ¬m.graphics.isFrozen) : ∃ g,
    execute (.iup a) m = onZone .glyph (ZoneM.interpolateUntouched a) { m with graphics := g } := by
  rw [execute, interpolateUntouched, bind_of_ok (x := graphics) rfl, if_pos (by simpa using hfree)]
  by_cases hb : m.graphics.backwardCompatible
  · refine ⟨m.graphics.withInterpolated a, ?_⟩
    rw [if_pos hb]
    exact bind_of_ok (x := modifyGraphics _) rfl
  · refine ⟨m.graphics, ?_⟩
    rw [if_neg hb]

/-- While the outline is not frozen, `IUP` does with each contour of the glyph what its definition
says, and changes nothing else of the zone; it succeeds if all contours are in bounds. -/
theorem interpolates_pointwise (hz : m.glyph.Regular n) (hfree : ¬m.graphics.isFrozen) :
    (∀ m', execute (.iup a) m = .ok () m' → m.glyph.Interpolated a m'.glyph) ∧
      ((∀ k < m.glyph.contours.size, ∃ r, m.glyph.contour k = .ok r) →
        ∃ m', execute (.iup a) m = .ok () m') := by
  obtain ⟨g, hexec⟩ := execute_iup (a := a) hfree
  rw [hexec, onZone_glyph]
  rcases ZoneM.interpolateUntouched_cases (a := a) hz with
    ⟨z', hok, hz'⟩ | ⟨k, e, z', hk, he, herror⟩
  · simp only [hok]
    constructor
    · rintro m' ⟨⟩
      exact hz'
    · exact fun _ => ⟨_, rfl⟩
  · simp only [herror]
    constructor
    · exact fun m' h => nomatch h
    · intro hvalid
      obtain ⟨r, hr⟩ := hvalid k hk
      rw [hr] at he
      cases he

/-- Contours with several touched points, with one and with none, and a point behind them. -/
def ringMachine : Machine :=
  { (default : Machine) with
    graphics := .start (.initial 65536 16 {}) false
    glyph := {
      scaled := #[⟨0, 0⟩, ⟨10, 0⟩, ⟨50, 0⟩, ⟨90, 0⟩, ⟨100, 0⟩, ⟨0, 0⟩, ⟨8, 0⟩, ⟨0, 0⟩, ⟨7, 0⟩]
      points := #[⟨1, 0⟩, ⟨20, 0⟩, ⟨2, 0⟩, ⟨180, 0⟩, ⟨3, 0⟩, ⟨4, 0⟩, ⟨13, 0⟩, ⟨5, 0⟩, ⟨6, 0⟩]
      flags := #[{}, .touchedX, .touchedY, .touchedX, {}, {}, .touchedBoth, .touchedY, .touchedX]
      contours := #[4, 6, 7] } }

theorem interpolates_pointwise_rings :
    ringMachine.glyph.Regular 9 ∧ ¬ringMachine.graphics.isFrozen ∧
      ∃ m', execute (.iup .x) ringMachine = .ok () m' ∧
        ringMachine.glyph.Interpolated .x m'.glyph ∧
        m'.glyph.points.map (·.x) = #[10, 20, 100, 180, 190, 9, 13, 5, 6] := by
  have hregular : ringMachine.glyph.Regular 9 := ⟨rfl, rfl, rfl⟩
  have hfree : ¬ringMachine.graphics.isFrozen := by decide
  obtain ⟨hpointwise, hsucceeds⟩ := interpolates_pointwise (a := .x) hregular hfree
  obtain ⟨m', hm'⟩ := hsucceeds fun k hk => by
    have hk : k < 3 := hk
    obtain rfl | rfl | rfl : k = 0 ∨ k = 1 ∨ k = 2 := by omega
    all_goals exact ⟨_, rfl⟩
  have hxs : (match execute (.iup .x) ringMachine with
      | .ok _ m' => m'.glyph.points.map (·.x)
      | .error _ _ => #[]) = #[10, 20, 100, 180, 190, 9, 13, 5, 6] := by
    decide +kernel
  rw [hm'] at hxs
  exact ⟨hregular, hfree, m', hm', hpointwise m' hm', hxs⟩

end Exec

end GridFit
