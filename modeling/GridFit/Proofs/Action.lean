import GridFit.Fault

/-!
# What actions keep, and what they tell apart

`Keeps inv x post`: from a state with `inv` the action `x` ends in a state with `inv`, with a value
that has `post` or with a fault that an instruction may cause. Postconditions are about the value
alone: the facts that a check establishes are about sizes that no action changes.

`Agrees r x`: from two states related by `r` the action `x` ends alike, with the same value or the
same fault, in states related by `r`. So `x` depends on nothing in which related states differ.

Both are closed under the ways in which actions are put together.
-/

namespace GridFit

variable {ε σ τ α β : Type}

theorem bind_of_ok {x : EStateM ε σ α} {f : α → EStateM ε σ β} {s s' : σ} {a : α}
    (h : x s = .ok a s') : (x >>= f) s = f a s' := by
  show EStateM.bind x f s = f a s'
  rw [EStateM.bind, h]

theorem bind_of_error {x : EStateM ε σ α} {f : α → EStateM ε σ β} {s s' : σ} {e : ε}
    (h : x s = .error e s') : (x >>= f) s = .error e s' := by
  show EStateM.bind x f s = .error e s'
  rw [EStateM.bind, h]

theorem exists_of_bind_ok {x : EStateM ε σ α} {f : α → EStateM ε σ β} {s s'' : σ} {b : β}
    (h : (x >>= f) s = .ok b s'') : ∃ a s', x s = .ok a s' ∧ f a s' = .ok b s'' := by
  cases hx : x s with
  | ok a s' =>
    rw [bind_of_ok hx] at h
    exact ⟨a, s', rfl, h⟩
  | error e s' =>
    rw [bind_of_error hx] at h
    cases h

/-- Actions in sequence come to the same if the first ones do, and the second ones after them. -/
theorem bind_congr_at {x y : EStateM ε σ α} {f g : α → EStateM ε σ β} {s : σ} (hx : x s = y s)
    (hf : ∀ a s', x s = .ok a s' → f a s' = g a s') : (x >>= f) s = (y >>= g) s := by
  cases hr : x s with
  | ok a s' => rw [bind_of_ok hr, bind_of_ok (hx.symm.trans hr), hf a s' hr]
  | error e s' => rw [bind_of_error hr, bind_of_error (hx.symm.trans hr)]

/-- Folds over a list come to the same if their steps do, each after the elements before. -/
theorem foldlM_congr_at {f g : β → α → EStateM ε σ β} {l : List α} {b : β} {s : σ}
    (h : ∀ before a after b' s', l = before ++ a :: after → before.foldlM f b s = .ok b' s' →
      f b' a s' = g b' a s') : l.foldlM f b s = l.foldlM g b s := by
  induction l generalizing b s with
  | nil => rfl
  | cons a l ih =>
    rw [List.foldlM_cons, List.foldlM_cons]
    refine bind_congr_at (h [] a l b s rfl rfl) fun b₁ s₁ h₁ => ih ?_
    intro before a' after b' s' hl hb
    refine h (a :: before) a' after b' s' (congrArg (a :: ·) hl) ?_
    rw [List.foldlM_cons, bind_of_ok h₁]
    exact hb

theorem map_of_ok {x : EStateM ε σ α} {k : α → β} {s s' : σ} {a : α} (h : x s = .ok a s') :
    (k <$> x) s = .ok (k a) s' := by
  show EStateM.map k x s = .ok (k a) s'
  rw [EStateM.map, h]

/-- The postcondition that says nothing. -/
def Anything (_ : α) : Prop := True

/-- An outcome in a state with `inv`. A fault is one of those in `allowed`. -/
def Ends (allowed : ε → Prop) (inv : σ → Prop) : EStateM.Result ε σ α → Prop
  | .ok _ s => inv s
  | .error e s => allowed e ∧ inv s

namespace Ends

variable {allowed : ε → Prop} {inv inv' : σ → Prop} {r : EStateM.Result ε σ α} {s : σ}

theorem ok {a : α} (h : Ends allowed inv r) (hr : r = .ok a s) : inv s := by
  subst hr
  exact h

theorem error {e : ε} (h : Ends allowed inv r) (hr : r = .error e s) : allowed e ∧ inv s := by
  subst hr
  exact h

theorem mono (h : Ends allowed inv r) (hi : ∀ s, inv s → inv' s) : Ends allowed inv' r := by
  cases r with
  | ok a s => exact hi s h
  | error e s => exact ⟨h.1, hi s h.2⟩

theorem anything (h : Ends allowed inv r) : Ends Anything inv r := by
  cases r with
  | ok a s => exact h
  | error e s => exact ⟨trivial, h.2⟩

end Ends

/-- The faults that no instruction causes: a breach, and those that are about a run as a whole. -/
inductive Fault.Foreign : Fault → Prop
  | breach : Foreign .breach
  | budget : Foreign .budgetExceeded
  | scratch : Foreign .insufficientScratch

/-- From a state with `inv`, `x` ends in a state with `inv`: with a value that has `post`, or with a
fault that is not foreign to instructions. -/
def Keeps (inv : σ → Prop) (x : EStateM Fault σ α) (post : α → Prop) : Prop :=
  ∀ s, inv s → match x s with
    | .ok a s' => post a ∧ inv s'
    | .error e s' => ¬e.Foreign ∧ inv s'

namespace Keeps

variable {inv : σ → Prop} {x y : EStateM Fault σ α} {f : α → EStateM Fault σ β} {p : α → Prop}
  {q : β → Prop}

theorem ok {s s' : σ} {a : α} (h : Keeps inv x p) (hs : inv s) (hx : x s = .ok a s') :
    p a ∧ inv s' := by
  have := h s hs
  rwa [hx] at this

theorem error {s s' : σ} {e : Fault} (h : Keeps inv x p) (hs : inv s) (hx : x s = .error e s') :
    ¬e.Foreign ∧ inv s' := by
  have := h s hs
  rwa [hx] at this

theorem ends {s : σ} (h : Keeps inv x p) (hs : inv s) : Ends (· ≠ .breach) inv (x s) := by
  have hx := h s hs
  cases hr : x s with
  | ok a s' =>
    rw [hr] at hx
    exact hx.2
  | error e s' =>
    rw [hr] at hx
    refine ⟨?_, hx.2⟩
    rintro rfl
    exact hx.1 .breach

protected theorem pure {a : α} (h : p a) : Keeps inv (pure a) p :=
  fun _ hs => ⟨h, hs⟩

protected theorem throw {e : Fault} (h : ¬e.Foreign) : Keeps inv (throw e) p :=
  fun _ hs => ⟨h, hs⟩

theorem bind (hx : Keeps inv x p) (hf : ∀ a, p a → Keeps inv (f a) q) :
    Keeps inv (x >>= f) q := by
  intro s hs
  have h := hx s hs
  show match EStateM.bind x f s with | .ok a s' => _ | .error e s' => _
  unfold EStateM.bind
  cases hr : x s with
  | ok a s' =>
    rw [hr] at h
    exact hf a h.1 s' h.2
  | error e s' =>
    rw [hr] at h
    exact h

theorem map {g : α → β} (hx : Keeps inv x p) (hg : ∀ a, p a → q (g a)) :
    Keeps inv (g <$> x) q := by
  intro s hs
  have h := hx s hs
  show match EStateM.map g x s with | .ok a s' => _ | .error e s' => _
  unfold EStateM.map
  cases hr : x s with
  | ok a s' =>
    rw [hr] at h
    exact ⟨hg a h.1, h.2⟩
  | error e s' =>
    rw [hr] at h
    exact h

protected theorem ite {c : Prop} [Decidable c] (hx : c → Keeps inv x p)
    (hy : ¬c → Keeps inv y p) : Keeps inv (if c then x else y) p := by
  split
  · exact hx ‹_›
  · exact hy ‹_›

/-- A condition under which nothing more is done. -/
theorem guarded {c : Prop} [Decidable c] {e : Fault} {y : EStateM Fault σ β} (he : ¬e.Foreign)
    (hy : ¬c → Keeps inv y q) : Keeps inv (if c then throw e >>= f else y) q :=
  .ite (fun _ _ hs => ⟨he, hs⟩) hy

/-- An action that comes before `f` only under a condition. -/
theorem whenever {c : Prop} [Decidable c] {x : EStateM Fault σ Unit}
    {f : Unit → EStateM Fault σ β} (hx : c → Keeps inv x Anything) (hf : ∀ u, Keeps inv (f u) q) :
    Keeps inv (if c then x >>= f else f ()) q :=
  .ite (fun hc => (hx hc).bind fun u _ => hf u) fun _ => hf ()

/-- Two actions that come before `f` only under a condition. -/
theorem whenever₂ {c : Prop} [Decidable c] {y : α → EStateM Fault σ Unit}
    {f : Unit → EStateM Fault σ β} (hx : c → Keeps inv x p)
    (hy : c → ∀ a, p a → Keeps inv (y a) Anything) (hf : ∀ u, Keeps inv (f u) q) :
    Keeps inv (if c then x >>= fun a => y a >>= f else f ()) q :=
  .ite (fun hc => (hx hc).bind fun a ha => (hy hc a ha).bind fun u _ => hf u) fun _ => hf ()

protected theorem get : Keeps inv (get : EStateM Fault σ σ) inv :=
  fun _ hs => ⟨hs, hs⟩

theorem modify {g : σ → σ} (hg : ∀ s, inv s → inv (g s)) :
    Keeps inv (modify g : EStateM Fault σ Unit) Anything :=
  fun s hs => ⟨trivial, hg s hs⟩

theorem forM {f : α → EStateM Fault σ Unit} :
    ∀ {l : List α}, (∀ a ∈ l, Keeps inv (f a) Anything) → Keeps inv (l.forM f) Anything
  | [], _ => .pure trivial
  | a :: l, h => (h a (by simp)).bind fun _ _ => forM fun b hb => h b (by simp [hb])

theorem filterAuxM {f : α → EStateM Fault σ Bool} {P : α → Prop} :
    ∀ {l acc : List α}, (∀ a ∈ l, P a ∧ Keeps inv (f a) Anything) → (∀ a ∈ acc, P a) →
      Keeps inv (l.filterAuxM f acc) fun l' => ∀ a ∈ l', P a
  | [], _, _, hacc => .pure hacc
  | a :: l, acc, h, hacc => by
    refine (h a (by simp)).2.bind fun b _ => filterAuxM (fun a ha => h a (by simp [ha])) ?_
    cases b with
    | false => exact hacc
    | true =>
      intro c hc
      rcases List.mem_cons.1 hc with rfl | hc
      · exact (h _ (by simp)).1
      · exact hacc c hc

/-- What a filter lets through has what its candidates have. -/
theorem filterM {f : α → EStateM Fault σ Bool} {P : α → Prop} {l : List α}
    (h : ∀ a ∈ l, P a ∧ Keeps inv (f a) Anything) :
    Keeps inv (l.filterM f) fun l' => ∀ a ∈ l', P a :=
  (filterAuxM h (by simp)).bind fun l' hl' => .pure fun a ha => hl' a (List.mem_reverse.1 ha)

end Keeps

/-- Two outcomes with the same value or the same fault, in states related by `r`. -/
def SameOutcome (r : σ → τ → Prop) : EStateM.Result ε σ α → EStateM.Result ε τ α → Prop
  | .ok a s, .ok b t => a = b ∧ r s t
  | .error e s, .error e' t => e = e' ∧ r s t
  | _, _ => False

namespace SameOutcome

variable {r : σ → τ → Prop} {x : EStateM ε σ α} {y : EStateM ε τ α}
  {f : α → EStateM ε σ β} {g : α → EStateM ε τ β}

theorem cases {a : EStateM.Result ε σ α} {b : EStateM.Result ε τ α} (h : SameOutcome r a b) :
    (∃ v s t, a = .ok v s ∧ b = .ok v t ∧ r s t) ∨
      ∃ e s t, a = .error e s ∧ b = .error e t ∧ r s t := by
  match a, b, h with
  | .ok v s, .ok _ t, ⟨rfl, h⟩ => exact .inl ⟨v, s, t, rfl, rfl, h⟩
  | .error e s, .error _ t, ⟨rfl, h⟩ => exact .inr ⟨e, s, t, rfl, rfl, h⟩

theorem mono {q : σ → τ → Prop} {a : EStateM.Result ε σ α} {b : EStateM.Result ε τ α}
    (h : SameOutcome r a b) (hq : ∀ s t, r s t → q s t) : SameOutcome q a b := by
  rcases h.cases with ⟨v, s, t, rfl, rfl, hr⟩ | ⟨e, s, t, rfl, rfl, hr⟩
  · exact ⟨rfl, hq s t hr⟩
  · exact ⟨rfl, hq s t hr⟩

theorem bind {q : σ → τ → Prop} {s : σ} {t : τ} (h : SameOutcome r (x s) (y t))
    (herr : ∀ s' t', r s' t' → q s' t')
    (hf : ∀ a s' t', r s' t' → SameOutcome q (f a s') (g a t')) :
    SameOutcome q ((x >>= f) s) ((y >>= g) t) := by
  rcases h.cases with ⟨a, s', t', hx, hy, h⟩ | ⟨e, s', t', hx, hy, h⟩
  · rw [bind_of_ok hx, bind_of_ok hy]
    exact hf a s' t' h
  · rw [bind_of_error hx, bind_of_error hy]
    exact ⟨rfl, herr s' t' h⟩

theorem map {s : σ} {t : τ} {k : α → β} (h : SameOutcome r (x s) (y t)) :
    SameOutcome r ((k <$> x) s) ((k <$> y) t) := by
  show SameOutcome r (EStateM.map k x s) (EStateM.map k y t)
  unfold EStateM.map
  rcases h.cases with ⟨a, s', t', hx, hy, h⟩ | ⟨e, s', t', hx, hy, h⟩
  · rw [hx, hy]
    exact ⟨rfl, h⟩
  · rw [hx, hy]
    exact ⟨rfl, h⟩

/-- Two outcomes that are both like a third are like each other. -/
theorem join {σ' : Type} {r' : σ' → τ → Prop} {q : σ → σ' → Prop} {a : EStateM.Result ε σ α}
    {b : EStateM.Result ε σ' α} {c : EStateM.Result ε τ α} (h : SameOutcome r a c)
    (h' : SameOutcome r' b c) (hq : ∀ s t u, r s u → r' t u → q s t) : SameOutcome q a b := by
  rcases h.cases with ⟨v, s, u, rfl, rfl, hr⟩ | ⟨e, s, u, rfl, rfl, hr⟩
  · rcases h'.cases with ⟨_, t, _, rfl, hc, hr'⟩ | ⟨_, _, _, _, hc, _⟩
    · cases hc
      exact ⟨rfl, hq _ _ _ hr hr'⟩
    · cases hc
  · rcases h'.cases with ⟨_, _, _, _, hc, _⟩ | ⟨_, t, _, rfl, hc, hr'⟩
    · cases hc
    · cases hc
      exact ⟨rfl, hq _ _ _ hr hr'⟩

end SameOutcome

/-- From states related by `r`, `x` ends with the same value or the same fault, in states related by
`r`. -/
def Agrees (r : σ → σ → Prop) (x : EStateM ε σ α) : Prop :=
  ∀ s t, r s t → SameOutcome r (x s) (x t)

namespace Agrees

variable {r : σ → σ → Prop} {x y : EStateM ε σ α} {f : α → EStateM ε σ β}

protected theorem pure (a : α) : Agrees r (pure a : EStateM ε σ α) :=
  fun _ _ h => ⟨rfl, h⟩

protected theorem throw (e : ε) : Agrees r (throw e : EStateM ε σ α) :=
  fun _ _ h => ⟨rfl, h⟩

theorem bind (hx : Agrees r x) (hf : ∀ a, Agrees r (f a)) : Agrees r (x >>= f) :=
  fun s t h => (hx s t h).bind (fun _ _ h => h) fun a s' t' h' => hf a s' t' h'

protected theorem ite {c : Prop} [Decidable c] (hx : Agrees r x) (hy : Agrees r y) :
    Agrees r (if c then x else y) := by
  split
  · exact hx
  · exact hy

/-- An action that reads the state, but only what related states have in common. -/
theorem get {k : σ → EStateM ε σ α} (hk : ∀ s t, r s t → k s = k t) (h : ∀ s, Agrees r (k s)) :
    Agrees r (get >>= k) := by
  intro s t hst
  show SameOutcome r (k s s) (k t t)
  rw [hk s t hst]
  exact h t s t hst

theorem modify {g : σ → σ} (hg : ∀ s t, r s t → r (g s) (g t)) :
    Agrees r (modify g : EStateM ε σ PUnit) :=
  fun s t h => ⟨rfl, hg s t h⟩

theorem mapM : ∀ {l : List α}, (∀ a ∈ l, Agrees r (f a)) → Agrees r (l.mapM f)
  | [], _ => by
    rw [List.mapM_nil]
    exact .pure []
  | a :: l, h => by
    rw [List.mapM_cons]
    exact (h a (by simp)).bind fun _ => (mapM fun b hb => h b (by simp [hb])).bind fun _ => .pure _

end Agrees

end GridFit
