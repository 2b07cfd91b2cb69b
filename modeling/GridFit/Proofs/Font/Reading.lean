import GridFit.Font.Reader
import GridFit.Proofs.Action

/-!
# What readings yield

`Yields allowed x post`: the computation `x` ends with a value that has `post` or with an error in
`allowed`. With `Safely` the error is anything but a breach, and with `Surely` there is none. A read
at an offset that is in range has neither. Both are closed under the ways in which computations on
the bytes of a font are put together.
-/

namespace GridFit

variable {α β : Type} {allowed : FontError → Prop}

def Yields (allowed : FontError → Prop) (x : FontM α) (post : α → Prop) : Prop :=
  match x with
  | .ok a => post a
  | .error e => allowed e

abbrev Safely : FontM α → (α → Prop) → Prop := Yields (· ≠ .breach)

abbrev Surely : FontM α → (α → Prop) → Prop := Yields fun _ => False

namespace Yields

variable {x y : FontM α} {f : α → FontM β} {p q : α → Prop} {r : β → Prop}

theorem ok {a : α} (h : Yields allowed x p) (hx : x = .ok a) : p a := by
  subst hx
  exact h

theorem error {e : FontError} (h : Yields allowed x p) (hx : x = .error e) : allowed e := by
  subst hx
  exact h

theorem exists_ok (h : Surely x p) : ∃ a, x = .ok a := by
  cases x with
  | ok a => exact ⟨a, rfl⟩
  | error e => cases h

theorem ne_breach (h : Safely x p) : x ≠ .error .breach :=
  fun hx => h.error hx rfl

protected theorem pure {a : α} (h : p a) : Yields allowed (pure a) p := h

protected theorem throw {e : FontError} (h : allowed e) : Yields allowed (throw e : FontM α) p := h

theorem bind (hx : Yields allowed x p) (hf : ∀ a, p a → Yields allowed (f a) r) :
    Yields allowed (x >>= f) r := by
  cases x with
  | ok a => exact hf a hx
  | error e => exact hx

theorem mono (h : Yields allowed x p) (hpq : ∀ a, p a → q a) : Yields allowed x q := by
  cases x with
  | ok a => exact hpq a h
  | error e => exact h

theorem anything (x : FontM α) : Yields Anything x Anything := by
  cases x <;> trivial

/-- Without an error a computation yields what it comes to. -/
theorem self (x : FontM α) : Yields Anything x fun a => x = .ok a := by
  cases x <;> trivial

theorem safely (h : Surely x p) : Safely x p := by
  cases x with
  | ok a => exact h
  | error e => cases h

protected theorem ite {c : Prop} [Decidable c] (hx : c → Yields allowed x p)
    (hy : ¬c → Yields allowed y p) : Yields allowed (if c then x else y) p := by
  split
  · exact hx ‹_›
  · exact hy ‹_›

protected theorem dite {c : Prop} [Decidable c] {x : c → FontM α} {y : ¬c → FontM α}
    (hx : ∀ h, Yields allowed (x h) p) (hy : ∀ h, Yields allowed (y h) p) :
    Yields allowed (if h : c then x h else y h) p := by
  split
  · exact hx ‹_›
  · exact hy ‹_›

/-- A condition under which nothing more is read. -/
theorem guarded {c : Prop} [Decidable c] {e : FontError} {y : FontM β} (he : allowed e)
    (hy : ¬c → Yields allowed y r) : Yields allowed (if c then throw e >>= f else y) r :=
  .ite (fun _ => he) hy

theorem mapM {f : α → FontM β} {l : List α} (h : ∀ a ∈ l, Yields allowed (f a) r) :
    Yields allowed (l.mapM f) fun bs => bs.length = l.length ∧ ∀ b ∈ bs, r b := by
  induction l with
  | nil =>
    rw [List.mapM_nil]
    exact ⟨rfl, nofun⟩
  | cons a l ih =>
    rw [List.mapM_cons]
    refine (h a (by simp)).bind fun b hb => (ih fun a ha => h a (by simp [ha])).bind fun bs hbs => ?_
    refine .pure ⟨by simp [hbs.1], fun c hc => ?_⟩
    rcases List.mem_cons.1 hc with rfl | hc
    · exact hb
    · exact hbs.2 c hc

theorem foldlM {f : β → α → FontM β} {l : List α} {b : β} (hb : r b)
    (h : ∀ a ∈ l, ∀ b, r b → Yields allowed (f b a) r) : Yields allowed (l.foldlM f b) r := by
  induction l generalizing b with
  | nil => exact hb
  | cons a l ih =>
    rw [List.foldlM_cons]
    exact (h a (by simp) b hb).bind fun b hb => ih hb fun a ha => h a (by simp [ha])

end Yields

theorem FontM.mapM_of_ok {g : α → FontM β} {k : α → β} {l : List α}
    (h : ∀ a ∈ l, g a = .ok (k a)) : l.mapM g = .ok (l.map k) := by
  induction l with
  | nil => rfl
  | cons a l ih =>
    rw [List.mapM_cons, h a (by simp), ih fun b hb => h b (by simp [hb])]
    rfl

theorem FontM.exists_of_any {x : FontM α} {good : α → Bool} (h : x.toOption.any good) :
    ∃ a, x = .ok a ∧ good a := by
  cases x with
  | ok a => exact ⟨a, rfl, h⟩
  | error e => cases h

theorem FontM.ok_of_toOption {x : FontM α} {a : α} (h : x.toOption = some a) : x = .ok a := by
  cases x with
  | ok b => exact congrArg Except.ok (Option.some.inj h)
  | error e => cases h

theorem FontM.exists_of_bind_ok {x : FontM α} {f : α → FontM β} {b : β} (h : (x >>= f) = .ok b) :
    ∃ a, x = .ok a ∧ f a = .ok b := by
  cases x with
  | ok a => exact ⟨a, rfl, h⟩
  | error e => cases h

theorem FontM.bind_eq_ok {x : FontM α} {f : α → FontM β} {b : β} :
    (x >>= f) = .ok b ↔ ∃ a, x = .ok a ∧ f a = .ok b := by
  refine ⟨exists_of_bind_ok, fun ⟨a, hx, hf⟩ => ?_⟩
  rw [hx]
  exact hf

/-- Reading goes on past a check if its condition does not hold. -/
theorem FontM.guarded_eq_ok {c : Prop} [Decidable c] {e : FontError} {f : α → FontM β} {y : FontM β}
    {b : β} : (if c then throw e >>= f else y) = .ok b ↔ ¬c ∧ y = .ok b := by
  by_cases hc : c
  · rw [if_pos hc]
    exact ⟨nofun, fun h => absurd hc h.1⟩
  · rw [if_neg hc]
    exact ⟨fun h => ⟨hc, h⟩, And.right⟩

/-! ### Reads in range -/

theorem yields_elementAt {a : Array α} {i : Nat} (h : i < a.size) :
    Yields allowed (FontM.elementAt a i) Anything := by
  rw [FontM.elementAt, dif_pos h]
  trivial

theorem FontM.elementAt_append_left {a b : Array α} {i : Nat} (h : i < a.size) :
    FontM.elementAt (a ++ b) i = FontM.elementAt a i := by
  have hi : i < (a ++ b).size := by
    rw [Array.size_append]
    exact Nat.lt_add_right _ h
  rw [FontM.elementAt, FontM.elementAt, dif_pos hi, dif_pos h, Array.getElem_append_left h]

theorem FontM.elementAt_append_right (a b : Array α) (i : Nat) :
    FontM.elementAt (a ++ b) (a.size + i) = FontM.elementAt b i := by
  simp [FontM.elementAt]

namespace Bytes

variable {b : Bytes} {i n : Nat}

theorem yields_u8At (h : i < b.size) : Yields allowed (b.u8At i) Anything := yields_elementAt h

theorem yields_u16At (h : i + 2 ≤ b.size) : Yields allowed (b.u16At i) Anything := by
  have hi : i + 1 < b.size := by omega
  rw [u16At, dif_pos hi]
  trivial

theorem yields_i16At (h : i + 2 ≤ b.size) : Yields allowed (b.i16At i) Anything :=
  (yields_u16At h).bind fun _ _ => .pure trivial

theorem yields_u32At (h : i + 4 ≤ b.size) : Yields allowed (b.u32At i) Anything :=
  (yields_u16At (by omega)).bind fun _ _ => (yields_u16At (by omega)).bind fun _ _ => .pure trivial

theorem yields_slice {j : Nat} (hi : i ≤ j) (hj : j ≤ b.size) :
    Yields allowed (b.slice i j) Anything := by
  rw [slice, if_pos ⟨hi, hj⟩]
  trivial

theorem yields_u16sAt (h : i + 2 * n ≤ b.size) : Yields allowed (b.u16sAt i n) Anything := by
  refine (Yields.mapM (r := Anything) fun k hk => ?_).bind fun _ _ => .pure trivial
  have hk : k < n := List.mem_range.1 hk
  exact yields_u16At (by omega)

/-! ### The numbers of a table -/

/-- The 16-bit number at `i`. Bytes past the end of the table count as zero. -/
def wordAt (b : Bytes) (i : Nat) : UInt16 := word (b.getD i 0) (b.getD (i + 1) 0)

/-- The 32-bit number at `i`. -/
def longAt (b : Bytes) (i : Nat) : UInt32 :=
  (b.wordAt i).toUInt32 <<< 16 ||| (b.wordAt (i + 2)).toUInt32

/-- The byte at `i`. -/
def byteAt (b : Bytes) (i : Nat) : UInt8 := b.getD i 0

theorem u16At_eq (h : i + 2 ≤ b.size) : b.u16At i = .ok (b.wordAt i) := by
  have hi : i + 1 < b.size := by omega
  simp [u16At, wordAt, Array.getD, hi, Nat.lt_of_succ_lt hi]

theorem i16At_eq (h : i + 2 ≤ b.size) : b.i16At i = .ok (signExtend (b.wordAt i)) := by
  rw [i16At, u16At_eq h]
  rfl

theorem u32At_eq (h : i + 4 ≤ b.size) : b.u32At i = .ok (b.longAt i) := by
  rw [u32At, u16At_eq (by omega), u16At_eq (by omega)]
  rfl

/-! A read is in range and finds the number there, or it fails. -/

theorem u8At_ok {v : UInt8} : b.u8At i = .ok v ↔ i < b.size ∧ b.byteAt i = v := by
  by_cases h : i < b.size
  · simp [u8At, FontM.elementAt, byteAt, Array.getD, h]
  · simp [u8At, FontM.elementAt, h]

theorem u16At_ok {w : UInt16} : b.u16At i = .ok w ↔ i + 2 ≤ b.size ∧ b.wordAt i = w := by
  by_cases h : i + 2 ≤ b.size
  · simp [u16At_eq h, h]
  · have hi : ¬i + 1 < b.size := by omega
    simp [u16At, hi, h]

theorem i16At_ok {v : Int32} :
    b.i16At i = .ok v ↔ i + 2 ≤ b.size ∧ (b.wordAt i).toInt16.toInt32 = v := by
  by_cases h : i + 2 ≤ b.size
  · simp [i16At_eq h, signExtend, h]
  · refine iff_of_false (fun hv => ?_) fun hv => h hv.1
    obtain ⟨_, hw, -⟩ := FontM.exists_of_bind_ok hv
    exact h (u16At_ok.1 hw).1

theorem u32At_ok {w : UInt32} : b.u32At i = .ok w ↔ i + 4 ≤ b.size ∧ b.longAt i = w := by
  by_cases h : i + 4 ≤ b.size
  · simp [u32At_eq h, h]
  · refine iff_of_false (fun hw => ?_) fun hw => h hw.1
    obtain ⟨_, -, hrest⟩ := FontM.exists_of_bind_ok hw
    obtain ⟨_, hlow, -⟩ := FontM.exists_of_bind_ok hrest
    exact h (u16At_ok.1 hlow).1

theorem slice_ok {j : Nat} {c : Bytes} :
    b.slice i j = .ok c ↔ i ≤ j ∧ j ≤ b.size ∧ b.extract i j = c := by
  by_cases h : i ≤ j ∧ j ≤ b.size
  · simp [slice, h]
  · simp [slice, h, ← and_assoc]

end Bytes

namespace Yields

variable {b : Bytes} {i : Nat} {p : α → Prop}

theorem u8 {f : UInt8 → FontM α} (h : i < b.size) (hf : ∀ v, Yields allowed (f v) p) :
    Yields allowed (b.u8At i >>= f) p :=
  (Bytes.yields_u8At h).bind fun v _ => hf v

theorem u16 {f : UInt16 → FontM α} (h : i + 2 ≤ b.size) (hf : ∀ v, Yields allowed (f v) p) :
    Yields allowed (b.u16At i >>= f) p :=
  (Bytes.yields_u16At h).bind fun v _ => hf v

theorem i16 {f : Int32 → FontM α} (h : i + 2 ≤ b.size) (hf : ∀ v, Yields allowed (f v) p) :
    Yields allowed (b.i16At i >>= f) p :=
  (Bytes.yields_i16At h).bind fun v _ => hf v

theorem u32 {f : UInt32 → FontM α} (h : i + 4 ≤ b.size) (hf : ∀ v, Yields allowed (f v) p) :
    Yields allowed (b.u32At i >>= f) p :=
  (Bytes.yields_u32At h).bind fun v _ => hf v

theorem word {f : UInt16 → FontM α} (h : i + 2 ≤ b.size) (hf : Yields allowed (f (b.wordAt i)) p) :
    Yields allowed (b.u16At i >>= f) p := by
  rw [Bytes.u16At_eq h]
  exact hf

theorem long {f : UInt32 → FontM α} (h : i + 4 ≤ b.size) (hf : Yields allowed (f (b.longAt i)) p) :
    Yields allowed (b.u32At i >>= f) p := by
  rw [Bytes.u32At_eq h]
  exact hf

end Yields

end GridFit
