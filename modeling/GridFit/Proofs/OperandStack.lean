import GridFit.OperandStack
import GridFit.Proofs.Action

/-!
# The operand stack as a list

The live words of an operand stack, the top first, are its pile. Every operation of the stack does
on the pile what an operation on lists does (`Refines`), where a list has at most as many values as
the buffer has words. So the words above the top never show (`Refines.agrees`).
-/

namespace GridFit

/-- An operation on a list of values, the top first. -/
abbrev PileM := EStateM Fault (List Int32)

/-! ### Operations on lists -/

namespace PileM

variable (capacity : Nat)

/-- Puts `v` on top. -/
def push (v : Int32) : PileM Unit := fun l =>
  if l.length < capacity then .ok () (v :: l) else .error .stackOverflow l

/-- Removes the top. -/
def pop : PileM Int32
  | [] => .error .stackUnderflow []
  | v :: l => .ok v l

/-- The top. -/
def peek : PileM Int32
  | [] => .error .stackUnderflow []
  | v :: l => .ok v (v :: l)

/-- The number of values. -/
def size : PileM Nat := fun l => .ok l.length l

/-- Puts all of `vs` on top, or none of them. -/
def pushAll (vs : List Int32) : PileM Unit := fun l =>
  if capacity < l.length + vs.length then .error .stackOverflow l else .ok () (vs.reverse ++ l)

/-- Exchanges the two topmost values. -/
def swap : PileM Unit
  | b :: a :: l => .ok () (a :: b :: l)
  | l => .error .stackUnderflow l

/-- The `k`-th value, the top being the first. -/
def nth (k : Int32) : PileM Int32 := fun l =>
  if h : 0 < k.toInt ∧ k.toInt ≤ l.length then
    .ok (l[k.toInt.toNat - 1]) l
  else .error .invalidStackValue l

/-- Moves the `k`-th value to the top. -/
def move (k : Int) : PileM Unit := fun l =>
  if h : 0 < k ∧ k ≤ l.length then
    .ok () (l[k.toNat - 1] :: l.eraseIdx (k.toNat - 1))
  else .error .stackUnderflow l

/-- Replaces the top. -/
def apply1 (f : Int32 → Except Fault Int32) : PileM Unit
  | [] => .error .stackUnderflow []
  | v :: l =>
    match f v with
    | .ok w => .ok () (w :: l)
    | .error e => .error e (v :: l)

/-- Replaces the two topmost values. -/
def apply2 (f : Int32 → Int32 → Except Fault Int32) : PileM Unit
  | b :: a :: l =>
    match f a b with
    | .ok v => .ok () (v :: l)
    | .error e => .error e (b :: a :: l)
  | l => .error .stackUnderflow l

end PileM

/-! ### The pile of a stack -/

namespace OperandStack

/-- The first `n` words, the last of them first. -/
def pileOf (words : Array Int32) (n : Nat) : List Int32 := (words.toList.take n).reverse

/-- The live values, the top first. -/
def pile (s : OperandStack) : List Int32 := pileOf s.words s.top

/-- The same capacity and the same live values. -/
structure Like (s t : OperandStack) : Prop where
  size : s.words.size = t.words.size
  pile : s.pile = t.pile

variable {words : Array Int32} {n : Nat}

theorem length_pileOf (h : n ≤ words.size) : (pileOf words n).length = n := by
  simp [pileOf, h]

theorem length_pile (s : OperandStack) : s.pile.length = s.top := length_pileOf s.top_le

theorem pileOf_zero : pileOf words 0 = [] := rfl

theorem pileOf_succ (h : n < words.size) : pileOf words (n + 1) = words[n] :: pileOf words n := by
  simp [pileOf, List.take_add_one, h]

theorem getElem?_pileOf (h : n ≤ words.size) {i : Nat} (hi : i < n) :
    (pileOf words n)[i]? = words[n - 1 - i]? := by
  have hl : (words.toList.take n).length = n := by simp [h]
  rw [pileOf, List.getElem?_reverse (by omega), hl, List.getElem?_take_of_lt (by omega),
    Array.getElem?_toList]

/-- The `k`-th live value is the word `k` places below the top. -/
theorem getElem_pileOf {k : Nat} (h : n ≤ words.size) (hk : 0 < k)
    (hi : k - 1 < (pileOf words n).length) (hj : n - k < words.size) :
    (pileOf words n)[k - 1] = words[n - k] := by
  have hn := length_pileOf h
  have hg := getElem?_pileOf h (i := k - 1) (by omega)
  rw [List.getElem?_eq_getElem hi, show n - 1 - (k - 1) = n - k by omega,
    Array.getElem?_eq_getElem hj] at hg
  exact Option.some.inj hg

theorem pileOf_set {i : Nat} (h : i < words.size) (hi : n ≤ i) (v : Int32) :
    pileOf (words.set i v) n = pileOf words n := by
  simp [pileOf, List.take_set_of_le hi]

theorem pileOf_swap {i j : Nat} (hi : i < words.size) (hj : j < words.size) (h : n ≤ i)
    (h' : n ≤ j) : pileOf (words.swap i j) n = pileOf words n := by
  have e : words.swap i j = (words.set i words[j]).set j words[i] (by simpa using hj) :=
    Array.swap_def ..
  rw [e, pileOf_set _ h', pileOf_set _ h]

/-- Rotating a segment at the top brings its lowest word to the top. -/
theorem pileOf_rotate : ∀ (n i : Nat) (words : Array Int32) (h : i + n < words.size),
    pileOf (rotate words i n h) (i + n + 1) = words[i] :: (pileOf words (i + n + 1)).eraseIdx n
  | 0, i, words, h => by
    show pileOf words (i + 1) = words[i] :: (pileOf words (i + 1)).eraseIdx 0
    rw [pileOf_succ (by omega)]
    rfl
  | n + 1, i, words, h => by
    have hs : (words.swap i (i + 1)).size = words.size := Array.size_swap ..
    have ih := pileOf_rotate n (i + 1) (words.swap i (i + 1)) (by omega)
    rw [show i + 1 + n + 1 = i + (n + 1) + 1 by omega, Array.getElem_swap_right] at ih
    rw [rotate, ih]
    congr 1
    -- the moved word is the one that each side erases, at neighbouring places
    apply List.ext_getElem?
    intro j
    rw [List.getElem?_eraseIdx, List.getElem?_eraseIdx]
    rcases Nat.lt_trichotomy j n with hj | rfl | hj
    · rw [if_pos hj, if_pos (by omega), getElem?_pileOf (by omega) (by omega),
        getElem?_pileOf (by omega) (by omega), Array.getElem?_swap, if_neg (by omega),
        if_neg (by omega)]
    · rw [if_neg (by omega), if_pos (by omega), getElem?_pileOf (by omega) (by omega),
        getElem?_pileOf (by omega) (by omega), Array.getElem?_swap, if_neg (by omega),
        if_pos (by omega), Array.getElem?_eq_getElem (by omega)]
      congr 2
      omega
    · rw [if_neg (by omega), if_neg (by omega)]
      by_cases hi : j + 1 < i + (n + 1) + 1
      · rw [getElem?_pileOf (by omega) hi, getElem?_pileOf (by omega) hi, Array.getElem?_swap,
          if_neg (by omega), if_neg (by omega)]
      · rw [List.getElem?_eq_none (by rw [length_pileOf] <;> omega),
          List.getElem?_eq_none (by rw [length_pileOf] <;> omega)]

end OperandStack

/-! ### Refinement -/

/-- `x` does on the live values of a stack what `op` does on a list, and keeps the capacity. -/
def Refines {α : Type} (x : StackM α) (op : Nat → PileM α) : Prop :=
  ∀ s, SameOutcome (fun s' l => s'.pile = l ∧ s'.words.size = s.words.size) (x s)
    (op s.words.size s.pile)

namespace Refines

open OperandStack

variable {α β : Type} {x : StackM α} {op : Nat → PileM α} {f : α → StackM β}
  {g : Nat → α → PileM β}

/-- An operation that is one on lists does not see the words above the top. -/
theorem agrees (h : Refines x op) : Agrees OperandStack.Like x := by
  intro s t hst
  have ht := h t
  rw [← hst.size, ← hst.pile] at ht
  exact (h s).join ht fun _ _ _ hs ht =>
    ⟨hs.2.trans ht.2.symm, hs.1.trans ht.1.symm⟩

protected theorem pure (a : α) : Refines (pure a) fun _ => pure a :=
  fun _ => ⟨rfl, rfl, rfl⟩

theorem bind (hx : Refines x op) (hf : ∀ a, Refines (f a) fun n => g n a) :
    Refines (x >>= f) fun n => op n >>= g n := by
  intro s
  refine (hx s).bind (fun _ _ h => h) fun a s' l h => ?_
  obtain ⟨rfl, hc⟩ := h
  have := hf a s'
  rw [hc] at this
  exact this

/-! ### The operations of the stack -/

theorem push (v : Int32) : Refines (StackM.push v) fun n => PileM.push n v := by
  rintro ⟨words, top, htop⟩
  simp only [StackM.push, PileM.push, length_pile]
  split
  · rename_i h
    refine ⟨rfl, ?_, by simp⟩
    simp only [OperandStack.pile]
    rw [pileOf_succ (by simpa using h), pileOf_set h (Nat.le_refl _)]
    simp
  · exact ⟨rfl, rfl, rfl⟩

theorem pop : Refines StackM.pop fun _ => PileM.pop := by
  rintro ⟨words, top, htop⟩
  cases top with
  | zero => exact ⟨rfl, rfl, rfl⟩
  | succ n =>
    simp only [StackM.pop, OperandStack.pile, pileOf_succ htop, PileM.pop]
    exact ⟨rfl, rfl, rfl⟩

theorem peek : Refines StackM.peek fun _ => PileM.peek := by
  rintro ⟨words, top, htop⟩
  cases top with
  | zero => exact ⟨rfl, rfl, rfl⟩
  | succ n =>
    simp only [StackM.peek, OperandStack.pile, pileOf_succ htop, PileM.peek]
    exact ⟨rfl, pileOf_succ htop, rfl⟩

theorem size : Refines StackM.size fun _ => PileM.size :=
  fun s => ⟨(length_pile s).symm, rfl, rfl⟩

theorem clear : Refines StackM.clear fun _ => modify fun _ => [] :=
  fun _ => ⟨rfl, rfl, rfl⟩

theorem swap : Refines StackM.swap fun _ => PileM.swap := by
  rintro ⟨words, top, htop⟩
  match top, htop with
  | 0, _ => exact ⟨rfl, rfl, rfl⟩
  | 1, htop =>
    simp only [StackM.swap, OperandStack.pile, pileOf_succ htop, pileOf_zero, PileM.swap]
    exact ⟨rfl, pileOf_succ htop, rfl⟩
  | n + 2, htop =>
    have h1 : n + 1 < words.size := htop
    have h0 : n < words.size := by omega
    simp only [StackM.swap, OperandStack.pile, pileOf_succ h1, pileOf_succ h0, PileM.swap]
    refine ⟨rfl, ?_, by simp⟩
    show pileOf (words.swap (n + 1) n) (n + 2) = _
    rw [pileOf_succ (by simpa using h1), pileOf_succ (by simpa using h0),
      pileOf_swap h1 h0 (by omega) (by omega)]
    simp

theorem nth (k : Int32) : Refines (StackM.nth k) fun _ => PileM.nth k := by
  rintro ⟨words, top, htop⟩
  simp only [StackM.nth, PileM.nth, length_pile]
  split
  · exact ⟨(getElem_pileOf htop (by omega) _ _).symm, rfl, rfl⟩
  · exact ⟨rfl, rfl, rfl⟩

theorem move (k : Int) : Refines (StackM.move k) fun _ => PileM.move k := by
  rintro ⟨words, top, htop⟩
  simp only [StackM.move, PileM.move, length_pile]
  split
  · rename_i h
    refine ⟨rfl, ?_, size_rotate ..⟩
    have hr := pileOf_rotate (k.toNat - 1) (top - k.toNat) words (by omega)
    have ht : top - k.toNat + (k.toNat - 1) + 1 = top := by omega
    rw [ht] at hr
    rw [OperandStack.pile, hr, ← getElem_pileOf htop (by omega) (by rw [length_pileOf htop]; omega)]
    rfl
  · exact ⟨rfl, rfl, rfl⟩

theorem apply1 (f : Int32 → Except Fault Int32) :
    Refines (StackM.apply1 f) fun _ => PileM.apply1 f := by
  rintro ⟨words, top, htop⟩
  cases top with
  | zero => exact ⟨rfl, rfl, rfl⟩
  | succ n =>
    have h0 : n < words.size := htop
    simp only [StackM.apply1, OperandStack.pile, pileOf_succ h0, PileM.apply1]
    show SameOutcome _ (match f words[n] with | .ok v => _ | .error e => _) _
    cases f words[n] with
    | error e => exact ⟨rfl, pileOf_succ h0, rfl⟩
    | ok v =>
      refine ⟨rfl, ?_, by simp⟩
      show pileOf (words.set n v) (n + 1) = v :: pileOf words n
      rw [pileOf_succ (by simpa using h0), pileOf_set h0 (Nat.le_refl _), Array.getElem_set_self]

theorem apply2 (f : Int32 → Int32 → Except Fault Int32) :
    Refines (StackM.apply2 f) fun _ => PileM.apply2 f := by
  rintro ⟨words, top, htop⟩
  match top, htop with
  | 0, _ => exact ⟨rfl, rfl, rfl⟩
  | 1, htop =>
    simp only [StackM.apply2, OperandStack.pile, pileOf_succ htop, pileOf_zero, PileM.apply2]
    exact ⟨rfl, pileOf_succ htop, rfl⟩
  | n + 2, htop =>
    have h1 : n + 1 < words.size := htop
    have h0 : n < words.size := by omega
    simp only [StackM.apply2, OperandStack.pile, pileOf_succ h1, pileOf_succ h0, PileM.apply2]
    rw [dif_pos (by omega)]
    show SameOutcome _ (match f words[n] words[n + 1] with | .ok v => _ | .error e => _) _
    cases f words[n] words[n + 1] with
    | error e => exact ⟨rfl, by rw [pileOf_succ h1, pileOf_succ h0], rfl⟩
    | ok v =>
      refine ⟨rfl, ?_, by simp⟩
      show pileOf (words.set n v) (n + 1) = v :: pileOf words n
      rw [pileOf_succ (by simpa using h0), pileOf_set h0 (Nat.le_refl _), Array.getElem_set_self]

theorem push_of_lt {s : OperandStack} (h : s.top < s.words.size) (v : Int32) :
    ∃ s', StackM.push v s = .ok () s' ∧ s'.pile = v :: s.pile ∧ s'.words.size = s.words.size := by
  have hr : SameOutcome _ _ (PileM.push s.words.size v s.pile) := push v s
  rw [PileM.push, if_pos (by rwa [length_pile])] at hr
  cases hp : StackM.push v s with
  | ok u s' => rw [hp] at hr; exact ⟨s', rfl, hr.2⟩
  | error e s' => rw [hp] at hr; exact hr.elim

theorem forM_push : ∀ (vs : List Int32) (s : OperandStack), s.top + vs.length ≤ s.words.size →
    ∃ s', vs.forM StackM.push s = .ok () s' ∧ s'.pile = vs.reverse ++ s.pile ∧
      s'.words.size = s.words.size
  | [], s, _ => ⟨s, rfl, rfl, rfl⟩
  | v :: vs, s, h => by
    obtain ⟨s₁, h₁, hp, hc⟩ := push_of_lt (s := s) (by simp at h; omega) v
    have ht : s₁.top = s.top + 1 := by
      rw [← length_pile, hp, List.length_cons, length_pile]
    obtain ⟨s₂, h₂, hp₂, hc₂⟩ := forM_push vs s₁ (by simp at h; omega)
    refine ⟨s₂, ?_, by rw [hp₂, hp]; simp, hc₂.trans hc⟩
    show EStateM.bind (StackM.push v) (fun _ => vs.forM StackM.push) s = _
    rw [EStateM.bind, h₁]
    exact h₂

theorem pushAll_eq (vs : List Int32) (s : OperandStack) : StackM.pushAll vs s =
    if s.words.size < s.top + vs.length then .error .stackOverflow s
    else vs.forM StackM.push s := by
  show (if s.words.size < s.top + vs.length then
      throw .stackOverflow >>= fun _ => vs.forM StackM.push
    else vs.forM StackM.push : StackM Unit) s = _
  split
  · rfl
  · rfl

theorem pushAll (vs : List Int32) : Refines (StackM.pushAll vs) fun n => PileM.pushAll n vs := by
  intro s
  show SameOutcome _ _ (PileM.pushAll s.words.size vs s.pile)
  rw [pushAll_eq, PileM.pushAll, length_pile]
  split
  · exact ⟨rfl, rfl, rfl⟩
  · obtain ⟨s', h, hp, hc⟩ := forM_push vs s (by omega)
    rw [h]
    exact ⟨rfl, hp, hc⟩

/-! ### Operations made of others -/

theorem popIndex : Refines StackM.popIndex fun _ => toIndex <$> PileM.pop :=
  fun s => (pop s).map

theorem pushBytes (data : List UInt8) :
    Refines (StackM.pushBytes data) fun n => PileM.pushAll n (data.map Bytes.zeroExtend) :=
  pushAll _

theorem pushWords (data : List UInt8) : Refines (StackM.pushWords data) fun n =>
    PileM.pushAll n ((Bytes.toWords data).map Bytes.signExtend) :=
  pushAll _

theorem dup : Refines StackM.dup fun n => PileM.peek >>= PileM.push n :=
  peek.bind push

theorem depth : Refines StackM.depth fun n => PileM.size >>= fun k => PileM.push n (Int32.ofNat k) :=
  size.bind fun k => push (Int32.ofNat k)

theorem copyIndex :
    Refines StackM.copyIndex fun n => PileM.pop >>= fun k => PileM.nth k >>= PileM.push n :=
  pop.bind fun k => (nth k).bind push

theorem moveIndex : Refines StackM.moveIndex fun _ =>
    PileM.pop >>= fun k => PileM.nth k >>= fun _ => PileM.move k.toInt :=
  pop.bind fun k => (nth k).bind fun _ => move k.toInt

theorem roll : Refines StackM.roll fun _ => PileM.move 3 := move 3

end Refines

end GridFit
