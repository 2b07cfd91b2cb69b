import GridFit.Proofs.OperandStack
import Mathlib.Data.List.Rotate

/-!
# Sequences of operations on the stack

Whatever operations follow one another, a stack shows the same as a list that holds at most as many
values as the buffer of the stack has words: the same results and faults, and the same live values
after each operation, failed ones included (`OperandStack.acts_as_list`). What the words above the
top are never shows.

`StackOperation.agree` is the step: on a stack and on its pile an operation has the same outcome.
`observations_eq` takes it to sequences. The operations that handle several values at once are then
described on the live values alone (`OperandStack.Orderly`).
-/

namespace GridFit

/-! ### What shows of a sequence of operations -/

section Observations

variable {ε σ τ α γ κ : Type}

/-- What an outcome shows: the value or the fault, and `view` of the state that is left. -/
def observe (view : σ → γ) : EStateM.Result ε σ α → Except ε α × γ
  | .ok a s => (.ok a, view s)
  | .error e s => (.error e, view s)

/-- The state that an outcome leaves. -/
def stateAfter : EStateM.Result ε σ α → σ
  | .ok _ s => s
  | .error _ s => s

/-- What the steps `ks` show, one after the other. A step that fails does not end the sequence. -/
def observations (step : κ → EStateM ε σ α) (view : σ → γ) (s : σ) :
    List κ → List (Except ε α × γ)
  | [] => []
  | k :: ks =>
    observe view (step k s) :: observations step view (stateAfter (step k s)) ks

variable {r : σ → τ → Prop} {x : κ → EStateM ε σ α} {y : κ → EStateM ε τ α} {view : σ → γ}
  {view' : τ → γ}

theorem SameOutcome.observe_eq {a : EStateM.Result ε σ α} {b : EStateM.Result ε τ α}
    (h : SameOutcome r a b) (hview : ∀ s t, r s t → view s = view' t) :
    observe view a = observe view' b := by
  rcases h.cases with ⟨v, s, t, rfl, rfl, hr⟩ | ⟨e, s, t, rfl, rfl, hr⟩
  · exact congrArg (Except.ok v, ·) (hview s t hr)
  · exact congrArg (Except.error e, ·) (hview s t hr)

theorem SameOutcome.stateAfter {a : EStateM.Result ε σ α} {b : EStateM.Result ε τ α}
    (h : SameOutcome r a b) : r (stateAfter a) (stateAfter b) := by
  rcases h.cases with ⟨v, s, t, rfl, rfl, hr⟩ | ⟨e, s, t, rfl, rfl, hr⟩
  · exact hr
  · exact hr

/-- Steps with the same outcomes show the same, as far as the views of related states agree. -/
theorem observations_eq (hstep : ∀ k s t, r s t → SameOutcome r (x k s) (y k t))
    (hview : ∀ s t, r s t → view s = view' t) (ks : List κ) {s : σ} {t : τ} (h : r s t) :
    observations x view s ks = observations y view' t ks := by
  induction ks generalizing s t with
  | nil => rfl
  | cons k ks ih =>
    have hk := hstep k s t h
    rw [observations, observations, hk.observe_eq hview, ih hk.stateAfter]

/-- What every step keeps holds of every state that is viewed. -/
theorem observations_forall {inv : σ → Prop} (hstep : ∀ k s, inv s → inv (stateAfter (x k s)))
    (ks : List κ) {s : σ} (h : inv s) :
    ∀ o ∈ observations x view s ks, ∃ s', inv s' ∧ o.2 = view s' := by
  induction ks generalizing s with
  | nil => simp [observations]
  | cons k ks ih =>
    have hk := hstep k s h
    intro o ho
    rcases List.mem_cons.1 ho with rfl | ho
    · refine ⟨stateAfter (x k s), hk, ?_⟩
      cases x k s <;> rfl
    · exact ih hk o ho

end Observations

theorem Refines.map {α β : Type} {x : StackM α} {op : Nat → PileM α} {f : α → β}
    (h : Refines x op) : Refines (f <$> x) fun n => f <$> op n :=
  fun s => (h s).map

/-! ### The operations -/

/-- The index that an operand stands for. For a negative one it is larger than any in use. -/
def indexOf (v : Int32) : Nat := if v.toInt < 0 then 0x7fffffff else v.toInt.toNat

theorem toIndex_eq : OperandStack.toIndex = indexOf := by
  funext v
  unfold OperandStack.toIndex indexOf
  simp only [Int32.lt_iff_toInt_lt]
  rfl

/-- The operands that pairs of bytes spell, high byte first, as signed 16-bit numbers. -/
def operandsOfPairs : List UInt8 → List Int32
  | hi :: lo :: rest =>
    Int32.ofInt ((256 * hi.toNat + lo.toNat : Int).bmod 0x10000) :: operandsOfPairs rest
  | _ => []

theorem Bytes.signExtend_word (hi lo : UInt8) : signExtend (word hi lo) =
    Int32.ofInt ((256 * hi.toNat + lo.toNat : Int).bmod 0x10000) := by
  have hlow := Int.le_bmod (x := 256 * hi.toNat + lo.toNat) (m := 0x10000) (by decide)
  have hhigh := Int.bmod_lt (x := 256 * hi.toNat + lo.toNat) (m := 0x10000) (by decide)
  rw [← Int32.toInt_inj, Int32.toInt_ofInt_of_le (by omega) (by omega), toInt_signExtend,
    toNat_word, Int.natCast_add, Int.natCast_mul]
  rfl

theorem map_signExtend_toWords : ∀ data : List UInt8,
    (Bytes.toWords data).map Bytes.signExtend = operandsOfPairs data
  | [] => rfl
  | [_] => rfl
  | hi :: lo :: rest => by
    rw [Bytes.toWords, operandsOfPairs, List.map_cons, Bytes.signExtend_word,
      map_signExtend_toWords rest]

/-- An operation on a stack of values, with its arguments. -/
inductive StackOperation where
  | push (v : Int32)
  | pop
  | popIndex
  | peek
  | size
  | dup
  | swap
  | clear
  | depth
  | copyIndex
  | moveIndex
  | move (k : Int)
  | roll
  | pushBytes (data : List UInt8)
  | pushWords (data : List UInt8)
  | apply1 (f : Int32 → Except Fault Int32)
  | apply2 (f : Int32 → Int32 → Except Fault Int32)

namespace StackOperation

/-- What an operation returns. -/
inductive Answer where
  | done
  | value (v : Int32)
  | index (i : Nat)
deriving DecidableEq, Repr

/-- The answer of an operation that returns nothing. -/
def finished (_ : Unit) : Answer := .done

/-- An operation on a stack in a buffer. -/
def onStack : StackOperation → StackM Answer
  | .push v => finished <$> StackM.push v
  | .pop => .value <$> StackM.pop
  | .popIndex => .index <$> StackM.popIndex
  | .peek => .value <$> StackM.peek
  | .size => .index <$> StackM.size
  | .dup => finished <$> StackM.dup
  | .swap => finished <$> StackM.swap
  | .clear => finished <$> StackM.clear
  | .depth => finished <$> StackM.depth
  | .copyIndex => finished <$> StackM.copyIndex
  | .moveIndex => finished <$> StackM.moveIndex
  | .move k => finished <$> StackM.move k
  | .roll => finished <$> StackM.roll
  | .pushBytes data => finished <$> StackM.pushBytes data
  | .pushWords data => finished <$> StackM.pushWords data
  | .apply1 f => finished <$> StackM.apply1 f
  | .apply2 f => finished <$> StackM.apply2 f

/-- An operation on a list with the top first, which has room for `capacity` values. -/
def onList (capacity : Nat) : StackOperation → PileM Answer
  | .push v => finished <$> PileM.push capacity v
  | .pop => .value <$> PileM.pop
  | .popIndex => .index <$> (indexOf <$> PileM.pop)
  | .peek => .value <$> PileM.peek
  | .size => .index <$> PileM.size
  | .dup => finished <$> (PileM.peek >>= PileM.push capacity)
  | .swap => finished <$> PileM.swap
  | .clear => finished <$> modify fun _ => []
  | .depth => finished <$> (PileM.size >>= fun n => PileM.push capacity (Int32.ofNat n))
  | .copyIndex => finished <$> (PileM.pop >>= fun k => PileM.nth k >>= PileM.push capacity)
  | .moveIndex =>
    finished <$> (PileM.pop >>= fun k => PileM.nth k >>= fun _ => PileM.move k.toInt)
  | .move k => finished <$> PileM.move k
  | .roll => finished <$> PileM.move 3
  | .pushBytes data => finished <$> PileM.pushAll capacity (data.map fun b => Int32.ofNat b.toNat)
  | .pushWords data => finished <$> PileM.pushAll capacity (operandsOfPairs data)
  | .apply1 f => finished <$> PileM.apply1 f
  | .apply2 f => finished <$> PileM.apply2 f

/-- An operation has the same outcome on a stack and on its pile. -/
theorem agree (op : StackOperation) : Refines op.onStack fun n => op.onList n := by
  cases op with
  | push v => exact (Refines.push v).map
  | pop => exact Refines.pop.map
  | popIndex =>
    have h := Refines.popIndex
    rw [toIndex_eq] at h
    exact h.map
  | peek => exact Refines.peek.map
  | size => exact Refines.size.map
  | dup => exact Refines.dup.map
  | swap => exact Refines.swap.map
  | clear => exact Refines.clear.map
  | depth => exact Refines.depth.map
  | copyIndex => exact Refines.copyIndex.map
  | moveIndex => exact Refines.moveIndex.map
  | move k => exact (Refines.move k).map
  | roll => exact Refines.roll.map
  | pushBytes data => exact (Refines.pushBytes data).map
  | pushWords data =>
    have h := Refines.pushWords data
    rw [map_signExtend_toWords] at h
    exact h.map
  | apply1 f => exact (Refines.apply1 f).map
  | apply2 f => exact (Refines.apply2 f).map

end StackOperation

/-! ### Values that are handled together -/

namespace PileM

variable {k : Int32} {l above below : List Int32} {v : Int32}

/-- The `k`-th value stands between those above it and those below it. -/
theorem exists_split {k : Int} (h : 0 < k) (h' : k ≤ l.length) :
    ∃ above v below, l = above ++ v :: below ∧ k = above.length + 1 := by
  have hk : k.toNat - 1 < l.length := by omega
  refine ⟨l.take (k.toNat - 1), l[k.toNat - 1], l.drop (k.toNat - 1 + 1), by simp, ?_⟩
  rw [List.length_take]
  omega

theorem nth_of_not (h : ¬(0 < k.toInt ∧ k.toInt ≤ l.length)) :
    nth k l = .error .invalidStackValue l :=
  dif_neg h

theorem nth_split (hk : k.toInt = above.length + 1) :
    nth k (above ++ v :: below) = .ok v (above ++ v :: below) := by
  have hn : k.toInt.toNat - 1 = above.length := by omega
  rw [nth, dif_pos (by simp; omega)]
  simp only [hn, List.getElem_append_right, Nat.le_refl, Nat.sub_self, List.getElem_cons_zero]

theorem move_split {k : Int} (hk : k = above.length + 1) :
    move k (above ++ v :: below) = .ok () (v :: above ++ below) := by
  have hn : k.toNat - 1 = above.length := by omega
  rw [move, dif_pos (by simp; omega)]
  simp [hn, List.eraseIdx_append_of_length_le]

theorem push_of_lt {capacity : Nat} (h : l.length < capacity) :
    push capacity v l = .ok () (v :: l) :=
  if_pos h

end PileM

namespace OperandStack

variable {s t : OperandStack} {x : StackM Unit}

theorem pile_eq_reverse (s : OperandStack) : s.pile = s.toList.reverse := rfl

theorem length_toList (s : OperandStack) : s.toList.length = s.top := by
  rw [← List.length_reverse, ← pile_eq_reverse, length_pile]

theorem toList_of_pile {l : List Int32} (h : s.pile = l) : s.toList = l.reverse := by
  rw [← h, pile_eq_reverse, List.reverse_reverse]

end OperandStack

/-- What an operation shows on a stack is what it shows on the pile. -/
theorem Refines.observe_eq {α : Type} {x : StackM α} {op : Nat → PileM α} (h : Refines x op)
    (s : OperandStack) :
    observe OperandStack.toList (x s) = observe List.reverse (op s.words.size s.pile) :=
  (h s).observe_eq fun _ _ h => OperandStack.toList_of_pile h.1

namespace OperandStack

variable {s t : OperandStack} {x : StackM Unit}

/-- `x` takes its argument off the top. If it counts one of the values below, `x` puts `result` of
the values from that one to the top in their place. -/
def TakesIndex (s : OperandStack) (x : StackM Unit) (result : List Int32 → List Int32) : Prop :=
  (s.toList = [] ∧ observe toList (x s) = (.error .stackUnderflow, [])) ∨
  (∃ (l : List Int32) (k : Int32), s.toList = l ++ [k] ∧ (k.toInt ≤ 0 ∨ l.length < k.toInt) ∧
    observe toList (x s) = (.error .invalidStackValue, l)) ∨
  ∃ (below segment : List Int32) (k : Int32), s.toList = below ++ segment ++ [k] ∧ segment ≠ [] ∧
    k.toInt = segment.length ∧ observe toList (x s) = (.ok (), below ++ result segment)

/-- `x` turns the `k` topmost values by one place, so that the lowest of them comes to the top. It
changes nothing if there are fewer. -/
def Turns (s : OperandStack) (x : StackM Unit) (k : Int) : Prop :=
  (∃ below segment, s.toList = below ++ segment ∧ segment ≠ [] ∧ k = segment.length ∧
    observe toList (x s) = (.ok (), below ++ segment.rotate 1)) ∨
  (k ≤ 0 ∨ s.toList.length < k) ∧ observe toList (x s) = (.error .stackUnderflow, s.toList)

/-- `x` puts all of `vs` on top. If there is no room for all of them, it changes nothing. -/
def PushesAll (s : OperandStack) (x : StackM Unit) (vs : List Int32) : Prop :=
  (s.toList.length + vs.length ≤ s.words.size ∧ observe toList (x s) = (.ok (), s.toList ++ vs)) ∨
  s.words.size < s.toList.length + vs.length ∧ x s = .error .stackOverflow s

/-- What the operations that handle several values do to a stack. -/
structure Orderly (s : OperandStack) : Prop where
  copyIndex : s.TakesIndex StackM.copyIndex fun segment => segment ++ segment.take 1
  moveIndex : s.TakesIndex StackM.moveIndex fun segment => segment.rotate 1
  move : ∀ k, s.Turns (StackM.move k) k
  roll : s.Turns StackM.roll 3
  pushBytes : ∀ data, s.PushesAll (StackM.pushBytes data) (data.map fun b => Int32.ofNat b.toNat)
  pushWords : ∀ data, s.PushesAll (StackM.pushWords data) (operandsOfPairs data)
  apply1 : ∀ f e s', StackM.apply1 f s = .error e s' → s' = s
  apply2 : ∀ f e s', StackM.apply2 f s = .error e s' → s' = s

/-- An operation on lists that takes an index does so on stacks. It suffices to say what it does
once the index is off: if it counts no value, nothing; if it counts `v`, the values from `v` up
become `result` of them. -/
theorem takesIndex_of {act : Nat → Int32 → PileM Unit} {result : List Int32 → List Int32}
    (hx : Refines x fun n => PileM.pop >>= act n)
    (hnone : ∀ n (k : Int32) (l : List Int32), ¬(0 < k.toInt ∧ k.toInt ≤ l.length) →
      act n k l = .error .invalidStackValue l)
    (hsome : ∀ n (k : Int32) above v below, (above ++ v :: below).length < n →
      k.toInt = above.length + 1 →
      act n k (above ++ v :: below) = .ok () ((result (v :: above.reverse)).reverse ++ below))
    (s : OperandStack) : s.TakesIndex x result := by
  have hobs := hx.observe_eq s
  cases hp : s.pile with
  | nil =>
    rw [hp] at hobs
    exact .inl ⟨toList_of_pile hp, hobs⟩
  | cons k l =>
    have hlist : s.toList = l.reverse ++ [k] := by
      rw [toList_of_pile hp, List.reverse_cons]
    have hroom : l.length < s.words.size := by
      have hlen := s.length_pile
      have htop := s.top_le
      rw [hp, List.length_cons] at hlen
      omega
    have hpop : (PileM.pop >>= act s.words.size) (k :: l) = act s.words.size k l := rfl
    rw [hp, hpop] at hobs
    by_cases hk : 0 < k.toInt ∧ k.toInt ≤ l.length
    · obtain ⟨above, v, below, rfl, hn⟩ := PileM.exists_split hk.1 hk.2
      rw [hsome _ k above v below hroom hn] at hobs
      refine .inr (.inr ⟨below.reverse, v :: above.reverse, k, ?_, List.cons_ne_nil _ _, ?_, ?_⟩)
      · rw [hlist]
        simp
      · simpa using hn
      · rw [hobs]
        simp [observe]
    · rw [hnone _ k l hk] at hobs
      refine .inr (.inl ⟨l.reverse, k, hlist, ?_, hobs⟩)
      rw [List.length_reverse]
      omega

theorem takesIndex_copyIndex (s : OperandStack) :
    s.TakesIndex StackM.copyIndex fun segment => segment ++ segment.take 1 := by
  refine takesIndex_of Refines.copyIndex (fun n k l hk => ?_) (fun n k above v below hn hk => ?_) s
  · exact bind_of_error (PileM.nth_of_not hk)
  · -- the argument has made room for the copy
    rw [bind_of_ok (PileM.nth_split hk), PileM.push_of_lt hn]
    simp

theorem takesIndex_moveIndex (s : OperandStack) :
    s.TakesIndex StackM.moveIndex fun segment => segment.rotate 1 := by
  refine takesIndex_of Refines.moveIndex (fun n k l hk => ?_) (fun n k above v below hn hk => ?_) s
  · exact bind_of_error (PileM.nth_of_not hk)
  · rw [bind_of_ok (PileM.nth_split hk), PileM.move_split hk]
    simp

theorem turns_move (s : OperandStack) (k : Int) : s.Turns (StackM.move k) k := by
  have hobs := (Refines.move k).observe_eq s
  have hlen : s.pile.length = s.toList.length := by rw [pile_eq_reverse, List.length_reverse]
  by_cases hk : 0 < k ∧ k ≤ s.pile.length
  · obtain ⟨above, v, below, hp, hn⟩ := PileM.exists_split hk.1 hk.2
    rw [hp, PileM.move_split hn] at hobs
    refine .inl ⟨below.reverse, v :: above.reverse, ?_, List.cons_ne_nil _ _, ?_, ?_⟩
    · rw [toList_of_pile hp]
      simp
    · simpa using hn
    · rw [hobs]
      simp [observe]
  · have hmove : PileM.move k s.pile = .error .stackUnderflow s.pile := dif_neg hk
    rw [hmove] at hobs
    refine .inr ⟨by omega, ?_⟩
    rw [hobs, toList_of_pile rfl]
    rfl

theorem pushesAll_pushAll (s : OperandStack) (vs : List Int32) :
    s.PushesAll (StackM.pushAll vs) vs := by
  have hobs := (Refines.pushAll vs).observe_eq s
  by_cases hroom : s.words.size < s.toList.length + vs.length
  · refine .inr ⟨hroom, ?_⟩
    rw [length_toList] at hroom
    rw [Refines.pushAll_eq, if_pos hroom]
  · refine .inl ⟨by omega, ?_⟩
    have hpush : PileM.pushAll s.words.size vs s.pile = .ok () (vs.reverse ++ s.pile) := by
      rw [PileM.pushAll, if_neg]
      rwa [pile_eq_reverse, List.length_reverse]
    rw [hobs, hpush]
    simp [observe, pile_eq_reverse]

theorem apply1_unchanged {f : Int32 → Except Fault Int32} {e : Fault} {s' : OperandStack}
    (h : StackM.apply1 f s = .error e s') : s' = s := by
  obtain ⟨words, top, htop⟩ := s
  simp only [StackM.apply1] at h
  split at h
  · split at h
    · cases h
    · cases h
      rfl
  · cases h
    rfl

theorem apply2_unchanged {f : Int32 → Int32 → Except Fault Int32} {e : Fault} {s' : OperandStack}
    (h : StackM.apply2 f s = .error e s') : s' = s := by
  obtain ⟨words, top, htop⟩ := s
  simp only [StackM.apply2] at h
  split at h
  · split at h
    · cases h
    · cases h
      rfl
  · cases h
    rfl

theorem orderly (s : OperandStack) : s.Orderly where
  copyIndex := s.takesIndex_copyIndex
  moveIndex := s.takesIndex_moveIndex
  move := s.turns_move
  roll := s.turns_move 3
  pushBytes _ := s.pushesAll_pushAll _
  pushWords data := by
    rw [← map_signExtend_toWords]
    exact s.pushesAll_pushAll _
  apply1 _ _ _ := apply1_unchanged
  apply2 _ _ _ := apply2_unchanged

/-! ### Any sequence of operations -/

/-- The live values of `s` are `l`, the top first, and there is room for `capacity` of them. -/
def Piled (capacity : Nat) (s : OperandStack) (l : List Int32) : Prop :=
  s.pile = l ∧ s.words.size = capacity

theorem piled_step {capacity : Nat} (op : StackOperation) (s : OperandStack) (l : List Int32)
    (h : Piled capacity s l) :
    SameOutcome (Piled capacity) (op.onStack s) (op.onList capacity l) := by
  obtain ⟨rfl, rfl⟩ := h
  exact op.agree s

/-- A stack acts as a list with room for as many values as its buffer has words. Any operations, one
after the other, have the same results and faults on both, and leave the same values live after each
of them, never more than there is room for. What the words above the top are makes no difference.
Copying and moving by index, rolling, pushing operands and applying a function are as `Orderly`
says: a copy never lacks room, a move turns a segment by one place, operands are pushed all or none,
and what fails has taken off its index at most. -/
theorem acts_as_list (s : OperandStack) (ops : List StackOperation) :
    let shown := observations StackOperation.onStack toList s ops
    shown = observations (StackOperation.onList s.words.size) List.reverse s.toList.reverse ops ∧
      (∀ o ∈ shown, o.2.length ≤ s.words.size) ∧
      (∀ t : OperandStack, t.words.size = s.words.size → t.toList = s.toList →
        observations StackOperation.onStack toList t ops = shown) ∧
      s.Orderly := by
  intro shown
  have hlist (t : OperandStack) : observations StackOperation.onStack toList t ops =
      observations (StackOperation.onList t.words.size) List.reverse t.toList.reverse ops :=
    observations_eq piled_step (fun _ _ h => toList_of_pile h.1) ops ⟨rfl, rfl⟩
  refine ⟨hlist s, fun o ho => ?_, fun t hsize htop => ?_, s.orderly⟩
  · have hkeep (op : StackOperation) (t : OperandStack) (ht : t.words.size = s.words.size) :
        (stateAfter (op.onStack t)).words.size = s.words.size :=
      (piled_step op t t.pile ⟨rfl, ht⟩).stateAfter.2
    obtain ⟨t, hsize, hview⟩ := observations_forall hkeep ops rfl o ho
    rw [hview, length_toList, ← hsize]
    exact t.top_le
  · rw [hlist t, hsize, htop]
    exact (hlist s).symm

/-- A stack of four values, close to full and close to empty, over two buffers. -/
theorem acts_as_list_leftovers :
    let s := ofBuffer #[7, 7, 7, 7]
    let t := ofBuffer #[1, 2, 3, 4]
    let ops : List StackOperation := [.pushWords [0xff, 0xfe, 0, 3, 9], .depth, .moveIndex, .dup,
      .pushBytes [1, 2], .push 1, .copyIndex, .copyIndex, .roll,
      .apply2 fun _ _ => .error .divisionByZero, .popIndex, .popIndex, .clear, .pop]
    let shown := observations StackOperation.onStack toList s ops
    t.words.size = s.words.size ∧ t.toList = s.toList ∧
      observations StackOperation.onStack toList t ops = shown ∧
      shown = [(.ok .done, [-2, 3]), (.ok .done, [-2, 3, 2]), (.ok .done, [3, -2]),
        (.ok .done, [3, -2, -2]), (.error .stackOverflow, [3, -2, -2]),
        (.ok .done, [3, -2, -2, 1]), (.ok .done, [3, -2, -2, -2]),
        (.error .invalidStackValue, [3, -2, -2]), (.ok .done, [-2, -2, 3]),
        (.error .divisionByZero, [-2, -2, 3]), (.ok (.index 3), [-2, -2]),
        (.ok (.index 2147483647), [-2]), (.ok .done, []), (.error .stackUnderflow, [])] :=
  ⟨rfl, rfl, (acts_as_list _ _).2.2.1 _ rfl rfl, rfl⟩

end OperandStack

end GridFit
