import GridFit.Machine.Arithmetic
import GridFit.Proofs.Action

/-!
# Faults of operations

The operations on the stack check what they access, so in no state at all can they cause a breach,
or a fault that is about a run as a whole. Neither can finding a slot for a definition.
-/

namespace GridFit

/-! ### The stack -/

/-- The greatest index that the stack can give. -/
def maxIndex : Nat := 2147483647

namespace StackM

theorem keeps_push (v : Int32) : Keeps Anything (push v) Anything := by
  rintro ⟨words, top, h⟩ _
  by_cases ht : top < words.size
  · simp only [push, dif_pos ht]
    exact ⟨trivial, trivial⟩
  · simp only [push, dif_neg ht]
    exact ⟨nofun, trivial⟩

theorem keeps_pop : Keeps Anything pop Anything := by
  rintro ⟨words, top, h⟩ _
  by_cases ht : 0 < top
  · simp only [pop, dif_pos ht]
    exact ⟨trivial, trivial⟩
  · simp only [pop, dif_neg ht]
    exact ⟨nofun, trivial⟩

theorem keeps_peek : Keeps Anything peek Anything := by
  rintro ⟨words, top, h⟩ _
  by_cases ht : 0 < top
  · simp only [peek, dif_pos ht]
    exact ⟨trivial, trivial⟩
  · simp only [peek, dif_neg ht]
    exact ⟨nofun, trivial⟩

theorem keeps_size : Keeps Anything size Anything := fun _ _ => ⟨trivial, trivial⟩

theorem keeps_nth (k : Int32) : Keeps Anything (nth k) Anything := by
  rintro ⟨words, top, h⟩ _
  by_cases hk : 0 < k.toInt ∧ k.toInt ≤ top
  · simp only [nth, dif_pos hk]
    exact ⟨trivial, trivial⟩
  · simp only [nth, dif_neg hk]
    exact ⟨nofun, trivial⟩

theorem keeps_move (k : Int) : Keeps Anything (move k) Anything := by
  rintro ⟨words, top, h⟩ _
  by_cases hk : 0 < k ∧ k ≤ top
  · simp only [move, dif_pos hk]
    exact ⟨trivial, trivial⟩
  · simp only [move, dif_neg hk]
    exact ⟨nofun, trivial⟩

theorem keeps_swap : Keeps Anything swap Anything := by
  rintro ⟨words, top, h⟩ _
  by_cases ht : top < 2
  · simp only [swap, dif_pos ht]
    exact ⟨nofun, trivial⟩
  · simp only [swap, dif_neg ht]
    exact ⟨trivial, trivial⟩

theorem keeps_apply1 (f : Int32 → Int32) :
    Keeps Anything (apply1 fun v => .ok (f v)) Anything := by
  rintro ⟨words, top, h⟩ _
  by_cases ht : 0 < top
  · simp only [apply1, dif_pos ht]
    exact ⟨trivial, trivial⟩
  · simp only [apply1, dif_neg ht]
    exact ⟨nofun, trivial⟩

theorem keeps_apply2 {f : Int32 → Int32 → Except Fault Int32}
    (hf : ∀ a b e, f a b = .error e → ¬e.Foreign) : Keeps Anything (apply2 f) Anything := by
  rintro ⟨words, top, h⟩ _
  by_cases ht : 1 < top
  · cases hr : f words[top - 2] words[top - 1] with
    | ok v =>
      simp only [apply2, dif_pos ht, hr]
      exact ⟨trivial, trivial⟩
    | error e =>
      simp only [apply2, dif_pos ht, hr]
      exact ⟨hf _ _ e hr, trivial⟩
  · simp only [apply2, dif_neg ht]
    refine ⟨?_, trivial⟩
    rintro ⟨⟩

theorem keeps_pushAll (vs : List Int32) : Keeps Anything (pushAll vs) Anything :=
  Keeps.get.bind fun _ _ => .whenever (fun _ => .throw nofun) fun _ => .forM fun v _ => keeps_push v

theorem toIndex_le (v : Int32) : OperandStack.toIndex v ≤ maxIndex := by
  have := v.toNatClampNeg_lt
  unfold OperandStack.toIndex maxIndex
  split <;> omega

theorem keeps_popIndex : Keeps Anything popIndex fun p => p ≤ maxIndex :=
  keeps_pop.map fun v _ => toIndex_le v

end StackM

theorem BinaryOp.not_foreign_of_eval (op : BinaryOp) (a b : Int32) (e : Fault)
    (h : op.eval a b = .error e) : ¬e.Foreign := by
  cases op <;> simp only [eval] at h <;> try cases h
  split at h
  · cases h
    nofun
  · cases h

/-! ### Definitions -/

theorem DefinitionTable.not_foreign_of_slotFor {t : DefinitionTable} {key : Int32} {e : Fault}
    (h : t.slotFor key = .error e) : ¬e.Foreign := by
  unfold slotFor at h
  split at h
  · split at h
    · cases h
    · split at h
      · cases h
      · split at h
        · cases h
        · cases h
          nofun
  · cases h
    nofun

end GridFit
