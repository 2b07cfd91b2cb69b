import GridFit.Table
import GridFit.Proofs.Action

/-!
# Reading what was written

A table read after a write gives the written value at the written place and what it gave before
everywhere else, whether it owns its cells or lies over others (`Table.get?_set`). So what a table
gives when it is read is all that later reads depend on (`Table.Like`).
-/

namespace GridFit

namespace Bitmap

theorem toBitVec_mask (i : Nat) : (mask i).toBitVec = BitVec.twoPow 64 (i % 64) := by
  have h : i % 64 % 18446744073709551616 % 64 = i % 64 := by omega
  simp [mask, BitVec.twoPow, UInt64.toBitVec_shiftLeft, h]

/-- A word meets the mask of `i` if its bit for `i` is set. -/
theorem and_mask (w : UInt64) (i : Nat) : (w &&& mask i != 0) = w.toBitVec.getLsbD (i % 64) := by
  have hi : i % 64 < 64 := Nat.mod_lt _ (by decide)
  rw [Bool.eq_iff_iff, bne_iff_ne]
  rw [ne_eq, ← UInt64.toBitVec_inj, UInt64.toBitVec_and, toBitVec_mask, BitVec.and_twoPow]
  split
  · rename_i h
    refine ⟨fun _ => h, fun _ h0 => ?_⟩
    have := congrArg (BitVec.getLsbD · (i % 64)) h0
    simp [hi] at this
  · rename_i h
    exact ⟨fun h0 => absurd rfl h0, fun h' => absurd h' h⟩

variable {bits : Array UInt64} {i j : Nat}

/-- Setting a bit sets that bit and no other. -/
theorem get_set (hi : i / 64 < bits.size) (hj : j / 64 < bits.size)
    (hj' : j / 64 < (set bits i hi).size) :
    get (set bits i hi) j hj' = (decide (j = i) || get bits j hj) := by
  simp only [get, set, and_mask]
  by_cases hw : i / 64 = j / 64
  · have hm : i % 64 = j % 64 ↔ j = i := by omega
    have hj64 : i % 64 < 64 := Nat.mod_lt _ (by decide)
    simp only [hw, Array.getElem_set_self, UInt64.toBitVec_or, toBitVec_mask, BitVec.getLsbD_or,
      BitVec.getLsbD_twoPow, hm, hj64, decide_true, Bool.true_and]
    exact Bool.or_comm _ _
  · have hne : j ≠ i := fun h => hw (by rw [h])
    rw [Array.getElem_set_ne _ hj hw]
    simp [hne]

theorem get_clear (h : i / 64 < (clear bits).size) : get (clear bits) i h = false := by
  simp [get, clear]

end Bitmap

namespace Overlay

theorem get_set (o : Overlay) {i j : Nat} (hi : i < o.base.size) (v : Int32)
    (hj : j < o.base.size) (hj' : j < (o.set i v hi).base.size) :
    (o.set i v hi).get j hj' = if j = i then v else o.get j hj := by
  obtain ⟨base, cells, written, hc, hw⟩ := o
  have hb := Bitmap.get_set (word_lt hw hi) (word_lt hw hj) (by simpa using word_lt hw hj)
  have hj'' : j < (cells.set i v (Nat.lt_of_lt_of_le hi hc)).size := by
    simpa using Nat.lt_of_lt_of_le hj hc
  show (if Bitmap.get (Bitmap.set written i (word_lt hw hi)) j _ then
    (cells.set i v (Nat.lt_of_lt_of_le hi hc))[j] else base[j]) = _
  simp only [hb, get, Array.getElem_set]
  by_cases h : j = i
  · simp [h]
  · simp only [h, Ne.symm h, decide_false, Bool.false_or, if_false]
    rfl

theorem get_fresh (base cells : Array Int32) (written : Array UInt64) (hc : base.size ≤ cells.size)
    (hw : bitmapWords base.size ≤ written.size) {i : Nat} (h : i < base.size) :
    (fresh base cells written hc hw).get i h = base[i] := by
  simp [get, fresh, Bitmap.get_clear]

end Overlay

namespace Table

theorem contains_iff {t : Table} {i : Int} : t.contains i ↔ 0 ≤ i ∧ i.toNat < t.size := by
  simp only [contains, decide_eq_true_eq]
  omega

/-- The value at an index of the table. -/
def value (t : Table) (i : Nat) (h : i < t.size) : Int32 :=
  match t, h with
  | .owned cells, h => cells[i]
  | .overlay o, h => o.get i h

theorem get?_eq_some {t : Table} {i : Int} (h0 : 0 ≤ i) (h : i.toNat < t.size) :
    t.get? i = some (t.value i.toNat h) := by
  rw [get?.eq_def, if_pos h0]
  cases t with
  | owned cells => exact Array.getElem?_eq_getElem h
  | overlay o => exact dif_pos h

theorem get?_eq_none {t : Table} {i : Int} (h : ¬(0 ≤ i ∧ i.toNat < t.size)) :
    t.get? i = none := by
  rw [get?.eq_def]
  split
  · rename_i h0
    have hs : ¬i.toNat < t.size := fun h' => h ⟨h0, h'⟩
    cases t with
    | owned cells => exact Array.getElem?_eq_none (Nat.le_of_not_lt hs)
    | overlay o => exact dif_neg hs
  · rfl

theorem contains_eq_isSome (t : Table) (i : Int) : t.contains i = (t.get? i).isSome := by
  rw [Bool.eq_iff_iff, contains_iff]
  by_cases h : 0 ≤ i ∧ i.toNat < t.size
  · simp [get?_eq_some h.1 h.2, h]
  · simp [get?_eq_none h, h]

theorem set_of_not_mem {t : Table} {i : Int} (h : ¬(0 ≤ i ∧ i.toNat < t.size)) (v : Int32) :
    t.set i v = t :=
  dif_neg h

theorem size_set (t : Table) (i : Int) (v : Int32) : (t.set i v).size = t.size := by
  by_cases h : 0 ≤ i ∧ i.toNat < t.size
  · rw [set.eq_def, dif_pos h]
    cases t with
    | owned cells => exact Array.size_set ..
    | overlay o => rfl
  · rw [set_of_not_mem h]

theorem value_set {t : Table} {i : Int} {j : Nat} (h : 0 ≤ i ∧ i.toNat < t.size) (v : Int32)
    (hj : j < t.size) (hj' : j < (t.set i v).size) :
    (t.set i v).value j hj' = if j = i.toNat then v else t.value j hj := by
  revert hj'
  cases t with
  | owned cells =>
    have hi : i.toNat < cells.size := h.2
    have hjc : j < (cells.set i.toNat v hi).size := by rw [Array.size_set]; exact hj
    have e : (owned cells).set i v = .owned (cells.set i.toNat v hi) := dif_pos h
    rw [e]
    intro _
    refine (Array.getElem_set hi hjc).trans ?_
    exact ite_congr (propext eq_comm) (fun _ => rfl) fun _ => rfl
  | overlay o =>
    have e : (overlay o).set i v = .overlay (o.set i.toNat v h.2) := dif_pos h
    rw [e]
    exact fun hj' => o.get_set h.2 v hj hj'

/-- A read after a write. -/
theorem get?_set (t : Table) (i j : Int) (v : Int32) :
    (t.set i v).get? j = if t.contains i ∧ j = i then some v else t.get? j := by
  by_cases hi : 0 ≤ i ∧ i.toNat < t.size
  · by_cases hj : 0 ≤ j ∧ j.toNat < t.size
    · rw [get?_eq_some hj.1 (by rw [size_set]; exact hj.2), value_set hi v hj.2,
        get?_eq_some hj.1 hj.2]
      have : j.toNat = i.toNat ↔ t.contains i ∧ j = i := by
        rw [contains_iff]
        omega
      simp only [this]
      split <;> rfl
    · have : j ≠ i := fun h => hj (h ▸ hi)
      rw [get?_eq_none (by rwa [size_set]), if_neg (fun h => this h.2), get?_eq_none hj]
  · rw [set_of_not_mem hi, if_neg (fun h => hi (contains_iff.1 h.1))]

/-- Two tables that give the same when they are read. -/
def Like (t u : Table) : Prop := ∀ i, t.get? i = u.get? i

theorem Like.contains {t u : Table} (h : Like t u) (i : Int) : t.contains i = u.contains i := by
  rw [contains_eq_isSome, contains_eq_isSome, h i]

theorem Like.set {t u : Table} (h : Like t u) (i : Int) (v : Int32) :
    Like (t.set i v) (u.set i v) := by
  intro j
  rw [get?_set, get?_set, h j, h.contains i]

/-- What the buffers held before does not show in an overlay. -/
theorem like_fresh (base : Array Int32) {cells cells' : Array Int32} {written written' : Array UInt64}
    (hc : base.size ≤ cells.size) (hw : bitmapWords base.size ≤ written.size)
    (hc' : base.size ≤ cells'.size) (hw' : bitmapWords base.size ≤ written'.size) :
    Like (.overlay (.fresh base cells written hc hw))
      (.overlay (.fresh base cells' written' hc' hw')) := by
  intro i
  by_cases h : 0 ≤ i ∧ i.toNat < base.size
  · rw [get?_eq_some (t := .overlay (.fresh base cells written hc hw)) h.1 h.2,
      get?_eq_some (t := .overlay (.fresh base cells' written' hc' hw')) h.1 h.2]
    show some ((Overlay.fresh base cells written hc hw).get i.toNat h.2) =
      some ((Overlay.fresh base cells' written' hc' hw').get i.toNat h.2)
    rw [Overlay.get_fresh _ _ _ _ _ h.2, Overlay.get_fresh _ _ _ _ _ h.2]
  · rw [get?_eq_none (t := .overlay (.fresh base cells written hc hw)) h,
      get?_eq_none (t := .overlay (.fresh base cells' written' hc' hw')) h]

end Table

end GridFit
