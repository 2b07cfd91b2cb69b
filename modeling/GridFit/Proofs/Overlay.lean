import GridFit.Proofs.Table

/-!
# Overlays as private copies

A table that lies over base values answers every sequence of reads and writes like a table that owns
a copy of them. It does so whatever its buffers held before, and it leaves alone the base and the
cells past the end of the base. Its bitmap keeps exactly the cells that were written
(`Overlay.acts_as_copy`).

The answers agree because the tables are alike and stay so under writes. What becomes of the buffers
is a matter of the overlay alone (`Overlay.Follows`).
-/

namespace GridFit

namespace Bitmap

theorem test_eq_get {bits : Array UInt64} {i : Nat} (h : i / 64 < bits.size) :
    test bits i = get bits i h :=
  dif_pos h

theorem test_clear (bits : Array UInt64) (i : Nat) : test (clear bits) i = false := by
  unfold test
  split
  · exact get_clear _
  · rfl

theorem test_set {bits : Array UInt64} {i : Nat} (hi : i / 64 < bits.size) (j : Nat) :
    test (set bits i hi) j = (decide (j = i) || test bits j) := by
  by_cases hj : j / 64 < bits.size
  · have hj' : j / 64 < (set bits i hi).size := by simpa using hj
    rw [test_eq_get hj', test_eq_get hj, get_set hi hj hj']
  · -- a bit past the last word is not the one that is set
    have hne : j ≠ i := by
      rintro rfl
      exact hj hi
    simp [test, hj, hne]

end Bitmap

namespace Table

/-- A read or a write of a table. Any index can be asked for. -/
inductive Access where
  | get (i : Int)
  | set (i : Int) (v : Int32)
deriving DecidableEq, Repr

/-- What an access comes to: the value that is there, or whether there was a place to write to. -/
inductive Answer where
  | value (v? : Option Int32)
  | stored (done : Bool)
deriving DecidableEq, Repr

def access (t : Table) : Access → Answer × Table
  | .get i => (.value (t.get? i), t)
  | .set i v => (.stored (t.contains i), t.set i v)

/-- The answers to a sequence of accesses, and the table after them. -/
def accesses (t : Table) : List Access → List Answer × Table
  | [] => ([], t)
  | a :: rest =>
    let (answer, t) := t.access a
    let (answers, t) := t.accesses rest
    (answer :: answers, t)

/-- Tables that are alike answer alike, and are alike afterwards. -/
theorem Like.access {t u : Table} (h : Like t u) (a : Access) :
    (t.access a).1 = (u.access a).1 ∧ Like (t.access a).2 (u.access a).2 := by
  cases a with
  | get i => exact ⟨congrArg Answer.value (h i), h⟩
  | set i v => exact ⟨congrArg Answer.stored (h.contains i), h.set i v⟩

theorem Like.accesses {t u : Table} (h : Like t u) (as : List Access) :
    (t.accesses as).1 = (u.accesses as).1 := by
  induction as generalizing t u with
  | nil => rfl
  | cons a rest ih =>
    obtain ⟨ha, ht⟩ := h.access a
    simp only [Table.accesses, ha, ih ht]

theorem like_owned {base cells : Array Int32} {written : Array UInt64}
    (hc : base.size ≤ cells.size) (hw : bitmapWords base.size ≤ written.size) :
    Like (.overlay (.fresh base cells written hc hw)) (.owned base) := by
  intro i
  by_cases h : 0 ≤ i ∧ i.toNat < base.size
  · rw [get?_eq_some (t := .overlay (.fresh base cells written hc hw)) h.1 h.2,
      get?_eq_some (t := .owned base) h.1 h.2]
    exact congrArg some (Overlay.get_fresh base cells written hc hw h.2)
  · rw [get?_eq_none (t := .overlay (.fresh base cells written hc hw)) h,
      get?_eq_none (t := .owned base) h]

end Table

namespace Overlay

variable {o o' o'' : Overlay} {as bs : List Table.Access}

/-- `o'` comes from `o` by the accesses `as`: the base and the cells past its end are as they were,
and bits have been set for the cells that were written. -/
structure Follows (o : Overlay) (as : List Table.Access) (o' : Overlay) : Prop where
  base : o'.base = o.base
  size_cells : o'.cells.size = o.cells.size
  past : ∀ i, o.base.size ≤ i → o'.cells[i]? = o.cells[i]?
  size_written : o'.written.size = o.written.size
  test : ∀ i : Nat, Bitmap.test o'.written i ↔
    Bitmap.test o.written i ∨ i < o.base.size ∧ ∃ v, .set i v ∈ as

theorem Follows.append (h : o.Follows as o') (h' : o'.Follows bs o'') :
    o.Follows (as ++ bs) o'' where
  base := h'.base.trans h.base
  size_cells := h'.size_cells.trans h.size_cells
  past i hi := by
    have hi' : o'.base.size ≤ i := by rwa [h.base]
    rw [h'.past i hi', h.past i hi]
  size_written := h'.size_written.trans h.size_written
  test i := by
    rw [h'.test i, h.test i, h.base]
    simp only [List.mem_append, exists_or, and_or_left, or_assoc]

/-- An access that writes nothing changes nothing. -/
theorem follows_self (h : ∀ i : Nat, i < o.base.size → ∀ v, .set i v ∉ as) : o.Follows as o := by
  refine ⟨rfl, rfl, fun _ _ => rfl, rfl, fun i => ⟨.inl, ?_⟩⟩
  rintro (hi | ⟨hi, v, hv⟩)
  · exact hi
  · exact absurd hv (h i hi v)

theorem follows_set (o : Overlay) (i : Nat) (v : Int32) (h : i < o.base.size) :
    o.Follows [.set i v] (o.set i v h) := by
  obtain ⟨base, cells, written, hc, hw⟩ := o
  have hi : i < cells.size := Nat.lt_of_lt_of_le h hc
  refine ⟨rfl, Array.size_set hi, fun j hj => ?_, Bitmap.size_set _ _ _, fun j => ?_⟩
  · have hne : i ≠ j := Nat.ne_of_lt (Nat.lt_of_lt_of_le h hj)
    exact Array.getElem?_set_ne hi hne
  · show Bitmap.test (Bitmap.set written i (word_lt hw h)) j ↔ _
    rw [Bitmap.test_set, Bool.or_eq_true, decide_eq_true_eq, or_comm]
    refine or_congr_right ⟨fun hj => ?_, fun ⟨_, v', hj⟩ => ?_⟩
    · subst hj
      exact ⟨h, v, List.mem_singleton_self _⟩
    · simp only [List.mem_singleton, Table.Access.set.injEq] at hj
      exact Int.ofNat_inj.1 hj.1

theorem follows_access (o : Overlay) (a : Table.Access) :
    ∃ o', ((Table.overlay o).access a).2 = .overlay o' ∧ o.Follows [a] o' := by
  cases a with
  | get i => exact ⟨o, rfl, follows_self (by simp)⟩
  | set i v =>
    by_cases h : 0 ≤ i ∧ i.toNat < (Table.overlay o).size
    · have hf := o.follows_set i.toNat v h.2
      rw [Int.toNat_of_nonneg h.1] at hf
      exact ⟨o.set i.toNat v h.2, dif_pos h, hf⟩
    · refine ⟨o, Table.set_of_not_mem h v, follows_self fun j hj v' hm => h ?_⟩
      simp only [List.mem_singleton, Table.Access.set.injEq] at hm
      obtain ⟨rfl, -⟩ := hm
      exact ⟨Int.natCast_nonneg j, hj⟩

theorem follows_accesses (o : Overlay) (as : List Table.Access) :
    ∃ o', ((Table.overlay o).accesses as).2 = .overlay o' ∧ o.Follows as o' := by
  induction as generalizing o with
  | nil => exact ⟨o, rfl, follows_self (by simp)⟩
  | cons a rest ih =>
    obtain ⟨o₁, h₁, hf₁⟩ := o.follows_access a
    obtain ⟨o₂, h₂, hf₂⟩ := ih o₁
    refine ⟨o₂, ?_, hf₁.append hf₂⟩
    simp only [Table.accesses, h₁, h₂]

/-- An overlay answers like a private copy of its base, whatever its buffers hold at first. It never
changes the base or the cells past its end, and its bitmap has the bits of the cells that were
written, and no others. -/
theorem acts_as_copy (base cells : Array Int32) (written : Array UInt64)
    (hc : base.size ≤ cells.size) (hw : bitmapWords base.size ≤ written.size)
    (as : List Table.Access) :
    ((Table.overlay (fresh base cells written hc hw)).accesses as).1 =
        ((Table.owned base).accesses as).1 ∧
      ∃ o, ((Table.overlay (fresh base cells written hc hw)).accesses as).2 = .overlay o ∧
        o.base = base ∧ o.cells.size = cells.size ∧
        (∀ i, base.size ≤ i → o.cells[i]? = cells[i]?) ∧ o.written.size = written.size ∧
        ∀ i : Nat, Bitmap.test o.written i ↔ i < base.size ∧ ∃ v, .set i v ∈ as := by
  refine ⟨(Table.like_owned hc hw).accesses as, ?_⟩
  obtain ⟨o, ho, hf⟩ := (fresh base cells written hc hw).follows_accesses as
  have hsize : o.written.size = written.size := hf.size_written.trans (Bitmap.size_clear written)
  refine ⟨o, ho, hf.base, hf.size_cells, hf.past, hsize, fun i => ?_⟩
  have hclear : Bitmap.test (fresh base cells written hc hw).written i = false :=
    Bitmap.test_clear written i
  rw [hf.test i, hclear]
  simp only [Bool.false_eq_true, false_or]
  rfl

/-- Seventy values under buffers full of leftovers, with accesses in both words of the bitmap and
outside of the table. -/
theorem acts_as_copy_leftovers :
    let base : Array Int32 := Array.replicate 70 5
    let as : List Table.Access :=
      [.get 69, .set 69 8, .get 69, .set 5 1, .set 70 2, .get 70, .set (-1) 3, .get 6]
    let t := Table.overlay (fresh base (Array.replicate 71 9) #[0xffffffffffffffff, 0x3f, 7]
      (by decide) (by decide))
    (t.accesses as).1 = ((Table.owned base).accesses as).1 ∧
      ∃ o, (t.accesses as).2 = .overlay o ∧ o.base = base ∧ o.cells.size = 71 ∧
        (∀ i, 70 ≤ i → o.cells[i]? = (Array.replicate 71 9)[i]?) ∧ o.written.size = 3 ∧
        ∀ i : Nat, Bitmap.test o.written i ↔ i < 70 ∧ ∃ v, .set i v ∈ as :=
  acts_as_copy (Array.replicate 70 5) (Array.replicate 71 9) #[0xffffffffffffffff, 0x3f, 7]
    (by decide) (by decide) _

end Overlay

end GridFit
