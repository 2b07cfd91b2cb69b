import GridFit.Proofs.Recount
import GridFit.Proofs.Regime.Execute

/-!
# Loop calls

A loop call makes one call with a number of rounds. It does what so many calls with one round do,
one after the other (`Machine.loopCall_repeats`): where a call with rounds left starts over, a call
without returns and is made again, and both come to the same state up to the number of rounds
(`Machine.entered_returned`).
-/

namespace GridFit.Machine

/-- The machine executes instructions until the calls in progress are `depth` in number again, or
one of the instructions fails. `i` rounds of the call that was made at that depth have ended by
then. -/
inductive Unwinds (depth : Nat) : Machine → Nat → Except Failure Machine → Prop
  | back {m : Machine} : m.flow.calls.length = depth → Unwinds depth m 0 (.ok m)
  | fail {m m' : Machine} {f : Failure} : m.flow.calls.length ≠ depth →
      Machine.step m = .error f m' → Unwinds depth m 0 (.error f)
  | inner {m m₁ : Machine} {i : Nat} {r : Except Failure Machine} :
      m.flow.calls.length ≠ depth → ¬m.EndsRound depth → Machine.step m = .ok () m₁ →
      Unwinds depth m₁ i r → Unwinds depth m i r
  | round {m m₁ : Machine} {i : Nat} {r : Except Failure Machine} :
      m.EndsRound depth → Machine.step m = .ok () m₁ → Unwinds depth m₁ i r →
      Unwinds depth m (i + 1) r

/-- A call of `d` with `count` rounds, from where it is entered until it returns or fails. -/
def Calls (m : Machine) (d : Definition) (count : Int32) (i : Nat) (r : Except Failure Machine) :
    Prop :=
  ∃ m₁, Exec.onFlow (FlowM.enter d count) m = .ok () m₁ ∧ m₁.Unwinds m.flow.calls.length i r

/-- `k` calls of `d` with one round each, one after the other, until the last one returns or one
fails. `i` of them have returned by then. -/
inductive Repeats (d : Definition) : Machine → Nat → Nat → Except Failure Machine → Prop
  | done {m : Machine} : Repeats d m 0 0 (.ok m)
  | fail {m : Machine} {k i : Nat} {f : Failure} : m.Calls d 1 i (.error f) →
      Repeats d m (k + 1) 0 (.error f)
  | call {m m' : Machine} {k i j : Nat} {r : Except Failure Machine} : m.Calls d 1 i (.ok m') →
      Repeats d m' k j r → Repeats d m (k + 1) (j + 1) r

/-- The states of a call of `d` with `count` rounds before it returns. -/
inductive During (m : Machine) (d : Definition) (count : Int32) : Machine → Prop
  | start {m₁ : Machine} : Exec.onFlow (FlowM.enter d count) m = .ok () m₁ → During m d count m₁
  | step {a b : Machine} : During m d count a → Machine.step a = .ok () b →
      b.flow.calls.length ≠ m.flow.calls.length → During m d count b

/-- The states in which a round of the call starts. -/
inductive StartsRound (m : Machine) (d : Definition) (count : Int32) : Machine → Prop
  | first {m₁ : Machine} : Exec.onFlow (FlowM.enter d count) m = .ok () m₁ →
      StartsRound m d count m₁
  | next {a b : Machine} : During m d count a → a.EndsRound m.flow.calls.length →
      Machine.step a = .ok () b → b.flow.calls.length ≠ m.flow.calls.length →
      StartsRound m d count b

/-- The call of `d` with `n` rounds that the machine would make. -/
def newCall (m : Machine) (d : Definition) (n : Int32) : Call :=
  ⟨m.flow.cursor.program, m.flow.cursor.pc, n, d⟩

def entered (m : Machine) (d : Definition) (n : Int32) : Machine :=
  { m with flow := { m.flow with
      calls := m.newCall d n :: m.flow.calls
      cursor := m.flow.cursorAt d.program d.start } }

section

variable {m m' m₁ e e' : Machine} {d : Definition} {c : Call} {n : Int32} {below : List Call}
  {i k : Nat} {f : Failure} {r : Except Failure Machine}

/-! ### Entering a call -/

theorem enter_of_lt (h : m.flow.calls.length < Flow.maxDepth) (d : Definition) (n : Int32) :
    Exec.onFlow (FlowM.enter d n) m = .ok () (m.entered d n) := by
  rw [Exec.onFlow, FlowM.enter, if_pos h]
  rfl

theorem enter_of_not_lt (h : ¬m.flow.calls.length < Flow.maxDepth) (d : Definition) (n : Int32) :
    Exec.onFlow (FlowM.enter d n) m = .error .callOverflow m := by
  rw [Exec.onFlow, FlowM.enter, if_neg h]

theorem enter_ok (h : Exec.onFlow (FlowM.enter d n) m = .ok () m₁) :
    m.flow.calls.length < Flow.maxDepth ∧ m₁ = m.entered d n := by
  by_cases hl : m.flow.calls.length < Flow.maxDepth
  · rw [enter_of_lt hl] at h
    cases h
    exact ⟨hl, rfl⟩
  · rw [enter_of_not_lt hl] at h
    cases h

theorem calls_iff : m.Calls d n i r ↔
    m.flow.calls.length < Flow.maxDepth ∧ (m.entered d n).Unwinds m.flow.calls.length i r := by
  constructor
  · rintro ⟨m₁, he, hu⟩
    obtain ⟨hl, rfl⟩ := enter_ok he
    exact ⟨hl, hu⟩
  · rintro ⟨hl, hu⟩
    exact ⟨m.entered d n, enter_of_lt hl d n, hu⟩

theorem inside_entered (m : Machine) (d : Definition) (n : Int32) :
    (m.entered d n).Inside (m.newCall d n) m.flow.calls :=
  ⟨[], rfl⟩

theorem recounts_entered (m : Machine) (d : Definition) (n n' : Int32) :
    (m.entered d n).Recounts (m.newCall d n) n' m.flow.calls (m.entered d n') :=
  ⟨⟨rfl, rfl, rfl, [], rfl, rfl⟩, rfl⟩

theorem nested_entered (m : Machine) (d : Definition) (n : Int32) :
    (m.entered d n).flow.Nested m.flow.programs m.flow.calls.length := by
  refine ⟨rfl, fun above c rest hc hd => ?_, fun _ => rfl, fun _ => rfl⟩
  -- no call is more than one above the depth
  have hl := congrArg List.length hc
  simp only [entered, List.length_append, List.length_cons] at hl
  omega

/-! ### A call is a sequence of rounds -/

theorem Unwinds.of_round_error (h : Round below.length m (.error f)) (hm : m.Inside c below) :
    m.Unwinds below.length 0 (.error f) := by
  generalize hr : (.error f : Except Failure Machine) = r at h
  induction h with
  | ends he => cases hr
  | fail he hs =>
    cases hr
    exact .fail hm.length_ne hs
  | step he hs _ ih => exact .inner hm.length_ne he hs (ih (hm.step he hs) hr)

theorem Unwinds.of_round (h : Round below.length m (.ok e)) (hm : m.Inside c below)
    (hs : Machine.step e = .ok () m₁) (hu : m₁.Unwinds below.length i r) :
    m.Unwinds below.length (i + 1) r := by
  generalize hr : (.ok e : Except Failure Machine) = r' at h
  induction h with
  | ends he =>
    cases hr
    exact .round he hs hu
  | fail he hs => cases hr
  | step he hs' _ ih => exact .inner hm.length_ne he hs' (ih (hm.step he hs') hr)

/-- A call fails in its first round, or this round ends and the call goes on from there. -/
theorem Unwinds.rounds (h : m.Unwinds below.length i r) (hm : m.Inside c below) :
    (∃ f, r = .error f ∧ i = 0 ∧ Round below.length m (.error f)) ∨
      ∃ e m₁ j, i = j + 1 ∧ Round below.length m (.ok e) ∧ Machine.step e = .ok () m₁ ∧
        m₁.Unwinds below.length j r := by
  induction h with
  | back hl => exact absurd hl hm.length_ne
  | @fail m m' f hl hs =>
    by_cases he : m.EndsRound below.length
    · rw [step_endsRound he (hm.calls_of_endsRound he)] at hs
      cases hs
    · exact .inl ⟨f, rfl, rfl, .fail he hs⟩
  | inner hl he hs _ ih =>
    rcases ih (hm.step he hs) with ⟨f, hr, hi, hround⟩ | ⟨e, m₂, j, hi, hround, hs', hu⟩
    · exact .inl ⟨f, hr, hi, .step he hs hround⟩
    · exact .inr ⟨e, m₂, j, hi, .step he hs hround, hs', hu⟩
  | @round m m₁ i r he hs hu _ => exact .inr ⟨m, m₁, i, rfl, .ends he, hs, hu⟩

theorem Unwinds.of_length_eq {depth : Nat} (h : m.Unwinds depth i r)
    (hl : m.flow.calls.length = depth) : i = 0 ∧ r = .ok m := by
  cases h with
  | back => exact ⟨rfl, rfl⟩
  | fail hne => exact absurd hl hne
  | inner hne => exact absurd hl hne
  | round he =>
    have hl' := he.1
    omega

/-- A call with one round fails in it, or returns at its end. -/
theorem unwinds_entered_one : (m.entered d 1).Unwinds m.flow.calls.length i r ↔
    (∃ f, r = .error f ∧ i = 0 ∧ Round m.flow.calls.length (m.entered d 1) (.error f)) ∨
      ∃ e, i = 1 ∧ Round m.flow.calls.length (m.entered d 1) (.ok e) ∧
        r = .ok (e.returned (m.newCall d 1) m.flow.calls) := by
  have hin := inside_entered m d 1
  have hreturn {e : Machine} (h : Round m.flow.calls.length (m.entered d 1) (.ok e)) :
      Machine.step e = .ok () (e.returned (m.newCall d 1) m.flow.calls) := by
    obtain ⟨hi, he⟩ := h.inside rfl hin
    exact step_endsRound he (hi.calls_of_endsRound he)
  constructor
  · intro h
    rcases h.rounds hin with h | ⟨e, m₁, j, rfl, hround, hs, hu⟩
    · exact .inl h
    · rw [hreturn hround] at hs
      cases hs
      obtain ⟨rfl, rfl⟩ := hu.of_length_eq rfl
      exact .inr ⟨e, rfl, hround, rfl⟩
  · rintro (⟨f, rfl, rfl, hround⟩ | ⟨e, rfl, hround, rfl⟩)
    · exact .of_round_error hround hin
    · exact .of_round hround hin (hreturn hround) (.back rfl)

/-! ### Starting over is returning and calling again -/

/-- A call with rounds left that starts over is in the state of a new call, made where a call
without rounds left has returned. -/
theorem entered_returned {P : Programs} (h : e.Recounts c n below e')
    (he : e.EndsRound below.length) (hn : e.flow.Nested P below.length) :
    (e'.returned (c.withCount n) below).entered c.body (c.count - 1) = e.restarted c below := by
  have hc := h.inside.calls_of_endsRound he
  have hlt : below.length < e.flow.calls.length := by
    rw [hc, List.length_cons]
    omega
  -- the cursor reads the program of the body
  have hprogram : e.flow.cursor.program = c.body.program := by
    have hp := hn.program hlt
    rw [hc] at hp
    exact hp
  have hcode : e.flow.cursor.code = e.flow.programs.get c.body.program := by
    rw [hn.code hlt, hn.programs, hprogram]
  rw [h.eq]
  simp only [entered, returned, restarted, newCall, Flow.cursorAt, Call.withCount,
    ← h.flow.programs, ← h.flow.initial, hprogram, hcode]

/-- The count of a call after a round, as a number. -/
theorem toNat_pred (h : n.toNatClampNeg = k + 2) : 1 < n ∧ (n - 1).toNatClampNeg = k + 1 := by
  obtain ⟨-, hpred⟩ := Regime.countDown_toNat h
  refine ⟨?_, hpred⟩
  rw [← Int32.toNat_toInt] at h
  rw [Int32.lt_iff_toInt_lt]
  show 1 < n.toInt
  omega

theorem eq_one_of_toNat (h : n.toNatClampNeg = 1) : n = 1 := by
  rw [← Int32.toNat_toInt] at h
  rw [← Int32.toInt_inj]
  show n.toInt = 1
  omega

/-- A call with rounds does what calls with one round do, in as many rounds. -/
theorem unwinds_iff_repeats (hn : n.toNatClampNeg = k + 1)
    (hl : m.flow.calls.length < Flow.maxDepth) :
    (m.entered d n).Unwinds m.flow.calls.length i r ↔ m.Repeats d (k + 1) i r := by
  induction k generalizing m n i with
  | zero =>
    obtain rfl := eq_one_of_toNat hn
    constructor
    · intro h
      have hcall : m.Calls d 1 i r := calls_iff.2 ⟨hl, h⟩
      rcases unwinds_entered_one.1 h with ⟨f, rfl, rfl, -⟩ | ⟨e, rfl, -, rfl⟩
      · exact .fail hcall
      · exact .call hcall .done
    · intro h
      cases h with
      | fail hcall =>
        have hu := (calls_iff.1 hcall).2
        rcases unwinds_entered_one.1 hu with ⟨f, -, rfl, -⟩ | ⟨e, -, -, hr⟩
        · exact hu
        · cases hr
      | call hcall hrest =>
        have hu := (calls_iff.1 hcall).2
        cases hrest
        rcases unwinds_entered_one.1 hu with ⟨f, hr, -⟩ | ⟨e, rfl, -⟩
        · cases hr
        · exact hu
  | succ k ih =>
    obtain ⟨hlt, hpred⟩ := toNat_pred hn
    have hin := inside_entered m d n
    -- at the end of a round: the loop starts over where the next single call starts
    have hagain {e e' : Machine} (he : Round m.flow.calls.length (m.entered d n) (.ok e))
        (hrec : e.Recounts (m.newCall d n) 1 m.flow.calls e') :
        Machine.step e = .ok ()
          ((e'.returned (m.newCall d 1) m.flow.calls).entered d (n - 1)) := by
      obtain ⟨hi, hends⟩ := he.inside rfl hin
      have hnest := he.nested rfl (nested_entered m d n)
      have hs := step_endsRound hends (hi.calls_of_endsRound hends)
      rw [if_pos (show 1 < (m.newCall d n).count from hlt),
        ← entered_returned hrec hends hnest] at hs
      exact hs
    constructor
    · intro h
      rcases h.rounds hin with ⟨f, rfl, rfl, hround⟩ | ⟨e, m₁, j, rfl, hround, hs, hu⟩
      · rcases hround.recounts (recounts_entered m d n 1) with ⟨f', hf, hone⟩ | ⟨_, _, hf, -⟩
        · cases hf
          exact .fail (calls_iff.2 ⟨hl, unwinds_entered_one.2 (.inl ⟨f, rfl, rfl, hone⟩)⟩)
        · cases hf
      · rcases hround.recounts (recounts_entered m d n 1) with ⟨_, hf, -⟩ | ⟨_, e', hf, hone, hrec⟩
        · cases hf
        · cases hf
          rw [hagain hround hrec] at hs
          cases hs
          have hcall : m.Calls d 1 1 (.ok (e'.returned (m.newCall d 1) m.flow.calls)) :=
            calls_iff.2 ⟨hl, unwinds_entered_one.2 (.inr ⟨e', rfl, hone, rfl⟩)⟩
          exact .call hcall ((ih (m := e'.returned _ _) hpred hl).1 hu)
    · intro h
      cases h with
      | fail hcall =>
        rcases unwinds_entered_one.1 (calls_iff.1 hcall).2 with ⟨f, hr, -, hone⟩ | ⟨_, -, -, hr⟩
        · cases hr
          rcases hone.recounts (recounts_entered m d 1 n) with ⟨f', hf, hround⟩ | ⟨_, _, hf, -⟩
          · cases hf
            exact .of_round_error hround hin
          · cases hf
        · cases hr
      | call hcall hrest =>
        rcases unwinds_entered_one.1 (calls_iff.1 hcall).2 with ⟨_, hr, -⟩ | ⟨e', -, hone, hr⟩
        · cases hr
        · cases hr
          rcases hone.recounts (recounts_entered m d 1 n) with ⟨_, hf, -⟩ | ⟨_, e, hf, hround, hrec⟩
          · cases hf
          · cases hf
            exact .of_round hround hin (hagain hround hrec.symm)
              ((ih (m := e'.returned _ _) hpred hl).2 hrest)

/-! ### Where a call stands -/

theorem Calls.returns (h : m.Calls d 1 i (.ok m')) :
    m'.flow.calls = m.flow.calls ∧ m'.flow.programs = m.flow.programs ∧
      m'.flow.cursor = m.flow.cursorAt m.flow.cursor.program m.flow.cursor.pc := by
  rcases unwinds_entered_one.1 (calls_iff.1 h).2 with ⟨f, hr, -⟩ | ⟨e, -, hround, hr⟩
  · cases hr
  · cases hr
    have hp := (hround.nested rfl (nested_entered m d 1)).programs
    refine ⟨rfl, hp, ?_⟩
    simp only [returned, newCall, Flow.cursorAt, hp]

theorem Repeats.returns (h : m.Repeats d k i (.ok m')) :
    i = k ∧ m'.flow.calls = m.flow.calls ∧
      (k ≠ 0 → m'.flow.cursor = m.flow.cursorAt m.flow.cursor.program m.flow.cursor.pc) := by
  generalize hr : (.ok m' : Except Failure Machine) = r at h
  induction h with
  | done =>
    cases hr
    exact ⟨rfl, rfl, fun h => absurd rfl h⟩
  | fail hcall => cases hr
  | @call m m₁ k i j r hcall hrest ih =>
    obtain ⟨hcalls, hprograms, hcursor⟩ := hcall.returns
    obtain ⟨rfl, hcalls', hcursor'⟩ := ih hr
    refine ⟨rfl, hcalls'.trans hcalls, fun _ => ?_⟩
    by_cases hk : j = 0
    · subst hk
      cases hrest
      cases hr
      exact hcursor
    · rw [hcursor' hk, hcursor]
      simp only [Flow.cursorAt, hprograms]

theorem pred_le {count : Int32} (h1 : 1 < n) (hc : n ≤ count) : n - 1 ≤ count := by
  have hlt := n.toInt_lt
  have ho : (1 : Int32).toInt = 1 := rfl
  rw [Int32.lt_iff_toInt_lt, ho] at h1
  rw [Int32.le_iff_toInt_le] at hc ⊢
  rw [Int32.toInt_sub, ho, Int.bmod_eq_of_le (by omega) (by omega)]
  omega

/-- Until it returns, a call is in progress in one of its rounds. -/
theorem During.inside {count : Int32} {a : Machine} (hc : 1 ≤ count) (h : m.During d count a) :
    a.flow.Nested m.flow.programs m.flow.calls.length ∧
      ∃ n, a.Inside (m.newCall d n) m.flow.calls ∧ 1 ≤ n ∧ n ≤ count := by
  induction h with
  | start he =>
    obtain ⟨-, rfl⟩ := enter_ok he
    exact ⟨nested_entered m d count, count, inside_entered m d count, hc, Int32.le_refl _⟩
  | @step a b ha hs hl ih =>
    obtain ⟨hnest, n, hin, h1, hn⟩ := ih
    refine ⟨nested_step hnest hs, ?_⟩
    by_cases he : a.EndsRound m.flow.calls.length
    · rw [step_endsRound he (hin.calls_of_endsRound he)] at hs
      by_cases hlt : 1 < (m.newCall d n).count
      · rw [if_pos hlt] at hs
        cases hs
        exact ⟨n - 1, ⟨[], rfl⟩, Call.one_le_count_pred hlt, pred_le hlt hn⟩
      · rw [if_neg hlt] at hs
        cases hs
        exact absurd rfl hl
    · exact ⟨n, hin.step he hs, h1, hn⟩

/-- A round starts at the start of the body, with nothing but the call in progress above the
caller's. -/
theorem StartsRound.start {count : Int32} {a : Machine} (hc : 1 ≤ count)
    (h : m.StartsRound d count a) :
    a.flow.cursor = m.flow.cursorAt d.program d.start ∧
      ∃ n, a.flow.calls = m.newCall d n :: m.flow.calls := by
  cases h with
  | first he =>
    obtain ⟨-, rfl⟩ := enter_ok he
    exact ⟨rfl, count, rfl⟩
  | @next a b ha he hs hl =>
    obtain ⟨hnest, n, hin, -⟩ := ha.inside hc
    have hcalls := hin.calls_of_endsRound he
    have hlt : m.flow.calls.length < a.flow.calls.length := by
      rw [he.1]
      omega
    have hprogram : a.flow.cursor.program = d.program := by
      have hp := hnest.program hlt
      rw [hcalls] at hp
      exact hp
    rw [step_endsRound he hcalls] at hs
    by_cases hn : 1 < (m.newCall d n).count
    · rw [if_pos hn] at hs
      cases hs
      refine ⟨?_, n - 1, rfl⟩
      simp only [restarted, newCall, Flow.cursorAt, hnest.code hlt, hprogram]
    · rw [if_neg hn] at hs
      cases hs
      exact absurd rfl hl

end

/-- A call of `d` with `count` rounds has the outcome of `count` calls with one round each: it
returns if these return, in the same state, and if one of these fails it fails in the same round
with the same failure. It returns past the instruction that made it. Each round starts at the start
of the body, and one call is in progress for all rounds. -/
theorem loopCall_repeats (m : Machine) (d : Definition) {count : Int32} (hc : 1 ≤ count) :
    (∀ e m', Exec.onFlow (FlowM.enter d count) m = .error e m' ↔
      Exec.onFlow (FlowM.enter d 1) m = .error e m') ∧
    (∀ i r, m.Calls d count i r ↔ m.Repeats d count.toNatClampNeg i r) ∧
    (∀ i m', m.Calls d count i (.ok m') → i = count.toNatClampNeg ∧
      m'.flow.calls = m.flow.calls ∧
      m'.flow.cursor = m.flow.cursorAt m.flow.cursor.program m.flow.cursor.pc) ∧
    (∀ a, m.StartsRound d count a → a.flow.cursor = m.flow.cursorAt d.program d.start ∧
      ∃ n, a.flow.calls = ⟨m.flow.cursor.program, m.flow.cursor.pc, n, d⟩ :: m.flow.calls) ∧
    ∀ a, m.During d count a → ∃ above n, 1 ≤ n ∧ n ≤ count ∧
      a.flow.calls = above ++ ⟨m.flow.cursor.program, m.flow.cursor.pc, n, d⟩ :: m.flow.calls := by
  obtain ⟨k, hk⟩ : ∃ k, count.toNatClampNeg = k + 1 := by
    rw [Int32.le_iff_toInt_le] at hc
    have hc : 1 ≤ count.toInt := hc
    refine ⟨count.toNatClampNeg - 1, ?_⟩
    rw [← Int32.toNat_toInt]
    omega
  have hiff (i : Nat) (r : Except Failure Machine) :
      m.Calls d count i r ↔ m.Repeats d count.toNatClampNeg i r := by
    rw [hk]
    constructor
    · intro h
      obtain ⟨hl, hu⟩ := calls_iff.1 h
      exact (unwinds_iff_repeats hk hl).1 hu
    · intro h
      have hl : m.flow.calls.length < Flow.maxDepth := by
        cases h with
        | fail hcall => exact (calls_iff.1 hcall).1
        | call hcall => exact (calls_iff.1 hcall).1
      exact calls_iff.2 ⟨hl, (unwinds_iff_repeats hk hl).2 h⟩
  refine ⟨fun e m' => ?_, hiff, fun i m' h => ?_, fun a ha => ha.start hc, fun a ha => ?_⟩
  · by_cases hl : m.flow.calls.length < Flow.maxDepth
    · rw [enter_of_lt hl, enter_of_lt hl]
      constructor <;> intro h <;> cases h
    · rw [enter_of_not_lt hl, enter_of_not_lt hl]
  · obtain ⟨hi, hcalls, hcursor⟩ := ((hiff i _).1 h).returns
    exact ⟨hi, hcalls, hcursor (by omega)⟩
  · obtain ⟨-, n, ⟨above, ha⟩, h1, hn⟩ := ha.inside hc
    exact ⟨above, n, h1, hn, ha⟩

/-- Computes how a call unwinds, if it does so within `fuel` instructions. -/
def unwind (depth : Nat) : Nat → Machine → Option (Nat × Except Failure Machine)
  | 0, _ => none
  | fuel + 1, m =>
    if m.flow.calls.length = depth then some (0, .ok m)
    else
      match step m with
      | .error f _ => some (0, .error f)
      | .ok () m₁ =>
        (unwind depth fuel m₁).map fun (i, r) => (if m.EndsRound depth then i + 1 else i, r)

theorem unwinds_of_unwind {depth fuel i : Nat} {m : Machine} {r : Except Failure Machine}
    (h : unwind depth fuel m = some (i, r)) : m.Unwinds depth i r := by
  induction fuel generalizing m i with
  | zero => cases h
  | succ fuel ih =>
    rw [unwind] at h
    split at h
    · rename_i hl
      cases h
      exact .back hl
    · rename_i hl
      cases hs : step m with
      | error f m' =>
        rw [hs] at h
        cases h
        exact .fail hl hs
      | ok u m₁ =>
        rw [hs] at h
        obtain ⟨⟨j, r'⟩, hu, hj⟩ := Option.map_eq_some_iff.1 h
        cases hj
        by_cases he : m.EndsRound depth
        · rw [if_pos he]
          exact .round he hs (ih hu)
        · rw [if_neg he]
          exact .inner hl he hs (ih hu)

/-- The body of a function that adds one to a cell of the storage area. -/
def counter : Definition := { program := .font, start := 0, stop := 10, key := 0 }

/-- A machine that is about to call the function, one byte into the glyph program. -/
def counting : Machine :=
  { (default : Machine) with
    flow :=
      { programs :=
          { font := #[0xb0, 0, 0xb0, 0, 0x43, 0xb0, 1, 0x60, 0x42, 0x2d], glyph := #[0x2a, 0x21] }
        initial := .glyph
        cursor := { program := .glyph, code := #[0x2a, 0x21], pc := 1 } }
    stack := .ofBuffer (.replicate 4 0)
    storage := .owned #[0] }

theorem loopCall_repeats_counting :
    ∃ m', counting.Calls counter 3 3 (.ok m') ∧ counting.Repeats counter 3 3 (.ok m') ∧
      m'.storage.get? 0 = some 3 ∧ m'.flow.cursor.pc = 1 := by
  have h : ((unwind 0 30 (counting.entered counter 3)).any fun p =>
      p.1 == 3 && match p.2 with
        | .ok m' => m'.storage.get? 0 == some 3
        | .error _ => false) = true := by
    decide +kernel
  obtain ⟨⟨i, r⟩, hu, hr⟩ := (Option.any_eq_true _ _).1 h
  obtain ⟨hi, hr⟩ := Bool.and_eq_true_iff.1 hr
  obtain rfl : i = 3 := eq_of_beq hi
  cases r with
  | error f => cases hr
  | ok m' =>
    have hcall : counting.Calls counter 3 3 (.ok m') :=
      calls_iff.2 ⟨by decide, unwinds_of_unwind hu⟩
    obtain ⟨-, hiff, hreturns, -⟩ := @loopCall_repeats counting counter 3 (by decide)
    obtain ⟨-, -, hcursor⟩ := hreturns 3 m' hcall
    refine ⟨m', hcall, (hiff 3 _).1 hcall, eq_of_beq hr, ?_⟩
    rw [hcursor]
    rfl

end GridFit.Machine
