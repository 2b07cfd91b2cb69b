import GridFit.Proofs.Continuation
import GridFit.Proofs.Success
import Mathlib.Data.Finset.Card

/-!
# Definition tables as finite maps

A table that is written only through the slots it proposes is a map with room for as many keys as it
has slots (`DefinitionTable.acts_as_map`). A key can end up in any slot, since its own may be taken
by a key that came before. Look-ups are right all the same because no two slots hold one key
(`DefinitionTable.Distinct`): whichever way a slot is found, there is no other to be found.
-/

namespace GridFit

namespace DefinitionTable

variable {t : DefinitionTable} {key : Int32} {d : Definition} {i n : Nat} {log : List Definition}

/-! ### Slots and keys -/

/-- No two slots hold the same key. -/
def Distinct (t : DefinitionTable) : Prop :=
  ∀ (i j : Nat) (d e : Definition), t.slots[i]? = some (some d) → t.slots[j]? = some (some e) →
    d.key = e.key → i = j

/-- The keys of the slots that are in use. -/
def keys (t : DefinitionTable) : List Int32 := t.slots.toList.filterMap (·.map (·.key))

theorem mem_keys : key ∈ t.keys ↔ ∃ d, some d ∈ t.slots ∧ d.key = key := by
  simp [keys]

theorem mem_keys_iff_holds : key ∈ t.keys ↔ ∃ slot ∈ t.slots, holds key slot := by
  rw [mem_keys]
  constructor
  · rintro ⟨d, hd, rfl⟩
    exact ⟨some d, hd, by simp [holds]⟩
  · rintro ⟨slot, hs, hh⟩
    cases slot with
    | none => simp [holds] at hh
    | some d => exact ⟨d, hs, by simpa [holds] using hh⟩

theorem nodup_keys (h : t.Distinct) : t.keys.Nodup := by
  rw [List.Nodup, keys, List.pairwise_filterMap, List.pairwise_iff_getElem]
  intro i j hi hj hij k hk k' hk' heq
  simp only [Array.getElem_toList, Option.map_eq_some_iff] at hk hk'
  obtain ⟨d, hd, rfl⟩ := hk
  obtain ⟨e, he, rfl⟩ := hk'
  have := h i j d e (by simpa [Array.getElem?_eq_some_iff] using ⟨hi, hd⟩)
    (by simpa [Array.getElem?_eq_some_iff] using ⟨hj, he⟩) heq
  omega

theorem length_keys_lt_iff : t.keys.length < t.slots.size ↔ ¬∀ slot ∈ t.slots, slot.isSome := by
  have hle := List.length_filterMap_le (·.map (·.key)) t.slots.toList
  have heq := List.filterMap_length_eq_length (f := (·.map (·.key))) (l := t.slots.toList)
  simp only [Array.length_toList, Array.mem_toList_iff, Option.isSome_map] at hle heq
  rw [keys, ← heq]
  omega

/-! ### The proposed slot -/

/-- What a table proposes for a key: the slot that holds it, an empty slot if there is none, or
nothing if all slots are in use for other keys. -/
theorem slotFor_cases (hw : t.writable) (key : Int32) :
    (∃ i d, t.slotFor key = .ok i ∧ t.slots[i]? = some (some d) ∧ d.key = key) ∨
    (key ∉ t.keys ∧ ∃ i, t.slotFor key = .ok i ∧ t.slots[i]? = some none) ∨
    (key ∉ t.keys ∧ (∀ slot ∈ t.slots, slot.isSome) ∧
      t.slotFor key = .error .tooManyDefinitions) := by
  rw [slotFor, if_pos hw]
  cases hf : t.slots.findIdx? (holds key) with
  | some i =>
    obtain ⟨hi, hheld, -⟩ := Array.findIdx?_eq_some_iff_getElem.1 hf
    obtain ⟨d, hd, hk⟩ := (Option.any_eq_true _ _).1 hheld
    exact .inl ⟨i, d, rfl, by simp [hi, hd], by simpa using hk⟩
  | none =>
    have hfree : key ∉ t.keys := by
      simpa [mem_keys_iff_holds] using Array.findIdx?_eq_none_iff.1 hf
    refine .inr ?_
    by_cases hdirect : t.direct? key = some none
    · refine .inl ⟨hfree, _, if_pos hdirect, ?_⟩
      unfold direct? at hdirect
      split at hdirect
      · exact hdirect
      · cases hdirect
    · simp only [if_neg hdirect]
      cases he : t.slots.findIdx? Option.isNone with
      | some i =>
        obtain ⟨hi, hnone, -⟩ := Array.findIdx?_eq_some_iff_getElem.1 he
        exact .inl ⟨hfree, i, rfl, by simpa [hi] using hnone⟩
      | none =>
        refine .inr ⟨hfree, fun slot hs => ?_, rfl⟩
        simpa using Array.findIdx?_eq_none_iff.1 he slot hs

theorem slotFor_error_iff (hw : t.writable) : t.slotFor key = .error .tooManyDefinitions ↔
    (∀ slot ∈ t.slots, slot.isSome) ∧ ∀ slot ∈ t.slots, ¬holds key slot := by
  have hmem : key ∉ t.keys ↔ ∀ slot ∈ t.slots, ¬holds key slot := by
    simp [mem_keys_iff_holds]
  rw [← hmem]
  rcases slotFor_cases hw key with ⟨i, d, hs, hd, hk⟩ | ⟨-, i, hs, hi⟩ | ⟨hfree, hfull, hs⟩
  · have : key ∈ t.keys := mem_keys.2 ⟨d, Array.mem_of_getElem? hd, hk⟩
    simp [hs, this]
  · have : ¬∀ slot ∈ t.slots, slot.isSome := fun h => by
      simpa using h none (Array.mem_of_getElem? hi)
    simp [hs, this]
  · simpa [hs, hfree] using hfull

/-- The proposed slot is the one for the key: every other slot is empty or holds another key. -/
theorem slotFor_ok (ht : t.Distinct) (h : t.slotFor key = .ok i) :
    i < t.slots.size ∧ ∀ j d, t.slots[j]? = some (some d) → (d.key = key ↔ j = i) := by
  rcases slotFor_cases (writable_of_slotFor h) key with
    ⟨i', d, hs, hd, rfl⟩ | ⟨hfree, i', hs, hi⟩ | ⟨-, -, hs⟩
  · obtain rfl : i' = i := by simpa [hs] using h
    refine ⟨(Array.getElem?_eq_some_iff.1 hd).1, fun j e he => ⟨fun hk => ht j i' e d he hd hk, ?_⟩⟩
    rintro rfl
    rw [hd] at he
    cases he
    rfl
  · obtain rfl : i' = i := by simpa [hs] using h
    refine ⟨(Array.getElem?_eq_some_iff.1 hi).1, fun j e he => ⟨fun hk => ?_, ?_⟩⟩
    · exact absurd (mem_keys.2 ⟨e, Array.mem_of_getElem? he, hk⟩) hfree
    · rintro rfl
      rw [hi] at he
      cases he
  · rw [hs] at h
    cases h

/-! ### Looking up and storing -/

theorem getElem?_store (h : i < t.slots.size) (j : Nat) :
    (t.store i d).slots[j]? = if j = i then some (some d) else t.slots[j]? := by
  by_cases hj : j = i
  · subst hj
    simp [store, h]
  · simp [store, hj, Array.getElem?_setIfInBounds_ne (Ne.symm hj)]

theorem Distinct.store (ht : t.Distinct) (h : t.slotFor d.key = .ok i) :
    (t.store i d).Distinct := by
  obtain ⟨hi, hkey⟩ := slotFor_ok ht h
  intro j k e e' he he' heq
  rw [getElem?_store hi] at he he'
  split at he <;> split at he'
  · rw [‹j = i›, ‹k = i›]
  · cases he
    exact absurd ((hkey k e' he').1 heq.symm) ‹_›
  · cases he'
    exact absurd ((hkey j e he).1 heq) ‹_›
  · exact ht j k e e' he he' heq

/-- Storing a definition replaces that of its key and keeps those of all other keys. -/
theorem mem_store_iff (ht : t.Distinct) (h : t.slotFor d.key = .ok i) (e : Definition) :
    some e ∈ (t.store i d).slots ↔ e = d ∨ some e ∈ t.slots ∧ e.key ≠ d.key := by
  obtain ⟨hi, hkey⟩ := slotFor_ok ht h
  simp only [Array.mem_iff_getElem?, getElem?_store hi]
  constructor
  · rintro ⟨j, hj⟩
    split at hj
    · cases hj
      exact .inl rfl
    · exact .inr ⟨⟨j, hj⟩, fun hk => ‹¬j = i› ((hkey j e hj).1 hk)⟩
  · rintro (rfl | ⟨⟨j, hj⟩, hk⟩)
    · exact ⟨i, if_pos rfl⟩
    · exact ⟨j, by rw [if_neg fun hji => hk ((hkey j e hj).2 hji), hj]⟩

theorem Distinct.eq_of_key_eq {e : Definition} (ht : t.Distinct) (hd : some d ∈ t.slots)
    (he : some e ∈ t.slots) (hk : d.key = e.key) : d = e := by
  obtain ⟨i, hi⟩ := Array.mem_iff_getElem?.1 hd
  obtain ⟨j, hj⟩ := Array.mem_iff_getElem?.1 he
  obtain rfl := ht i j d e hi hj hk
  simpa [hi] using hj

theorem scan_eq_some_iff (ht : t.Distinct) :
    get?.scan t key = some d ↔ some d ∈ t.slots ∧ d.key = key := by
  rw [get?.scan, Option.join_eq_some_iff]
  constructor
  · intro h
    exact ⟨Array.mem_of_find?_eq_some h, by simpa [holds] using Array.find?_some h⟩
  · rintro ⟨hd, rfl⟩
    have hheld : holds d.key (some d) := by simp [holds]
    obtain ⟨slot, hs⟩ := Option.isSome_iff_exists.1 (Array.find?_isSome.2 ⟨some d, hd, hheld⟩)
    obtain ⟨e, rfl, hk⟩ := (Option.any_eq_true _ _).1 (Array.find?_some hs)
    rw [hs, ht.eq_of_key_eq (Array.mem_of_find?_eq_some hs) hd (by simpa using hk)]

/-- The direct look-up finds what the scan finds. -/
theorem get?_eq_scan (ht : t.Distinct) (key : Int32) : t.get? key = get?.scan t key := by
  unfold get?
  split
  · rename_i d hd
    split
    · rename_i hk
      have hmem : some d ∈ t.slots := by
        unfold direct? at hd
        split at hd
        · exact Array.mem_of_getElem? hd
        · cases hd
      exact ((scan_eq_some_iff ht).2 ⟨hmem, hk⟩).symm
    · rfl
  · rfl

/-! ### A map with room for a number of keys -/

/-- What is done to a table. -/
inductive Request where
  | reset
  | define (d : Definition)
deriving DecidableEq, Repr

/-- A definition is stored in the slot that is proposed for its key, if there is one. -/
def perform (t : DefinitionTable) : Request → DefinitionTable
  | .reset => t.reset
  | .define d =>
    match t.slotFor d.key with
    | .ok i => t.store i d
    | .error _ => t

/-- The definitions since the last reset, the latest first, where there is room for `n` keys. -/
def record (n : Nat) (log : List Definition) : Request → List Definition
  | .reset => []
  | .define d =>
    let keys := (log.map (·.key)).toFinset
    if d.key ∈ keys ∨ keys.card < n then d :: log else log

/-- The table holds the latest definition of every key in `log`, each in one of `n` slots. -/
structure Represents (t : DefinitionTable) (n : Nat) (log : List Definition) : Prop where
  size : t.slots.size = n
  writable : t.writable
  distinct : t.Distinct
  latest : ∀ d, some d ∈ t.slots ↔ log.find? (·.key = d.key) = some d

namespace Represents

theorem empty (n : Nat) : (DefinitionTable.empty n true).Represents n [] where
  size := by simp [DefinitionTable.empty]
  writable := rfl
  distinct := by simp [Distinct, DefinitionTable.empty, Array.getElem?_replicate]
  latest := by simp [DefinitionTable.empty]

theorem reset (h : t.Represents n log) : t.reset.Represents n [] where
  size := by simpa [DefinitionTable.reset] using h.size
  writable := h.writable
  distinct := by simp [Distinct, DefinitionTable.reset]
  latest := by simp [DefinitionTable.reset]

theorem get?_eq (h : t.Represents n log) (key : Int32) :
    t.get? key = log.find? (·.key = key) := by
  ext d
  rw [get?_eq_scan h.distinct, scan_eq_some_iff h.distinct, h.latest]
  constructor
  · rintro ⟨hd, rfl⟩
    exact hd
  · intro hd
    have hk : d.key = key := by simpa using List.find?_some hd
    rw [hk]
    exact ⟨hd, rfl⟩

theorem mem_keys_iff (h : t.Represents n log) : key ∈ t.keys ↔ key ∈ log.map (·.key) := by
  have hget : key ∈ t.keys ↔ (log.find? (·.key = key)).isSome := by
    rw [← h.get?_eq, Option.isSome_iff_exists, mem_keys]
    simp [get?_eq_scan h.distinct, scan_eq_some_iff h.distinct]
  simp [hget]

/-- As many slots are in use as there are keys. -/
theorem card_keys (h : t.Represents n log) : (log.map (·.key)).toFinset.card = t.keys.length := by
  rw [← List.toFinset_card_of_nodup (nodup_keys h.distinct)]
  congr 1
  ext key
  simp [← h.mem_keys_iff]

theorem define (h : t.Represents n log) (d : Definition) :
    (t.perform (.define d)).Represents n (record n log (.define d)) := by
  have hroom : record n log (.define d) =
      if d.key ∈ t.keys ∨ t.keys.length < t.slots.size then d :: log else log := by
    simp only [record, List.mem_toFinset, h.card_keys, ← h.mem_keys_iff, h.size]
  -- A proposed slot holds the key or is empty, so a map with this room takes the definition too.
  have hstore {i : Nat} (hs : t.slotFor d.key = .ok i) : (t.store i d).Represents n (d :: log) := by
    refine ⟨by simpa [store] using h.size, h.writable, h.distinct.store hs, fun e => ?_⟩
    rw [mem_store_iff h.distinct hs, h.latest, List.find?_cons]
    by_cases hk : d.key = e.key
    · simp [hk, eq_comm]
    · have hne : e ≠ d := fun he => hk (by rw [he])
      simp [hk, Ne.symm hk, hne]
  rw [hroom]
  rcases slotFor_cases h.writable d.key with
    ⟨i, e, hs, he, hk⟩ | ⟨-, i, hs, hi⟩ | ⟨hfree, hfull, hs⟩
  · have hmem : d.key ∈ t.keys := mem_keys.2 ⟨e, Array.mem_of_getElem? he, hk⟩
    rw [if_pos (.inl hmem), perform, hs]
    exact hstore hs
  · have hlt : t.keys.length < t.slots.size := by
      rw [length_keys_lt_iff]
      intro hall
      simpa using hall none (Array.mem_of_getElem? hi)
    rw [if_pos (.inr hlt), perform, hs]
    exact hstore hs
  · have hlt : ¬t.keys.length < t.slots.size := by
      rw [length_keys_lt_iff]
      exact not_not.2 hfull
    rw [if_neg (by simp [hfree, hlt]), perform, hs]
    exact h

theorem perform (h : t.Represents n log) (r : Request) :
    (t.perform r).Represents n (record n log r) := by
  cases r with
  | reset => exact h.reset
  | define d => exact h.define d

theorem foldl (h : t.Represents n log) (rs : List Request) :
    (rs.foldl DefinitionTable.perform t).Represents n (rs.foldl (record n) log) := by
  induction rs generalizing t log with
  | nil => exact h
  | cons r rs ih => exact ih (h.perform r)

end Represents

end DefinitionTable

/-! ### Defining instructions -/

namespace Machine

variable {m m' : Machine} {k : DefinitionKind}

theorem SameControl.definitions_eq (h : m.SameControl m') (k : DefinitionKind) :
    m'.definitions k = m.definitions k := by
  cases k with
  | function => exact h.functions
  | instruction => exact h.instructions

theorem definitions_store (m : Machine) (k k' : DefinitionKind) (slot : Nat) (d : Definition) :
    (m.store k slot d).definitions k' =
      if k' = k then (m.definitions k).store slot d else m.definitions k' := by
  cases k <;> cases k' <;> rfl

theorem pile_of_pop {v : Int32} (h : Exec.pop m = .ok v m') : m.stack.pile.head? = some v := by
  obtain ⟨s, hpile, -⟩ := Exec.pop_ok h
  rw [hpile]
  rfl

/-- An instruction that defines either does to its table what a request does, under the key on top
of the stack, or fails and leaves all definitions as they were. -/
theorem define_cases (m : Machine) (k : DefinitionKind) :
    (∃ d i m', Exec.define k m = .ok () m' ∧ m.stack.pile.head? = some d.key ∧
      (m.definitions k).slotFor d.key = .ok i ∧ ∀ k', m'.definitions k' =
        if k' = k then (m.definitions k).perform (.define d) else m.definitions k') ∨
    ∃ e m', Exec.define k m = .error e m' ∧ ∀ k', m'.definitions k' = m.definitions k' := by
  cases hp : Exec.pop m with
  | error e m₁ =>
    have hsame := Plain.pop.unchanged_error hp
    exact .inr ⟨e, m₁, bind_of_error hp, hsame.definitions_eq⟩
  | ok key m₁ =>
    have hsame := (pop_ok hp).definitions_eq
    cases hs : (m.definitions k).slotFor key with
    | error e =>
      refine .inr ⟨e, m₁, ?_, hsame⟩
      rw [Exec.define, bind_of_ok hp, bind_of_ok (x := get) rfl, hsame, hs]
      rfl
    | ok i =>
      have hdef : Exec.define k m = (Exec.onFlow (FlowM.define key) >>= fun d =>
          modify fun m => m.store k i d) m₁ := by
        rw [Exec.define, bind_of_ok hp, bind_of_ok (x := get) rfl, hsame, hs]
      cases hd : FlowM.define key m₁.flow with
      | error e f =>
        have hf : Exec.onFlow (FlowM.define key) m₁ = .error e { m₁ with flow := f } := by
          rw [Exec.onFlow, hd]
        exact .inr ⟨e, _, hdef.trans (bind_of_error hf), hsame⟩
      | ok d f =>
        have hf : Exec.onFlow (FlowM.define key) m₁ = .ok d { m₁ with flow := f } := by
          rw [Exec.onFlow, hd]
        have hk : d.key = key := by rw [(FlowM.define_inv hd).2.2]
        subst hk
        refine .inl ⟨d, i, _, hdef.trans (bind_of_ok hf), pile_of_pop hp, hs, fun k' => ?_⟩
        have hflow (k' : DefinitionKind) :
            Machine.definitions { m₁ with flow := f } k' = m.definitions k' := hsame k'
        rw [definitions_store, hflow, hflow, DefinitionTable.perform, hs]

end Machine

/-- A table that is reset and written any number of times is a map with room for as many keys as it
has slots. No two slots hold one key; a look-up gives the latest definition of a key since the last
reset, by either way of looking; a definition is refused exactly if all slots are in use for other
keys. The machine writes its tables in no other way, and not at all when an instruction that defines
fails. -/
theorem DefinitionTable.acts_as_map (n : Nat) (rs : List Request) :
    let t := rs.foldl perform (empty n true)
    let log := rs.foldl (record n) []
    t.slots.size = n ∧ t.Distinct ∧
    (∀ key, t.get? key = log.find? (·.key = key) ∧ t.get? key = get?.scan t key) ∧
    (∀ key, t.slotFor key = .error .tooManyDefinitions ↔
      (∀ slot ∈ t.slots, slot.isSome) ∧ ∀ slot ∈ t.slots, ¬holds key slot) ∧
    ∀ (k : DefinitionKind) (m m' : Machine),
      (∀ e, Exec.define k m = .error e m' → ∀ k', m'.definitions k' = m.definitions k') ∧
      (Exec.define k m = .ok () m' → ∃ d i, m.stack.pile.head? = some d.key ∧
        (m.definitions k).slotFor d.key = .ok i ∧ ∀ k', m'.definitions k' =
          if k' = k then (m.definitions k).perform (.define d) else m.definitions k') := by
  intro t log
  have h : t.Represents n log := (Represents.empty n).foldl rs
  refine ⟨h.size, h.distinct, fun key => ⟨h.get?_eq key, get?_eq_scan h.distinct key⟩,
    fun key => slotFor_error_iff h.writable, fun k m m' => ?_⟩
  rcases m.define_cases k with ⟨d, i, m₁, hm, hkey, hslot, hdefs⟩ | ⟨e₁, m₁, hm, hdefs⟩
  · rw [hm]
    refine ⟨nofun, fun heq => ?_⟩
    cases heq
    exact ⟨d, i, hkey, hslot, hdefs⟩
  · rw [hm]
    refine ⟨fun e heq => ?_, nofun⟩
    cases heq
    exact hdefs

end GridFit
