import Eden.Blackbox.Entry

/-!
# Filters

`Blackbox::filter` finds entries through the indexes that `BlackboxOptions::open` declares
on the log: `timestamp`, keyed by the first 8 bytes of an entry, and `id`, keyed by the next
4, their positions being `INDEX_TIMESTAMP` and `INDEX_SESSION_ID`. A `Filter` picks an index
(`index_id`) and a half-open range of keys (`index_range`); `From<RangeBounds<SystemTime>>`
makes a time filter of a range of times.

* `selects_iff_matches`: the key of an entry lies in the range of a filter exactly when the
  entry matches it, but for the session id `u32::MAX`, whose range `id..id + 1` wraps to
  `u32::MAX..0`, and the timestamp `u64::MAX`, which the range of `Nop` leaves out
  (`selects_max`);
* `backward_iff`: the range of a filter runs backwards (`Filter.Backward`), and `lookup_range`
  panics on it, for the session `u32::MAX` and for the time ranges that end before they start;
* `ofRange_selects`: the filter of a range of times selects an entry logged inside it, unless
  in the millisecond of an excluded bound of the range (`ofRange_excluded_same_millisecond`).
-/

namespace Eden.Blackbox

/-- `INDEX_TIMESTAMP` -/
def indexTimestamp : ℕ := 0

/-- `INDEX_SESSION_ID` -/
def indexSessionId : ℕ := 1

/-- The indexes `BlackboxOptions::open` declares, in order, so that the position of an index
    is its id: its name, and the bytes of an entry its key is (`IndexOutput::Reference`). -/
def indexes : List (String × ℕ × ℕ) :=
  [("timestamp", 0, timestampBytes), ("id", timestampBytes, headerBytes)]

/-- The key of the bytes of an entry in the index `indexId`. -/
def indexKey (indexId : ℕ) (bytes : List UInt8) : Option (List UInt8) :=
  (indexes.get? indexId).map fun index => (bytes.drop index.2.1).take (index.2.2 - index.2.1)

/-- `Filter`: by session id, by time range, or none. -/
inductive Filter where
  | sessionId (id : UInt32)
  | time (start end' : UInt64)
  | nop
  deriving DecidableEq

/-- `u64::max_value()` -/
def u64Max : UInt64 := 0xFFFFFFFFFFFFFFFF

/-- `u32::max_value()` -/
def u32Max : UInt32 := 0xFFFFFFFF

namespace Filter

/-- `Filter::index_id` -/
def indexId : Filter → ℕ
  | sessionId _ => indexSessionId
  | time _ _ => indexTimestamp
  | nop => indexTimestamp

/-- `Filter::index_range`: the first key in the range, and the first key after it. The `+ 1`
    is on `u32`, and wraps, as in a release build (a debug build panics on the overflow). -/
def indexRange : Filter → List UInt8 × List UInt8
  | sessionId id => (u32ToSlice id, u32ToSlice (id + 1))
  | time start end' => (u64ToSlice start, u64ToSlice end')
  | nop => (u64ToSlice 0, u64ToSlice u64Max)

/-- `Blackbox::filter` finds the bytes of an entry through the index of `f` when its key lies
    in the range of `f`: `lookup_range(index_id, (Included(start), Excluded(end)))`. -/
def Selects (f : Filter) (bytes : List UInt8) : Prop :=
  ∃ key, indexKey f.indexId bytes = some key ∧ ¬key < f.indexRange.1 ∧ key < f.indexRange.2

instance (f : Filter) (bytes : List UInt8) : Decidable (f.Selects bytes) :=
  match h : indexKey f.indexId bytes with
  | some key => decidable_of_iff (¬key < f.indexRange.1 ∧ key < f.indexRange.2)
      (by simp [Selects, h])
  | none => isFalse (by simp [Selects, h])

/-- The range of a filter runs backwards: its first key is after the first key after it.
    `lookup_range`, `Index::range` of `indexedlog`, panics on such a range, as `BTreeMap::range`
    does. -/
def Backward (f : Filter) : Prop := f.indexRange.2 < f.indexRange.1

instance instDecidableBackward (f : Filter) : Decidable f.Backward :=
  inferInstanceAs (Decidable (_ < _))

/-- The entries a filter is meant to find: of the session, in the time range, or all. -/
def Matches : Filter → UInt64 → UInt32 → Prop
  | sessionId id, _, session => session = id
  | time start end', timestamp, _ => start ≤ timestamp ∧ timestamp < end'
  | nop, _, _ => True

instance : (f : Filter) → (timestamp : UInt64) → (session : UInt32) →
    Decidable (f.Matches timestamp session)
  | sessionId _, _, _ => instDecidableEqUInt32 _ _
  | time _ _, _, _ => instDecidableAnd
  | nop, _, _ => instDecidableTrue

end Filter

theorem indexKey_timestamp (timestamp : UInt64) (sessionId : UInt32) (payload : List UInt8) :
    indexKey indexTimestamp (u64ToSlice timestamp ++ u32ToSlice sessionId ++ payload) =
      some (u64ToSlice timestamp) := by
  have h : timestampBytes = (u64ToSlice timestamp).length := by simp [timestampBytes]
  simp only [indexKey, indexTimestamp, indexes, List.get?_cons_zero, Option.map_some',
    List.drop_zero, Nat.sub_zero, List.append_assoc]
  rw [h, List.take_left]

theorem indexKey_sessionId (timestamp : UInt64) (sessionId : UInt32) (payload : List UInt8) :
    indexKey indexSessionId (u64ToSlice timestamp ++ u32ToSlice sessionId ++ payload) =
      some (u32ToSlice sessionId) := by
  have h₁ : timestampBytes = (u64ToSlice timestamp).length := by simp [timestampBytes]
  have h₂ : headerBytes - timestampBytes = (u32ToSlice sessionId).length := by
    simp [headerBytes, timestampBytes, sessionIdBytes]
  simp only [indexKey, indexSessionId, indexes, List.get?_cons_succ, List.get?_cons_zero,
    Option.map_some', List.append_assoc]
  rw [h₂, h₁, List.drop_left, List.take_left]

/-- Keys of one width compare as the integers they encode. -/
theorem u64ToSlice_lt_iff (a b : UInt64) : u64ToSlice a < u64ToSlice b ↔ a.toNat < b.toNat :=
  toBE_lt_toBE_iff (by simpa using a.toNat_lt) (by simpa using b.toNat_lt)

theorem u32ToSlice_lt_iff (a b : UInt32) : u32ToSlice a < u32ToSlice b ↔ a.toNat < b.toNat :=
  toBE_lt_toBE_iff (by simpa using a.toNat_lt) (by simpa using b.toNat_lt)

namespace Filter

/-- The ranges that run backwards are those of the session `u32::MAX`, whose `id + 1` wraps to
    `0`, and of the time ranges that end before they start. -/
theorem backward_iff (f : Filter) :
    f.Backward ↔ f = .sessionId u32Max ∨ ∃ start end', f = .time start end' ∧ end' < start := by
  cases f with
  | sessionId id =>
    have := id.toNat_lt
    simp only [Backward, indexRange, u32ToSlice_lt_iff, UInt32.toNat_add,
      Filter.sessionId.injEq, UInt32.ext_iff, reduceCtorEq, false_and, exists_false, or_false]
    show (id.toNat + 1) % 2 ^ 32 < _ ↔ _ = 2 ^ 32 - 1
    omega
  | time start end' =>
    simp only [Backward, indexRange, u64ToSlice_lt_iff, reduceCtorEq, false_or]
    exact ⟨fun h => ⟨_, _, rfl, h⟩, fun ⟨_, _, heq, h⟩ => by cases heq; exact h⟩
  | nop =>
    simp only [Backward, indexRange, u64ToSlice_lt_iff, reduceCtorEq, false_and,
      exists_false, or_self, iff_false]
    exact Nat.not_lt_zero _

/-- A filter other than the session `u32::MAX` whose time range, if it is one, does not end
    before it starts, does not run backwards. -/
theorem not_backward {f : Filter} (hid : f ≠ .sessionId u32Max)
    (htime : ∀ start end', f = .time start end' → start ≤ end') : ¬f.Backward := by
  rw [backward_iff]
  rintro (rfl | ⟨start, end', rfl, hlt⟩)
  · exact hid rfl
  · exact UInt64.not_lt.2 (htime _ _ rfl) hlt

end Filter

section Header

variable (timestamp : UInt64) (sessionId : UInt32) (payload : List UInt8)

/-- A session filter selects the ids from `id` to the wrapped `id + 1`. -/
theorem selects_sessionId_iff (id : UInt32) :
    (Filter.sessionId id).Selects (u64ToSlice timestamp ++ u32ToSlice sessionId ++ payload) ↔
      id.toNat ≤ sessionId.toNat ∧ sessionId.toNat < (id.toNat + 1) % 2 ^ 32 := by
  simp only [Filter.Selects, Filter.indexId, indexKey_sessionId, Option.some.injEq,
    exists_eq_left', Filter.indexRange, u32ToSlice_lt_iff, not_lt, UInt32.toNat_add]
  rfl

theorem selects_time_iff (start end' : UInt64) :
    (Filter.time start end').Selects (u64ToSlice timestamp ++ u32ToSlice sessionId ++ payload) ↔
      start.toNat ≤ timestamp.toNat ∧ timestamp.toNat < end'.toNat := by
  simp only [Filter.Selects, Filter.indexId, indexKey_timestamp, Option.some.injEq,
    exists_eq_left', Filter.indexRange, u64ToSlice_lt_iff, not_lt]

theorem selects_nop_iff :
    Filter.nop.Selects (u64ToSlice timestamp ++ u32ToSlice sessionId ++ payload) ↔
      timestamp.toNat < 2 ^ 64 - 1 := by
  simp only [Filter.Selects, Filter.indexId, indexKey_timestamp, Option.some.injEq,
    exists_eq_left', Filter.indexRange, u64ToSlice_lt_iff, not_lt]
  exact and_iff_right (Nat.zero_le _)

/-- The key of an entry lies in the range of a filter other than the session `u32::MAX`
    exactly when the entry matches it, and for `Nop` its timestamp is not `u64::MAX`. -/
theorem selects_iff_matches (f : Filter) (hid : f ≠ .sessionId u32Max) :
    f.Selects (u64ToSlice timestamp ++ u32ToSlice sessionId ++ payload) ↔
      f.Matches timestamp sessionId ∧ ¬(f = .nop ∧ timestamp = u64Max) := by
  cases f with
  | sessionId id =>
    have hid : id.toNat ≠ 2 ^ 32 - 1 := fun h => hid (congrArg _ (UInt32.toNat.inj h))
    have := id.toNat_lt
    simp only [selects_sessionId_iff, Filter.Matches, UInt32.ext_iff, reduceCtorEq, false_and,
      not_false_eq_true, and_true]
    omega
  | time start end' =>
    simp only [selects_time_iff, Filter.Matches, reduceCtorEq, false_and, not_false_eq_true,
      and_true]
    exact Iff.rfl
  | nop =>
    have hmax : u64Max.toNat = 2 ^ 64 - 1 := rfl
    have := timestamp.toNat_lt
    simp only [selects_nop_iff, Filter.Matches, true_and, UInt64.ext_iff, hmax]
    omega

/-- The session `u32::MAX` and, for `Nop`, the timestamp `u64::MAX` match but are not
    selected: `id + 1` wraps to `0`, and the range of `Nop` ends at `u64::MAX`. -/
theorem selects_max :
    ((Filter.sessionId u32Max).Matches timestamp u32Max ∧
        ¬(Filter.sessionId u32Max).Selects (u64ToSlice timestamp ++ u32ToSlice u32Max ++ payload)) ∧
      Filter.nop.Matches u64Max sessionId ∧
        ¬Filter.nop.Selects (u64ToSlice u64Max ++ u32ToSlice sessionId ++ payload) := by
  rw [selects_sessionId_iff, selects_nop_iff]
  exact ⟨⟨rfl, by decide⟩, trivial, by decide⟩

/-- The session `u32::MAX` wraps to the empty range `[u32::MAX, 0)`. -/
example : (Filter.sessionId u32Max).indexRange.2 = u32ToSlice 0 ∧
    ¬(Filter.sessionId u32Max).Selects (u64ToSlice 5 ++ u32ToSlice u32Max ++ [7]) := by
  decide

end Header

/-! ## Ranges of times -/

/-- `std::ops::Bound` over times. -/
inductive Bound where
  | included (time : SystemTime)
  | excluded (time : SystemTime)
  | unbounded

/-- A `RangeBounds<SystemTime>`, by its two bounds. -/
structure TimeRange where
  startBound : Bound
  endBound : Bound

/-- The milliseconds since the epoch of a time, before `time_to_u64` casts them. -/
def millis (time : SystemTime) : ℕ := time.nanosSinceEpoch / 1000000

namespace Bound

/-- A start bound admits `w` (the first half of `RangeBounds::contains`). -/
def Admits₁ : Bound → SystemTime → Prop
  | included v, w => v.nanosSinceEpoch ≤ w.nanosSinceEpoch
  | excluded v, w => v.nanosSinceEpoch < w.nanosSinceEpoch
  | unbounded, _ => True

/-- An end bound admits `w` (the second half of `RangeBounds::contains`). -/
def Admits₂ : Bound → SystemTime → Prop
  | included v, w => w.nanosSinceEpoch ≤ v.nanosSinceEpoch
  | excluded v, w => w.nanosSinceEpoch < v.nanosSinceEpoch
  | unbounded, _ => True

/-- The key a start bound gives in `From<RangeBounds<SystemTime>>`; the `+ 1` wraps. -/
def startKey : Bound → UInt64
  | included v => timeToU64 v
  | excluded v => timeToU64 v + 1
  | unbounded => 0

/-- The key an end bound gives in `From<RangeBounds<SystemTime>>`; the `+ 1` wraps. -/
def endKey : Bound → UInt64
  | included v => timeToU64 v + 1
  | excluded v => timeToU64 v
  | unbounded => u64Max

/-- A bound whose key is the integer it means, for a time `w` it admits: it is below
    `u64::MAX` milliseconds, and an excluded bound is not in the millisecond of `w`. -/
def Exact (w : SystemTime) : Bound → Prop
  | included v => millis v < 2 ^ 64 - 1
  | excluded v => millis v < 2 ^ 64 - 1 ∧ millis v ≠ millis w
  | unbounded => True

instance : (b : Bound) → (w : SystemTime) → Decidable (b.Admits₁ w)
  | included _, _ => Nat.decLe _ _
  | excluded _, _ => Nat.decLt _ _
  | unbounded, _ => instDecidableTrue

instance : (b : Bound) → (w : SystemTime) → Decidable (b.Admits₂ w)
  | included _, _ => Nat.decLe _ _
  | excluded _, _ => Nat.decLt _ _
  | unbounded, _ => instDecidableTrue

instance : (w : SystemTime) → (b : Bound) → Decidable (b.Exact w)
  | _, included _ => Nat.decLt _ _
  | _, excluded _ => instDecidableAnd
  | _, unbounded => instDecidableTrue

end Bound

/-- `RangeBounds::contains` -/
def TimeRange.Contains (r : TimeRange) (w : SystemTime) : Prop :=
  r.startBound.Admits₁ w ∧ r.endBound.Admits₂ w

instance (r : TimeRange) (w : SystemTime) : Decidable (r.Contains w) := instDecidableAnd

/-- `impl From<RangeBounds<SystemTime>> for Filter`, on bounds at or after `UNIX_EPOCH`, the
    domain of `SystemTime` (an earlier bound panics in `time_to_u64`). -/
def Filter.ofRange (range : TimeRange) : Filter :=
  .time range.startBound.startKey range.endBound.endKey

theorem toNat_timeToU64 {time : SystemTime} (h : millis time < 2 ^ 64) :
    (timeToU64 time).toNat = millis time :=
  UInt64.toNat_ofNat_of_lt h

theorem millis_le_millis {v w : SystemTime} (h : v.nanosSinceEpoch ≤ w.nanosSinceEpoch) :
    millis v ≤ millis w :=
  Nat.div_le_div_right h

theorem toNat_timeToU64_add_one {time : SystemTime} (h : millis time < 2 ^ 64 - 1) :
    (timeToU64 time + 1).toNat = millis time + 1 := by
  rw [UInt64.toNat_add, toNat_timeToU64 (by omega)]
  exact Nat.mod_eq_of_lt (show millis time + 1 < 2 ^ 64 by omega)

/-- The key of a start bound is at most the milliseconds of any time it admits. -/
theorem startKey_le {b : Bound} {w : SystemTime} (hw : b.Admits₁ w) (hexact : b.Exact w)
    (hmillis : millis w < 2 ^ 64 - 1) : b.startKey.toNat ≤ millis w := by
  cases b with
  | included v =>
    have := millis_le_millis hw
    rw [Bound.startKey, toNat_timeToU64 (by omega)]
    exact this
  | excluded v =>
    have := millis_le_millis hw.le
    rw [Bound.startKey, toNat_timeToU64_add_one hexact.1]
    exact Nat.lt_of_le_of_ne this hexact.2
  | unbounded => exact Nat.zero_le _

/-- The milliseconds of any time an end bound admits are below its key. -/
theorem lt_endKey {b : Bound} {w : SystemTime} (hw : b.Admits₂ w) (hexact : b.Exact w)
    (hmillis : millis w < 2 ^ 64 - 1) : millis w < b.endKey.toNat := by
  cases b with
  | included v =>
    have := millis_le_millis hw
    rw [Bound.endKey, toNat_timeToU64_add_one hexact]
    omega
  | excluded v =>
    have := millis_le_millis hw.le
    rw [Bound.endKey, toNat_timeToU64 (by have := hexact.1; omega)]
    exact Nat.lt_of_le_of_ne this (Ne.symm hexact.2)
  | unbounded => exact hmillis

/-- The filter of a range of times selects every entry logged at a time in the range, when
    the range and the time are below `u64::MAX` milliseconds and the time is not in the
    millisecond of an excluded bound. -/
theorem ofRange_selects (r : TimeRange) (w : SystemTime) (hw : r.Contains w)
    (hmillis : millis w < 2 ^ 64 - 1) (hstart : r.startBound.Exact w) (hend : r.endBound.Exact w)
    (sessionId : UInt32) (payload : List UInt8) :
    (Filter.ofRange r).Selects (u64ToSlice (timeToU64 w) ++ u32ToSlice sessionId ++ payload) := by
  rw [Filter.ofRange, selects_time_iff, toNat_timeToU64 (by omega)]
  exact ⟨startKey_le hw.1 hstart hmillis, lt_endKey hw.2 hend hmillis⟩

theorem ofRange_selects_excluded_included :
    TimeRange.Contains ⟨.excluded ⟨1000000⟩, .included ⟨5000000⟩⟩ ⟨2500000⟩ ∧
      millis ⟨2500000⟩ < 2 ^ 64 - 1 ∧ Bound.Exact ⟨2500000⟩ (.excluded ⟨1000000⟩) ∧
      Bound.Exact ⟨2500000⟩ (.included ⟨5000000⟩) ∧
      (Filter.ofRange ⟨.excluded ⟨1000000⟩, .included ⟨5000000⟩⟩).Selects
        (u64ToSlice (timeToU64 ⟨2500000⟩) ++ u32ToSlice 42 ++ [7]) :=
  have hw : TimeRange.Contains ⟨.excluded ⟨1000000⟩, .included ⟨5000000⟩⟩ ⟨2500000⟩ := by
    decide
  have hmillis : millis ⟨2500000⟩ < 2 ^ 64 - 1 := by decide
  have hstart : Bound.Exact ⟨2500000⟩ (.excluded ⟨1000000⟩) := by decide
  have hend : Bound.Exact ⟨2500000⟩ (.included ⟨5000000⟩) := by decide
  ⟨hw, hmillis, hstart, hend, ofRange_selects _ _ hw hmillis hstart hend 42 [7]⟩

/-- A time in the millisecond of an excluded start bound, after it, is in the range but not
    selected: the start key is the millisecond after it. -/
theorem ofRange_excluded_same_millisecond :
    TimeRange.Contains ⟨.excluded ⟨1000000⟩, .unbounded⟩ ⟨1500000⟩ ∧
      ¬(Filter.ofRange ⟨.excluded ⟨1000000⟩, .unbounded⟩).Selects
        (u64ToSlice (timeToU64 ⟨1500000⟩) ++ u32ToSlice 42 ++ [7]) := by
  rw [Filter.ofRange, selects_time_iff]
  decide

end Eden.Blackbox
