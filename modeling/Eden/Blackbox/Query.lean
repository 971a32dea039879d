import Eden.Blackbox.Filter

/-!
# Querying the blackbox

`Blackbox::filter` looks up the range of keys of a filter in the index of the filter, in each
log of the `RotateLog`, last key first; it keeps the entries that read and decode, and, given
a pattern, those whose data match it. The logs and their indexes are `indexedlog`'s, outside
these sources: a log here (`IndexedLog`) is its entries and a `lookup_range`, which may fail,
on a key or on an entry, and which panics on a range that runs backwards (`Filter.Backward`).
An index reads its log (`IndexedLog.Reads`) when its lookups of a range that does not run
backwards succeed and give exactly the entries whose key is in the range.

* `filter_eq_none_iff`: `filter` panics exactly when there is a log to look up and the filter
  is the session `u32::MAX` or a time range that ends before it starts;
* `mem_filter_iff`: on logs whose indexes read them, `filter` by any other filter returns
  exactly the entries of the logs that decode, match the filter and match the pattern, but
  for `Nop` the timestamp `u64::MAX` (`selects_max`);
* `filter_newest_first`: "Newest first": on a log whose lookups give the keys in increasing
  order (`IndexedLog.OrderedFor`), `filter` by the timestamp index returns the entries of the
  log newest first, the keys being read in reverse.
-/

namespace Eden.Blackbox

/-- A log of the `RotateLog`: its entries, and `lookup_range` on an index and a range of
    keys, which gives the keys in the range with the entries under each. -/
structure IndexedLog where
  entries : List (List UInt8)
  lookupRange : ℕ → List UInt8 × List UInt8 →
    Except String (List (Except String (List UInt8 × List (Except String (List UInt8)))))

/-- The lookups of a filter on a log, at a range that does not run backwards, succeed and give
    exactly the entries of the log that the filter selects. -/
def IndexedLog.Reads (log : IndexedLog) : Prop :=
  ∀ f : Filter, ¬f.Backward → ∃ keys, log.lookupRange f.indexId f.indexRange = .ok keys ∧
    ∀ bytes, (∃ key entries, .ok (key, entries) ∈ keys ∧ .ok bytes ∈ entries) ↔
      bytes ∈ log.entries ∧ f.Selects bytes

/-- The lookup of a filter on a log gives the keys in its range in increasing order, each with
    entries under that key, as `lookup_range` of `indexedlog` does. -/
def IndexedLog.OrderedFor (log : IndexedLog) (f : Filter) : Prop :=
  ∀ keys, log.lookupRange f.indexId f.indexRange = .ok keys →
    ((keys.filterMap Except.toOption).map Prod.fst).Sorted (· < ·) ∧
      ∀ key entries, .ok (key, entries) ∈ keys → ∀ bytes, .ok bytes ∈ entries →
        indexKey f.indexId bytes = some key

/-- A log whose index holds each entry under its own key, in the order of the log. -/
def IndexedLog.ofEntries (entries : List (List UInt8)) : IndexedLog where
  entries := entries
  lookupRange indexId range := .ok <| entries.filterMap fun bytes =>
    (indexKey indexId bytes).bind fun key =>
      if ¬key < range.1 ∧ key < range.2 then some (.ok (key, [.ok bytes])) else none

theorem IndexedLog.ofEntries_reads (entries : List (List UInt8)) : (ofEntries entries).Reads := by
  intro f _
  refine ⟨_, rfl, fun bytes => ?_⟩
  simp only [ofEntries, List.mem_filterMap, Option.bind_eq_some, Filter.Selects]
  constructor
  · rintro ⟨key, _, ⟨b, hb, k, hk, hif⟩, hbytes⟩
    split at hif
    · simp only [Option.some.injEq, Except.ok.injEq, Prod.mk.injEq] at hif
      obtain ⟨rfl, rfl⟩ := hif
      obtain rfl : bytes = b := by simpa using hbytes
      exact ⟨hb, k, hk, ‹_›⟩
    · cases hif
  · rintro ⟨hb, k, hk, hrange⟩
    exact ⟨k, _, ⟨bytes, hb, k, hk, if_pos hrange⟩, List.mem_singleton_self _⟩

/-- A log indexed entry by entry gives its keys in the order of its entries, so in
    increasing order when its entries are. -/
theorem IndexedLog.ofEntries_orderedFor {entries : List (List UInt8)} {f : Filter}
    (hsorted : (entries.filterMap (indexKey f.indexId)).Sorted (· < ·)) :
    (ofEntries entries).OrderedFor f := by
  rintro keys ⟨⟩
  constructor
  · simp only [List.Sorted, List.pairwise_map, List.pairwise_filterMap] at hsorted ⊢
    refine hsorted.imp fun {a b} hab r hr r' hr' p hp p' hp' => ?_
    simp only [Option.mem_def, Option.bind_eq_some] at hr hr'
    obtain ⟨k, hk, hif⟩ := hr
    obtain ⟨k', hk', hif'⟩ := hr'
    split at hif <;> split at hif' <;> cases hif <;> cases hif'
    obtain rfl := Option.some.inj hp
    obtain rfl := Option.some.inj hp'
    exact hab _ hk _ hk'
  · intro key es hmem bytes hbytes
    simp only [List.mem_filterMap, Option.bind_eq_some] at hmem
    obtain ⟨b, -, k, hk, hif⟩ := hmem
    split at hif
    · simp only [Option.some.injEq, Except.ok.injEq, Prod.mk.injEq] at hif
      obtain ⟨rfl, rfl⟩ := hif
      obtain rfl : bytes = b := by simpa using hbytes
      exact hk
    · cases hif

/-- Two entries of small integers in session `42`: `7` at `5` ms, `3` at `20` ms. -/
def sampleEntries : List (List UInt8) :=
  [u64ToSlice 5 ++ u32ToSlice 42 ++ [7], u64ToSlice 20 ++ u32ToSlice 42 ++ [3]]

/-- One log of the sample entries. -/
def sampleLogs : List IndexedLog := [.ofEntries sampleEntries]

variable {T P : Type}

/-- The loop of `Blackbox::filter` over the logs: in every log, last key first, the entries
    that read, decode and match the pattern (`match_pattern` on their data, outside these
    sources). A lookup that fails is skipped. -/
def filterLogs (cbor : Cbor T) (matchPattern : T → P → Bool) (logs : List IndexedLog)
    (f : Filter) (pattern : Option P) : List (Entry T) :=
  logs.flatMap fun log =>
    match log.lookupRange f.indexId f.indexRange with
    | .error _ => []
    | .ok keys => keys.reverse.flatMap fun
      | .error _ => []
      | .ok (_, entries) => entries.filterMap fun
        | .error _ => none
        | .ok bytes =>
          (Entry.fromSlice cbor bytes).filter fun entry => pattern.all (matchPattern entry.data)

/-- `Blackbox::filter`: what its loop finds, or `none` where it panics: at the lookup in the
    first log, when the range of the filter runs backwards. -/
def filter (cbor : Cbor T) (matchPattern : T → P → Bool) (logs : List IndexedLog) (f : Filter)
    (pattern : Option P) : Option (List (Entry T)) :=
  if f.Backward ∧ !logs.isEmpty then none else some (filterLogs cbor matchPattern logs f pattern)

section Filter

variable {cbor : Cbor T} {matchPattern : T → P → Bool} {logs : List IndexedLog} {f : Filter}
  {pattern : Option P}

theorem filter_of_not_backward (hf : ¬f.Backward) :
    filter cbor matchPattern logs f pattern = some (filterLogs cbor matchPattern logs f pattern) :=
  if_neg fun h => hf h.1

/-- What `filter` returns is what its loop finds, on no log or at a range that does not run
    backwards. -/
theorem filter_eq_some {found : List (Entry T)}
    (h : filter cbor matchPattern logs f pattern = some found) :
    found = filterLogs cbor matchPattern logs f pattern ∧ (logs = [] ∨ ¬f.Backward) := by
  unfold filter at h
  split at h
  · cases h
  · rename_i hpanic
    refine ⟨(Option.some.inj h).symm, ?_⟩
    simpa [or_comm, imp_iff_not_or] using hpanic

end Filter

/-- `filter` panics exactly when there is a log to look up and the filter is the session
    `u32::MAX`, whose range wraps to `u32::MAX..0`, or a time range that ends before it
    starts. -/
theorem filter_eq_none_iff (cbor : Cbor T) (matchPattern : T → P → Bool)
    (logs : List IndexedLog) (f : Filter) (pattern : Option P) :
    filter cbor matchPattern logs f pattern = none ↔
      logs ≠ [] ∧ (f = .sessionId u32Max ∨ ∃ start end', f = .time start end' ∧ end' < start) := by
  rw [← Filter.backward_iff]
  by_cases hf : f.Backward <;> cases logs <;> simp [filter, hf]

/-- The empty range of times `(1 ms, 1 ms)` becomes `Time(2, 1)`, on which `filter` panics. -/
example : filter Entry.smallIntCbor (· == ·) sampleLogs
    (Filter.ofRange ⟨.excluded ⟨1000000⟩, .excluded ⟨1000000⟩⟩) none = none := by
  decide

/-- The entries `filter` finds under one key. -/
theorem mem_filterEntries {cbor : Cbor T} {matchPattern : T → P → Bool} {pattern : Option P}
    {entries : List (Except String (List UInt8))} {entry : Entry T} :
    entry ∈ entries.filterMap (fun
      | .error _ => none
      | .ok bytes =>
        (Entry.fromSlice cbor bytes).filter fun entry => pattern.all (matchPattern entry.data)) ↔
      ∃ bytes, .ok bytes ∈ entries ∧
        Entry.fromSlice cbor bytes = some entry ∧ pattern.all (matchPattern entry.data) := by
  simp only [List.mem_filterMap]
  constructor
  · rintro ⟨_ | bytes, hbytes, hsome⟩
    · cases hsome
    · exact ⟨bytes, hbytes, Option.filter_eq_some.1 hsome⟩
  · rintro ⟨bytes, hbytes, hsome⟩
    exact ⟨_, hbytes, Option.filter_eq_some.2 hsome⟩

/-- The entries `filter` finds in one log whose lookup succeeded. -/
theorem mem_filterKeys {cbor : Cbor T} {matchPattern : T → P → Bool} {pattern : Option P}
    {keys : List (Except String (List UInt8 × List (Except String (List UInt8))))}
    {entry : Entry T} :
    entry ∈ keys.reverse.flatMap (fun
      | .error _ => []
      | .ok (_, entries) => entries.filterMap fun
        | .error _ => none
        | .ok bytes =>
          (Entry.fromSlice cbor bytes).filter fun entry => pattern.all (matchPattern entry.data)) ↔
      ∃ bytes, (∃ key entries, .ok (key, entries) ∈ keys ∧ .ok bytes ∈ entries) ∧
        Entry.fromSlice cbor bytes = some entry ∧ pattern.all (matchPattern entry.data) := by
  simp only [List.mem_flatMap, List.mem_reverse]
  constructor
  · rintro ⟨_ | ⟨key, entries⟩, hkey, hentry⟩
    · cases hentry
    · obtain ⟨bytes, hbytes, hsome⟩ := mem_filterEntries.1 hentry
      exact ⟨bytes, ⟨key, entries, hkey, hbytes⟩, hsome⟩
  · rintro ⟨bytes, ⟨key, entries, hkey, hbytes⟩, hsome⟩
    exact ⟨_, hkey, mem_filterEntries.2 ⟨bytes, hbytes, hsome⟩⟩

/-- On logs whose indexes read them, the loop of `filter`, at a range that does not run
    backwards, finds exactly the entries of the logs that the filter selects, that decode and
    that match the pattern. -/
theorem mem_filterLogs {cbor : Cbor T} {matchPattern : T → P → Bool} {logs : List IndexedLog}
    (hlogs : ∀ log ∈ logs, log.Reads) {f : Filter} (hf : ¬f.Backward) (pattern : Option P)
    (entry : Entry T) :
    entry ∈ filterLogs cbor matchPattern logs f pattern ↔
      ∃ log ∈ logs, ∃ bytes ∈ log.entries, f.Selects bytes ∧
        Entry.fromSlice cbor bytes = some entry ∧ pattern.all (matchPattern entry.data) := by
  simp only [filterLogs, List.mem_flatMap]
  refine exists_congr fun log => and_congr_right fun hlog => ?_
  obtain ⟨keys, hkeys, hread⟩ := hlogs log hlog f hf
  simp only [hkeys, mem_filterKeys, hread, and_assoc]

/-- On logs whose indexes read them, every entry `filter` returns is one of the logs that the
    filter selects, that decodes and that matches the pattern. -/
theorem mem_of_filter_eq_some {cbor : Cbor T} {matchPattern : T → P → Bool}
    {logs : List IndexedLog} (hlogs : ∀ log ∈ logs, log.Reads) {f : Filter} {pattern : Option P}
    {found : List (Entry T)} (hfound : filter cbor matchPattern logs f pattern = some found)
    {entry : Entry T} (hentry : entry ∈ found) :
    ∃ log ∈ logs, ∃ bytes ∈ log.entries, f.Selects bytes ∧
      Entry.fromSlice cbor bytes = some entry ∧ pattern.all (matchPattern entry.data) := by
  obtain ⟨rfl, rfl | hf⟩ := filter_eq_some hfound
  · cases hentry
  · exact (mem_filterLogs hlogs hf pattern entry).1 hentry

/-- On logs whose indexes read them, `filter` by a filter other than the session `u32::MAX`
    and the time ranges that end before they start returns, and what it returns is exactly the
    entries of the logs that decode, match the filter (for `Nop`, with a timestamp other than
    `u64::MAX`) and match the pattern. -/
theorem mem_filter_iff {cbor : Cbor T} {matchPattern : T → P → Bool} {logs : List IndexedLog}
    (hlogs : ∀ log ∈ logs, log.Reads) {f : Filter} (hid : f ≠ .sessionId u32Max)
    (htime : ∀ start end', f = .time start end' → start ≤ end') (pattern : Option P) :
    ∃ found, filter cbor matchPattern logs f pattern = some found ∧ ∀ entry, entry ∈ found ↔
      ∃ log ∈ logs, ∃ bytes ∈ log.entries, Entry.fromSlice cbor bytes = some entry ∧
        f.Matches entry.timestamp entry.sessionId ∧ ¬(f = .nop ∧ entry.timestamp = u64Max) ∧
        pattern.all (matchPattern entry.data) := by
  have hf := Filter.not_backward hid htime
  refine ⟨_, filter_of_not_backward hf, fun entry => ?_⟩
  have hselects : ∀ bytes, Entry.fromSlice cbor bytes = some entry →
      (f.Selects bytes ↔ f.Matches entry.timestamp entry.sessionId ∧
        ¬(f = .nop ∧ entry.timestamp = u64Max)) := fun bytes hsome => by
    obtain ⟨payload, rfl, -⟩ := (Entry.fromSlice_eq_some_iff cbor bytes entry).1 hsome
    exact selects_iff_matches _ _ _ f hid
  rw [mem_filterLogs hlogs hf]
  refine exists_congr fun log => and_congr_right fun _ => exists_congr fun bytes =>
    and_congr_right fun _ => ⟨fun ⟨hsel, hsome, hpat⟩ => ?_, fun ⟨hsome, hmatch, hnop, hpat⟩ => ?_⟩
  · exact ⟨hsome, (hselects bytes hsome).1 hsel |>.1, (hselects bytes hsome).1 hsel |>.2, hpat⟩
  · exact ⟨(hselects bytes hsome).2 ⟨hmatch, hnop⟩, hsome, hpat⟩

theorem mem_filter_iff_sampleLogs :
    (∀ log ∈ sampleLogs, log.Reads) ∧ Filter.time 0 10 ≠ .sessionId u32Max ∧
      (∀ start end', Filter.time 0 10 = .time start end' → start ≤ end') ∧
      ∃ found, filter Entry.smallIntCbor (· == ·) sampleLogs (.time 0 10) (some 7) = some found ∧
        ∀ entry, entry ∈ found ↔ ∃ log ∈ sampleLogs, ∃ bytes ∈ log.entries,
          Entry.fromSlice Entry.smallIntCbor bytes = some entry ∧
          (Filter.time 0 10).Matches entry.timestamp entry.sessionId ∧
          ¬(Filter.time 0 10 = .nop ∧ entry.timestamp = u64Max) ∧
          (some (7 : UInt8)).all ((· == ·) entry.data) :=
  have hlogs : ∀ log ∈ sampleLogs, log.Reads := by
    simp only [sampleLogs, List.mem_singleton, forall_eq]
    exact IndexedLog.ofEntries_reads _
  have htime : ∀ start end', Filter.time 0 10 = .time start end' → start ≤ end' := by
    rintro _ _ ⟨⟩
    decide
  ⟨hlogs, by decide, htime, mem_filter_iff hlogs (by decide) htime (some 7)⟩

/-- The time range `[0, 10)` finds the entry at `5` ms, and not the one at `20` ms. -/
example : filter Entry.smallIntCbor (· == ·) sampleLogs (.time 0 10) none = some [⟨5, 42, 7⟩] := by
  decide

/-- An entry found under a key of the timestamp index has the timestamp of that key. -/
theorem key_eq_u64ToSlice {cbor : Cbor T} {matchPattern : T → P → Bool} {pattern : Option P}
    {key : List UInt8} {entries : List (Except String (List UInt8))}
    (hkey : ∀ bytes, .ok bytes ∈ entries → indexKey indexTimestamp bytes = some key)
    {entry : Entry T}
    (hentry : entry ∈ entries.filterMap (fun
      | .error _ => none
      | .ok bytes =>
        (Entry.fromSlice cbor bytes).filter fun entry => pattern.all (matchPattern entry.data))) :
    key = u64ToSlice entry.timestamp := by
  obtain ⟨bytes, hbytes, hsome, -⟩ := mem_filterEntries.1 hentry
  obtain ⟨payload, rfl, -⟩ := (Entry.fromSlice_eq_some_iff cbor bytes entry).1 hsome
  have h := hkey _ hbytes
  rw [indexKey_timestamp, Option.some.injEq] at h
  exact h.symm

/-- "Newest first": on a log whose lookups give the keys in increasing order, `filter` by the
    timestamp index (a time range, or `Nop`) returns the entries of the log newest first. -/
theorem filter_newest_first {log : IndexedLog} {f : Filter} (hord : log.OrderedFor f)
    (hf : f.indexId = indexTimestamp) (cbor : Cbor T) (matchPattern : T → P → Bool)
    (pattern : Option P) {found : List (Entry T)}
    (hfound : filter cbor matchPattern [log] f pattern = some found) :
    (found.map fun entry => entry.timestamp.toNat).Sorted (· ≥ ·) := by
  obtain ⟨rfl, -⟩ := filter_eq_some hfound
  simp only [filterLogs, List.flatMap_cons, List.flatMap_nil, List.append_nil]
  split
  · exact List.Pairwise.nil
  · rename_i keys hkeys
    obtain ⟨hsorted, hkey⟩ := hord keys hkeys
    rw [hf] at hkey
    simp only [List.Sorted, List.pairwise_map, List.pairwise_filterMap, List.pairwise_flatMap,
      List.pairwise_reverse] at hsorted ⊢
    refine ⟨fun a ha => ?_, hsorted.imp_of_mem fun {a b} ha hb hab => ?_⟩
    · -- Under one key, one timestamp.
      rcases a with _ | ⟨key, entries⟩
      · exact .nil
      have hk := hkey key entries (List.mem_reverse.1 ha)
      exact List.pairwise_of_forall_mem_list fun x hx y hy => le_of_eq <| congrArg UInt64.toNat <|
        Entry.u64ToSlice_injective ((key_eq_u64ToSlice hk hy).symm.trans (key_eq_u64ToSlice hk hx))
    · -- Under a later key, a later timestamp.
      rcases a with _ | ⟨ka, ea⟩
      · exact fun _ _ _ hy => by cases hy
      rcases b with _ | ⟨kb, eb⟩
      · exact fun _ hx => by cases hx
      intro x hx y hy
      have hlt : ka < kb := hab _ rfl _ rfl
      rw [key_eq_u64ToSlice (hkey ka ea ha) hy, key_eq_u64ToSlice (hkey kb eb hb) hx,
        u64ToSlice_lt_iff] at hlt
      exact le_of_lt hlt

/-- The entry at `20` ms comes before the one at `5` ms. -/
theorem filter_newest_first_sampleEntries :
    (IndexedLog.ofEntries sampleEntries).OrderedFor (.time 0 100) ∧
      (Filter.time 0 100).indexId = indexTimestamp ∧
      filter Entry.smallIntCbor (· == ·) [.ofEntries sampleEntries] (.time 0 100) none =
        some [⟨20, 42, 3⟩, ⟨5, 42, 7⟩] ∧
      ([⟨20, 42, 3⟩, ⟨5, 42, 7⟩].map fun (entry : Entry UInt8) => entry.timestamp.toNat).Sorted
        (· ≥ ·) :=
  have hord : (IndexedLog.ofEntries sampleEntries).OrderedFor (.time 0 100) :=
    IndexedLog.ofEntries_orderedFor (by decide)
  have hfound : filter Entry.smallIntCbor (· == ·) [.ofEntries sampleEntries] (.time 0 100) none =
      some [⟨20, 42, 3⟩, ⟨5, 42, 7⟩] := by
    decide
  ⟨hord, rfl, hfound, filter_newest_first hord rfl _ _ _ hfound⟩

end Eden.Blackbox
