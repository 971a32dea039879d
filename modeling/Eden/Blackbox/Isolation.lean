import Eden.Blackbox.Session

/-!
# Sessions kept apart

A blackbox writes its log alone. `BlackboxOptions::open` gives it a session id that no entry
of the log has yet, and every entry `Blackbox::log` appends carries that id, whatever the log
answers and however often it rotates. On a `RotateLog` that adds to its logs only what is
appended (`AppendsOnly`; `force_rotate` may drop entries), proved about every run:

* `logAll_grows`: a run of `log` calls keeps the session id, and every entry of the log after
  it is one the log had before or one the run logged;
* `filter_sessionId_openBlackbox`: after `open` and any run of `log` calls, what `filter` by
  the session of the blackbox returns is only the entries that the run logged, read back.
-/

namespace Eden.Blackbox

variable {L T U P : Type}

/-- The entries of all the logs of a state of the `RotateLog`. -/
def logEntries (logs : L → List IndexedLog) (l : L) : List (List UInt8) :=
  (logs l).flatMap IndexedLog.entries

/-- A `RotateLog` adds to its logs only what is appended: after a call, every entry is one the
    logs had before or the bytes the call appended. -/
def AppendsOnly (rotate : RotateLog L) (logs : L → List IndexedLog) : Prop :=
  ∀ c l bytes, bytes ∈ logEntries logs (rotate.run c l).2 →
    bytes ∈ logEntries logs l ∨ c = .append bytes

/-- Every entry of the state `l'` is one of `l`, or `buf`. -/
def Grows (logs : L → List IndexedLog) (buf : List UInt8) (l l' : L) : Prop :=
  ∀ bytes ∈ logEntries logs l', bytes ∈ logEntries logs l ∨ bytes = buf

namespace Grows

variable {logs : L → List IndexedLog} {buf : List UInt8}

theorem trans {l₁ l₂ l₃ : L} (h₁₂ : Grows logs buf l₁ l₂) (h₂₃ : Grows logs buf l₂ l₃) :
    Grows logs buf l₁ l₃ := fun bytes h => (h₂₃ bytes h).elim (h₁₂ bytes) .inr

end Grows

section AppendsOnly

variable {rotate : RotateLog L} {logs : L → List IndexedLog} (happends : AppendsOnly rotate logs)
include happends

/-- An append of `buf` grows the log by `buf` at most. -/
theorem AppendsOnly.grows_append (buf : List UInt8) (l : L) :
    Grows logs buf l (rotate.run (.append buf) l).2 := fun bytes h =>
  (happends _ l bytes h).imp_right fun hc => (Call.append.inj hc).symm

/-- A call that appends nothing adds nothing. -/
theorem AppendsOnly.grows_of_ne_append (c : Call) (hc : ∀ bytes, c ≠ .append bytes)
    (buf : List UInt8) (l : L) : Grows logs buf l (rotate.run c l).2 := fun bytes h =>
  (happends c l bytes h).elim .inl fun h' => absurd h' (hc bytes)

/-- `appendSync` grows the log by `buf` at most. -/
theorem appendSync_grows {buf : List UInt8} {s : L × Trace} {r : Except String Unit} {l : L}
    {tr : Trace} (h : rotate.appendSync buf s = some (r, l, tr)) : Grows logs buf s.1 l := by
  obtain ⟨-, hsync, -⟩ := RotateLog.appendSync_eq_some h
  have hgrows := (happends.grows_append buf s.1).trans
    (happends.grows_of_ne_append .sync (fun _ => nofun) buf _)
  rwa [hsync] at hgrows

/-- A `force_rotate` adds nothing. -/
theorem forceRotate_grows {s : L × Trace} {r : Except String Unit} {l : L} {tr : Trace}
    (h : rotate.call .forceRotate s = (r, l, tr)) (buf : List UInt8) : Grows logs buf s.1 l := by
  have hl : (rotate.run .forceRotate s.1).2 = l := congrArg (·.2.1) h
  exact hl ▸ happends.grows_of_ne_append .forceRotate (fun _ => nofun) buf s.1

/-- One call of `log` keeps the session id, and adds to the log at most the entry it logs. -/
theorem log_grows {cbor : Cbor T} {data : T} {now : SystemTime} {b b' : Blackbox L}
    {tr : Trace} (hlog : log rotate cbor data now b = some (b', tr)) :
    b'.sessionId = b.sessionId ∧ ∀ bytes ∈ logEntries logs b'.rotateLog,
      bytes ∈ logEntries logs b.rotateLog ∨ Entry.toVec cbor data now b.sessionId = some bytes := by
  unfold log at hlog
  split at hlog
  · cases hlog
    exact ⟨rfl, fun _ h => .inl h⟩
  split at hlog
  · cases hlog
    exact ⟨rfl, fun _ h => .inl h⟩
  rename_i buf hbuf
  suffices hgrows : b'.sessionId = b.sessionId ∧ Grows logs buf b.rotateLog b'.rotateLog from
    ⟨hgrows.1, fun bytes h => (hgrows.2 bytes h).imp_right fun (h : bytes = buf) => h ▸ hbuf⟩
  split at hlog
  next => cases hlog
  next h => cases hlog; exact ⟨rfl, appendSync_grows happends h⟩
  next h₂ =>
    have hg₂ := appendSync_grows happends h₂
    split at hlog
    next h₃ => cases hlog; exact ⟨rfl, hg₂.trans (forceRotate_grows happends h₃ buf)⟩
    next h₃ =>
      have hg₃ := hg₂.trans (forceRotate_grows happends h₃ buf)
      split at hlog
      next => cases hlog
      next h₅ => cases hlog; exact ⟨rfl, hg₃.trans (appendSync_grows happends h₅)⟩
      next h₅ => cases hlog; exact ⟨rfl, hg₃.trans (appendSync_grows happends h₅)⟩

/-- A run of `log` calls keeps the session id, and every entry of the log after it is one the
    log had before or one the run logged. -/
theorem logAll_grows {cbor : Cbor T} {events : List (T × SystemTime)} {b b' : Blackbox L}
    {tr : Trace} (hrun : logAll rotate cbor events b = some (b', tr)) :
    b'.sessionId = b.sessionId ∧ ∀ bytes ∈ logEntries logs b'.rotateLog,
      bytes ∈ logEntries logs b.rotateLog ∨
        ∃ e ∈ events, Entry.toVec cbor e.1 e.2 b.sessionId = some bytes := by
  induction events generalizing b tr with
  | nil =>
    cases hrun
    exact ⟨rfl, fun _ h => .inl h⟩
  | cons e events ih =>
    rcases h₁ : log rotate cbor e.1 e.2 b with _ | ⟨b₁, tr₁⟩
    · simp [logAll, h₁] at hrun
    rcases h₂ : logAll rotate cbor events b₁ with _ | ⟨b₂, tr₂⟩
    · simp [logAll, h₁, h₂] at hrun
    simp only [logAll, h₁, h₂, Option.some_bind, Option.map_some', Option.some.injEq,
      Prod.mk.injEq] at hrun
    obtain ⟨rfl, -⟩ := hrun
    obtain ⟨hs₁, hg₁⟩ := log_grows happends h₁
    obtain ⟨hs₂, hg₂⟩ := ih h₂
    refine ⟨hs₂.trans hs₁, fun bytes h => ?_⟩
    rcases hg₂ bytes h with h | ⟨e', he', hbuf⟩
    · exact (hg₁ bytes h).imp_right fun hbuf => ⟨e, List.mem_cons_self _ _, hbuf⟩
    · exact .inr ⟨e', List.mem_cons_of_mem _ he', hs₁ ▸ hbuf⟩

end AppendsOnly

/-- An entry that a session filter selects has that session. -/
theorem sessionId_eq_of_selects {cbor : Cbor T} {bytes : List UInt8} {entry : Entry T}
    (hentry : Entry.fromSlice cbor bytes = some entry) {id : UInt32}
    (hsel : (Filter.sessionId id).Selects bytes) : entry.sessionId = id := by
  obtain ⟨payload, rfl, -⟩ := (Entry.fromSlice_eq_some_iff cbor bytes entry).1 hentry
  rw [selects_sessionId_iff] at hsel
  have := id.toNat_lt
  have := entry.sessionId.toNat_lt
  exact UInt32.toNat.inj (by omega)

/-- Where the session lookups of `refresh_session_id` and the indexes of `filter` read the
    logs, on a `RotateLog` that adds to its logs only what is appended: after `open`, and any
    run of `log` calls, what `filter` by the session of the blackbox returns is only what the
    run logged, read back. The entries the log had at `open` have other sessions. -/
theorem filter_sessionId_openBlackbox {rotate : RotateLog L} {logs : L → List IndexedLog}
    (happends : AppendsOnly rotate logs) {lookup : L → Lookup}
    (hreads : ∀ l, SessionLookupReads (logEntries logs l) (lookup l))
    (hindexes : ∀ l, ∀ log ∈ logs l, log.Reads) {D : Type} {openLog : D → Except String L × D}
    {removeDirAll : D → Except String Unit × D} {pid : UInt32} {draws : List UInt32} {dir : D}
    {b : Blackbox L} (hopen : openBlackbox openLog removeDirAll lookup pid draws dir = .ok (some b))
    {cbor : Cbor T} {events : List (T × SystemTime)} {b' : Blackbox L} {tr : Trace}
    (hrun : logAll rotate cbor events b = some (b', tr)) {cbor' : Cbor U}
    {matchPattern : U → P → Bool} {pattern : Option P} {found : List (Entry U)}
    (hfound : filter cbor' matchPattern (logs b'.rotateLog) (.sessionId b.sessionId) pattern =
      some found) {entry : Entry U} (hentry : entry ∈ found) :
    ∃ e ∈ events, ∃ bytes, Entry.toVec cbor e.1 e.2 b.sessionId = some bytes ∧
      Entry.fromSlice cbor' bytes = some entry := by
  obtain ⟨log, hlog, bytes, hbytes, hsel, hslice, -⟩ :=
    mem_of_filter_eq_some (hindexes _) hfound hentry
  rcases (logAll_grows happends hrun).2 bytes (List.mem_flatMap.2 ⟨log, hlog, hbytes⟩) with
    hold | ⟨e, he, hbuf⟩
  · obtain ⟨-, -, hfree⟩ := openBlackbox_eq_some hopen
    exact absurd (sessionId_eq_of_selects hslice hsel)
      (sessionId_ne_of_not_inUse (hreads _) hfree hold hslice)
  · exact ⟨e, he, bytes, hbuf, hslice⟩

/-! ## A log in memory -/

/-- The entries of a log in memory, indexed entry by entry, are the log. -/
@[simp] theorem logEntries_ofEntries (l : List (List UInt8)) :
    logEntries (fun l => [IndexedLog.ofEntries l]) l = l := by
  simp [logEntries, IndexedLog.ofEntries]

/-- A log in memory adds only what is appended; `force_rotate` empties it. -/
theorem memoryLog_appendsOnly : AppendsOnly memoryLog fun l => [IndexedLog.ofEntries l] := by
  intro c l bytes h
  cases c with
  | append buf =>
    simp only [memoryLog, logEntries_ofEntries, List.mem_append, List.mem_singleton] at h ⊢
    exact h.imp_right fun h => congrArg _ h.symm
  | sync => exact .inl h
  | forceRotate => simp [memoryLog] at h

/-- The bytes `log` writes for `7` at `1` ms in session `9`. -/
def loggedBytes₉ : List UInt8 := u64ToSlice (timeToU64 ⟨1000000⟩) ++ u32ToSlice 9 ++ [7]

theorem filter_sessionId_openBlackbox_corrupt :
    AppendsOnly memoryLog (fun l => [IndexedLog.ofEntries l]) ∧
      (∀ l, SessionLookupReads (logEntries (fun l => [IndexedLog.ofEntries l]) l) (lookupOf l)) ∧
      (∀ l, ∀ log ∈ [IndexedLog.ofEntries l], log.Reads) ∧
      openBlackbox corruptOpen (fun _ => (.ok (), false)) lookupOf 42 [42, 9] true =
        .ok (some ⟨sampleEntries, 9, false⟩) ∧
      logAll memoryLog Entry.smallIntCbor [(7, ⟨1000000⟩)] ⟨sampleEntries, 9, false⟩ =
        some (⟨sampleEntries ++ [loggedBytes₉], 9, false⟩,
          [(.append loggedBytes₉, .ok ()), (.sync, .ok ())]) ∧
      filter Entry.smallIntCbor (· == ·) [IndexedLog.ofEntries (sampleEntries ++ [loggedBytes₉])]
        (.sessionId 9) none = some [⟨1, 9, 7⟩] ∧ (⟨1, 9, 7⟩ : Entry UInt8) ∈ [⟨1, 9, 7⟩] ∧
      ∃ e ∈ [((7 : UInt8), (⟨1000000⟩ : SystemTime))], ∃ bytes,
        Entry.toVec Entry.smallIntCbor e.1 e.2 9 = some bytes ∧
          Entry.fromSlice Entry.smallIntCbor bytes = some ⟨1, 9, 7⟩ :=
  have hreads : ∀ l, SessionLookupReads (logEntries (fun l => [IndexedLog.ofEntries l]) l)
      (lookupOf l) := fun l => by
    rw [logEntries_ofEntries]
    exact lookupOf_reads l
  have hindexes : ∀ l, ∀ log ∈ [IndexedLog.ofEntries l], log.Reads := fun l _ hlog =>
    List.mem_singleton.1 hlog ▸ IndexedLog.ofEntries_reads l
  have hopen : openBlackbox corruptOpen (fun _ => (.ok (), false)) lookupOf 42 [42, 9] true =
      .ok (some ⟨sampleEntries, 9, false⟩) := rfl
  have hrun : logAll memoryLog Entry.smallIntCbor [(7, ⟨1000000⟩)] ⟨sampleEntries, 9, false⟩ =
      some (⟨sampleEntries ++ [loggedBytes₉], 9, false⟩,
        [(.append loggedBytes₉, .ok ()), (.sync, .ok ())]) := rfl
  have hfound : filter Entry.smallIntCbor (· == ·)
      [IndexedLog.ofEntries (sampleEntries ++ [loggedBytes₉])] (.sessionId 9) none =
        some [⟨1, 9, 7⟩] := by
    decide
  have hentry : (⟨1, 9, 7⟩ : Entry UInt8) ∈ [⟨1, 9, 7⟩] := List.mem_singleton_self _
  ⟨memoryLog_appendsOnly, hreads, hindexes, hopen, hrun, hfound, hentry,
    filter_sessionId_openBlackbox memoryLog_appendsOnly hreads hindexes hopen hrun hfound hentry⟩

end Eden.Blackbox
