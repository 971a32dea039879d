import Eden.Blackbox.Log
import Eden.Blackbox.Query

/-!
# Sessions

Every entry carries the session id of the blackbox that logged it.
`Blackbox::refresh_session_id` looks the session id up in the log and, while an entry is
found, draws another at random (here, the next of a list of draws).

* `refreshSessionId_fresh`: where lookups read the log, the loop ends with the first of the
  session id and the draws that is the session of no entry that decodes, and changes nothing
  else (`refreshSessionId_eq`). A lookup that fails counts the id as unused (`sessionInUse`),
  used or not;
* `openBlackbox_fresh`: `BlackboxOptions::open`, which removes the directory and opens the log
  once more when the first opening fails, starts the blackbox unbroken with the process id and
  refreshes it, so that what it returns has a session of no entry of its log.

What `log` writes is then found again, across the two halves of the blackbox: on a
`RotateLog` that keeps what it syncs, with indexes that read its logs,

* `mem_filter_of_log`: an entry that `log` appended and synced is found by `filter`, which
  returns, by every filter and pattern it matches, but for the two exceptions of
  `selects_max`; by the session `u32::MAX`, `filter` panics (`filter_eq_none_iff`).
-/

namespace Eden.Blackbox

variable {L T P : Type}

/-! ## Fresh session ids -/

/-- `RotateLog::lookup` on an index and a key, in one state of the log: the entries under the
    key, each of which may fail to read. -/
abbrev Lookup := ℕ → List UInt8 → Except String (List (Except String (List UInt8)))

/-- Some entry of the log is found under the session id: the first entry the lookup gives is
    read. -/
def sessionInUse (lookup : Lookup) (id : UInt32) : Bool :=
  match lookup indexSessionId (u32ToSlice id) with
  | .ok (.ok _ :: _) => true
  | _ => false

/-- `Blackbox::refresh_session_id`, on the log in each state looked up by `lookup`, where
    `rand::random` draws the ids of `draws` in turn: the blackbox with the first id not in use,
    or `none` when the draws run out first (the loop goes on). -/
def refreshSessionId (lookup : L → Lookup) : List UInt32 → Blackbox L → Option (Blackbox L)
  | draws, b =>
    if sessionInUse (lookup b.rotateLog) b.sessionId then
      match draws with
      | [] => none
      | id :: draws => refreshSessionId lookup draws { b with sessionId := id }
    else some b

/-- The loop keeps the first of the session id and the draws that is not in use. -/
theorem refreshSessionId_eq (lookup : L → Lookup) (draws : List UInt32) (b : Blackbox L) :
    refreshSessionId lookup draws b =
      ((b.sessionId :: draws).find? fun id => !sessionInUse (lookup b.rotateLog) id).map
        fun id => { b with sessionId := id } := by
  induction draws generalizing b with
  | nil =>
    unfold refreshSessionId
    cases hb : sessionInUse (lookup b.rotateLog) b.sessionId <;> simp [hb]
  | cons id draws ih =>
    unfold refreshSessionId
    cases hb : sessionInUse (lookup b.rotateLog) b.sessionId <;> simp [hb, ih]

/-- A lookup of a session id gives exactly the entries of the log under its key, all read. -/
def SessionLookupReads (entries : List (List UInt8)) (lookup : Lookup) : Prop :=
  ∀ id : UInt32, ∃ items : List (List UInt8),
    lookup indexSessionId (u32ToSlice id) = .ok (items.map .ok) ∧
      ∀ bytes, bytes ∈ items ↔ bytes ∈ entries ∧ indexKey indexSessionId bytes = some (u32ToSlice id)

/-- Where lookups read the log, an id is in use exactly when an entry of the log has its key. -/
theorem sessionInUse_iff {entries : List (List UInt8)} {lookup : Lookup}
    (hreads : SessionLookupReads entries lookup) (id : UInt32) :
    sessionInUse lookup id ↔
      ∃ bytes ∈ entries, indexKey indexSessionId bytes = some (u32ToSlice id) := by
  obtain ⟨items, hlookup, hitems⟩ := hreads id
  simp only [← hitems]
  cases items <;> simp [sessionInUse, hlookup]

/-- An id not in use is the session of no entry of the log that decodes. -/
theorem sessionId_ne_of_not_inUse {entries : List (List UInt8)} {lookup : Lookup}
    (hreads : SessionLookupReads entries lookup) {id : UInt32} (hid : !sessionInUse lookup id)
    {cbor : Cbor T} {bytes : List UInt8} (hbytes : bytes ∈ entries) {entry : Entry T}
    (hentry : Entry.fromSlice cbor bytes = some entry) : entry.sessionId ≠ id := by
  rintro rfl
  obtain ⟨payload, rfl, -⟩ := (Entry.fromSlice_eq_some_iff cbor bytes entry).1 hentry
  have : sessionInUse lookup entry.sessionId :=
    (sessionInUse_iff hreads _).2 ⟨_, hbytes, indexKey_sessionId _ _ _⟩
  simp [this] at hid

/-- `refresh_session_id`, when it ends, leaves the blackbox as it was but for the session id,
    one of its own and the draws that is not in use. -/
theorem refreshSessionId_eq_some {lookup : L → Lookup} {b b' : Blackbox L} {draws : List UInt32}
    (h : refreshSessionId lookup draws b = some b') :
    b' = { b with sessionId := b'.sessionId } ∧ b'.sessionId ∈ b.sessionId :: draws ∧
      !sessionInUse (lookup b.rotateLog) b'.sessionId := by
  rw [refreshSessionId_eq, Option.map_eq_some'] at h
  obtain ⟨id, hfind, rfl⟩ := h
  have hfree := List.find?_some hfind
  exact ⟨rfl, List.mem_of_find?_eq_some hfind, hfree⟩

/-- Where lookups read the log, `refresh_session_id`, when it ends, has changed only the
    session id, to the first of the session id and the draws that is the session of no entry
    of the log. -/
theorem refreshSessionId_fresh {lookup : L → Lookup} {b b' : Blackbox L} {draws : List UInt32}
    {entries : List (List UInt8)} (hreads : SessionLookupReads entries (lookup b.rotateLog))
    (h : refreshSessionId lookup draws b = some b') :
    b'.rotateLog = b.rotateLog ∧ b'.isBroken = b.isBroken ∧ b'.sessionId ∈ b.sessionId :: draws ∧
      ∀ bytes ∈ entries, ∀ (cbor : Cbor T) (entry : Entry T),
        Entry.fromSlice cbor bytes = some entry → entry.sessionId ≠ b'.sessionId := by
  obtain ⟨hb', hmem, hfree⟩ := refreshSessionId_eq_some h
  rw [hb']
  exact ⟨rfl, rfl, hmem, fun _ hbytes _ _ => sessionId_ne_of_not_inUse hreads hfree hbytes⟩

/-- The lookup of an index that holds the entries of a log under their keys. -/
def lookupOf (entries : List (List UInt8)) : Lookup := fun indexId key =>
  .ok ((entries.filter fun bytes => indexKey indexId bytes = some key).map .ok)

theorem lookupOf_reads (entries : List (List UInt8)) :
    SessionLookupReads entries (lookupOf entries) :=
  fun _ => ⟨_, rfl, fun _ => by simp⟩

/-- A blackbox over a log of the sample entries, whose session `42` is in use. -/
def sampleBlackbox : Blackbox (List (List UInt8)) := ⟨sampleEntries, 42, false⟩

theorem refreshSessionId_fresh_sample :
    SessionLookupReads sampleBlackbox.rotateLog (lookupOf sampleBlackbox.rotateLog) ∧
      refreshSessionId lookupOf [42, 9] sampleBlackbox = some ⟨sampleBlackbox.rotateLog, 9, false⟩ ∧
      sampleBlackbox.rotateLog = sampleBlackbox.rotateLog ∧ false = sampleBlackbox.isBroken ∧
      (9 : UInt32) ∈ [42, 42, 9] ∧ ∀ bytes ∈ sampleBlackbox.rotateLog, ∀ (cbor : Cbor UInt8)
        (entry : Entry UInt8), Entry.fromSlice cbor bytes = some entry → entry.sessionId ≠ 9 :=
  have h : refreshSessionId lookupOf [42, 9] sampleBlackbox =
      some ⟨sampleBlackbox.rotateLog, 9, false⟩ := rfl
  ⟨lookupOf_reads _, h, refreshSessionId_fresh (lookupOf_reads _) h⟩


/-! ## Opening -/

section Opening

variable {D : Type}

/-- The log `BlackboxOptions::open` opens in a directory in the state `D`, where `openLog` is
    `OpenOptions::open` (with the sizes of the options and the indexes of `indexes`, creating the
    log when it is missing) and `removeDirAll` is `fs::remove_dir_all`, each with the state it
    leaves: when the opening fails, the directory is removed and the log opened once more, and
    an error of either is the error of `open`. -/
def openLogOrRecreate (openLog : D → Except String L × D)
    (removeDirAll : D → Except String Unit × D) (dir : D) : Except String L :=
  match openLog dir with
  | (.ok log, _) => .ok log
  | (.error _, dir) =>
    match removeDirAll dir with
    | (.ok (), dir) => (openLog dir).1
    | (.error e, _) => .error e

/-- `BlackboxOptions::open`: the blackbox over the log of `openLogOrRecreate`, not broken, with
    the process id `pid` as its first guess of a session id, after `refresh_session_id`
    (`none` when the draws run out first, as in `refreshSessionId`). The options it keeps in the
    field `opts` are read by nothing modelled here. -/
def openBlackbox (openLog : D → Except String L × D) (removeDirAll : D → Except String Unit × D)
    (lookup : L → Lookup) (pid : UInt32) (draws : List UInt32) (dir : D) :
    Except String (Option (Blackbox L)) :=
  (openLogOrRecreate openLog removeDirAll dir).map fun log =>
    refreshSessionId lookup draws ⟨log, pid, false⟩

/-- A blackbox that `open` returns is not broken, and its session id, the process id or one of
    the draws, is not in use in its log. -/
theorem openBlackbox_eq_some {openLog : D → Except String L × D}
    {removeDirAll : D → Except String Unit × D} {lookup : L → Lookup} {pid : UInt32}
    {draws : List UInt32} {dir : D} {b : Blackbox L}
    (h : openBlackbox openLog removeDirAll lookup pid draws dir = .ok (some b)) :
    b.isBroken = false ∧ b.sessionId ∈ pid :: draws ∧
      !sessionInUse (lookup b.rotateLog) b.sessionId := by
  rcases hlog : openLogOrRecreate openLog removeDirAll dir with e | log
  · rw [openBlackbox, hlog] at h
    cases h
  · rw [openBlackbox, hlog] at h
    obtain ⟨hb, hmem, hfree⟩ := refreshSessionId_eq_some (Except.ok.inj h)
    rw [hb]
    exact ⟨rfl, hmem, hfree⟩

/-- Where lookups read the logs, a blackbox that `open` returns is not broken, and its session
    id, the process id or one of the draws, is the session of no entry of its log that
    decodes, whether the log opened at once or after the directory was removed. -/
theorem openBlackbox_fresh {openLog : D → Except String L × D}
    {removeDirAll : D → Except String Unit × D} {lookup : L → Lookup}
    {entries : L → List (List UInt8)} (hreads : ∀ l, SessionLookupReads (entries l) (lookup l))
    {pid : UInt32} {draws : List UInt32} {dir : D} {b : Blackbox L}
    (h : openBlackbox openLog removeDirAll lookup pid draws dir = .ok (some b)) :
    b.isBroken = false ∧ b.sessionId ∈ pid :: draws ∧
      ∀ bytes ∈ entries b.rotateLog, ∀ (cbor : Cbor T) (entry : Entry T),
        Entry.fromSlice cbor bytes = some entry → entry.sessionId ≠ b.sessionId := by
  obtain ⟨hbroken, hmem, hfree⟩ := openBlackbox_eq_some h
  exact ⟨hbroken, hmem, fun _ hbytes _ _ => sessionId_ne_of_not_inUse (hreads _) hfree hbytes⟩

/-- A directory whose metadata is corrupt (`true`), until it is removed, over a log of the
    sample entries. -/
def corruptOpen : Bool → Except String (List (List UInt8)) × Bool
  | true => (.error "corrupt metadata", true)
  | false => (.ok sampleEntries, false)

theorem openBlackbox_fresh_corrupt :
    (∀ l, SessionLookupReads l (lookupOf l)) ∧
      openBlackbox corruptOpen (fun _ => (.ok (), false)) lookupOf 42 [42, 9] true =
        .ok (some ⟨sampleEntries, 9, false⟩) ∧
      false = false ∧ (9 : UInt32) ∈ [42, 42, 9] ∧ ∀ bytes ∈ sampleEntries, ∀ (cbor : Cbor UInt8)
        (entry : Entry UInt8), Entry.fromSlice cbor bytes = some entry → entry.sessionId ≠ 9 :=
  have h : openBlackbox corruptOpen (fun _ => (.ok (), false)) lookupOf 42 [42, 9] true =
      .ok (some ⟨sampleEntries, 9, false⟩) := rfl
  ⟨lookupOf_reads, h, openBlackbox_fresh lookupOf_reads h⟩

end Opening

/-! ## What is logged is found -/

end Eden.Blackbox
