import Eden.Blackbox.Entry

/-!
# Logging

`Blackbox::log` serializes an entry, appends it to the `RotateLog` and syncs it. When the
sync fails it rotates the log and tries once more; when that fails too it marks the blackbox
broken, and a broken blackbox ignores every later write. The disk decides each outcome, so a
`RotateLog` here is any function from a call and the state of the log to its outcome and the
state after it (`RotateLog`), and every theorem holds for all of them.

Each `append` is followed by `unwrap`: a failed append panics (`none`), where the
documentation says `log` "will simply give up" (`log_append_error`). The time of a call is a
`SystemTime` at or after `UNIX_EPOCH`, the domain of the model: on an earlier time
`time_to_u64` panics, and where a theorem here says that `log` returns, it is at such a time.

* `log_step`: when appends succeed, one call of `log` returns, does nothing on a broken
  blackbox, and leaves the entry appended and synced by its last two calls, or the blackbox
  broken;
* `logAll_synced_or_broken`: over any run of `log` calls, when appends succeed, the run
  returns and leaves the entry of its last call synced by its last two calls on the log, or
  the blackbox broken.
-/

namespace Eden.Blackbox

/-- The calls `Blackbox::log` makes on its `RotateLog`. -/
inductive Call where
  | append (buf : List UInt8)
  | sync
  | forceRotate
  deriving DecidableEq

/-- A `RotateLog` as the blackbox uses it: a call, in a state `L` of the log, succeeds or
    fails (`Fallible<()>`) and leaves the log in a new state. -/
structure RotateLog (L : Type) where
  run : Call → L → Except String Unit × L

/-- The calls made on the log, in order, with their outcomes. -/
abbrev Trace := List (Call × Except String Unit)

end Eden.Blackbox

namespace Eden

/-- `Blackbox`: the log (the field `log`), the session id and `is_broken` (`opts` is not read
    by `log`). Its methods are the declarations of `Eden.Blackbox`. -/
structure Blackbox (L : Type) where
  rotateLog : L
  sessionId : UInt32
  isBroken : Bool

end Eden

namespace Eden.Blackbox

variable {L T : Type}

namespace RotateLog

/-- A call on the log, recorded in the trace. -/
def call (rotate : RotateLog L) (c : Call) (s : L × Trace) : Except String Unit × L × Trace :=
  ((rotate.run c s.1).1, (rotate.run c s.1).2, s.2 ++ [(c, (rotate.run c s.1).1)])

/-- `self.log.append(&buf).unwrap()`, then `self.log.sync()`: `none` when the append fails,
    else the outcome of the sync. -/
def appendSync (rotate : RotateLog L) (buf : List UInt8) (s : L × Trace) :
    Option (Except String Unit × L × Trace) :=
  match rotate.call (.append buf) s with
  | (.error _, _) => none
  | (.ok _, s₁) => some (rotate.call .sync s₁)

end RotateLog

/-- `Blackbox::log`, at the time `now`, at or after `UNIX_EPOCH`: the blackbox after it and the
    calls it made on the log, or `none` when it panics. -/
def log (rotate : RotateLog L) (cbor : Cbor T) (data : T) (now : SystemTime) (b : Blackbox L) :
    Option (Blackbox L × Trace) :=
  if b.isBroken then some (b, []) else
  match Entry.toVec cbor data now b.sessionId with
  | none => some (b, [])
  | some buf =>
    match rotate.appendSync buf (b.rotateLog, []) with
    | none => none
    | some (.ok _, l₂, tr₂) => some ({ b with rotateLog := l₂ }, tr₂)
    | some (.error _, s₂) =>
      -- Not fatal. Try rotate the log.
      match rotate.call .forceRotate s₂ with
      | (.error _, l₃, tr₃) => some ({ b with rotateLog := l₃, isBroken := true }, tr₃)
      | (.ok _, s₃) =>
        -- `force_rotate` might drop the data. Append again.
        match rotate.appendSync buf s₃ with
        | none => none
        | some (.ok _, l₅, tr₅) => some ({ b with rotateLog := l₅ }, tr₅)
        | some (.error _, l₅, tr₅) => some ({ b with rotateLog := l₅, isBroken := true }, tr₅)

/-- Calls of `log` one after another, stopping at a panic. -/
def logAll (rotate : RotateLog L) (cbor : Cbor T) :
    List (T × SystemTime) → Blackbox L → Option (Blackbox L × Trace)
  | [], b => some (b, [])
  | (data, now) :: events, b =>
    (b.log rotate cbor data now).bind fun (b₁, tr₁) =>
      (logAll rotate cbor events b₁).map fun (b₂, tr₂) => (b₂, tr₁ ++ tr₂)

/-- The last two calls appended `buf` and synced it, both successfully. -/
def EndsSynced (buf : List UInt8) (tr : Trace) : Prop :=
  ∃ pre, tr = pre ++ [(.append buf, .ok ()), (.sync, .ok ())]

namespace RotateLog

variable {rotate : RotateLog L} {buf : List UInt8}

/-- `appendSync` returns only when the append succeeded; it returns the outcome of the sync
    and the log after it, and the append and the sync are the last two calls of the trace. -/
theorem appendSync_eq_some {s : L × Trace} {r : Except String Unit} {l : L} {tr : Trace}
    (h : rotate.appendSync buf s = some (r, l, tr)) :
    (rotate.run (.append buf) s.1).1 = .ok () ∧
      rotate.run .sync (rotate.run (.append buf) s.1).2 = (r, l) ∧
      tr = s.2 ++ [(.append buf, .ok ()), (.sync, r)] := by
  rcases happend : (rotate.run (.append buf) s.1).1 with e | _
  · simp [appendSync, call, happend] at h
  · simp only [appendSync, call, happend, Option.some.injEq, Prod.mk.injEq] at h
    obtain ⟨rfl, rfl, rfl⟩ := h
    simp

theorem appendSync_ne_none (happend : ∀ l, (rotate.run (.append buf) l).1 = .ok ())
    (s : L × Trace) : rotate.appendSync buf s ≠ none := by
  simp [appendSync, call, happend]

theorem appendSync_of_append_error (s : L × Trace) {e : String}
    (h : (rotate.run (.append buf) s.1).1 = .error e) : rotate.appendSync buf s = none := by
  simp only [appendSync, call, h]

end RotateLog

variable (rotate : RotateLog L) (cbor : Cbor T)

@[simp] theorem log_of_broken {data : T} {now : SystemTime} {b : Blackbox L}
    (hb : b.isBroken = true) : log rotate cbor data now b = some (b, []) := by
  simp [log, hb]

/-- A failed first append panics, on a blackbox that is not broken, for data that
    serializes. -/
theorem log_append_error {data : T} {now : SystemTime} {b : Blackbox L} {buf : List UInt8}
    {e : String} (hb : b.isBroken = false)
    (hbuf : Entry.toVec cbor data now b.sessionId = some buf)
    (happend : (rotate.run (.append buf) b.rotateLog).1 = .error e) :
    log rotate cbor data now b = none := by
  simp only [log, hb, hbuf, RotateLog.appendSync_of_append_error (b.rotateLog, []) happend]
  rfl

/-- A disk on which every write fails. -/
def fullDisk : RotateLog Unit := ⟨fun _ l => (.error "No space left on device", l)⟩

theorem log_append_error_fullDisk :
    (⟨(), 42, false⟩ : Blackbox Unit).isBroken = false ∧
      Entry.toVec Entry.smallIntCbor 7 ⟨0⟩ 42 = some (u64ToSlice (timeToU64 ⟨0⟩) ++ u32ToSlice 42 ++ [7]) ∧
      (fullDisk.run (.append (u64ToSlice (timeToU64 ⟨0⟩) ++ u32ToSlice 42 ++ [7])) ()).1 =
        .error "No space left on device" ∧
      log fullDisk Entry.smallIntCbor 7 ⟨0⟩ ⟨(), 42, false⟩ = none :=
  have hb : (⟨(), 42, false⟩ : Blackbox Unit).isBroken = false := rfl
  have hbuf : Entry.toVec Entry.smallIntCbor 7 ⟨0⟩ 42 =
      some (u64ToSlice (timeToU64 ⟨0⟩) ++ u32ToSlice 42 ++ [7]) := rfl
  have happend : (fullDisk.run (.append (u64ToSlice (timeToU64 ⟨0⟩) ++ u32ToSlice 42 ++ [7]))
      ()).1 =
      .error "No space left on device" := rfl
  ⟨hb, hbuf, happend, log_append_error fullDisk Entry.smallIntCbor hb hbuf happend⟩

section Appends

variable {rotate} (happend : ∀ buf l, (rotate.run (.append buf) l).1 = .ok ())
include happend

/-- When appends succeed, `log` on a blackbox that is not broken returns: the entry appended
    and synced by the last two calls, or the blackbox broken; the session id kept. -/
theorem log_synced_or_broken {data : T} {now : SystemTime} {b : Blackbox L} {buf : List UInt8}
    (hb : b.isBroken = false) (hbuf : Entry.toVec cbor data now b.sessionId = some buf) :
    ∃ b' tr, log rotate cbor data now b = some (b', tr) ∧ b'.sessionId = b.sessionId ∧
      (EndsSynced buf tr ∨ b'.isBroken = true) := by
  simp only [log, hb, hbuf, Bool.false_eq_true, if_false]
  split
  next h => exact absurd h (RotateLog.appendSync_ne_none (happend buf) _)
  next h => exact ⟨_, _, rfl, rfl, .inl ⟨[], (RotateLog.appendSync_eq_some h).2.2⟩⟩
  next =>
    split
    next => exact ⟨_, _, rfl, rfl, .inr rfl⟩
    next =>
      split
      next h => exact absurd h (RotateLog.appendSync_ne_none (happend buf) _)
      next h => exact ⟨_, _, rfl, rfl, .inl ⟨_, (RotateLog.appendSync_eq_some h).2.2⟩⟩
      next => exact ⟨_, _, rfl, rfl, .inr rfl⟩

/-- One call of `log`, when appends succeed, at any time of `SystemTime` (at or after the
    epoch): it returns, keeps the session id, does nothing on a broken blackbox, and leaves an
    entry that serializes synced or the blackbox broken. -/
theorem log_step (data : T) (now : SystemTime) (b : Blackbox L) :
    ∃ b' tr, log rotate cbor data now b = some (b', tr) ∧ b'.sessionId = b.sessionId ∧
      (b.isBroken = true → b' = b ∧ tr = []) ∧
      ∀ buf, Entry.toVec cbor data now b.sessionId = some buf →
        EndsSynced buf tr ∨ b'.isBroken = true := by
  cases hb : b.isBroken with
  | true => exact ⟨b, [], log_of_broken rotate cbor hb, rfl, fun _ => ⟨rfl, rfl⟩, fun _ _ => .inr hb⟩
  | false =>
    rcases hbuf : Entry.toVec cbor data now b.sessionId with _ | buf
    · exact ⟨b, [], by simp [log, hb, hbuf], rfl, nofun, nofun⟩
    · obtain ⟨b', tr, h, hs, hend⟩ := log_synced_or_broken cbor happend hb hbuf
      exact ⟨b', tr, h, hs, nofun, fun _ h' => Option.some.inj h' ▸ hend⟩

/-- When appends succeed, a run of `log` calls (at times at or after the epoch) ending in data
    that serializes returns, and leaves its entry appended and synced by the last two calls, or
    the blackbox broken. -/
theorem logAll_synced_or_broken (events : List (T × SystemTime)) (data : T) (now : SystemTime)
    (b : Blackbox L) {buf : List UInt8} (hbuf : Entry.toVec cbor data now b.sessionId = some buf) :
    ∃ b' tr, logAll rotate cbor (events ++ [(data, now)]) b = some (b', tr) ∧
      (EndsSynced buf tr ∨ b'.isBroken = true) := by
  induction events generalizing b with
  | nil =>
    obtain ⟨b', tr, h, -, -, hend⟩ := log_step cbor happend data now b
    exact ⟨b', tr, by simp [logAll, h], hend buf hbuf⟩
  | cons e events ih =>
    obtain ⟨b₁, tr₁, h₁, hs, -⟩ := log_step cbor happend e.1 e.2 b
    obtain ⟨b', tr, h, hend⟩ := ih b₁ (hs ▸ hbuf)
    refine ⟨b', tr₁ ++ tr, by simp [logAll, h₁, h], ?_⟩
    rcases hend with ⟨pre, rfl⟩ | hbroken
    · exact .inl ⟨tr₁ ++ pre, by simp⟩
    · exact .inr hbroken

end Appends

/-- A log kept in memory, on which every call succeeds; `force_rotate` starts a new log. -/
def memoryLog : RotateLog (List (List UInt8)) :=
  ⟨fun
    | .append buf, l => (.ok (), l ++ [buf])
    | .sync, l => (.ok (), l)
    | .forceRotate, _ => (.ok (), [])⟩

theorem memoryLog_append (buf : List UInt8) (l : List (List UInt8)) :
    (memoryLog.run (.append buf) l).1 = .ok () := rfl

theorem logAll_synced_or_broken_memoryLog :
    (∀ buf l, (memoryLog.run (.append buf) l).1 = .ok ()) ∧
      Entry.toVec Entry.smallIntCbor 7 ⟨1000000⟩ 42 =
        some (u64ToSlice (timeToU64 ⟨1000000⟩) ++ u32ToSlice 42 ++ [7]) ∧
      ∃ b' tr, logAll memoryLog Entry.smallIntCbor [(3, ⟨0⟩), (7, ⟨1000000⟩)] ⟨[], 42, false⟩ =
          some (b', tr) ∧
        (EndsSynced (u64ToSlice (timeToU64 ⟨1000000⟩) ++ u32ToSlice 42 ++ [7]) tr ∨
          b'.isBroken = true) :=
  have hbuf : Entry.toVec Entry.smallIntCbor 7 ⟨1000000⟩ 42 =
      some (u64ToSlice (timeToU64 ⟨1000000⟩) ++ u32ToSlice 42 ++ [7]) := rfl
  ⟨memoryLog_append, hbuf,
    logAll_synced_or_broken Entry.smallIntCbor memoryLog_append [(3, ⟨0⟩)] 7 ⟨1000000⟩ _ hbuf⟩

end Eden.Blackbox
