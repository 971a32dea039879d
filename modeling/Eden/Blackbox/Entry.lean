import Eden.Blackbox.Bytes

/-!
# Blackbox entries

An entry of the blackbox log (`blackbox.rs`) is serialized as a 12-byte header, the
milliseconds since the epoch in 8 big-endian bytes and the session id in 4, followed by the
data in CBOR (`Entry::to_vec`); `Entry::from_slice` reads it back.

CBOR is `serde_cbor`, outside these sources: an encoder that may fail and a decoder
(`Cbor`). The times of the model are the `SystemTime`s at or after `UNIX_EPOCH`, in
nanoseconds since it. `time_to_u64` unwraps `duration_since(UNIX_EPOCH)` and panics on an
earlier time, which `SystemTime` here cannot hold: every result about `to_vec`, `log` or a
range of times is about times at or after the epoch.

* `fromSlice_toVec`: reading back what `to_vec` wrote gives the entry of the time and session
  id it was written with, whenever the decoder reads back what the encoder wrote;
* `fromSlice_eq_some_iff`: `from_slice` accepts exactly the bytes of a header followed by a
  payload that decodes.
-/

namespace Eden.Blackbox

/-- A `SystemTime` at or after `UNIX_EPOCH`, in nanoseconds since it. -/
structure SystemTime where
  nanosSinceEpoch : ℕ
  deriving DecidableEq

/-- `time_to_u64`: the milliseconds since the epoch (`as_millis`), cast `as u64`, which keeps
    the low 64 bits. Its panic on a time before the epoch is outside the domain of
    `SystemTime`. -/
def timeToU64 (time : SystemTime) : UInt64 :=
  UInt64.ofNat (time.nanosSinceEpoch / 1000000)

/-- `TIMESTAMP_BYTES` -/
def timestampBytes : ℕ := 8

/-- `SESSION_ID_BYTES` -/
def sessionIdBytes : ℕ := 4

/-- `HEADER_BYTES` -/
def headerBytes : ℕ := timestampBytes + sessionIdBytes

/-- `u64_to_slice`: the big-endian bytes of a `u64`. -/
def u64ToSlice (value : UInt64) : List UInt8 :=
  toBE timestampBytes value.toNat

/-- `u32_to_slice`: the big-endian bytes of a `u32`. -/
def u32ToSlice (value : UInt32) : List UInt8 :=
  toBE sessionIdBytes value.toNat

/-- `Entry`: some data, with the time it was logged and the session that logged it. -/
structure Entry (T : Type) where
  timestamp : UInt64
  sessionId : UInt32
  data : T
  deriving DecidableEq

/-- `serde_cbor` on values of `T`: `toWriter` the bytes of a value, `none` when
    serialization fails, and `fromSlice` the value some bytes decode to, `none` when they do
    not. -/
structure Cbor (T : Type) where
  toWriter : T → Option (List UInt8)
  fromSlice : List UInt8 → Option T

variable {T : Type}

namespace Entry

/-- `Entry::to_vec`: the header, then the data in CBOR; `none` when the data fails to
    serialize. -/
def toVec (cbor : Cbor T) (data : T) (timestamp : SystemTime) (sessionId : UInt32) :
    Option (List UInt8) :=
  (cbor.toWriter data).map fun payload =>
    u64ToSlice (timeToU64 timestamp) ++ u32ToSlice sessionId ++ payload

/-- `Entry::from_slice`: the timestamp and session id of the header, and the data the bytes
    after it decode to; `none` for bytes shorter than a header or data that does not
    decode. -/
def fromSlice (cbor : Cbor T) (bytes : List UInt8) : Option (Entry T) :=
  if headerBytes ≤ bytes.length then
    let timestamp := UInt64.ofNat (ofBE (bytes.take timestampBytes))
    let sessionId := UInt32.ofNat (ofBE ((bytes.drop timestampBytes).take sessionIdBytes))
    (cbor.fromSlice (bytes.drop headerBytes)).map fun data => ⟨timestamp, sessionId, data⟩
  else none

@[simp] theorem length_u64ToSlice (value : UInt64) : (u64ToSlice value).length = 8 :=
  length_toBE _ _

@[simp] theorem length_u32ToSlice (value : UInt32) : (u32ToSlice value).length = 4 :=
  length_toBE _ _

theorem ofBE_u64ToSlice (value : UInt64) : UInt64.ofNat (ofBE (u64ToSlice value)) = value := by
  rw [u64ToSlice, ofBE_toBE, Nat.mod_eq_of_lt (by simpa using value.toNat_lt)]
  exact UInt64.toNat.inj (UInt64.toNat_ofNat_of_lt value.toNat_lt)

theorem u64ToSlice_injective : Function.Injective u64ToSlice := fun a b h => by
  rw [← ofBE_u64ToSlice a, h, ofBE_u64ToSlice]

theorem ofBE_u32ToSlice (value : UInt32) : UInt32.ofNat (ofBE (u32ToSlice value)) = value := by
  rw [u32ToSlice, ofBE_toBE, Nat.mod_eq_of_lt (by simpa using value.toNat_lt)]
  exact UInt32.toNat.inj (UInt32.toNat_ofNat_of_lt value.toNat_lt)

theorem u64ToSlice_ofBE {bytes : List UInt8} (h : bytes.length = timestampBytes) :
    u64ToSlice (UInt64.ofNat (ofBE bytes)) = bytes := by
  have hlt : ofBE bytes < 2 ^ 64 := by simpa [h, timestampBytes] using ofBE_lt bytes
  rw [u64ToSlice, UInt64.toNat_ofNat_of_lt hlt]
  exact h ▸ toBE_ofBE bytes

theorem u32ToSlice_ofBE {bytes : List UInt8} (h : bytes.length = sessionIdBytes) :
    u32ToSlice (UInt32.ofNat (ofBE bytes)) = bytes := by
  have hlt : ofBE bytes < 2 ^ 32 := by simpa [h, sessionIdBytes] using ofBE_lt bytes
  rw [u32ToSlice, UInt32.toNat_ofNat_of_lt hlt]
  exact h ▸ toBE_ofBE bytes

/-- Bytes as long as a header are the header `from_slice` reads, then the rest. -/
theorem header_append_drop {bytes : List UInt8} (h : headerBytes ≤ bytes.length) :
    u64ToSlice (UInt64.ofNat (ofBE (bytes.take timestampBytes))) ++
        u32ToSlice (UInt32.ofNat (ofBE ((bytes.drop timestampBytes).take sessionIdBytes))) ++
        bytes.drop headerBytes = bytes := by
  have h8 : (bytes.take timestampBytes).length = timestampBytes := by
    simp [headerBytes, timestampBytes, sessionIdBytes] at h ⊢; omega
  have h4 : ((bytes.drop timestampBytes).take sessionIdBytes).length = sessionIdBytes := by
    simp [headerBytes, timestampBytes, sessionIdBytes] at h ⊢; omega
  rw [u64ToSlice_ofBE h8, u32ToSlice_ofBE h4, headerBytes, ← List.drop_drop, List.append_assoc,
    List.take_append_drop, List.take_append_drop]

/-- `from_slice` of a header and a payload: the entry of the header, with the data the
    payload decodes to. -/
theorem fromSlice_header (cbor : Cbor T) (timestamp : UInt64) (sessionId : UInt32)
    (payload : List UInt8) :
    fromSlice cbor (u64ToSlice timestamp ++ u32ToSlice sessionId ++ payload) =
      (cbor.fromSlice payload).map fun data => ⟨timestamp, sessionId, data⟩ := by
  have hheader : headerBytes ≤ (u64ToSlice timestamp ++ u32ToSlice sessionId ++ payload).length := by
    simp [headerBytes, timestampBytes, sessionIdBytes]; omega
  have h8 : timestampBytes = (u64ToSlice timestamp).length := by simp [timestampBytes]
  have h4 : sessionIdBytes = (u32ToSlice sessionId).length := by simp [sessionIdBytes]
  have h12 : headerBytes = (u64ToSlice timestamp ++ u32ToSlice sessionId).length := by
    simp [headerBytes, timestampBytes, sessionIdBytes]
  rw [fromSlice, if_pos hheader, List.append_assoc, h8, List.take_left, List.drop_left, h4,
    List.take_left, ← List.append_assoc, h12, List.drop_left, ofBE_u64ToSlice, ofBE_u32ToSlice]

/-- What `to_vec` writes, `from_slice` reads back: the header exactly, and the data from
    exactly the bytes the encoder wrote after it. -/
theorem fromSlice_toVec (cbor : Cbor T) {data : T} {payload : List UInt8}
    (hwrite : cbor.toWriter data = some payload) (hread : cbor.fromSlice payload = some data)
    (timestamp : SystemTime) (sessionId : UInt32) :
    (toVec cbor data timestamp sessionId).bind (fromSlice cbor) =
      some ⟨timeToU64 timestamp, sessionId, data⟩ := by
  rw [toVec, hwrite, Option.map_some', Option.some_bind, fromSlice_header, hread]
  rfl

/-- `from_slice` accepts exactly a header and a payload that decodes: the entry is the one
    of the header, with the data of the payload. -/
theorem fromSlice_eq_some_iff (cbor : Cbor T) (bytes : List UInt8) (entry : Entry T) :
    fromSlice cbor bytes = some entry ↔
      ∃ payload, bytes = u64ToSlice entry.timestamp ++ u32ToSlice entry.sessionId ++ payload ∧
        cbor.fromSlice payload = some entry.data := by
  constructor
  · intro h
    have hlen : headerBytes ≤ bytes.length := by
      by_contra hlt
      simp [fromSlice, hlt] at h
    rw [← header_append_drop hlen, fromSlice_header, Option.map_eq_some'] at h
    obtain ⟨data, hdata, rfl⟩ := h
    exact ⟨_, (header_append_drop hlen).symm, hdata⟩
  · rintro ⟨payload, rfl, hread⟩
    rw [fromSlice_header, hread]
    rfl

/-- CBOR on integers below 24, each one byte (major type 0). -/
def smallIntCbor : Cbor UInt8 :=
  ⟨fun n => if n < 24 then some [n] else none, fun | [n] => if n < 24 then some n else none | _ => none⟩

theorem fromSlice_toVec_smallInt :
    smallIntCbor.toWriter 7 = some [7] ∧ smallIntCbor.fromSlice [7] = some 7 ∧
      (toVec smallIntCbor 7 ⟨1500000⟩ 42).bind (fromSlice smallIntCbor) =
        some ⟨timeToU64 ⟨1500000⟩, 42, 7⟩ :=
  have hwrite : smallIntCbor.toWriter 7 = some [7] := rfl
  have hread : smallIntCbor.fromSlice [7] = some 7 := rfl
  ⟨hwrite, hread, fromSlice_toVec smallIntCbor hwrite hread _ _⟩

end Entry

end Eden.Blackbox
