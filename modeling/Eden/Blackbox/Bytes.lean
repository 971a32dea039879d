import Mathlib

/-!
# Big-endian keys

The header of a blackbox entry and the keys of its indexes are big-endian integers, the
timestamp in 8 bytes and the session id in 4 (`u64_to_slice`, `u32_to_slice`, and
`read_u64::<BigEndian>`, `read_u32::<BigEndian>` to read them back). Big-endian makes the
range queries of the indexes work: keys of one width compare, byte by byte, as the integers
they encode.

* `ofBE_toBE`: reading back `w` big-endian bytes of `n` gives `n` modulo `256 ^ w`, and
  `toBE_ofBE`: writing back what some bytes encode gives the bytes;
* `toBE_lt_toBE_iff`: below `256 ^ w`, the bytes compare as the integers do.
-/

namespace Eden.Blackbox

/-- The `w` big-endian bytes of `n`, most significant first; bits above `8 * w` dropped. -/
def toBE : ℕ → ℕ → List UInt8
  | 0, _ => []
  | w + 1, n => UInt8.ofNat (n / 256 ^ w) :: toBE w n

/-- The integer with the given big-endian bytes. -/
def ofBE : List UInt8 → ℕ
  | [] => 0
  | b :: bs => b.toNat * 256 ^ bs.length + ofBE bs

@[simp] theorem length_toBE (w n : ℕ) : (toBE w n).length = w := by
  induction w <;> simp [toBE, *]

theorem ofBE_lt (bs : List UInt8) : ofBE bs < 256 ^ bs.length := by
  induction bs with
  | nil => simp [ofBE]
  | cons b bs ih =>
    have hb : b.toNat < 256 := b.toNat_lt
    calc ofBE (b :: bs) = b.toNat * 256 ^ bs.length + ofBE bs := rfl
      _ < b.toNat * 256 ^ bs.length + 256 ^ bs.length := by omega
      _ = (b.toNat + 1) * 256 ^ bs.length := by ring
      _ ≤ 256 * 256 ^ bs.length := Nat.mul_le_mul_right _ hb
      _ = 256 ^ (b :: bs).length := by simp [pow_succ, mul_comm]

theorem ofBE_toBE (w n : ℕ) : ofBE (toBE w n) = n % 256 ^ w := by
  induction w with
  | zero => simp [toBE, ofBE, Nat.mod_one]
  | succ w ih =>
    have hdigit : (UInt8.ofNat (n / 256 ^ w)).toNat = n / 256 ^ w % 256 := by
      simp [UInt8.toNat, UInt8.ofNat]
    rw [toBE, ofBE, length_toBE, ih, hdigit, Nat.mod_pow_succ]
    ring

/-- Adding a multiple of `256 ^ w` leaves the `w` low bytes as they were. -/
theorem toBE_add_mul (w n k : ℕ) : toBE w (n + k * 256 ^ w) = toBE w n := by
  induction w generalizing k with
  | zero => rfl
  | succ w ih =>
    have hdigit :
        UInt8.ofNat ((n + k * 256 * 256 ^ w) / 256 ^ w) = UInt8.ofNat (n / 256 ^ w) := by
      rw [Nat.add_mul_div_right _ _ (pow_pos (by norm_num) _)]
      apply UInt8.toNat.inj
      simp [UInt8.toNat, UInt8.ofNat, Nat.add_mul_mod_self_right]
    rw [toBE, toBE, pow_succ', ← mul_assoc, hdigit, ih]

/-- Writing back the integer some bytes encode gives the bytes. -/
theorem toBE_ofBE (bs : List UInt8) : toBE bs.length (ofBE bs) = bs := by
  induction bs with
  | nil => rfl
  | cons b bs ih =>
    rw [List.length_cons, toBE, ofBE, add_comm, toBE_add_mul, ih,
      Nat.add_mul_div_right _ _ (pow_pos (by norm_num) _), Nat.div_eq_of_lt (ofBE_lt bs), zero_add]
    congr
    exact UInt8.toNat.inj (by simp [UInt8.toNat, UInt8.ofNat, Nat.mod_eq_of_lt b.toNat_lt])

/-- Two digits and what follows them, below the weight `m` of the digits, compare as the
    digits, then as what follows. -/
theorem digit_lt_digit_iff {d₁ d₂ x₁ x₂ m : ℕ} (h₁ : x₁ < m) (h₂ : x₂ < m) :
    d₁ * m + x₁ < d₂ * m + x₂ ↔ d₁ < d₂ ∨ d₁ = d₂ ∧ x₁ < x₂ := by
  constructor
  · intro h
    rcases lt_trichotomy d₁ d₂ with hd | rfl | hd
    · exact .inl hd
    · exact .inr ⟨rfl, by omega⟩
    · have : (d₂ + 1) * m ≤ d₁ * m := Nat.mul_le_mul_right _ hd
      nlinarith
  · rintro (hd | ⟨rfl, hx⟩)
    · have : (d₁ + 1) * m ≤ d₂ * m := Nat.mul_le_mul_right _ hd
      nlinarith
    · omega

/-- The lexicographic order of byte lists, at their first bytes. -/
theorem cons_lt_cons_iff {a b : UInt8} {as bs : List UInt8} :
    a :: as < b :: bs ↔ a < b ∨ a = b ∧ as < bs := by
  constructor
  · intro h
    cases h with
    | cons h => exact .inr ⟨rfl, h⟩
    | rel h => exact .inl h
  · rintro (h | ⟨rfl, h⟩)
    · exact .rel h
    · exact .cons h

/-- The order of byte lists is decided byte by byte. -/
instance decidableLtBytes (a b : List UInt8) : Decidable (a < b) :=
  List.Lex.decidableRel (· < ·) a b

/-- Byte lists of one length compare as the integers they encode. -/
theorem lt_iff_ofBE_lt {l₁ l₂ : List UInt8} (h : l₁.length = l₂.length) :
    l₁ < l₂ ↔ ofBE l₁ < ofBE l₂ := by
  induction l₁ generalizing l₂ with
  | nil =>
    cases l₂ with
    | nil => exact iff_of_false (List.Lex.not_nil_right _ _) (lt_irrefl _)
    | cons => cases h
  | cons a as ih =>
    cases l₂ with
    | nil => cases h
    | cons b bs =>
      simp only [List.length_cons, add_left_inj] at h
      rw [cons_lt_cons_iff, ofBE, ofBE, h, digit_lt_digit_iff (h ▸ ofBE_lt as) (ofBE_lt bs),
        ih h, UInt8.ext_iff]
      rfl

/-- Below `256 ^ w`, the big-endian keys of width `w` compare as the integers. -/
theorem toBE_lt_toBE_iff {w a b : ℕ} (ha : a < 256 ^ w) (hb : b < 256 ^ w) :
    toBE w a < toBE w b ↔ a < b := by
  rw [lt_iff_ofBE_lt (by simp), ofBE_toBE, ofBE_toBE, Nat.mod_eq_of_lt ha, Nat.mod_eq_of_lt hb]

end Eden.Blackbox
