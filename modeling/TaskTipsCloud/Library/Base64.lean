import Mathlib

/-!
# Base64

The encoding of bytes in an alphabet of sixty-four characters, without padding. Three bytes are
written as four characters, and one or two bytes at the end as two or three. The decoder accepts
just what the encoder writes: the bits that the last character has left over must be zero.
-/

namespace TaskTipsCloud

namespace Base64

/-- An alphabet of sixty-four characters. -/
structure Alphabet where
  chars : List Char
  length_chars : chars.length = 64
  nodup : chars.Nodup

/-- The alphabet that is safe in the text of an address. -/
def urlSafe : Alphabet where
  chars := "ABCDEFGHIJKLMNOPQRSTUVWXYZabcdefghijklmnopqrstuvwxyz0123456789-_".toList
  length_chars := by decide
  nodup := by decide +kernel

variable (a : Alphabet)

/-- The character of a group of six bits. -/
def Alphabet.char (n : ℕ) : Char := a.chars.getD n 'A'

/-- The group of six bits of a character. -/
def Alphabet.value (c : Char) : Option ℕ :=
  if a.chars.idxOf c < 64 then some (a.chars.idxOf c) else none

/-- The characters of bytes. -/
def encode : List UInt8 → List Char
  | [] => []
  | [x] =>
    let n := x.toNat * 16
    [a.char (n / 64), a.char (n % 64)]
  | [x, y] =>
    let n := (x.toNat * 256 + y.toNat) * 4
    [a.char (n / 4096), a.char (n / 64 % 64), a.char (n % 64)]
  | x :: y :: z :: rest =>
    let n := (x.toNat * 256 + y.toNat) * 256 + z.toNat
    a.char (n / 262144) :: a.char (n / 4096 % 64) :: a.char (n / 64 % 64) :: a.char (n % 64) ::
      encode rest

/-- The bytes of characters. -/
def decode : List Char → Option (List UInt8)
  | [] => some []
  | [_] => none
  | [c, d] => do
    let n := (← a.value c) * 64 + (← a.value d)
    if n % 16 = 0 then some [UInt8.ofNat (n / 16)] else none
  | [c, d, e] => do
    let n := ((← a.value c) * 64 + (← a.value d)) * 64 + (← a.value e)
    if n % 4 = 0 then some [UInt8.ofNat (n / 1024), UInt8.ofNat (n / 4)] else none
  | c :: d :: e :: f :: rest => do
    let n := (((← a.value c) * 64 + (← a.value d)) * 64 + (← a.value e)) * 64 + (← a.value f)
    let bytes ← decode rest
    some (UInt8.ofNat (n / 65536) :: UInt8.ofNat (n / 256) :: UInt8.ofNat n :: bytes)

variable {a}

/-! ## Characters -/

/-- A character of the alphabet has its value. -/
theorem Alphabet.value_char {n : ℕ} (h : n < 64) : a.value (a.char n) = some n := by
  have hn : n < a.chars.length := by rw [a.length_chars]; exact h
  have hchar : a.char n = a.chars[n] := by
    rw [Alphabet.char, List.getD_eq_getElem?_getD, List.getElem?_eq_getElem hn, Option.getD_some]
  have hidx : a.chars.idxOf a.chars[n] = n := a.nodup.idxOf_getElem n hn
  rw [Alphabet.value, hchar, hidx, if_pos h]

/-- The value of a character is below 64 and gives it back. -/
theorem Alphabet.char_of_value {c : Char} {n : ℕ} (h : a.value c = some n) :
    n < 64 ∧ a.char n = c := by
  unfold Alphabet.value at h
  split at h
  · next hlt =>
    cases h
    have hn : a.chars.idxOf c < a.chars.length := by rw [a.length_chars]; exact hlt
    refine ⟨hlt, ?_⟩
    rw [Alphabet.char, List.getD_eq_getElem?_getD, List.getElem?_eq_getElem hn, Option.getD_some]
    exact List.getElem_idxOf hn
  · cases h

/-- The alphabet has its characters. -/
theorem Alphabet.char_mem (n : ℕ) (h : n < 64) : a.char n ∈ a.chars := by
  have hn : n < a.chars.length := by rw [a.length_chars]; exact h
  rw [Alphabet.char, List.getD_eq_getElem?_getD, List.getElem?_eq_getElem hn, Option.getD_some]
  exact List.getElem_mem hn

/-! ## Round trips -/

/-- What is encoded is decoded. -/
theorem decode_encode (bytes : List UInt8) : decode a (encode a bytes) = some bytes := by
  induction bytes using encode.induct with
  | case1 => rfl
  | case2 x =>
    have hx := x.toNat_lt
    have hjoin : x.toNat * 16 / 64 * 64 + x.toNat * 16 % 64 = x.toNat * 16 := by omega
    have hzero : x.toNat * 16 % 16 = 0 := by omega
    have hbyte : x.toNat * 16 / 16 = x.toNat := by omega
    simp only [encode, decode]
    rw [Alphabet.value_char (by omega), Alphabet.value_char (by omega)]
    simp [hjoin, hzero, hbyte]
  | case3 x y =>
    have hx := x.toNat_lt
    have hy := y.toNat_lt
    simp only [encode, decode]
    generalize hn : (x.toNat * 256 + y.toNat) * 4 = n
    have hjoin : (n / 4096 * 64 + n / 64 % 64) * 64 + n % 64 = n := by omega
    have hzero : n % 4 = 0 := by omega
    have hfirst : UInt8.ofNat (n / 1024) = x := by
      rw [show n / 1024 = x.toNat by omega, UInt8.ofNat_toNat]
    have hsecond : UInt8.ofNat (n / 4) = y := by
      rw [← UInt8.toNat_inj, UInt8.toNat_ofNat']
      omega
    rw [Alphabet.value_char (by omega), Alphabet.value_char (by omega),
      Alphabet.value_char (by omega)]
    simp [hjoin, hzero, hfirst, hsecond]
  | case4 x y z rest ih =>
    have hx := x.toNat_lt
    have hy := y.toNat_lt
    have hz := z.toNat_lt
    simp only [encode, decode]
    generalize hn : (x.toNat * 256 + y.toNat) * 256 + z.toNat = n
    have hjoin : ((n / 262144 * 64 + n / 4096 % 64) * 64 + n / 64 % 64) * 64 + n % 64 = n := by
      omega
    have hfirst : UInt8.ofNat (n / 65536) = x := by
      rw [show n / 65536 = x.toNat by omega, UInt8.ofNat_toNat]
    have hsecond : UInt8.ofNat (n / 256) = y := by
      rw [← UInt8.toNat_inj, UInt8.toNat_ofNat']
      omega
    have hthird : UInt8.ofNat n = z := by
      rw [← UInt8.toNat_inj, UInt8.toNat_ofNat']
      omega
    rw [Alphabet.value_char (by omega), Alphabet.value_char (by omega),
      Alphabet.value_char (by omega), Alphabet.value_char (by omega), ih]
    simp only [Option.bind_eq_bind, Option.bind_some, hjoin, hfirst, hsecond, hthird]

/-- What is decoded is what is encoded. -/
theorem encode_of_decode {cs : List Char} {bytes : List UInt8} (h : decode a cs = some bytes) :
    encode a bytes = cs := by
  induction cs using decode.induct generalizing bytes with
  | case1 => cases h; rfl
  | case2 c => cases h
  | case3 c d =>
    simp only [decode, Option.bind_eq_bind, Option.bind_eq_some_iff] at h
    obtain ⟨i, hi, j, hj, h⟩ := h
    obtain ⟨hilt, rfl⟩ := Alphabet.char_of_value hi
    obtain ⟨hjlt, rfl⟩ := Alphabet.char_of_value hj
    split at h
    · next hzero =>
      cases h
      have hn : (UInt8.ofNat ((i * 64 + j) / 16)).toNat * 16 = i * 64 + j := by
        rw [UInt8.toNat_ofNat']
        omega
      simp only [encode, hn]
      rw [show (i * 64 + j) / 64 = i by omega, show (i * 64 + j) % 64 = j by omega]
    · cases h
  | case4 c d e =>
    simp only [decode, Option.bind_eq_bind, Option.bind_eq_some_iff] at h
    obtain ⟨i, hi, j, hj, k, hk, h⟩ := h
    obtain ⟨hilt, rfl⟩ := Alphabet.char_of_value hi
    obtain ⟨hjlt, rfl⟩ := Alphabet.char_of_value hj
    obtain ⟨hklt, rfl⟩ := Alphabet.char_of_value hk
    split at h
    · next hzero =>
      cases h
      generalize hm : (i * 64 + j) * 64 + k = m at hzero
      have hn : ((UInt8.ofNat (m / 1024)).toNat * 256 + (UInt8.ofNat (m / 4)).toNat) * 4 = m := by
        rw [UInt8.toNat_ofNat', UInt8.toNat_ofNat']
        omega
      simp only [encode, hn]
      rw [show m / 4096 = i by omega, show m / 64 % 64 = j by omega, show m % 64 = k by omega]
    · cases h
  | case5 c d e f rest ih =>
    simp only [decode, Option.bind_eq_bind, Option.bind_eq_some_iff, Option.some.injEq] at h
    obtain ⟨i, hi, j, hj, k, hk, l, hl, bytes, hrest, rfl⟩ := h
    obtain ⟨hilt, rfl⟩ := Alphabet.char_of_value hi
    obtain ⟨hjlt, rfl⟩ := Alphabet.char_of_value hj
    obtain ⟨hklt, rfl⟩ := Alphabet.char_of_value hk
    obtain ⟨hllt, rfl⟩ := Alphabet.char_of_value hl
    generalize hm : ((i * 64 + j) * 64 + k) * 64 + l = m
    have hn : ((UInt8.ofNat (m / 65536)).toNat * 256 + (UInt8.ofNat (m / 256)).toNat) * 256 +
        (UInt8.ofNat m).toNat = m := by
      rw [UInt8.toNat_ofNat', UInt8.toNat_ofNat', UInt8.toNat_ofNat']
      omega
    simp only [encode, hn, ih hrest]
    rw [show m / 262144 = i by omega, show m / 4096 % 64 = j by omega,
      show m / 64 % 64 = k by omega, show m % 64 = l by omega]

/-- The characters of an encoding are those of the alphabet. -/
theorem mem_encode {bytes : List UInt8} {c : Char} (h : c ∈ encode a bytes) : c ∈ a.chars := by
  induction bytes using encode.induct with
  | case1 => simp [encode] at h
  | case2 x =>
    have hx := x.toNat_lt
    simp only [encode, List.mem_cons, List.not_mem_nil, or_false] at h
    rcases h with rfl | rfl <;> exact a.char_mem _ (by omega)
  | case3 x y =>
    have hx := x.toNat_lt
    have hy := y.toNat_lt
    simp only [encode, List.mem_cons, List.not_mem_nil, or_false] at h
    rcases h with rfl | rfl | rfl <;> exact a.char_mem _ (by omega)
  | case4 x y z rest ih =>
    have hx := x.toNat_lt
    have hy := y.toNat_lt
    have hz := z.toNat_lt
    simp only [encode, List.mem_cons] at h
    rcases h with rfl | rfl | rfl | rfl | h
    · exact a.char_mem _ (by omega)
    · exact a.char_mem _ (by omega)
    · exact a.char_mem _ (by omega)
    · exact a.char_mem _ (by omega)
    · exact ih h

end Base64

end TaskTipsCloud
