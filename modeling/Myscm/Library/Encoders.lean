import Myscm.Library.Decoders

/-!
Owns encoders of bytes and numbers, and that the decoders undo them.

Owns: base 64 with padding; the bytes of an ASCII text; that hexadecimal digits tell bytes
apart; octal digits read as decimal ones.

Does not own: percent signs.
-/

namespace Myscm.Library

/-! ## Base 64 -/

namespace Base64

def alphabet : List Char :=
  "ABCDEFGHIJKLMNOPQRSTUVWXYZabcdefghijklmnopqrstuvwxyz0123456789+/".toList

/-- The character of six bits. -/
def digit (n : Nat) : Char := alphabet.getD n '='

/-- `base64.b64encode(b)`. -/
def encode : List UInt8 → Str
  | [] => []
  | [a] => [digit (a.toNat / 4), digit (a.toNat % 4 * 16), '=', '=']
  | [a, b] =>
      [digit (a.toNat / 4), digit (a.toNat % 4 * 16 + b.toNat / 16), digit (b.toNat % 16 * 4), '=']
  | a :: b :: c :: rest =>
      digit (a.toNat / 4) :: digit (a.toNat % 4 * 16 + b.toNat / 16) ::
        digit (b.toNat % 16 * 4 + c.toNat / 64) :: digit (c.toNat % 64) :: encode rest

theorem encode_single (a : UInt8) :
    encode [a] = [digit (a.toNat / 4), digit (a.toNat % 4 * 16), '=', '='] := rfl

theorem encode_pair (a b : UInt8) :
    encode [a, b] =
      [digit (a.toNat / 4), digit (a.toNat % 4 * 16 + b.toNat / 16), digit (b.toNat % 16 * 4),
        '='] := rfl

theorem encode_group (a b c : UInt8) (rest : List UInt8) :
    encode (a :: b :: c :: rest) =
      digit (a.toNat / 4) :: digit (a.toNat % 4 * 16 + b.toNat / 16) ::
        digit (b.toNat % 16 * 4 + c.toNat / 64) :: digit (c.toNat % 64) :: encode rest := rfl

theorem digit_cases : ∀ n < 64,
    value (digit n) = some n ∧ digit n ≠ '=' ∧ (digit n).toNat < 128 := by
  decide +kernel

section Steps

variable {n left pads : Nat} {rest : Str}

/-- A digit is shifted in at each place of a group of four. -/
theorem decodeFrom_digit (place : Nat) (small : n < 64) :
    decodeFrom place left pads (digit n :: rest) =
      match place with
      | 0 => decodeFrom 1 n 0 rest
      | 1 => (decodeFrom 2 (n % 16) 0 rest).map (UInt8.ofNat (left * 4 + n / 16) :: ·)
      | 2 => (decodeFrom 3 (n % 4) 0 rest).map (UInt8.ofNat (left * 16 + n / 4) :: ·)
      | _ => (decodeFrom 0 0 0 rest).map (UInt8.ofNat (left * 64 + n) :: ·) := by
  obtain ⟨isValue, notPad, _⟩ := digit_cases n small
  conv_lhs => unfold decodeFrom
  rw [if_neg notPad, isValue]
  rcases place with _ | _ | _ | _ <;> rfl

theorem decodeFrom_zero (small : n < 64) :
    decodeFrom 0 left pads (digit n :: rest) = decodeFrom 1 n 0 rest :=
  decodeFrom_digit 0 small

theorem decodeFrom_one (small : n < 64) :
    decodeFrom 1 left pads (digit n :: rest) =
      (decodeFrom 2 (n % 16) 0 rest).map (UInt8.ofNat (left * 4 + n / 16) :: ·) :=
  decodeFrom_digit 1 small

theorem decodeFrom_two (small : n < 64) :
    decodeFrom 2 left pads (digit n :: rest) =
      (decodeFrom 3 (n % 4) 0 rest).map (UInt8.ofNat (left * 16 + n / 4) :: ·) :=
  decodeFrom_digit 2 small

theorem decodeFrom_three (small : n < 64) :
    decodeFrom 3 left pads (digit n :: rest) =
      (decodeFrom 0 0 0 rest).map (UInt8.ofNat (left * 64 + n) :: ·) :=
  decodeFrom_digit 3 small

end Steps

theorem ofNat_eq {n : Nat} {b : UInt8} (same : n = b.toNat) : UInt8.ofNat n = b := by
  rw [same]
  exact UInt8.ofNat_toNat

theorem decodeFrom_encode (bytes : List UInt8) : decodeFrom 0 0 0 (encode bytes) = some bytes := by
  induction bytes using encode.induct with
  | case1 => rfl
  | case2 a =>
      have below := a.toNat_lt
      rw [encode_single, decodeFrom_zero (by omega), decodeFrom_one (by omega),
        ofNat_eq (show _ = a.toNat by omega)]
      rfl
  | case3 a b =>
      have below := a.toNat_lt
      have belowB := b.toNat_lt
      rw [encode_pair, decodeFrom_zero (by omega), decodeFrom_one (by omega),
        decodeFrom_two (by omega), ofNat_eq (show _ = a.toNat by omega),
        ofNat_eq (show _ = b.toNat by omega)]
      rfl
  | case4 a b c rest inductionHypothesis =>
      have below := a.toNat_lt
      have belowB := b.toNat_lt
      have belowC := c.toNat_lt
      rw [encode_group, decodeFrom_zero (by omega), decodeFrom_one (by omega),
        decodeFrom_two (by omega), decodeFrom_three (by omega), inductionHypothesis,
        ofNat_eq (show _ = a.toNat by omega), ofNat_eq (show _ = b.toNat by omega),
        ofNat_eq (show _ = c.toNat by omega)]
      rfl

theorem encode_ascii (bytes : List UInt8) : ∀ c ∈ encode bytes, c.toNat < 128 := by
  have isPad : ('=' : Char).toNat < 128 := by decide
  have isDigit : ∀ n, n < 64 → (digit n).toNat < 128 := fun n small => (digit_cases n small).2.2
  induction bytes using encode.induct with
  | case1 =>
      intro c member
      cases member
  | case2 a =>
      have below := a.toNat_lt
      simp only [encode_single, List.forall_mem_cons]
      exact ⟨isDigit _ (by omega), isDigit _ (by omega), isPad, isPad, by simp⟩
  | case3 a b =>
      have below := a.toNat_lt
      have belowB := b.toNat_lt
      simp only [encode_pair, List.forall_mem_cons]
      exact ⟨isDigit _ (by omega), isDigit _ (by omega), isDigit _ (by omega), isPad, by simp⟩
  | case4 a b c rest inductionHypothesis =>
      have below := a.toNat_lt
      have belowB := b.toNat_lt
      have belowC := c.toNat_lt
      simp only [encode_group, List.forall_mem_cons]
      exact ⟨isDigit _ (by omega), isDigit _ (by omega), isDigit _ (by omega),
        isDigit _ (by omega), inductionHypothesis⟩

/-- Decoding undoes encoding. -/
theorem decode_encode (bytes : List UInt8) : decode (encode bytes) = some bytes := by
  rw [decode, if_pos, decodeFrom_encode]
  simpa using encode_ascii bytes

/-- Encoded bytes come in groups of four characters. -/
theorem length_encode_mod (bytes : List UInt8) : (encode bytes).length % 4 = 0 := by
  induction bytes using encode.induct with
  | case1 => rfl
  | case2 a => simp [encode_single]
  | case3 a b => simp [encode_pair]
  | case4 a b c rest inductionHypothesis =>
      simp only [encode_group, List.length_cons]
      omega

theorem encode_ne_single (bytes : List UInt8) (c : Char) : encode bytes ≠ [c] := by
  intro single
  have groups := length_encode_mod bytes
  rw [single] at groups
  cases groups

end Base64

/-! ## Bytes -/

/-- The bytes of an ASCII text. -/
def asciiBytes (s : Str) : List UInt8 := s.map fun c => UInt8.ofNat c.toNat

theorem parseIntBytes_asciiBytes {s : Str} (ascii : ∀ c ∈ s, 0x20 ≤ c.toNat ∧ c.toNat < 128) :
    parseIntBytes (asciiBytes s) = Str.parseInt s := by
  have byte : ∀ c ∈ s, (UInt8.ofNat c.toNat).toNat = c.toNat := by
    intro c member
    exact UInt8.toNat_ofNat_of_lt' ((ascii c member).2.trans (by decide))
  have plain : (asciiBytes s).all (fun b => b < 0x80 && !(0x1C ≤ b && b ≤ 0x1F)) = true := by
    rw [List.all_eq_true]
    intro b member
    obtain ⟨c, isChar, rfl⟩ := List.mem_map.mp member
    have below := byte c isChar
    have range := ascii c isChar
    simp only [UInt8.lt_iff_toNat_lt, UInt8.le_iff_toNat_le, below, Bool.and_eq_true,
      decide_eq_true_eq, Bool.not_eq_true', Bool.and_eq_false_imp, decide_eq_false_iff_not]
    exact ⟨range.2, fun _ small => absurd small (Nat.not_le.mpr (Nat.lt_of_lt_of_le (by decide) range.1))⟩
  have back : (asciiBytes s).map (fun b => Char.ofNat b.toNat) = s := by
    rw [asciiBytes, List.map_map]
    conv_rhs => rw [← List.map_id s]
    apply List.map_congr_left
    intro c member
    rw [Function.comp_apply, byte c member, id, Char.ofNat_toNat]
  rw [parseIntBytes, if_pos plain, back]

private theorem digitChar_injective :
    ∀ n < 16, ∀ m < 16, Nat.digitChar n = Nat.digitChar m → n = m := by
  decide

/-- Hexadecimal digits tell bytes apart. -/
theorem bytesHex_injective : Function.Injective bytesHex := by
  intro left
  induction left with
  | nil =>
      rintro (_ | ⟨b, right⟩) same
      · rfl
      · cases same
  | cons a left inductionHypothesis =>
      rintro (_ | ⟨b, right⟩) same
      · cases same
      · simp only [bytesHex, List.flatMap_cons, List.cons_append, List.nil_append,
          List.cons.injEq] at same
        obtain ⟨high, low, rest⟩ := same
        have belowA := a.toNat_lt
        have belowB := b.toNat_lt
        have sameHigh := digitChar_injective _ (by omega) _ (by omega) high
        have sameLow := digitChar_injective _ (by omega) _ (by omega) low
        have sameByte : a = b := UInt8.toNat_inj.mp (by omega)
        rw [sameByte, inductionHypothesis rest]

/-! ## Octal digits -/

namespace Str

/-- `int(oct(n)[2:])`: the octal digits of a number, read as decimal ones. -/
def octalDigits (n : Nat) : Nat := digitsValue 10 (octal n)

theorem octalDigits_of_lt {n : Nat} (small : n < 8) : octalDigits n = n := by
  have single : ∀ n < 8, octalDigits n = n := by decide
  exact single n small

theorem octalDigits_eq (n : Nat) : octalDigits n = 10 * octalDigits (n / 8) + n % 8 := by
  by_cases small : n < 8
  · rw [octalDigits_of_lt small, Nat.div_eq_of_lt small, Nat.mod_eq_of_lt small,
      octalDigits_of_lt (by decide)]
    omega
  · have last : digitsValue 10 [(n % 8).digitChar] = n % 8 := by
      have single : ∀ n < 8, digitsValue 10 [n.digitChar] = n := by decide
      exact single _ (Nat.mod_lt n (by decide))
    unfold octalDigits octal
    rw [Nat.toDigits_of_base_le (by decide) (Nat.le_of_not_lt small), digitsValue, List.foldl_append]
    simp only [digitsValue, List.foldl_cons, List.foldl_nil] at last ⊢
    omega

theorem parseInt_octal (n : Nat) : parseInt (octal n) = some (octalDigits n : Int) := by
  refine parseInt_of_digits ⟨fun empty => ?_, fun c member => ?_⟩
  · have := Nat.length_toDigits_pos (b := 8) (n := n)
    rw [octal] at empty
    simp [empty] at this
  · rw [decimalValue_of_isDigit (toDigits_isDigit (by decide) (by decide) member)]
    rfl

theorem le_octalDigits (n : Nat) : n ≤ octalDigits n := by
  induction n using Nat.strongRecOn with
  | ind n inductionHypothesis =>
      rw [octalDigits_eq]
      rcases Nat.eq_zero_or_pos n with rfl | positive
      · exact Nat.zero_le _
      · have front := inductionHypothesis (n / 8) (by omega)
        omega

/-- Digits of more than one place are another number when they are read as decimal ones. -/
theorem octalDigits_eq_self_iff {n : Nat} : octalDigits n = n ↔ n < 8 := by
  constructor
  · intro same
    have front := le_octalDigits (n / 8)
    rw [octalDigits_eq] at same
    omega
  · exact octalDigits_of_lt

theorem octalDigits_injective : Function.Injective octalDigits := by
  intro n
  induction n using Nat.strongRecOn with
  | ind n inductionHypothesis =>
      intro m same
      rcases Nat.eq_zero_or_pos n with rfl | positive
      · rw [octalDigits_of_lt (by decide)] at same
        exact (Nat.le_zero.mp (same ▸ le_octalDigits m)).symm
      · rw [octalDigits_eq n, octalDigits_eq m] at same
        have front := inductionHypothesis (n / 8) (by omega)
          (show octalDigits (n / 8) = octalDigits (m / 8) by omega)
        omega

end Str

end Myscm.Library
