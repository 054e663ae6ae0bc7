import Mathlib.Algebra.Group.Int.Defs
import Mathlib.Algebra.Group.Nat.Defs
import Mathlib.Algebra.GroupWithZero.Nat
import Mathlib.Data.List.Basic
import Mathlib.Data.List.DropRight
import Mathlib.Data.List.Infix
import Mathlib.Tactic.Common

/-!
Owns Python's text operations on lists of characters: white space and
trimming, splitting, padding, decimal and octal numbers, universal newlines.

Owns: the operations with the documented behaviour of `str.strip`,
`str.split`, `str.ljust`, `int`, `str(int)` and text-mode line ends, and the
rules by which trimming and number parsing compose.

Does not own: encodings, files, regular expressions.
-/

namespace Myscm.Library

/-! ## Decidable statements about members -/

section Members

-- What holds of the characters of a text is decided by going through these, and not through all
-- characters that there are.
variable {α : Type} (p : α → Prop) [DecidablePred p]

instance (priority := 1100) decidableForallMemList (l : List α) : Decidable (∀ x, x ∈ l → p x) :=
  List.decidableBAll p l

instance (priority := 1100) decidableExistsMemList (l : List α) : Decidable (∃ x, x ∈ l ∧ p x) :=
  List.decidableBEx p l

instance (priority := 1100) decidableForallMemOption (o : Option α) :
    Decidable (∀ x, x ∈ o → p x) := Option.decidableForallMem o

instance (priority := 1100) decidableExistsMemOption (o : Option α) :
    Decidable (∃ x, x ∈ o ∧ p x) := Option.decidableExistsMem o

end Members

/-- A Python `str`. -/
abbrev Str := List Char

instance lawfulBEqStr :
    @LawfulBEq Str (@List.instBEq Char (@instBEqOfDecidableEq Char instDecidableEqChar)) :=
  @List.instLawfulBEq Char _ _

namespace Str

/-! ## White space and trimming -/

/-- `str.isspace` of one character. -/
def isSpace (c : Char) : Bool :=
  let n := c.toNat
  (9 ≤ n && n ≤ 13) || (28 ≤ n && n ≤ 32) || n == 0x85 || n == 0xA0 || n == 0x1680 ||
    (0x2000 ≤ n && n ≤ 0x200A) || n == 0x2028 || n == 0x2029 || n == 0x202F ||
    n == 0x205F || n == 0x3000

/-- `s.lstrip()`. -/
def lstrip (s : Str) : Str := s.dropWhile isSpace

/-- `s.rstrip()`. -/
def rstrip (s : Str) : Str := s.rdropWhile isSpace

/-- `s.strip()`. -/
def strip (s : Str) : Str := rstrip (lstrip s)

/-- `s.lstrip(chars)`. -/
def lstripChars (chars s : Str) : Str := s.dropWhile (chars.contains ·)

/-- `s.rstrip(chars)`. -/
def rstripChars (chars s : Str) : Str := s.rdropWhile (chars.contains ·)

/-- Every character is white space. -/
def Blank (s : Str) : Prop := ∀ c ∈ s, isSpace c = true

instance (s : Str) : Decidable (Blank s) :=
  inferInstanceAs (Decidable (∀ c ∈ s, isSpace c = true))

/-- No white space at either end. The empty text has none. -/
def Trimmed (s : Str) : Prop :=
  (∀ c ∈ s.head?, isSpace c = false) ∧ (∀ c ∈ s.getLast?, isSpace c = false)

instance (s : Str) : Decidable (Trimmed s) :=
  inferInstanceAs (Decidable
    ((∀ c ∈ s.head?, isSpace c = false) ∧ (∀ c ∈ s.getLast?, isSpace c = false)))

theorem lstrip_eq_self {s : Str} (head : ∀ c ∈ s.head?, isSpace c = false) : lstrip s = s := by
  cases s with
  | nil => rfl
  | cons c rest =>
      have notSpace : isSpace c = false := head c (by simp)
      simp [lstrip, notSpace]

theorem rstrip_eq_self {s : Str} (last : ∀ c ∈ s.getLast?, isSpace c = false) :
    rstrip s = s := by
  rw [rstrip, List.rdropWhile_eq_self_iff]
  intro nonempty
  have := last (s.getLast nonempty) (by simp [List.getLast?_eq_some_getLast nonempty])
  simp [this]

theorem strip_eq_self {s : Str} (trimmed : Trimmed s) : strip s = s := by
  rw [strip, lstrip_eq_self trimmed.1, rstrip_eq_self trimmed.2]

theorem rstrip_append_blank {s tail : Str} (blank : Blank tail) :
    rstrip (s ++ tail) = rstrip s := by
  induction tail using List.reverseRecOn generalizing s with
  | nil => simp
  | append_singleton front c inductionHypothesis =>
      rw [← List.append_assoc, rstrip, List.rdropWhile_concat_pos _ _ _ (blank c (by simp))]
      exact inductionHypothesis fun other member => blank other (by simp [member])

theorem lstrip_blank_append {s front : Str} (blank : Blank front) :
    lstrip (front ++ s) = lstrip s := by
  induction front with
  | nil => rfl
  | cons c rest inductionHypothesis =>
      have space : isSpace c = true := blank c (by simp)
      simp only [lstrip, List.cons_append, List.dropWhile_cons, space, if_true]
      exact inductionHypothesis fun other member => blank other (by simp [member])

theorem lstrip_append_of_not_blank {s : Str} (tail : Str) (notBlank : ¬ Blank s) :
    lstrip (s ++ tail) = lstrip s ++ tail := by
  induction s with
  | nil => exact absurd (by intro c member; simp at member) notBlank
  | cons c rest inductionHypothesis =>
      by_cases space : isSpace c = true
      · have restNotBlank : ¬ Blank rest := by
          intro blank
          apply notBlank
          intro other member
          rcases List.mem_cons.mp member with rfl | later
          · exact space
          · exact blank other later
        simp only [lstrip, List.cons_append, List.dropWhile_cons, space, if_true]
        exact inductionHypothesis restNotBlank
      · simp [lstrip, space]

theorem lstrip_eq_nil_iff {s : Str} : lstrip s = [] ↔ Blank s := by
  simp [lstrip, Blank, List.dropWhile_eq_nil_iff]

theorem rstrip_eq_nil_iff {s : Str} : rstrip s = [] ↔ Blank s := by
  simp [rstrip, Blank, List.rdropWhile_eq_nil_iff]

theorem blank_lstrip_iff {s : Str} : Blank (lstrip s) ↔ Blank s := by
  constructor
  · intro blank
    by_contra notBlank
    have nonempty : lstrip s ≠ [] := fun empty => notBlank (lstrip_eq_nil_iff.mp empty)
    have first : isSpace ((lstrip s).head nonempty) = false :=
      List.head_dropWhile_not isSpace nonempty
    simp [blank _ (List.head_mem nonempty)] at first
  · intro blank
    rw [lstrip_eq_nil_iff.mpr blank]
    intro c member
    simp at member

theorem strip_eq_nil_iff {s : Str} : strip s = [] ↔ Blank s := by
  rw [strip, rstrip_eq_nil_iff, blank_lstrip_iff]

theorem strip_append_blank {s tail : Str} (blank : Blank tail) :
    strip (s ++ tail) = strip s := by
  by_cases sBlank : Blank s
  · rw [strip_eq_nil_iff.mpr sBlank, strip_eq_nil_iff]
    intro c member
    rcases List.mem_append.mp member with left | right
    · exact sBlank c left
    · exact blank c right
  · rw [strip, lstrip_append_of_not_blank _ sBlank, rstrip_append_blank blank, strip]

theorem strip_blank_append {s front : Str} (blank : Blank front) :
    strip (front ++ s) = strip s := by
  rw [strip, lstrip_blank_append blank, strip]

theorem rstrip_append_of_not_blank {s tail : Str} (notBlank : ¬ Blank tail) :
    rstrip (s ++ tail) = s ++ rstrip tail := by
  have reversed : ¬ Blank tail.reverse := by
    intro blank
    exact notBlank fun c member => blank c (by simpa using member)
  have := lstrip_append_of_not_blank s.reverse reversed
  simp only [lstrip] at this
  simp [rstrip, List.rdropWhile, this]

theorem lstrip_suffix (s : Str) : lstrip s <:+ s := List.dropWhile_suffix _

theorem isPrefix_rstrip (s : Str) : rstrip s <+: s := List.rdropWhile_prefix isSpace s

theorem mem_of_mem_strip {s : Str} {c : Char} (member : c ∈ strip s) : c ∈ s :=
  (lstrip_suffix s).subset ((isPrefix_rstrip _).subset member)

theorem head?_lstrip_not_space {s : Str} : ∀ c ∈ (lstrip s).head?, isSpace c = false := by
  intro c member
  have nonempty : lstrip s ≠ [] := by
    intro empty
    simp [empty] at member
  have first := List.head_dropWhile_not isSpace (l := s) nonempty
  rw [List.head?_eq_some_head nonempty, Option.mem_some_iff] at member
  rw [← member]
  simpa [lstrip] using first

theorem getLast?_rstrip_not_space {s : Str} :
    ∀ c ∈ (rstrip s).getLast?, isSpace c = false := by
  intro c member
  have nonempty : rstrip s ≠ [] := by
    intro empty
    simp [empty] at member
  have last := List.rdropWhile_last_not isSpace s nonempty
  rw [List.getLast?_eq_some_getLast nonempty, Option.mem_some_iff] at member
  rw [← member]
  simpa [rstrip] using last

theorem strip_trimmed (s : Str) : Trimmed (strip s) := by
  refine ⟨?_, getLast?_rstrip_not_space⟩
  intro c member
  have onward : c ∈ (lstrip s).head? := by
    obtain ⟨tail, split⟩ := isPrefix_rstrip (lstrip s)
    cases found : rstrip (lstrip s) with
    | nil => simp [strip, found] at member
    | cons first rest =>
        rw [strip, found] at member
        rw [← split, found]
        simpa using member
  exact head?_lstrip_not_space c onward

theorem strip_strip (s : Str) : strip (strip s) = strip s := strip_eq_self (strip_trimmed s)

/-- Behind a text that ends in another character, only the rest is stripped. -/
theorem rstripChars_append {chars s : Str} (last : ∀ c ∈ s.getLast?, c ∉ chars) (tail : Str) :
    rstripChars chars (s ++ tail) = s ++ rstripChars chars tail := by
  have own : s.reverse.dropWhile (chars.contains ·) = s.reverse := by
    cases reversed : s.reverse with
    | nil => rfl
    | cons c rest =>
        have isLast : c ∈ s.getLast? := by rw [← List.head?_reverse, reversed]; rfl
        rw [List.dropWhile_cons_of_neg (by simpa using last c isLast)]
  unfold rstripChars List.rdropWhile
  rw [List.reverse_append, List.dropWhile_append, own]
  split
  · rename_i none
    rw [List.isEmpty_iff.mp none]
    simp
  · simp

theorem exists_blank_lstrip (s : Str) : ∃ front, Blank front ∧ s = front ++ lstrip s :=
  ⟨s.takeWhile isSpace, fun _ member => List.mem_takeWhile_imp member,
    List.takeWhile_append_dropWhile.symm⟩

theorem exists_blank_rstrip (s : Str) : ∃ tail, Blank tail ∧ s = rstrip s ++ tail := by
  obtain ⟨front, blank, split⟩ := exists_blank_lstrip s.reverse
  refine ⟨front.reverse, fun c member => blank c (List.mem_reverse.mp member), ?_⟩
  have back := congrArg List.reverse split
  rw [List.reverse_reverse, List.reverse_append] at back
  exact back

theorem rstrip_cons {c : Char} (solid : isSpace c = false) (s : Str) :
    rstrip (c :: s) = c :: rstrip s := by
  by_cases blank : Blank s
  · rw [← List.singleton_append, rstrip_append_blank blank, rstrip_eq_nil_iff.mpr blank,
      rstrip_eq_self]
    intro d last
    rw [List.getLast?_singleton, Option.mem_some_iff] at last
    rw [← last, solid]
  · exact @rstrip_append_of_not_blank [c] s blank

/-- The two ends may be trimmed in either order. -/
theorem lstrip_rstrip (s : Str) : lstrip (rstrip s) = strip s := by
  obtain ⟨tail, blank, split⟩ := exists_blank_rstrip s
  have same : strip (rstrip s) = strip s := by
    conv_rhs => rw [split, strip_append_blank blank]
  rw [← same, strip]
  refine (rstrip_eq_self ?_).symm
  intro c last
  refine getLast?_rstrip_not_space (s := s) c ?_
  obtain ⟨front, whole⟩ := lstrip_suffix (rstrip s)
  rw [← whole, List.getLast?_append, last]
  rfl

/-- Trimming takes white space off both ends. -/
theorem exists_blank_strip (s : Str) :
    ∃ front tail, Blank front ∧ Blank tail ∧ s = front ++ strip s ++ tail := by
  obtain ⟨front, frontBlank, left⟩ := exists_blank_lstrip s
  obtain ⟨tail, tailBlank, right⟩ := exists_blank_rstrip (lstrip s)
  refine ⟨front, tail, frontBlank, tailBlank, ?_⟩
  rw [List.append_assoc, strip, ← right, ← left]

/-- Where a text splits into blank, trimmed and blank parts, trimming returns
the middle one. -/
theorem strip_padded {front body tail : Str} (frontBlank : Blank front) (trimmed : Trimmed body)
    (tailBlank : Blank tail) : strip (front ++ body ++ tail) = body := by
  rw [strip_append_blank tailBlank, strip_blank_append frontBlank, strip_eq_self trimmed]

theorem blank_replicate (n : Nat) : Blank (List.replicate n ' ') := by
  intro c member
  rw [List.eq_of_mem_replicate member]
  decide

theorem trimmed_cons_append {c d : Char} {middle : Str} (first : isSpace c = false)
    (last : isSpace d = false) : Trimmed (c :: (middle ++ [d])) := by
  constructor
  · intro other member
    simp only [List.head?_cons, Option.mem_some_iff] at member
    rw [← member, first]
  · intro other member
    rw [← List.cons_append, List.getLast?_concat, Option.mem_some_iff] at member
    rw [← member, last]

/-! ## Splitting, padding, prefixes -/

/-- `s.split()`: the maximal runs of characters that are not white space. -/
def words (s : Str) : List Str := (s.splitOnP isSpace).filter (· ≠ [])

/-- `"{:<width}".format(s)`. -/
def ljust (width : Nat) (s : Str) : Str := s ++ List.replicate (width - s.length) ' '

/-- `s.startswith(front)`. -/
def startsWith (s front : Str) : Bool := front.isPrefixOf s

/-- `s.endswith(back)`. -/
def endsWith (s back : Str) : Bool := back.isSuffixOf s

theorem words_single {s : Str} (nonempty : s ≠ []) (solid : ∀ c ∈ s, isSpace c = false) :
    words s = [s] := by
  simp [words, List.splitOnP_eq_singleton solid, nonempty]

/-- A word, one blank, and the words of the rest. -/
theorem words_cons {s rest : Str} (nonempty : s ≠ []) (solid : ∀ c ∈ s, isSpace c = false)
    {c : Char} (space : isSpace c = true) : words (s ++ c :: rest) = s :: words rest := by
  simp [words, List.splitOnP_append_cons_of_forall_mem solid c space, nonempty]

theorem words_space_cons {rest : Str} {c : Char} (space : isSpace c = true) :
    words (c :: rest) = words rest := by
  have := @List.splitOnP_append_cons_of_forall_mem _ isSpace []
    (by intro x member; simp at member) c space rest
  simp only [List.nil_append] at this
  simp [words, this]

theorem words_nil : words [] = [] := by simp [words]

/-! ## Numbers -/

/-- The code points of the zeros of Unicode's decimal digit ranges, each
followed by its nine successors. -/
def decimalZeros : List Nat :=
  [0x30, 0x660, 0x6F0, 0x7C0, 0x966, 0x9E6, 0xA66, 0xAE6, 0xB66, 0xBE6, 0xC66, 0xCE6, 0xD66,
   0xDE6, 0xE50, 0xED0, 0xF20, 0x1040, 0x1090, 0x17E0, 0x1810, 0x1946, 0x19D0, 0x1A80, 0x1A90,
   0x1B50, 0x1BB0, 0x1C40, 0x1C50, 0xA620, 0xA8D0, 0xA900, 0xA9D0, 0xA9F0, 0xAA50, 0xABF0,
   0xFF10, 0x104A0, 0x11066, 0x110F0, 0x11136, 0x111D0, 0x112F0, 0x11450, 0x114D0, 0x11650,
   0x116C0, 0x11730, 0x118E0, 0x11C50, 0x16A60, 0x16B50, 0x1D7CE, 0x1D7D8, 0x1D7E2, 0x1D7EC,
   0x1D7F6, 0x1E950]

/-- The value of a decimal digit, which is also what `\d` matches. -/
def decimalValue (c : Char) : Option Nat :=
  (decimalZeros.find? fun low => low ≤ c.toNat && c.toNat < low + 10).map (c.toNat - ·)

/-- A digit of the given base. -/
def isDigitOf (base : Nat) (c : Char) : Bool :=
  match decimalValue c with
  | some value => value < base
  | none => false

/-- The number written by digits of the base, most significant first. -/
def digitsValue (base : Nat) (digits : Str) : Nat :=
  digits.foldl (fun value c => base * value + (decimalValue c).getD 0) 0

/-- The unsigned part of `int(s, base)`: groups of digits with single
underscores between them. -/
def parseDigits (base : Nat) (s : Str) : Option Nat :=
  let groups := s.splitOn '_'
  if groups.all fun group => !group.isEmpty && group.all (isDigitOf base) then
    some (digitsValue base groups.flatten)
  else
    none

/-- Split off one leading sign. -/
def takeSign : Str → Bool × Str
  | '-' :: rest => (true, rest)
  | '+' :: rest => (false, rest)
  | rest => (false, rest)

def applySign (negative : Bool) (value : Nat) : Int :=
  if negative then -(value : Int) else value

/-- `int(s)`, or none where Python raises `ValueError`. -/
def parseInt (s : Str) : Option Int :=
  let signed := takeSign (strip s)
  (parseDigits 10 signed.2).map (applySign signed.1)

/-- Drop the `0o` prefix that `int(s, 8)` allows, and one underscore behind it. -/
def dropOctalPrefix : Str → Str
  | '0' :: 'o' :: '_' :: rest => rest
  | '0' :: 'O' :: '_' :: rest => rest
  | '0' :: 'o' :: rest => rest
  | '0' :: 'O' :: rest => rest
  | rest => rest

/-- `int(s, 8)`, or none where Python raises `ValueError`. -/
def parseOctal (s : Str) : Option Int :=
  let signed := takeSign (strip s)
  (parseDigits 8 (dropOctalPrefix signed.2)).map (applySign signed.1)

/-- `str(n)` of a natural number. -/
def ofNat (n : Nat) : Str := Nat.toDigits 10 n

/-- `str(i)` of an integer. -/
def ofInt : Int → Str
  | .ofNat n => ofNat n
  | .negSucc n => '-' :: ofNat (n + 1)

theorem ofInt_natCast (n : Nat) : ofInt (n : Int) = ofNat n := rfl

/-- `oct(n)[2:]` of a natural number. -/
def octal (n : Nat) : Str := Nat.toDigits 8 n

theorem decimalValue_of_isDigit {c : Char} (digit : c.isDigit = true) :
    decimalValue c = some (c.toNat - 48) := by
  have bounds : 48 ≤ c.toNat ∧ c.toNat < 58 := by
    simp only [Char.isDigit, Bool.and_eq_true, decide_eq_true_eq] at digit
    have low : (48 : UInt32).toNat ≤ c.val.toNat := UInt32.le_iff_toNat_le.mp digit.1
    have high : c.val.toNat ≤ (57 : UInt32).toNat := UInt32.le_iff_toNat_le.mp digit.2
    constructor
    · exact low
    · exact Nat.lt_succ_of_le high
  simp [decimalValue, decimalZeros, bounds.1, bounds.2]

private theorem foldl_digits_eq_ofDigitChars (base : Nat) {digits : Str}
    (ascii : ∀ c ∈ digits, c.isDigit = true) (start : Nat) :
    digits.foldl (fun value c => base * value + (decimalValue c).getD 0) start =
      Nat.ofDigitChars base digits start := by
  induction digits generalizing start with
  | nil => rfl
  | cons c rest inductionHypothesis =>
      have here := decimalValue_of_isDigit (ascii c (by simp))
      rw [Nat.ofDigitChars_cons, List.foldl_cons, here, Option.getD_some]
      exact inductionHypothesis (fun other member => ascii other (by simp [member])) _

theorem digitsValue_eq_ofDigitChars (base : Nat) {digits : Str}
    (ascii : ∀ c ∈ digits, c.isDigit = true) :
    digitsValue base digits = Nat.ofDigitChars base digits 0 :=
  foldl_digits_eq_ofDigitChars base ascii 0

private theorem toDigits_ne_nil (base n : Nat) : Nat.toDigits base n ≠ [] := by
  intro empty
  have := Nat.length_toDigits_pos (b := base) (n := n)
  simp [empty] at this

theorem toDigits_isDigit {base n : Nat} (positive : 0 < base) (small : base ≤ 10) {c : Char}
    (member : c ∈ Nat.toDigits base n) : c.isDigit = true :=
  Nat.isDigit_of_mem_toDigits positive small member

/-- Digits of a base are below the base. -/
private theorem toDigits_isDigitOf {base n : Nat} (large : 1 < base) (small : base ≤ 10) :
    ∀ c ∈ Nat.toDigits base n, isDigitOf base c = true := by
  induction n using Nat.strongRecOn with
  | ind n inductionHypothesis =>
      have digitBelow : ∀ d, d < base → isDigitOf base d.digitChar = true := by
        intro d below
        have digit : d.digitChar.isDigit = true :=
          Nat.isDigit_digitChar.trans (decide_eq_true (by omega))
        have value := Nat.toNat_digitChar_sub_48_of_lt_ten (show d < 10 by omega)
        simp [isDigitOf, decimalValue_of_isDigit digit, value, below]
      by_cases lower : n < base
      · rw [Nat.toDigits_of_lt_base lower]
        simpa using digitBelow n lower
      · have atLeast : base ≤ n := Nat.le_of_not_lt lower
        rw [Nat.toDigits_of_base_le large atLeast]
        intro c member
        rcases List.mem_append.mp member with early | last
        · exact inductionHypothesis (n / base) (Nat.div_lt_self (by omega) large) c early
        · rw [List.mem_singleton.mp last]
          exact digitBelow _ (Nat.mod_lt n (by omega))

private theorem underscore_not_mem_toDigits {base n : Nat} (positive : 0 < base)
    (small : base ≤ 10) : '_' ∉ Nat.toDigits base n := by
  intro member
  exact absurd (toDigits_isDigit positive small member) (by decide)

theorem digitsValue_toDigits {base : Nat} (large : 1 < base) (small : base ≤ 10) (n : Nat) :
    digitsValue base (Nat.toDigits base n) = n := by
  rw [digitsValue_eq_ofDigitChars base
    (fun c member => toDigits_isDigit (by omega) small member)]
  exact Nat.ofDigitChars_toDigits large small

theorem parseDigits_toDigits {base : Nat} (large : 1 < base) (small : base ≤ 10) (n : Nat) :
    parseDigits base (Nat.toDigits base n) = some n := by
  have single : (Nat.toDigits base n).splitOn '_' = [Nat.toDigits base n] :=
    List.splitOn_eq_singleton (underscore_not_mem_toDigits (by omega) small)
  have accepted : (Nat.toDigits base n).all (isDigitOf base) = true :=
    List.all_eq_true.mpr (toDigits_isDigitOf large small)
  simp [parseDigits, single, accepted, digitsValue_toDigits large small]

theorem isSpace_of_isDigit {c : Char} (digit : c.isDigit = true) : isSpace c = false := by
  simp only [Char.isDigit, Bool.and_eq_true, decide_eq_true_eq] at digit
  have low : 48 ≤ c.toNat := UInt32.le_iff_toNat_le.mp digit.1
  have high : c.toNat ≤ 57 := UInt32.le_iff_toNat_le.mp digit.2
  simp only [isSpace, Bool.or_eq_false_iff, Bool.and_eq_false_imp, decide_eq_true_eq,
    decide_eq_false_iff_not, beq_eq_false_iff_ne]
  omega

theorem trimmed_of_solid {s : Str} (solid : ∀ c ∈ s, isSpace c = false) : Trimmed s :=
  ⟨fun c member => solid c (List.mem_of_mem_head? member),
    fun c member => solid c (List.mem_of_getLast? member)⟩

/-- A number in decimal digits of any script, as `\d+` matches it. -/
def Digits (s : Str) : Prop := s ≠ [] ∧ ∀ c ∈ s, (decimalValue c).isSome = true

theorem digits_ofNat (n : Nat) : Digits (ofNat n) :=
  ⟨toDigits_ne_nil 10 n, fun c member => by
    rw [decimalValue_of_isDigit (@toDigits_isDigit 10 n (by decide) (by decide) c member)]
    rfl⟩

private theorem exists_zero_of_decimalValue {c : Char} (digit : (decimalValue c).isSome = true) :
    ∃ low ∈ decimalZeros, low ≤ c.toNat ∧ c.toNat < low + 10 := by
  rw [decimalValue, Option.isSome_map, List.find?_isSome] at digit
  obtain ⟨low, member, within⟩ := digit
  simp only [Bool.and_eq_true, decide_eq_true_eq] at within
  exact ⟨low, member, within⟩

/-- No digit stands among the white space, the signs or the underscore. -/
private theorem decimalZeros_apart : ∀ low ∈ decimalZeros, low = 0x30 ∨
    (0x660 ≤ low ∧ low + 10 ≤ 0x1680) ∨ (0x17E0 ≤ low ∧ low + 10 ≤ 0x2000) ∨ 0xA620 ≤ low := by
  decide

theorem isSpace_of_decimal {c : Char} (digit : (decimalValue c).isSome = true) :
    isSpace c = false := by
  obtain ⟨low, member, above, below⟩ := exists_zero_of_decimalValue digit
  have apart := decimalZeros_apart low member
  simp only [isSpace, Bool.or_eq_false_iff, Bool.and_eq_false_imp, decide_eq_true_eq,
    decide_eq_false_iff_not, beq_eq_false_iff_ne]
  omega

theorem isDigitOf_of_decimal {c : Char} (digit : (decimalValue c).isSome = true) :
    isDigitOf 10 c = true := by
  rw [decimalValue, Option.isSome_map] at digit
  obtain ⟨low, found⟩ := Option.isSome_iff_exists.mp digit
  have within := List.find?_some found
  simp only [Bool.and_eq_true, decide_eq_true_eq] at within
  simp only [isDigitOf, decimalValue, found, Option.map_some, decide_eq_true_eq]
  omega

theorem parseInt_of_digits {s : Str} (digits : Digits s) :
    parseInt s = some (digitsValue 10 s : Int) := by
  have trimmed : strip s = s :=
    strip_eq_self (trimmed_of_solid fun c member => isSpace_of_decimal (digits.2 c member))
  have unsigned : takeSign s = (false, s) := by
    unfold takeSign
    split
    · exact absurd (digits.2 '-' (by simp)) (by decide)
    · exact absurd (digits.2 '+' (by simp)) (by decide)
    · rfl
  have single : s.splitOn '_' = [s] := by
    refine List.splitOn_eq_singleton fun member => ?_
    exact absurd (digits.2 '_' member) (by decide)
  have accepted : s.all (isDigitOf 10) = true :=
    List.all_eq_true.mpr fun c member => isDigitOf_of_decimal (digits.2 c member)
  simp [parseInt, trimmed, unsigned, parseDigits, single, accepted, digits.1, applySign]

theorem digitsValue_ofNat (n : Nat) : digitsValue 10 (ofNat n) = n :=
  digitsValue_toDigits (by decide) (by decide) n

theorem toDigits_solid {base n : Nat} (positive : 0 < base) (small : base ≤ 10) :
    ∀ c ∈ Nat.toDigits base n, isSpace c = false :=
  fun _ member => isSpace_of_isDigit (toDigits_isDigit positive small member)

private theorem takeSign_of_isDigit {s : Str} (digits : ∀ c ∈ s, c.isDigit = true) :
    takeSign s = (false, s) := by
  unfold takeSign
  split
  · exact absurd (digits '-' (by simp)) (by decide)
  · exact absurd (digits '+' (by simp)) (by decide)
  · rfl

theorem parseInt_ofNat (n : Nat) : parseInt (ofNat n) = some (n : Int) := by
  have digits : ∀ c ∈ ofNat n, c.isDigit = true :=
    fun c member => @toDigits_isDigit 10 n (by decide) (by decide) c member
  have trimmed : strip (ofNat n) = ofNat n :=
    strip_eq_self (trimmed_of_solid (toDigits_solid (by decide) (by decide)))
  have value : parseDigits 10 (ofNat n) = some n := parseDigits_toDigits (by decide) (by decide) n
  simp [parseInt, trimmed, takeSign_of_isDigit digits, value, applySign]

theorem parseInt_ofInt (i : Int) : parseInt (ofInt i) = some i := by
  cases i with
  | ofNat n => exact parseInt_ofNat n
  | negSucc n =>
      have solid : ∀ c ∈ '-' :: ofNat (n + 1), isSpace c = false := by
        intro c member
        rcases List.mem_cons.mp member with rfl | later
        · decide
        · exact @toDigits_solid 10 (n + 1) (by decide) (by decide) c later
      have value : parseDigits 10 (ofNat (n + 1)) = some (n + 1) :=
        parseDigits_toDigits (by decide) (by decide) (n + 1)
      simp only [parseInt, ofInt, strip_eq_self (trimmed_of_solid solid), takeSign, value,
        Option.map_some, applySign, if_true, Option.some.injEq]
      omega

/-- `int(oct(n)[2:], 8)`. -/
theorem parseOctal_octal (n : Nat) : parseOctal (octal n) = some (n : Int) := by
  have digits : ∀ c ∈ octal n, c.isDigit = true :=
    fun c member => @toDigits_isDigit 8 n (by decide) (by decide) c member
  have trimmed : strip (octal n) = octal n :=
    strip_eq_self (trimmed_of_solid (toDigits_solid (by decide) (by decide)))
  have noPrefix : dropOctalPrefix (octal n) = octal n := by
    unfold dropOctalPrefix
    split
    · rename_i whole
      exact absurd (digits 'o' (by simp [whole])) (by decide)
    · rename_i whole
      exact absurd (digits 'O' (by simp [whole])) (by decide)
    · rename_i whole
      exact absurd (digits 'o' (by simp [whole])) (by decide)
    · rename_i whole
      exact absurd (digits 'O' (by simp [whole])) (by decide)
    · rfl
  have value : parseDigits 8 (octal n) = some n := parseDigits_toDigits (by decide) (by decide) n
  simp [parseOctal, trimmed, takeSign_of_isDigit digits, noPrefix, value, applySign]

theorem parseInt_nil : parseInt [] = none := by decide

theorem mem_ofInt {i : Int} {c : Char} (member : c ∈ ofInt i) : c = '-' ∨ c.isDigit = true := by
  cases i with
  | ofNat n => exact .inr (toDigits_isDigit (by decide) (by decide) member)
  | negSucc n =>
      rcases List.mem_cons.mp member with minus | digit
      · exact .inl minus
      · exact .inr (toDigits_isDigit (by decide) (by decide) digit)

theorem ofInt_injective {i j : Int} (same : ofInt i = ofInt j) : i = j := by
  have := parseInt_ofInt i
  rw [same, parseInt_ofInt j] at this
  exact (Option.some.inj this).symm

theorem ofNat_injective {m n : Nat} (same : ofNat m = ofNat n) : m = n := by
  have := parseInt_ofNat m
  rw [same, parseInt_ofNat n] at this
  exact_mod_cast (Option.some.inj this).symm

end Str

end Myscm.Library
