import Myscm.Library.Text
import Mathlib.Data.List.SplitBy

/-!
Owns the decoders of Python's library that texts from an AIDE database go
through.

Owns: `str.split(maxsplit=1)`; `urllib.parse.unquote` with the replacing UTF-8
decoder behind it; `base64.b64decode`; `bytes.hex`; `int` of bytes.

Does not own: encoders.
-/

namespace Myscm.Library

namespace Str

/-- `s.split(maxsplit=1)`: the first word, and what follows it if anything does. -/
def splitOnce (s : Str) : List Str :=
  match lstrip s with
  | [] => []
  | trimmed =>
      match lstrip (trimmed.dropWhile fun c => !isSpace c) with
      | [] => [trimmed.takeWhile fun c => !isSpace c]
      | rest => [trimmed.takeWhile fun c => !isSpace c, rest]

theorem words_lstrip (s : Str) : words (lstrip s) = words s := by
  induction s with
  | nil => rfl
  | cons c rest inductionHypothesis =>
      by_cases space : isSpace c = true
      · rw [words_space_cons space, ← inductionHypothesis]
        simp [lstrip, space]
      · simp [lstrip, space]

/-- The words of a text that does not start with white space. -/
theorem words_trimmed {c : Char} {rest : Str} (solid : isSpace c = false) :
    words (c :: rest) = ((c :: rest).takeWhile fun c => !isSpace c) ::
      words ((c :: rest).dropWhile fun c => !isSpace c) := by
  have nonempty : (c :: rest).takeWhile (fun c => !isSpace c) ≠ [] := by simp [solid]
  have word : ∀ d ∈ (c :: rest).takeWhile (fun c => !isSpace c), isSpace d = false :=
    fun d member => by simpa using List.mem_takeWhile_imp member
  have whole := List.takeWhile_append_dropWhile (p := fun c => !isSpace c) (l := c :: rest)
  cases behind : (c :: rest).dropWhile (fun c => !isSpace c) with
  | nil =>
      rw [behind, List.append_nil] at whole
      conv_lhs => rw [← whole]
      rw [words_single nonempty word, words_nil]
  | cons d later =>
      have space : isSpace d = true := by
        have first := List.head_dropWhile_not (fun c => !isSpace c)
          (l := c :: rest) (by simp [behind])
        simpa [behind] using first
      rw [behind] at whole
      conv_lhs => rw [← whole]
      rw [words_cons nonempty word space, words_space_cons space]

/-- `split(maxsplit=1)` gives the first word, and a text with the other words if there are any. -/
theorem splitOnce_of_words {s word : Str} {more : List Str} (split : words s = word :: more) :
    (more = [] ∧ splitOnce s = [word]) ∨ ∃ rest, splitOnce s = [word, rest] ∧ words rest = more := by
  rw [← words_lstrip] at split
  unfold splitOnce
  cases trimmed : lstrip s with
  | nil =>
      rw [trimmed, words_nil] at split
      cases split
  | cons c rest =>
      have solid : isSpace c = false := head?_lstrip_not_space c (by rw [trimmed]; rfl)
      rw [trimmed, words_trimmed solid, List.cons.injEq] at split
      obtain ⟨rfl, isMore⟩ := split
      rw [← words_lstrip] at isMore
      dsimp only
      cases behind : lstrip ((c :: rest).dropWhile fun c => !isSpace c) with
      | nil => 
          rw [behind, words_nil] at isMore
          exact .inl ⟨isMore.symm, rfl⟩
      | cons d later => exact .inr ⟨d :: later, rfl, behind ▸ isMore⟩

theorem splitOnce_of_words_nil {s : Str} (blank : words s = []) : splitOnce s = [] := by
  rw [← words_lstrip] at blank
  unfold splitOnce
  cases trimmed : lstrip s with
  | nil => rfl
  | cons c rest =>
      have solid : isSpace c = false := head?_lstrip_not_space c (by rw [trimmed]; rfl)
      rw [trimmed, words_trimmed solid] at blank
      cases blank

theorem head?_splitOnce (s : Str) : (splitOnce s).head? = (words s).head? := by
  cases split : words s with
  | nil => rw [splitOnce_of_words_nil split]
  | cons word more =>
      rcases splitOnce_of_words split with ⟨_, single⟩ | ⟨rest, two, _⟩
      · rw [single]
        rfl
      · rw [two]
        rfl

/-- The value of a hexadecimal digit. -/
def hexValue (c : Char) : Option Nat :=
  if c.isDigit then some (c.toNat - '0'.toNat)
  else if 'a' ≤ c ∧ c ≤ 'f' then some (c.toNat - 'a'.toNat + 10)
  else if 'A' ≤ c ∧ c ≤ 'F' then some (c.toNat - 'A'.toNat + 10)
  else none

end Str

/-! ## Replacing UTF-8 -/

namespace Utf8

/-- The length of a sequence by its first byte. Zero where no sequence starts. -/
def sequenceLength (b : UInt8) : Nat :=
  if b < 0x80 then 1
  else if 0xC2 ≤ b ∧ b ≤ 0xDF then 2
  else if 0xE0 ≤ b ∧ b ≤ 0xEF then 3
  else if 0xF0 ≤ b ∧ b ≤ 0xF4 then 4
  else 0

/-- The byte may stand at the given place of a sequence with the given first byte. -/
def mayFollow (lead : UInt8) (place : Nat) (b : UInt8) : Bool :=
  let low : UInt8 :=
    if place = 1 ∧ lead = 0xE0 then 0xA0 else if place = 1 ∧ lead = 0xF0 then 0x90 else 0x80
  let high : UInt8 :=
    if place = 1 ∧ lead = 0xED then 0x9F else if place = 1 ∧ lead = 0xF4 then 0x8F else 0xBF
  low ≤ b && b ≤ high

/-- How many of the next bytes go on with a sequence. -/
def following (lead : UInt8) : Nat → Nat → List UInt8 → Nat
  | 0, _, _ => 0
  | _, _, [] => 0
  | more + 1, place, b :: rest =>
      if mayFollow lead place b then following lead more (place + 1) rest + 1 else 0

/-- The character of a whole sequence. -/
def ofSequence (lead : UInt8) (rest : List UInt8) : Char :=
  let front := if rest = [] then lead.toNat else lead.toNat % 2 ^ (6 - rest.length)
  Char.ofNat (rest.foldl (fun code b => code * 64 + b.toNat % 64) front)

/-- `b.decode("utf-8", "replace")`: each piece that is no sequence becomes U+FFFD. -/
def decodeReplace : List UInt8 → Str
  | [] => []
  | lead :: rest =>
      let taken := following lead (sequenceLength lead - 1) 1 rest
      let decoded :=
        if taken + 1 = sequenceLength lead then ofSequence lead (rest.take taken)
        else Char.ofNat 0xFFFD
      decoded :: decodeReplace (rest.drop taken)
termination_by bytes => bytes.length
decreasing_by
  rw [List.length_cons, List.length_drop]
  omega

end Utf8

/-! ## Percent signs -/

namespace Str

/-- `unquote_to_bytes` on a text of ASCII characters. -/
def unquoteToBytes : Str → List UInt8
  | '%' :: high :: low :: rest =>
      match hexValue high, hexValue low with
      | some h, some l => UInt8.ofNat (16 * h + l) :: unquoteToBytes rest
      | _, _ => UInt8.ofNat '%'.toNat :: unquoteToBytes (high :: low :: rest)
  | c :: rest => UInt8.ofNat c.toNat :: unquoteToBytes rest
  | [] => []

/-- `urllib.parse.unquote(s)`. Runs of other than ASCII characters stay as they are. -/
def unquote (s : Str) : Str :=
  if '%' ∉ s then
    s
  else
    (s.splitBy fun c d => (c.toNat < 128) == (d.toNat < 128)).flatMap fun run =>
      if run.all fun c => c.toNat < 128 then Utf8.decodeReplace (unquoteToBytes run) else run

end Str

/-! ## Base 64 -/

namespace Base64

/-- The value of a character of the alphabet. -/
def value (c : Char) : Option Nat :=
  if 'A' ≤ c ∧ c ≤ 'Z' then some (c.toNat - 'A'.toNat)
  else if 'a' ≤ c ∧ c ≤ 'z' then some (c.toNat - 'a'.toNat + 26)
  else if c.isDigit then some (c.toNat - '0'.toNat + 52)
  else if c = '+' then some 62
  else if c = '/' then some 63
  else none

/-- The loop of `a2b_base64`, with the place in a group of four, the bits that are left and
the padding read. Other characters are skipped. -/
def decodeFrom (place left pads : Nat) : Str → Option (List UInt8)
  | [] => if place = 0 then some [] else none
  | c :: rest =>
      if c = '=' then
        if 2 ≤ place ∧ 4 ≤ place + pads + 1 then some []
        else decodeFrom place left (if 2 ≤ place then pads + 1 else pads) rest
      else
        match value c, place with
        | none, _ => decodeFrom place left pads rest
        | some v, 0 => decodeFrom 1 v 0 rest
        | some v, 1 => (decodeFrom 2 (v % 16) 0 rest).map (UInt8.ofNat (left * 4 + v / 16) :: ·)
        | some v, 2 => (decodeFrom 3 (v % 4) 0 rest).map (UInt8.ofNat (left * 16 + v / 4) :: ·)
        | some v, _ => (decodeFrom 0 0 0 rest).map (UInt8.ofNat (left * 64 + v) :: ·)

/-- `base64.b64decode(s)`, or none where Python raises `ValueError`. -/
def decode (s : Str) : Option (List UInt8) :=
  if s.all fun c => c.toNat < 128 then decodeFrom 0 0 0 s else none

end Base64

/-- `b.hex()`. -/
def bytesHex (bytes : List UInt8) : Str :=
  bytes.flatMap fun b => [Nat.digitChar (b.toNat / 16), Nat.digitChar (b.toNat % 16)]

/-- `int(b)` of bytes, or none where Python raises `ValueError`. -/
def parseIntBytes (bytes : List UInt8) : Option Int :=
  if bytes.all fun b => b < 0x80 && !(0x1C ≤ b && b ≤ 0x1F) then
    Str.parseInt (bytes.map fun b => Char.ofNat b.toNat)
  else
    none

end Myscm.Library
