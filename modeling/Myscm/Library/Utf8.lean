import Myscm.Library.Lines

/-!
Owns UTF-8 as Python's strict codec has it, on lists of bytes.

Owns: encoding and decoding as inverses; that splitting bytes at line feeds
is splitting the text at line feeds.

Does not own: other encodings, error handlers.
-/

namespace Myscm.Library.Utf8

/-- `s.encode("utf-8")`. -/
def encode (s : Str) : List UInt8 := s.flatMap String.utf8EncodeChar

/-- `b.decode("utf-8")`, or none where Python raises `UnicodeDecodeError`. -/
def decode (bytes : List UInt8) : Option Str :=
  bytes.toByteArray.utf8Decode?.map Array.toList

theorem decode_encode (s : Str) : decode (encode s) = some s := by
  have decoded : s.utf8Encode.utf8Decode? = some s.toArray := List.utf8Decode?_utf8Encode
  rw [List.utf8Encode] at decoded
  simp [decode, encode, decoded]

theorem encode_of_decode {bytes : List UInt8} {s : Str} (decoded : decode bytes = some s) :
    encode s = bytes := by
  rw [decode, Option.map_eq_some_iff] at decoded
  obtain ⟨chars, found, rfl⟩ := decoded
  have valid : bytes.toByteArray.utf8Decode?.isSome := by simp [found]
  have encoded := ByteArray.utf8Encode_get_utf8Decode? (h := valid)
  simp only [found, Option.get_some, List.utf8Encode] at encoded
  have sameData := congrArg (fun b : ByteArray => b.data.toList) encoded
  simpa [encode] using sameData

theorem decode_eq_some_iff {bytes : List UInt8} {s : Str} :
    decode bytes = some s ↔ bytes = encode s :=
  ⟨fun decoded => (encode_of_decode decoded).symm, fun same => same ▸ decode_encode s⟩

theorem encode_injective {s t : Str} (same : encode s = encode t) : s = t := by
  have decoded := decode_encode s
  rw [same, decode_encode] at decoded
  exact (Option.some.inj decoded).symm

@[simp] theorem encode_nil : encode [] = [] := rfl

@[simp] theorem encode_cons (c : Char) (s : Str) :
    encode (c :: s) = String.utf8EncodeChar c ++ encode s := by
  simp [encode]

theorem encode_append (s t : Str) : encode (s ++ t) = encode s ++ encode t := by
  simp [encode]

/-- A byte below 128 only occurs as the code of its own character. -/
theorem toNat_of_mem_utf8EncodeChar {c : Char} {b : UInt8} (small : b.toNat < 128)
    (member : b ∈ String.utf8EncodeChar c) : c.toNat = b.toNat := by
  have value : c.toNat = c.val.toNat := rfl
  simp only [String.utf8EncodeChar] at member
  split at member
  · rw [List.mem_singleton.mp member] at small ⊢
    rw [UInt8.toNat_ofNat'] at small ⊢
    omega
  · have large : 128 ≤ b.toNat := by
      split at member
      · simp only [List.mem_cons, List.not_mem_nil, or_false] at member
        rcases member with rfl | rfl <;> rw [UInt8.toNat_ofNat'] <;> omega
      · split at member
        · simp only [List.mem_cons, List.not_mem_nil, or_false] at member
          rcases member with rfl | rfl | rfl <;> rw [UInt8.toNat_ofNat'] <;> omega
        · simp only [List.mem_cons, List.not_mem_nil, or_false] at member
          rcases member with rfl | rfl | rfl | rfl <;> rw [UInt8.toNat_ofNat'] <;> omega
    omega

theorem utf8EncodeChar_newline : String.utf8EncodeChar '\n' = [10] := by decide

/-- Splitting the bytes at line feeds is splitting the text at line feeds. -/
theorem splitOn_encode (s : Str) :
    (encode s).splitOn 10 = (s.splitOn '\n').map encode := by
  induction s with
  | nil => rfl
  | cons c rest inductionHypothesis =>
      simp only [List.splitOn_eq_splitOnP] at inductionHypothesis ⊢
      rw [encode_cons, List.splitOnP_cons_eq_if_modifyHead]
      by_cases isFeed : c = '\n'
      · rw [isFeed, utf8EncodeChar_newline, List.singleton_append,
          List.splitOnP_cons_eq_if_modifyHead, inductionHypothesis]
        rfl
      · have free : ∀ b ∈ String.utf8EncodeChar c, (b == (10 : UInt8)) = false := by
          intro b member
          rw [beq_eq_false_iff_ne]
          rintro rfl
          have code : c.toNat = 10 := toNat_of_mem_utf8EncodeChar (by decide) member
          exact isFeed (Char.toNat_inj.mp code)
        rw [splitOnP_append free, inductionHypothesis]
        have notFeed : (c == '\n') = false := by simpa using isFeed
        simp only [notFeed, Bool.false_eq_true, if_false]
        cases rest.splitOnP (· == '\n') with
        | nil => rfl
        | cons piece pieces => simp

/-- The line-feed lines of an encoded text decode to those of the text. -/
theorem splitLines_encode (s : Str) :
    (splitLines 10 (encode s)).map decode = (splitLines '\n' s).map some := by
  have decodeAll : ∀ pieces : List Str,
      (pieces.map encode).map decode = pieces.map some := by
    intro pieces
    simp [decode_encode]
  have lastEmpty : (((s.splitOn '\n').map encode).getLast?.map List.isEmpty).getD false =
      ((s.splitOn '\n').getLast?.map List.isEmpty).getD false := by
    rw [List.getLast?_map]
    cases (s.splitOn '\n').getLast? with
    | none => rfl
    | some piece =>
        cases piece with
        | nil => rfl
        | cons c rest => simp [String.utf8EncodeChar_ne_nil]
  unfold splitLines
  dsimp only
  rw [splitOn_encode, lastEmpty]
  split
  · rw [← List.map_dropLast, decodeAll]
  · rw [decodeAll]

/-- Bytes whose line-feed lines all decode are an encoded text. -/
theorem exists_encode_of_lines {bytes : List UInt8}
    (decodable : ∀ line ∈ splitLines 10 bytes, (decode line).isSome = true) :
    ∃ s, bytes = encode s := by
  have pieces : ∀ piece ∈ bytes.splitOn 10, ∃ s, piece = encode s := by
    intro piece member
    by_cases empty : piece = []
    · exact ⟨[], empty⟩
    · have inLines : piece ∈ splitLines 10 bytes := by
        have kept := filter_splitLines (10 : UInt8) bytes (fun l => !l.isEmpty) rfl
        have : piece ∈ (bytes.splitOn 10).filter fun l => !l.isEmpty := by
          simp [member, empty]
        rw [← kept] at this
        exact List.mem_of_mem_filter this
      obtain ⟨s, found⟩ := Option.isSome_iff_exists.mp (decodable piece inLines)
      exact ⟨s, (encode_of_decode found).symm⟩
  have joined : ∀ parts : List (List UInt8), (∀ part ∈ parts, ∃ s, part = encode s) →
      ∃ s, [(10 : UInt8)].intercalate parts = encode s := by
    intro parts
    induction parts with
    | nil => exact fun _ => ⟨[], rfl⟩
    | cons part parts inductionHypothesis =>
        intro texts
        obtain ⟨s, isText⟩ := texts part (by simp)
        obtain ⟨t, rest⟩ := inductionHypothesis fun other member => texts other (by simp [member])
        cases parts with
        | nil => exact ⟨s, by simp [isText]⟩
        | cons next others =>
            refine ⟨s ++ '\n' :: t, ?_⟩
            rw [List.intercalate_cons_cons, rest, isText, encode_append, encode_cons,
              utf8EncodeChar_newline]
            simp
  obtain ⟨s, isText⟩ := joined _ pieces
  rw [List.intercalate_splitOn] at isText
  exact ⟨s, isText⟩

end Myscm.Library.Utf8
