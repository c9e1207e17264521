import DebugArrays.Proofs.Protocol.Weight
import DebugArrays.Server.Lines
import Mathlib.Algebra.Ring.Nat
import Mathlib.Data.List.Basic

/-!
From bytes to requests: which lines have a text, which lines an input has, and how much the requests
can weigh that are read from it.
-/
namespace DebugArrays

/-- Bytes are the text that they encode. -/
theorem fromUTF8?_eq_some_iff {bytes : List UInt8} {text : String} :
    String.fromUTF8? (ByteArray.mk bytes.toArray) = some text ↔
      text.toList.flatMap String.utf8EncodeChar = bytes := by
  have encoded : text.toByteArray.data.toList = text.toList.flatMap String.utf8EncodeChar := by
    rw [← String.utf8Encode_toList]
    exact List.toList_data_toByteArray
  unfold String.fromUTF8?
  constructor
  · intro decoded
    obtain ⟨valid, made⟩ := Option.dite_none_right_eq_some.1 decoded
    cases made
    exact encoded.symm
  · rintro rfl
    have same : ByteArray.mk (text.toList.flatMap String.utf8EncodeChar).toArray =
        text.toByteArray := by
      rw [← encoded, Array.toArray_toList]
    rw [dif_pos (same ▸ text.isValidUTF8), Option.some.injEq, ← String.toByteArray_inj]
    exact same

theorem length_toList_le_of_fromUTF8? {bytes : List UInt8} {text : String}
    (h : String.fromUTF8? (ByteArray.mk bytes.toArray) = some text) :
    text.toList.length ≤ bytes.length := by
  rw [← fromUTF8?_eq_some_iff.1 h]
  generalize text.toList = cs
  induction cs with
  | nil => exact Nat.le_refl 0
  | cons c rest ih =>
      have pos := c.utf8Size_pos
      rw [List.length_cons, List.flatMap_cons, List.length_append, String.length_utf8EncodeChar]
      omega

/-- Only a carriage return is encoded with a carriage return at the end. -/
theorem eq_of_getLast?_utf8EncodeChar {c : Char}
    (h : (String.utf8EncodeChar c).getLast? = some 13) : c = '\r' := by
  have byte : ∀ n : Nat, UInt8.ofNat n = 13 → n % 256 = 13 := by
    intro n same
    have number := congrArg UInt8.toNat same
    rwa [UInt8.toNat_ofNat'] at number
  unfold String.utf8EncodeChar at h
  dsimp only at h
  split at h
  · have number := byte _ (Option.some.inj h)
    have same : c.val.toNat = 13 := by omega
    exact Char.ext (UInt32.toNat_inj.1 same)
  · -- the last byte of a longer encoding is a continuation byte
    split at h
    · have number := byte _ (Option.some.inj h)
      omega
    · split at h
      · have number := byte _ (Option.some.inj h)
        omega
      · have number := byte _ (Option.some.inj h)
        omega

namespace Server

/-- Bytes that are the text of something. -/
def HasText (bytes : List UInt8) : Prop :=
  ∃ text, String.fromUTF8? (ByteArray.mk bytes.toArray) = some text ∧
    Text.isBlankText text = false

/-- A carriage return at the end makes no text of what is none, and takes none away. -/
theorem hasText_concat_return (bytes : List UInt8) : HasText (bytes ++ [13]) ↔ HasText bytes := by
  unfold HasText
  simp only [fromUTF8?_eq_some_iff]
  constructor
  · rintro ⟨text, encoded, shown⟩
    rcases cut : text.toList.reverse with _ | ⟨c, before⟩
    · rw [List.reverse_eq_nil_iff.1 cut] at encoded
      simp at encoded
    · have whole : text.toList = before.reverse ++ [c] := by
        rw [← List.reverse_reverse text.toList, cut, List.reverse_cons]
      rw [whole, List.flatMap_append, List.flatMap_singleton] at encoded
      have last : (String.utf8EncodeChar c).getLast? = some 13 := by
        have ends := congrArg List.getLast? encoded
        rwa [List.getLast?_append_of_ne_nil, List.getLast?_concat] at ends
        rw [← List.length_pos_iff, String.length_utf8EncodeChar]
        exact c.utf8Size_pos
      cases eq_of_getLast?_utf8EncodeChar last
      refine ⟨String.ofList before.reverse, ?_, ?_⟩
      · rw [String.toList_ofList]
        exact List.append_cancel_right encoded
      · rw [Text.isBlankText, String.toList_ofList]
        rw [Text.isBlankText, whole, List.all_append] at shown
        simpa [Text.isBlank, Text.blankRanges] using shown
  · rintro ⟨text, rfl, shown⟩
    refine ⟨String.ofList (text.toList ++ ['\r']), ?_, ?_⟩
    · rw [String.toList_ofList, List.flatMap_append]
      rfl
    · unfold Text.isBlankText at shown ⊢
      rw [String.toList_ofList, List.all_append, shown, Bool.false_and]

theorem isSome_textOfLine? (line : List UInt8) :
    (textOfLine? line).isSome = true ↔ HasText line := by
  have same : HasText (if line.getLast? = some 13 then line.dropLast else line) ↔
      HasText line := by
    split
    · next ended =>
      have split := List.dropLast_append_getLast? 13 ended
      rw [← hasText_concat_return, split]
    · rfl
  rw [← same]
  unfold textOfLine? HasText
  dsimp only
  generalize (if line.getLast? = some 13 then line.dropLast else line) = bytes
  cases String.fromUTF8? (ByteArray.mk bytes.toArray) with
  | none => simp
  | some text => simp

theorem length_toList_of_textOfLine? {line : List UInt8} {text : String}
    (h : textOfLine? line = some text) : text.toList.length ≤ line.length := by
  unfold textOfLine? at h
  dsimp only at h
  split at h
  · next decoded =>
    split at h
    · cases h
    · cases h
      refine Nat.le_trans (length_toList_le_of_fromUTF8? decoded) ?_
      split
      · rw [List.length_dropLast]
        exact Nat.sub_le _ _
      · exact Nat.le_refl _
  · cases h

theorem cutLines_append_line {line : List UInt8} (clean : 10 ∉ line) (rest : List UInt8) :
    cutLines (line ++ 10 :: rest) = (line :: (cutLines rest).1, (cutLines rest).2) := by
  induction line with
  | nil => rfl
  | cons byte line ih =>
      rw [List.mem_cons, not_or] at clean
      rw [List.cons_append, cutLines, ih clean.2]
      exact if_neg (Ne.symm clean.1)

theorem cutLines_of_notMem {last : List UInt8} (clean : 10 ∉ last) :
    cutLines last = ([], last) := by
  induction last with
  | nil => rfl
  | cons byte rest ih =>
      rw [List.mem_cons, not_or] at clean
      rw [cutLines, ih clean.2]
      exact if_neg (Ne.symm clean.1)

/-- The bytes of lines that are all ended, with more bytes after them. -/
def joinLines (ended : List (List UInt8)) (last : List UInt8) : List UInt8 :=
  ended.flatMap (fun line => line ++ [10]) ++ last

/-- An input has the lines that it was joined from; nothing after the last line feed is no line. -/
theorem splitLines_joinLines {ended : List (List UInt8)} {last : List UInt8}
    (clean : ∀ line ∈ ended, 10 ∉ line) (cleanLast : 10 ∉ last) :
    splitLines (joinLines ended last) = if last = [] then ended else ended ++ [last] := by
  have cut : cutLines (joinLines ended last) = (ended, last) := by
    unfold joinLines
    induction ended with
    | nil => exact cutLines_of_notMem cleanLast
    | cons line rest ih =>
        rw [List.forall_mem_cons] at clean
        rw [List.flatMap_cons, List.append_assoc, List.append_assoc, List.singleton_append,
          cutLines_append_line clean.1, ih clean.2]
  unfold splitLines
  rw [cut]
  cases last <;> rfl

theorem sum_length_cutLines_le (input : List UInt8) :
    ((cutLines input).1.map List.length).sum + (cutLines input).2.length ≤ input.length := by
  induction input with
  | nil => exact Nat.le_refl 0
  | cons byte rest ih =>
      unfold cutLines
      dsimp only
      rw [List.length_cons]
      split
      · simp only [List.map_cons, List.sum_cons, List.length_nil]
        omega
      · split
        · next none =>
          rw [none] at ih
          simp only [List.map_nil, List.sum_nil, List.length_cons] at ih ⊢
          omega
        · next some =>
          rw [some] at ih
          simp only [List.map_cons, List.sum_cons, List.length_cons] at ih ⊢
          omega

theorem sum_length_splitLines_le (input : List UInt8) :
    ((splitLines input).map List.length).sum ≤ input.length := by
  have bound := sum_length_cutLines_le input
  unfold splitLines
  dsimp only
  split
  · omega
  · rw [List.map_append, List.sum_append, List.map_singleton, List.sum_singleton]
    exact bound

/-- What a line decodes to, if it has a text and the text is a request's. -/
def decoded? (line : List UInt8) : Option (Message Request) :=
  (textOfLine? line).bind Message.requestOfText?

/-- The requests of lines, in order. -/
def requests (lines : List (List UInt8)) : List Request :=
  (lines.filterMap decoded?).map Message.content

theorem weight_requests_le (lines : List (List UInt8)) :
    ((requests lines).map Request.weight).sum ≤ (lines.map List.length).sum := by
  unfold requests
  induction lines with
  | nil => exact Nat.le_refl 0
  | cons line rest ih =>
      rw [List.map_cons, List.sum_cons]
      cases read : decoded? line with
      | none =>
          rw [List.filterMap_cons_none read]
          omega
      | some m =>
          obtain ⟨text, found, parsed⟩ := Option.bind_eq_some_iff.1 read
          have heavy := Message.weight_le_of_requestOfText? parsed
          have long := length_toList_of_textOfLine? found
          rw [List.filterMap_cons_some read, List.map_cons, List.map_cons, List.sum_cons]
          omega

end Server

end DebugArrays
