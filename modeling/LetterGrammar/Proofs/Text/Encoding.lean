import Mathlib.Data.List.Basic
import LetterGrammar.Proofs.Text.Layout

/-! How the bytes of a text follow its characters. A byte of ASCII is in the
encoding of one character only, which it spells alone. So the newlines and the
carriage returns among the bytes are those of the text. -/

namespace LetterGrammar.Text

theorem encode_ofList (cs : List Char) :
    encode (String.ofList cs) = cs.flatMap String.utf8EncodeChar := by
  rw [encode, String.toByteArray_ofList, List.utf8Encode, List.toList_data_toByteArray]

theorem encode_ofList_append (cs ds : List Char) :
    encode (String.ofList (cs ++ ds)) = encode (String.ofList cs) ++ encode (String.ofList ds) := by
  simp only [encode_ofList, List.flatMap_append]

theorem mem_encodeChar_iff {b : UInt8} {c d : Char} (spells : d.val.toNat = b.toNat)
    (ascii : b.toNat < 0x80) : b ∈ String.utf8EncodeChar c ↔ c = d := by
  have byte (n : Nat) : b = UInt8.ofNat n ↔ b.toNat = n % 256 := by
    rw [← UInt8.toNat_inj, UInt8.toNat_ofNat']
  have char : c = d ↔ c.val.toNat = d.val.toNat := by rw [Char.ext_iff, UInt32.toNat_inj]
  rw [char, String.utf8EncodeChar]
  -- the bytes of a longer encoding are all beyond ASCII
  split_ifs with one two three <;> simp only [List.mem_cons, List.not_mem_nil, or_false, byte] <;>
    omega

theorem newline_mem_encode_iff {cs : List Char} :
    newline ∈ encode (String.ofList cs) ↔ '\n' ∈ cs := by
  have char (c : Char) : newline ∈ String.utf8EncodeChar c ↔ c = '\n' :=
    mem_encodeChar_iff rfl (by decide)
  simp [encode_ofList, char]

theorem encode_returned (cs : List Char) :
    encode (String.ofList (cs ++ ['\r'])) = encode (String.ofList cs) ++ [carriageReturn] := by
  rw [encode_ofList_append]
  rfl

/-- What is before a carriage return at the end of the bytes spells what is before
one at the end of the text. -/
theorem exists_of_ends {cs : List Char} {line : List UInt8}
    (h : Ends (encode (String.ofList cs)) line) :
    ∃ ds, line = encode (String.ofList ds) ∧ (cs = ds ∨ cs = ds ++ ['\r']) := by
  generalize spelt : encode (String.ofList cs) = bytes at h
  cases h with
  | plain => exact ⟨cs, spelt.symm, .inl rfl⟩
  | returned =>
    rcases List.eq_nil_or_concat' cs with rfl | ⟨ds, c, rfl⟩
    · exact absurd (spelt.symm.trans (encode_ofList [])) (by simp)
    · have last : (String.utf8EncodeChar c).getLast? = some carriageReturn := by
        have ends := congrArg List.getLast? spelt
        rwa [encode_ofList_append, encode_ofList [c], List.flatMap_singleton,
          List.getLast?_append_of_ne_nil _ String.utf8EncodeChar_ne_nil,
          List.getLast?_concat] at ends
      obtain rfl : c = '\r' :=
        (mem_encodeChar_iff rfl (by decide)).mp (List.mem_of_getLast? last)
      rw [encode_returned] at spelt
      exact ⟨ds, (List.append_cancel_right spelt).symm, .inr rfl⟩

theorem lines_encode_of_unbroken {piece : List Char} (h : '\n' ∉ piece) :
    lines (encode (String.ofList piece)) =
      if piece = [] then [] else [encode (String.ofList piece)] := by
  have empty : encode (String.ofList piece) = [] ↔ piece = [] := by
    rw [encode_ofList, List.flatMap_eq_nil_iff, List.eq_nil_iff_forall_not_mem]
    exact forall₂_congr fun c _ => iff_of_false String.utf8EncodeChar_ne_nil id
  simp only [lines_of_unbroken (newline_mem_encode_iff.not.mpr h), empty]

theorem lines_encode_append_newline {piece : List Char} (h : '\n' ∉ piece) (rest : List Char) :
    lines (encode (String.ofList (piece ++ '\n' :: rest))) =
      dropReturn (encode (String.ofList piece)) :: lines (encode (String.ofList rest)) := by
  have cut : encode (String.ofList (piece ++ '\n' :: rest)) =
      encode (String.ofList piece) ++ newline :: encode (String.ofList rest) := by
    simp only [encode_ofList, List.flatMap_append, List.flatMap_cons]
    rfl
  rw [cut, lines_append_newline (newline_mem_encode_iff.not.mpr h)]

theorem encode_injective {s t : String} (h : encode s = encode t) : s = t := by
  have decoded := congrArg decode? h
  rwa [decode?_encode, decode?_encode, Option.some.injEq] at decoded

end LetterGrammar.Text
