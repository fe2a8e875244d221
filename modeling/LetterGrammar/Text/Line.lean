import LetterGrammar.Text.Characters

/-! Lines of a byte stream, and what is left of a text once the white space is taken
off both ends. A line ends at a newline byte, and one carriage return just before that
byte belongs to the ending. What follows the last newline is a line only when it is not
empty, and keeps its carriage return. -/

namespace LetterGrammar.Text

def newline : UInt8 := 10

def carriageReturn : UInt8 := 13

/-- Takes one carriage return off the end. -/
def dropReturn (piece : List UInt8) : List UInt8 :=
  if piece.getLast? = some carriageReturn then piece.dropLast else piece

def lines (bytes : List UInt8) : List (List UInt8) :=
  let pieces := bytes.splitOn newline
  pieces.dropLast.map dropReturn ++ pieces.getLast?.toList.filter (!·.isEmpty)

/-- The text that bytes spell in UTF-8, if they spell one. -/
def decode? (bytes : List UInt8) : Option String := String.fromUTF8? bytes.toByteArray

def encode (s : String) : List UInt8 := s.toByteArray.data.toList

theorem decode?_encode (s : String) : decode? (encode s) = some s := by
  have h : (encode s).toByteArray = s.toByteArray := by
    apply ByteArray.ext
    simp [encode]
  simp only [decode?, h, String.fromUTF8?]
  rw [dif_pos s.isValidUTF8]
  rfl

theorem encode_of_decode? {bytes : List UInt8} {s : String} (h : decode? bytes = some s) :
    encode s = bytes := by
  rw [decode?, String.fromUTF8?] at h
  split at h
  · cases h
    simp [encode, String.fromUTF8]
  · cases h

theorem decode?_of_unreadable {bytes : List UInt8} (h : ∀ s, encode s ≠ bytes) :
    decode? bytes = none := by
  cases hd : decode? bytes with
  | none => rfl
  | some s => exact absurd (encode_of_decode? hd) (h s)

def trimStart (cs : List Char) : List Char := cs.dropWhile isBlank

def trimEnd (cs : List Char) : List Char := (cs.reverse.dropWhile isBlank).reverse

def trim (cs : List Char) : List Char := trimEnd (trimStart cs)

theorem trimStart_append_of_blank {pad cs : List Char} (h : ∀ c ∈ pad, isBlank c = true) :
    trimStart (pad ++ cs) = trimStart cs := by
  rw [trimStart, List.dropWhile_append_of_pos h, trimStart]

theorem trimEnd_append_of_blank {cs pad : List Char} (h : ∀ c ∈ pad, isBlank c = true) :
    trimEnd (cs ++ pad) = trimEnd cs := by
  rw [trimEnd, List.reverse_append, List.dropWhile_append_of_pos (by simpa using h), trimEnd]

end LetterGrammar.Text
