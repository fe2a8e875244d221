/-! Text without what only a terminal acts on. Escape sequences are left out
from the escape character to their end, and so are control characters other
than those that lay out text. A layout character inside a sequence is kept, and
begins a run of text; what becomes of the interrupted sequence after that run
differs between a text taken as a whole and one that is written out. -/

namespace LetterGrammar.Text

/-- The escape sequence that a reader is in. -/
inductive Escape where
  | none
  /-- After the escape character. -/
  | opened
  /-- After an intermediate character; a final one ends the sequence. -/
  | intermediate
  /-- In a control sequence, which ends at a letter or a sign like one. -/
  | control
  /-- In an operating system command, which a bell ends. -/
  | command
  /-- After the opening of a device control string. -/
  | device
  | deviceParameters
  | deviceIntermediate
  /-- In a string of data, which only a terminator ends. -/
  | payload

/-- The controls that lay out text: tab, line feed, form feed, return. -/
def laysOut (c : Char) : Bool := c == '\t' || c == '\n' || c == '\x0c' || c == '\r'

def isAscii (c : Char) : Bool := decide (c < '\x80')

def isControl (c : Char) : Bool := decide (c < ' ') || c == '\x7f'

/-- Terminators are bytes, and a character outside ASCII may be spelt with one. -/
def holdsTerminator (c : Char) : Bool := (String.utf8EncodeChar c).contains 0x9c

namespace Escape

/-- Where an escape character followed by `c` leads. -/
def enter (c : Char) : Escape :=
  if c == '[' then control
  else if c == ']' then command
  else if c == 'P' then device
  else if c == 'X' || c == '^' || c == '_' then payload
  else if decide (c ≤ '/') then intermediate
  else none

/-- After a control character that neither opens nor breaks off a sequence. -/
def afterControl (e : Escape) (c : Char) : Escape × Bool :=
  match e with
  | command => (if c == '\x07' then none else command, false)
  | device | deviceParameters | deviceIntermediate | payload => (e, false)
  | _ => (e, laysOut c)

/-- After a character outside ASCII. -/
def afterWide (e : Escape) (c : Char) : Escape × Bool :=
  match e with
  | none => (none, true)
  | payload => (if holdsTerminator c then none else payload, false)
  | _ => (e, false)

/-- After a character of ASCII that shows. -/
def afterSign (e : Escape) (c : Char) : Escape × Bool :=
  match e with
  | none => (none, true)
  | opened => (enter c, false)
  | intermediate => (if decide (c ≤ '/') then intermediate else none, false)
  | control => (if decide (c ≤ '?') then control else none, false)
  | command => (command, false)
  | device =>
    (if decide (c ≤ '/') then deviceIntermediate
      else if decide (c ≤ '?') then deviceParameters else payload, false)
  | deviceParameters =>
    (if decide (c ≤ '/') then deviceIntermediate
      else if decide (c ≤ ';') then deviceParameters else payload, false)
  | deviceIntermediate => (if decide (c ≤ '/') then deviceIntermediate else payload, false)
  | payload => (payload, false)

/-- Reads one character: the sequence after it, and whether it is kept. -/
def next (e : Escape) (c : Char) : Escape × Bool :=
  if c == '\x1b' then (opened, false)
  else if c == '\x18' || c == '\x1a' then (none, false)
  else if !isAscii c then e.afterWide c
  else if isControl c then e.afterControl c
  else e.afterSign c

end Escape

/-- Inside a run of text every character is kept that would be outside all
sequences. With `resumes`, a sequence that the run interrupted goes on after it,
unless the run holds a character outside ASCII. -/
def plainFrom (resumes : Bool) (inRun : Bool) (e : Escape) : List Char → List Char
  | [] => []
  | c :: cs =>
    let pending (e : Escape) : Escape := if resumes && isAscii c then e else .none
    if inRun && (Escape.none.next c).2 then c :: plainFrom resumes true (pending e) cs
    else if (e.next c).2 then c :: plainFrom resumes true (pending (e.next c).1) cs
    else plainFrom resumes false (e.next c).1 cs

/-- A text taken as a whole: a run ends the sequence that it interrupts. -/
def plain (s : String) : String := String.ofList (plainFrom false false .none s.toList)

/-- A text written out to where no terminal listens: a run only suspends the
sequence that it interrupts. -/
def piped (s : String) : String := String.ofList (plainFrom true false .none s.toList)

/-- The first line, without its ending. -/
def firstLine (s : String) : String :=
  let line := s.toList.takeWhile (· != '\n')
  String.ofList (if line.getLast? = some '\r' then line.dropLast else line)

theorem Escape.none_next {c : Char} (h : isControl c = false) :
    Escape.none.next c = (.none, true) := by
  have hc : c ≠ '\x1b' ∧ c ≠ '\x18' ∧ c ≠ '\x1a' := by
    refine ⟨?_, ?_, ?_⟩ <;> rintro rfl <;> exact absurd h (by decide)
  by_cases hw : isAscii c = true
  · simp [Escape.next, hc, hw, h, Escape.afterSign]
  · simp [Escape.next, hc, hw, Escape.afterWide]

/-- A text without controls stays as it is. -/
theorem plainFrom_eq_self {resumes inRun : Bool} {cs : List Char}
    (h : ∀ c ∈ cs, isControl c = false) : plainFrom resumes inRun .none cs = cs := by
  induction cs generalizing inRun with
  | nil => rfl
  | cons c cs ih =>
    have hn := Escape.none_next (h c List.mem_cons_self)
    have ht (b : Bool) : plainFrom resumes b .none cs = cs :=
      ih fun d hd => h d (List.mem_cons_of_mem _ hd)
    simp [plainFrom, hn, ht]

end LetterGrammar.Text
