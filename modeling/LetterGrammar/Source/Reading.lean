import LetterGrammar.Source.Error
import LetterGrammar.Text.Line

/-! Grammars read from bytes. Every line counts towards the line numbers, blank
ones are passed over, every other one has to be a rule, and the first that is
not decides the error. Which grammars have a written form that can be read back. -/

namespace LetterGrammar

/-- What became of opening a source. -/
inductive Opened where
  | refused (error : ReadError)
  /-- It could be opened, and then gave nothing. -/
  | unreadable (error : ReadError)
  | bytes (content : List UInt8)

namespace Grammar

/-- The rule on a line, if the line is not blank. -/
def ruleOfLine (line : List UInt8) : Except Cause (Option Rule) :=
  match Text.decode? line with
  | none => .error (.unreadableSource .notUnicode)
  | some s =>
    let trimmed := Text.trim s.toList
    if trimmed.isEmpty then .ok none
    else match Rule.read trimmed with
      | .ok r => .ok (some r)
      | .error d => .error (.malformedRule d)

/-- The rules on lines of which the first has the number `n`. -/
def rulesOfLines (file : String) : Nat → List (List UInt8) → Except SourceError (List Rule)
  | _, [] => .ok []
  | n, line :: rest =>
    match ruleOfLine line with
    | .error cause => .error ⟨⟨file, n⟩, cause⟩
    | .ok none => rulesOfLines file (n + 1) rest
    | .ok (some r) => (rulesOfLines file (n + 1) rest).map (r :: ·)

def ofBytes (file : String) (bytes : List UInt8) : Except SourceError Grammar :=
  (rulesOfLines file 1 (Text.lines bytes)).map Grammar.mk

/-- Reads a text that comes from no file. -/
def ofText (s : String) : Except SourceError Grammar := ofBytes "<string>" (Text.encode s)

def ofOpened (file : String) : Opened → Except SourceError Grammar
  | .refused e => .error ⟨.whole file, .unreadableSource e⟩
  | .unreadable e => .error ⟨⟨file, 1⟩, .unreadableSource e⟩
  | .bytes content => ofBytes file content

end Grammar

/-- A rule that can stand on a line of its own and be read back. -/
structure Rule.Renderable (r : Rule) : Prop where
  capital : r.nonterminal.isUpper = true
  alternatives_ne_nil : r.alternatives ≠ []
  alternative_ne_nil : ∀ w ∈ r.alternatives, w ≠ []
  unbarred : ∀ w ∈ r.alternatives, '|' ∉ w
  unbroken : ∀ w ∈ r.alternatives, '\n' ∉ w
  /-- White space at the end would be taken for padding. -/
  trimmed : ∀ w ∈ r.alternatives.getLast?, Text.trimEnd w = w

def Grammar.Renderable (g : Grammar) : Prop := ∀ r ∈ g.rules, r.Renderable

/-- Every rule on a line of its own. -/
def Grammar.written (g : Grammar) : Word := g.rules.flatMap fun r => r.written ++ ['\n']

end LetterGrammar
