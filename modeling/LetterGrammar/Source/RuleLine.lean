import LetterGrammar.Grammar

/-! One rule on a line of its own: a capital letter, an arrow `>`, and
alternatives between bars. All that stands between two bars belongs to the
alternative, further arrows and white space included. Tokenising a body loses
nothing of it. -/

namespace LetterGrammar

/-- Why a line is not a rule. -/
inductive RuleDefect where
  | missingNonterminal
  | missingArrow
  | emptyAlternative
deriving DecidableEq

def RuleDefect.text : RuleDefect → String
  | missingNonterminal => "expected a single uppercase nonterminal at the start of the line"
  | missingArrow => "expected `>` after the nonterminal"
  | emptyAlternative => "alternatives must not be empty"

inductive Token where
  | bar
  | text (w : Word)
deriving DecidableEq

/-- A line whose head has been checked, its body still in tokens. -/
structure RuleLine where
  nonterminal : Char
  body : List Token
deriving DecidableEq

namespace RuleLine

/-- Reads the head. Beside the answer stands what is left of the line; a
letter that was refused is gone from it. -/
def takeNonterminal : Word → Except RuleDefect Char × Word
  | [] => (.error .missingNonterminal, [])
  | c :: rest => (if c.isUpper then .ok c else .error .missingNonterminal, rest)

def takeArrow : Word → Except RuleDefect Unit × Word
  | [] => (.error .missingArrow, [])
  | c :: rest => (if c = '>' then .ok () else .error .missingArrow, rest)

/-- Reads up to the next bar, which stays. -/
def takeText (line : Word) : Token × Word :=
  (.text (line.takeWhile (· != '|')), line.dropWhile (· != '|'))

theorem length_takeText_lt {c : Char} (rest : Word) (h : c ≠ '|') :
    (takeText (c :: rest)).2.length < (c :: rest).length := by
  have hs := (List.dropWhile_sublist (l := rest) (· != '|')).length_le
  have hd : (takeText (c :: rest)).2 = rest.dropWhile (· != '|') := by
    simp [takeText, h]
  rw [hd, List.length_cons]
  exact Nat.lt_succ_of_le hs

def tokens : Word → List Token
  | [] => []
  | c :: rest =>
    if c = '|' then .bar :: tokens rest
    else (takeText (c :: rest)).1 :: tokens (takeText (c :: rest)).2
termination_by line => line.length
decreasing_by
  · exact Nat.lt_succ_self _
  · exact length_takeText_lt rest ‹_›

def read (line : Word) : Except RuleDefect RuleLine :=
  match takeNonterminal line with
  | (.error d, _) => .error d
  | (.ok n, headless) =>
    match takeArrow headless with
    | (.error d, _) => .error d
    | (.ok (), body) => .ok ⟨n, tokens body⟩

/-- What stands between two bars has to be one text. -/
def alternative : List Token → Except RuleDefect Word
  | [.text w] => .ok w
  | _ => .error .emptyAlternative

def rule (l : RuleLine) : Except RuleDefect Rule := do
  let alternatives ← (l.body.splitOn .bar).mapM alternative
  return ⟨l.nonterminal, alternatives⟩

end RuleLine

def Rule.read (line : Word) : Except RuleDefect Rule := do (← RuleLine.read line).rule

def Token.written : Token → Word
  | .bar => ['|']
  | .text w => w

namespace RuleLine

def written (l : RuleLine) : Word := l.nonterminal :: '>' :: l.body.flatMap Token.written

theorem written_tokens (body : Word) : (tokens body).flatMap Token.written = body := by
  fun_induction tokens body with
  | case1 => rfl
  | case2 rest ih => simpa [Token.written] using ih
  | case3 c rest hc ih =>
    rw [List.flatMap_cons, ih]
    exact List.takeWhile_append_dropWhile

end RuleLine

def Rule.written (r : Rule) : Word :=
  r.nonterminal :: '>' :: List.intercalate ['|'] r.alternatives

end LetterGrammar
