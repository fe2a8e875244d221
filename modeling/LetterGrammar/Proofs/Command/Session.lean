import Mathlib.Data.List.Forall2
import LetterGrammar.Command.Run
import LetterGrammar.Proofs.Source.Reading
import LetterGrammar.Search.Depth

/-! A conversation says what separate runs say. Asked line by line, the program
answers each line as a quiet run on that line alone would, with a prompt before and
an empty line after. It stops at the end of its input, or at the first line that is
no text, and then keeps what it has said so far. Words from the command line are
answered in the same way, one after the other. -/

namespace LetterGrammar

/-- The lines of the bytes begin with these texts; then they end, or come to a line
that is no text. -/
structure Text.ReadsUpTo (bytes : List UInt8) (texts : List String)
    (rest : List (List UInt8)) : Prop where
  split : SplitsInto bytes (texts.map encode ++ rest)
  unreadable : ∀ line ∈ rest.head?, ∀ s, encode s ≠ line

theorem Text.exists_texts (ls : List (List UInt8)) :
    ∃ (texts : List String) (rest : List (List UInt8)), ls = texts.map encode ++ rest ∧
      ∀ line ∈ rest.head?, ∀ s, encode s ≠ line := by
  induction ls with
  | nil => exact ⟨[], [], rfl, by simp⟩
  | cons line ls ih =>
    by_cases readable : ∃ s, encode s = line
    · obtain ⟨s, rfl⟩ := readable
      obtain ⟨texts, rest, split, unreadable⟩ := ih
      exact ⟨s :: texts, rest, by rw [split]; rfl, unreadable⟩
    · exact ⟨[], line :: ls, rfl, by simpa using readable⟩

theorem Text.exists_readsUpTo (bytes : List UInt8) : ∃ texts rest, ReadsUpTo bytes texts rest := by
  obtain ⟨texts, rest, split, unreadable⟩ := exists_texts (lines bytes)
  exact ⟨texts, rest, splitsInto_iff.mpr split.symm, unreadable⟩

namespace Command

variable {r : Recognizer} {depth : Nat} {o : Options} {source : Opened} {g : Grammar}

attribute [ext] Output Report

/-- A run ends with this report, whatever depth beyond some it is given. -/
def Reports (o : Options) (source : Opened) (stdin : List UInt8) (report : Report) : Prop :=
  ∃ depth, ∀ more ≥ depth, run more o source stdin = some report

/-- What is heard of a reply. -/
def Output.heard (verbose : Bool) (reply : Output) : Output :=
  ⟨reply.out, if verbose then reply.err else ""⟩

/-- All replies after each other. -/
def Output.joined (replies : List Output) : Output :=
  ⟨String.join (replies.map out), String.join (replies.map err)⟩

/-- What a quiet run prints on this word alone. The part for the error stream is
written by verbose runs only. -/
def RepliesAlone (o : Options) (source : Opened) (word : String) (reply : Output) : Prop :=
  ∀ verbose stdin, Reports { o with inputs := [word], quiet := true, verbose := verbose } source stdin
    ⟨reply.heard verbose, 0⟩

/-- How a conversation ends before the lines that are left. -/
def ending : List (List UInt8) → Report
  | [] => ⟨⟨"\n", ""⟩, 0⟩
  | _ :: _ => ⟨⟨"", "stream did not contain valid UTF-8\n"⟩, 1⟩

/-- The replies as a conversation puts them on the screen. -/
def transcript (replies : List Output) : String :=
  String.join (replies.map fun reply => "Enter a string: " ++ reply.out ++ "\n")

@[simp] theorem Output.out_append (a b : Output) : (a ++ b).out = a.out ++ b.out := rfl

@[simp] theorem Output.err_append (a b : Output) : (a ++ b).err = a.err ++ b.err := rfl

@[simp] theorem Output.out_heard (verbose : Bool) (reply : Output) :
    (reply.heard verbose).out = reply.out := rfl

theorem Output.err_heard_append (verbose : Bool) (a b : Output) :
    ((a ++ b).heard verbose).err = (a.heard verbose).err ++ (b.heard verbose).err := by
  cases verbose
  · exact String.append_empty.symm
  · rfl

theorem Output.joined_cons (reply : Output) (replies : List Output) :
    joined (reply :: replies) = reply ++ joined replies := by
  rw [joined, List.map_cons, List.map_cons, String.join_cons, String.join_cons]
  rfl

theorem Output.joined_singleton (reply : Output) : joined [reply] = reply := by
  rw [joined_cons]
  exact Output.ext String.append_empty String.append_empty

theorem transcript_cons (reply : Output) (replies : List Output) :
    transcript (reply :: replies) = "Enter a string: " ++ reply.out ++ "\n" ++ transcript replies := by
  rw [transcript, List.map_cons, String.join_cons]
  rfl

/-- Within this depth and any greater one, the word is checked with this reply. -/
def Checks (r : Recognizer) (depth : Nat) (word : String) (reply : Output) : Prop :=
  ∀ more ≥ depth, ∀ verbose, check r verbose more word = some (reply.heard verbose)

theorem Checks.mono {depth' : Nat} {word : String} {reply : Output} (h : Checks r depth word reply)
    (hd : depth ≤ depth') : Checks r depth' word reply :=
  fun more hm => h more (Nat.le_trans hd hm)

theorem exists_checks {word : String} (h : r.Ends (Word.ofString word)) :
    ∃ depth reply, Checks r depth word reply := by
  obtain ⟨depth, h⟩ := h
  obtain ⟨⟨v, tally⟩, h⟩ := Option.isSome_iff_exists.mp h
  refine ⟨depth, ⟨verdictText v, Text.quoted word ++ ": " ++ tally.text ++ "\n"⟩, ?_⟩
  intro more hm verbose
  rw [check, Recognizer.searchWithin_mono hm h]
  rfl

/-- One depth suffices for all words. -/
theorem exists_checks_all (words : List String)
    (h : ∀ w ∈ words, r.Ends (Word.ofString w)) :
    ∃ depth replies, List.Forall₂ (Checks r depth) words replies := by
  induction words with
  | nil => exact ⟨0, [], .nil⟩
  | cons w words ih =>
    obtain ⟨here, h⟩ := List.forall_mem_cons.mp h
    obtain ⟨depth, reply, checks⟩ := exists_checks here
    obtain ⟨depth', replies, all⟩ := ih h
    refine ⟨max depth depth', reply :: replies, .cons (checks.mono (Nat.le_max_left _ _)) ?_⟩
    exact all.imp fun _ _ checks => checks.mono (Nat.le_max_right _ _)

theorem checkAll_of_checks {words : List String} {replies : List Output}
    (h : List.Forall₂ (Checks r depth) words replies) {more : Nat} (hm : depth ≤ more)
    (verbose : Bool) :
    checkAll r verbose more words = some ((Output.joined replies).heard verbose) := by
  induction h with
  | nil => cases verbose <;> rfl
  | cons checks _ ih =>
    rw [checkAll, checks more hm verbose, ih, Output.joined_cons]
    exact congrArg some (Output.ext rfl (Output.err_heard_append verbose _ _).symm)

theorem converse_of_checks {texts : List String} {replies : List Output}
    (h : List.Forall₂ (Checks r depth) texts replies) {rest : List (List UInt8)}
    (unreadable : ∀ line ∈ rest.head?, ∀ s, Text.encode s ≠ line) {more : Nat} (hm : depth ≤ more)
    (verbose : Bool) :
    converse r verbose more (texts.map Text.encode ++ rest) = some
      ⟨⟨transcript replies ++ "Enter a string: " ++ (ending rest).output.out,
        ((Output.joined replies).heard verbose).err ++ (ending rest).output.err⟩,
        (ending rest).exitCode⟩ := by
  induction h with
  | nil =>
    cases rest with
    | nil => cases verbose <;> rfl
    | cons line rest =>
      have stops : answer r verbose more line = some (.error (ending (line :: rest))) := by
        rw [answer, Text.decode?_of_unreadable (unreadable line rfl)]
        rfl
      simp only [List.map_nil, List.nil_append]
      rw [converse, stops]
      cases verbose <;> rfl
  | @cons text reply texts replies checks _ ih =>
    have goes : answer r verbose more (Text.encode text) =
        some (.ok (reply.heard verbose ++ ⟨"\n", ""⟩)) := by
      rw [answer, Text.decode?_encode]
      simp only [checks more hm verbose, Option.map_some]
    simp only [List.map_cons, List.cons_append]
    rw [converse, goes, ih]
    refine congrArg some (Report.ext (Output.ext ?_ ?_) rfl)
    · simp only [Report.after, Output.out_append, Output.out_heard, transcript_cons, prompt,
        String.append_assoc]
    · simp only [Report.after, Output.err_append, Output.joined_cons, Output.err_heard_append,
        String.append_assoc, String.empty_append]

/-- A run on a grammar that can be read. -/
theorem run_of_parsed (parsed : Grammar.ofOpened o.file source = .ok g) (stdin : List UInt8) :
    run depth o source stdin =
      (if o.inputs.isEmpty then
        converse (recognizer o g.compile) o.verbose depth (Text.lines stdin)
      else (checkAll (recognizer o g.compile) o.verbose depth o.inputs).map fun out => ⟨out, 0⟩).map
        (·.after (preamble o g.compile)) := by
  rw [run, parsed]

theorem reports_of_inputs (parsed : Grammar.ofOpened o.file source = .ok g) (given : o.inputs ≠ [])
    {replies : List Output}
    (checks : List.Forall₂ (Checks (recognizer o g.compile) depth) o.inputs replies)
    (stdin : List UInt8) :
    Reports o source stdin
      ⟨⟨(if o.quiet then "" else g.compile.text ++ "\n") ++ (Output.joined replies).out,
        ((Output.joined replies).heard o.verbose).err⟩, 0⟩ := by
  refine ⟨depth, fun more hm => ?_⟩
  rw [run_of_parsed parsed, if_neg (by simpa using given), checkAll_of_checks checks hm]
  exact congrArg some (Report.ext (Output.ext rfl String.empty_append) rfl)

theorem reports_of_lines (parsed : Grammar.ofOpened o.file source = .ok g) (asked : o.inputs = [])
    {stdin : List UInt8} {texts : List String} {rest : List (List UInt8)}
    (reads : Text.ReadsUpTo stdin texts rest) {replies : List Output}
    (checks : List.Forall₂ (Checks (recognizer o g.compile) depth) texts replies) :
    Reports o source stdin
      ⟨⟨(if o.quiet then "" else g.compile.text ++ "\n") ++ transcript replies
          ++ "Enter a string: " ++ (ending rest).output.out,
        ((Output.joined replies).heard o.verbose).err ++ (ending rest).output.err⟩,
        (ending rest).exitCode⟩ := by
  refine ⟨depth, fun more hm => ?_⟩
  rw [run_of_parsed parsed, if_pos (by rw [asked]; rfl), ← Text.splitsInto_iff.mp reads.split,
    converse_of_checks checks reads.unreadable hm]
  refine congrArg some (Report.ext (Output.ext ?_ String.empty_append) rfl)
  simp only [Report.after, preamble, Output.out_append, String.append_assoc]

theorem repliesAlone_of_checks (parsed : Grammar.ofOpened o.file source = .ok g) {word : String}
    {reply : Output} (checks : Checks (recognizer o g.compile) depth word reply) :
    RepliesAlone o source word reply := by
  intro verbose stdin
  have alone := reports_of_inputs (o := { o with inputs := [word], quiet := true, verbose := verbose })
    parsed (List.cons_ne_nil _ _) (.cons checks .nil) stdin
  simp only [Output.joined_singleton, if_true, String.empty_append] at alone
  exact alone

/-- Asked line by line, a run replies to each text as a quiet run on it alone, up to
the end of its input or the first line that is no text. Given words, it replies to
them in the same way and reads nothing. -/
theorem replies_as_alone (parsed : Grammar.ofOpened o.file source = .ok g) (stdin : List UInt8) :
    (o.inputs = [] →
      (∃ texts rest, Text.ReadsUpTo stdin texts rest) ∧
      ∀ texts rest, Text.ReadsUpTo stdin texts rest →
        (∀ w ∈ texts, (recognizer o g.compile).Ends (Word.ofString w)) →
        ∃ replies, List.Forall₂ (RepliesAlone o source) texts replies ∧
          Reports o source stdin
            ⟨⟨(if o.quiet then "" else g.compile.text ++ "\n") ++ transcript replies
                ++ "Enter a string: " ++ (ending rest).output.out,
              ((Output.joined replies).heard o.verbose).err ++ (ending rest).output.err⟩,
              (ending rest).exitCode⟩) ∧
    (o.inputs ≠ [] → (∀ w ∈ o.inputs, (recognizer o g.compile).Ends (Word.ofString w)) →
      ∃ replies, List.Forall₂ (RepliesAlone o source) o.inputs replies ∧
        Reports o source stdin
          ⟨⟨(if o.quiet then "" else g.compile.text ++ "\n") ++ (Output.joined replies).out,
            ((Output.joined replies).heard o.verbose).err⟩, 0⟩) := by
  constructor
  · intro asked
    refine ⟨Text.exists_readsUpTo stdin, fun texts rest reads ends => ?_⟩
    obtain ⟨depth, replies, checks⟩ := exists_checks_all texts ends
    exact ⟨replies, checks.imp fun _ _ => repliesAlone_of_checks parsed,
      reports_of_lines parsed asked reads checks⟩
  · intro given ends
    obtain ⟨depth, replies, checks⟩ := exists_checks_all o.inputs ends
    exact ⟨replies, checks.imp fun _ _ => repliesAlone_of_checks parsed,
      reports_of_inputs parsed given checks stdin⟩

/-- A session on a file that holds one rule. -/
def countdown : Options := ⟨"rules.txt", none, [], false, true⟩

def countdownSource : Opened := .bytes (Text.encode "S>aS|b\n")

def countdownGrammar : Grammar := ⟨[⟨'S', [['a', 'S'], ['b']]⟩]⟩

theorem countdown_parsed :
    Grammar.ofOpened countdown.file countdownSource = .ok countdownGrammar := by
  have trims : Text.Trims "S>aS|b".toList ['S', '>', 'a', 'S', '|', 'b'] := Text.trims_iff.mpr rfl
  have stands : Rule.StandsOn ⟨'S', [['a', 'S'], ['b']]⟩ ['S', '>', 'a', 'S', '|', 'b'] :=
    ⟨rfl, by simp, by simp, by simp, rfl⟩
  have lines : Text.lines (Text.encode "S>aS|b\n") = [Text.encode "S>aS|b"] := rfl
  have read : Grammar.rulesOfLines "rules.txt" 1 (Text.lines (Text.encode "S>aS|b\n")) =
      .ok countdownGrammar.rules := by
    rw [lines]
    exact Grammar.rulesOfLines_of_lineHolds "rules.txt" (.cons (.rule trims stands) .nil) 1
  exact Grammar.ofBytes_eq_ok_iff.mpr read

/-- A line with a carriage return, one without, one that is no text, and one more. -/
def countdownInput : List UInt8 := Text.encode "aab\r\nba\n" ++ [255, 10] ++ Text.encode "b\n"

theorem countdown_replies :
    Grammar.ofOpened countdown.file countdownSource = .ok countdownGrammar ∧
      Text.ReadsUpTo countdownInput ["aab", "ba"] [[255], [98]] ∧
      (∃ replies, List.Forall₂ (RepliesAlone countdown countdownSource) ["aab", "ba"] replies ∧
        Reports countdown countdownSource countdownInput
          ⟨⟨countdownGrammar.compile.text ++ "\n" ++ transcript replies ++ "Enter a string: " ++ "",
            (Output.joined replies).err ++ "stream did not contain valid UTF-8\n"⟩, 1⟩) ∧
      ∃ replies, List.Forall₂ (RepliesAlone { countdown with inputs := ["aab", "ba"] } countdownSource)
          ["aab", "ba"] replies ∧
        Reports { countdown with inputs := ["aab", "ba"] } countdownSource countdownInput
          ⟨⟨countdownGrammar.compile.text ++ "\n" ++ (Output.joined replies).out,
            (Output.joined replies).err⟩, 0⟩ := by
  have reads : Text.ReadsUpTo countdownInput ["aab", "ba"] [[255], [98]] := by
    refine ⟨Text.splitsInto_iff.mpr rfl, fun line hl s spelt => ?_⟩
    obtain rfl : [255] = line := Option.some.inj hl
    have decoded := Text.decode?_encode s
    have undecoded : Text.decode? [255] = none := rfl
    rw [spelt, undecoded] at decoded
    cases decoded
  have ends : ∀ w ∈ ["aab", "ba"],
      (recognizer countdown countdownGrammar.compile).Ends (Word.ofString w) := by
    intro w hw
    simp only [List.mem_cons, List.not_mem_nil, or_false] at hw
    rcases hw with rfl | rfl
    · exact ⟨9, rfl⟩
    · exact ⟨9, rfl⟩
  exact ⟨countdown_parsed, reads, ((replies_as_alone countdown_parsed _).1 rfl).2 _ _ reads ends,
    (replies_as_alone (o := { countdown with inputs := ["aab", "ba"] }) countdown_parsed _).2
      (List.cons_ne_nil _ _) ends⟩

end Command

end LetterGrammar
