import Mathlib.Logic.Basic
import Mathlib.Tactic.Lemma
import Mathlib.Tactic.SplitIfs
import Scriptlet.Console

/-!
# What a conversation is

A conversation is decided by the submissions at the front of its input: the lines up to the first
one that is no text, is blank or says `exit`.  `Console.submissions` are their texts.  The console
evaluates them in order (`Console.afterAll`), and what it writes is determined by them alone
(`Console.transcript`): for each a prompt and an answer, and then one more prompt.  With an output
that takes everything this is all there is to say, and with a limited one the conversation is the
same up to the byte that does not fit.  A submission is evaluated as soon as its prompt was written,
whether or not its answer fits.

The lines of an input are cut by a recursion on its bytes; `Line.Divides` says what they are without
it.
-/

namespace Scriptlet

/-! ## Lines -/

namespace Line

end Line

/-! ## Outputs -/

/-- The bytes of a text. -/
def utf8 (text : String) : List UInt8 := text.toUTF8.toList

namespace Sink

variable {n : Nat} {text : String} (w : List UInt8)

/-- A stream without a limit takes every text in full. -/
lemma write_unlimited (text : String) :
    write ⟨w, none⟩ text = (true, ⟨w ++ utf8 text, none⟩) := rfl

/-- A limited stream takes as much of a text as fits, and says whether that was all. -/
lemma write_limited (n : Nat) (text : String) :
    write ⟨w, some n⟩ text = (decide ((utf8 text).length ≤ n),
      ⟨w ++ (utf8 text).take n, some (n - (utf8 text).length)⟩) := rfl

/-- What fits is written. -/
lemma write_of_le (h : (utf8 text).length ≤ n) :
    write ⟨w, some n⟩ text = (true, ⟨w ++ utf8 text, some (n - (utf8 text).length)⟩) := by
  rw [write_limited, decide_eq_true h, List.take_of_length_le h]

/-- What does not fit is cut off. -/
lemma write_of_lt (h : n < (utf8 text).length) :
    ∃ room, write ⟨w, some n⟩ text = (false, ⟨w ++ (utf8 text).take n, room⟩) := by
  rw [write_limited, decide_eq_false (Nat.not_le_of_lt h)]
  exact ⟨_, rfl⟩

end Sink

namespace Console

/-! ## Submissions -/

/-- The text that a line submits, if it is one that is evaluated. -/
def submission? (line : List UInt8) : Option String :=
  ((Line.decode? line).map Line.trim).filter fun text => text ≠ "" ∧ text ≠ "exit"

/-- Whether a line submits something. -/
def submits (line : List UInt8) : Bool := (submission? line).isSome

/-- The submissions at the front of some lines. -/
def submissions (lines : List (List UInt8)) : List String :=
  (lines.takeWhile submits).filterMap submission?

/-- The line at which the submissions end. -/
def stop? (lines : List (List UInt8)) : Option (List UInt8) :=
  (lines.dropWhile submits).head?

/-- How a conversation over some lines ends if the output takes everything: it fails only at a line
that is no text. -/
def endingOf (lines : List (List UInt8)) : Ending :=
  if (stop? lines).any fun l => (Line.decode? l).isNone then .invalidText else .done

/-- The console after a submission, whether or not it failed: the text was run in the scope that all
submissions share. -/
def after (c : Console) (text : String) : Console :=
  { c with store := (Script.run text c.scope c.store).2 }

/-- The console after some submissions. -/
def afterAll (c : Console) (texts : List String) : Console :=
  texts.foldl after c

/-- The answer to a submission, with its newline: the text of its value, with the objects as the
submission left them, or the message of its error. -/
def answer (c : Console) (text : String) : String :=
  match Script.run text c.scope c.store with
  | (.ok v, left) => left.objects.text v ++ "\n"
  | (.error e, _) => e.message ++ "\n"

/-- What is written for some submissions: a prompt and an answer for each, given by the console as
the submissions before it left it. -/
def exchanges (c : Console) : List String → List UInt8
  | [] => []
  | text :: texts =>
    utf8 prompt ++ utf8 (c.answer text) ++ exchanges (c.after text) texts

/-- What is written from the first prompt on. -/
def transcript (c : Console) (texts : List String) : List UInt8 :=
  c.exchanges texts ++ utf8 prompt

/-- The console evaluates a submission by running its text. -/
lemma submit_eq (c : Console) (text : String) :
    c.submit text = ((Script.run text c.scope c.store).1, c.after text) := rfl

/-- What the console writes as an answer is the text of the value, or the message of the error. -/
lemma answerText_run (c : Console) (text : String) :
    (c.after text).answerText (Script.run text c.scope c.store).1 ++ "\n" = c.answer text := by
  rw [answer, after]
  cases Script.run text c.scope c.store with
  | mk r left =>
    cases r with
    | ok v => rfl
    | error e => rfl

/-! ### The first line -/

section FirstLine

variable {line : List UInt8} {lines : List (List UInt8)} {text : String}

/-- A line is a submission, or it ends the conversation in one of two ways. -/
lemma request_eq (line : List UInt8) :
    request line =
      match submission? line with
      | some text => .submission text
      | none => if (Line.decode? line).isNone then .invalid else .leave := by
  unfold request submission?
  cases Line.decode? line with
  | none => rfl
  | some s =>
    dsimp only
    rw [Option.map_some, Option.filter_some]
    by_cases hleave : Line.trim s = "" ∨ Line.trim s = "exit"
    · have hout : ¬ (Line.trim s ≠ "" ∧ Line.trim s ≠ "exit") :=
        fun h => hleave.elim h.1 h.2
      rw [if_pos hleave, if_neg (by simpa using hout)]
      rfl
    · rw [if_neg hleave, if_pos (by simpa using hleave)]

/-- A line that is submitted comes in front of the later submissions. -/
lemma submissions_cons_of_some (h : submission? line = some text) :
    submissions (line :: lines) = text :: submissions lines := by
  have hline : submits line = true := by rw [submits, h]; rfl
  unfold submissions
  rw [List.takeWhile_cons_of_pos hline, List.filterMap_cons_some h]

/-- Nothing is submitted from the first line on that is none. -/
lemma submissions_cons_of_none (h : submission? line = none) :
    submissions (line :: lines) = [] := by
  have hline : ¬ submits line = true := by rw [submits, h]; decide
  unfold submissions
  rw [List.takeWhile_cons_of_neg hline, List.filterMap_nil]

/-- A submission leaves the ending to the lines behind it. -/
lemma endingOf_cons_of_some (h : submission? line = some text) :
    endingOf (line :: lines) = endingOf lines := by
  have hline : submits line = true := by rw [submits, h]; rfl
  unfold endingOf stop?
  rw [List.dropWhile_cons_of_pos hline]

/-- The first line that is no submission decides the ending. -/
lemma endingOf_cons_of_none (h : submission? line = none) :
    endingOf (line :: lines) = if (Line.decode? line).isNone then .invalidText else .done := by
  have hline : ¬ submits line = true := by rw [submits, h]; decide
  unfold endingOf stop?
  rw [List.dropWhile_cons_of_neg hline]
  rfl

end FirstLine

/-! ## The steps of a conversation

A conversation over some lines writes a prompt, and if that fits it ends or evaluates the first
line, and if the answer fits it goes on with the others. -/

section Steps

variable {c : Console} {out out' out'' : Sink} {line : List UInt8} {lines : List (List UInt8)}
  {text : String}

/-- A conversation ends at a prompt that does not fit. -/
lemma converseLines_of_full (h : out.write prompt = (false, out')) :
    c.converseLines out lines = ⟨c, out', .outputFull⟩ := by
  rw [converseLines.eq_def, h]

/-- Where there is no submission, the conversation is over behind the prompt. -/
lemma converseLines_of_nil (h : out.write prompt = (true, out')) (hlines : submissions lines = []) :
    c.converseLines out lines = ⟨c, out', endingOf lines⟩ := by
  rw [converseLines.eq_def, h]
  cases lines with
  | nil => rfl
  | cons line lines =>
    cases hsub : submission? line with
    | some text =>
      rw [submissions_cons_of_some hsub] at hlines
      cases hlines
    | none =>
      rw [endingOf_cons_of_none hsub]
      dsimp only
      rw [request_eq, hsub]
      split_ifs with hdecode
      · rfl
      · rfl

/-- A submission is evaluated behind its prompt, and its answer is written. -/
lemma converseLines_of_submission (h : out.write prompt = (true, out'))
    (hsub : submission? line = some text) :
    c.converseLines out (line :: lines) =
      match out'.write (c.answer text) with
      | (false, out) => ⟨c.after text, out, .outputFull⟩
      | (true, out) => (c.after text).converseLines out lines := by
  have hrequest : request line = .submission text := by rw [request_eq, hsub]
  rw [converseLines, h]
  dsimp only
  rw [hrequest]
  rcases hwrite : out'.write (c.answer text) with ⟨fits, out⟩
  cases fits with
  | false => simp only [submit_eq, answerText_run, hwrite]
  | true => simp only [submit_eq, answerText_run, hwrite]

/-- An answer that does not fit ends the conversation. -/
lemma converseLines_of_answer_full (h : out.write prompt = (true, out'))
    (hsub : submission? line = some text) (hanswer : out'.write (c.answer text) = (false, out'')) :
    c.converseLines out (line :: lines) = ⟨c.after text, out'', .outputFull⟩ := by
  rw [converseLines_of_submission h hsub, hanswer]

/-- Behind an answer that fits, the conversation goes on with the lines that are left. -/
lemma converseLines_of_answer (h : out.write prompt = (true, out'))
    (hsub : submission? line = some text) (hanswer : out'.write (c.answer text) = (true, out'')) :
    c.converseLines out (line :: lines) = (c.after text).converseLines out'' lines := by
  rw [converseLines_of_submission h hsub, hanswer]

end Steps

/-! ## Conversations with an output that takes everything -/

/-- Without submissions only a prompt is written. -/
lemma transcript_nil (c : Console) : c.transcript [] = utf8 prompt := rfl

/-- The first submission adds a prompt and its answer to the transcript. -/
lemma transcript_cons (c : Console) (text : String) (texts : List String) :
    c.transcript (text :: texts) =
      utf8 prompt ++ (utf8 (c.answer text) ++ (c.after text).transcript texts) := by
  rw [transcript, exchanges, transcript, List.append_assoc, List.append_assoc]

/-- Without a limit, the transcript of the submissions is written, and the console ends up after
all of them. -/
lemma converseLines_unlimited (c : Console) (w : List UInt8) (lines : List (List UInt8)) :
    c.converseLines ⟨w, none⟩ lines =
      ⟨c.afterAll (submissions lines), ⟨w ++ c.transcript (submissions lines), none⟩,
        endingOf lines⟩ := by
  induction lines generalizing c w with
  | nil => exact converseLines_of_nil (Sink.write_unlimited w prompt) rfl
  | cons line lines ih =>
    have hprompt := Sink.write_unlimited w prompt
    cases hsub : submission? line with
    | none =>
      have hnil : submissions (line :: lines) = [] := submissions_cons_of_none hsub
      rw [converseLines_of_nil hprompt hnil, hnil, transcript_nil]
      rfl
    | some text =>
      have hanswer := Sink.write_unlimited (w ++ utf8 prompt) (c.answer text)
      rw [converseLines_of_answer hprompt hsub hanswer, ih, submissions_cons_of_some hsub,
        endingOf_cons_of_some hsub, transcript_cons, List.append_assoc, List.append_assoc]
      rfl

/-- The whole conversation: what is written, evaluated and left if nothing is cut off. -/
lemma converse_unlimited_eq (input : List UInt8) :
    converse .unlimited input =
      ⟨start.afterAll (submissions (Line.lines input)),
        ⟨utf8 banner ++ start.transcript (submissions (Line.lines input)), none⟩,
        endingOf (Line.lines input)⟩ :=
  converseLines_unlimited start ([] ++ utf8 banner) (Line.lines input)

/-- Where the prompt ends behind which the submission with the given number is read. -/
def promptEnd (c : Console) (texts : List String) (i : Nat) : Nat :=
  (c.transcript (texts.take i)).length

/-- The outcome `o` is the conversation over the submissions `texts`, as far as its transcript fits
in `n` bytes behind the bytes `w`. -/
structure CutAt (c : Console) (texts : List String) (ending : Ending) (w : List UInt8) (n : Nat)
    (o : Outcome) : Prop where
  /-- What fits of the transcript is written. -/
  written : o.output.written = w ++ (c.transcript texts).take n
  /-- If all of it fits, the conversation ends as it would. -/
  ending : o.ending = if (c.transcript texts).length ≤ n then ending else .outputFull
  /-- The submissions whose prompts fit are evaluated, and no others. -/
  console : ∃ m ≤ texts.length, (∀ i < texts.length, i < m ↔ c.promptEnd texts i ≤ n) ∧
    o.console = c.afterAll (texts.take m)

section CutAt

variable {c : Console} {texts : List String} {text : String} {ending : Ending} {w : List UInt8}
  {n : Nat} {room : Option Nat}

/-- Every transcript starts with a prompt. -/
lemma exists_transcript_eq (c : Console) (texts : List String) :
    ∃ rest, c.transcript texts = utf8 prompt ++ rest := by
  cases texts with
  | nil => exact ⟨[], (List.append_nil _).symm⟩
  | cons text texts => exact ⟨_, transcript_cons c text texts⟩

/-- No transcript is shorter than a prompt. -/
lemma prompt_length_le_transcript (c : Console) (texts : List String) :
    (utf8 prompt).length ≤ (c.transcript texts).length := by
  obtain ⟨rest, heq⟩ := exists_transcript_eq c texts
  rw [heq, List.length_append]
  exact Nat.le_add_right _ _

/-- The first submission makes the transcript longer by a prompt and its answer. -/
lemma transcript_cons_length (c : Console) (text : String) (texts : List String) :
    (c.transcript (text :: texts)).length =
      (utf8 prompt).length + (utf8 (c.answer text)).length +
        ((c.after text).transcript texts).length := by
  rw [transcript_cons, List.length_append, List.length_append, Nat.add_assoc]

/-- A later prompt ends behind the first prompt, its answer and what is written from then on. -/
lemma promptEnd_succ (c : Console) (text : String) (texts : List String) (i : Nat) :
    c.promptEnd (text :: texts) (i + 1) =
      (utf8 prompt).length + (utf8 (c.answer text)).length +
        (c.after text).promptEnd texts i :=
  transcript_cons_length c text (texts.take i)

/-- The prompt does not fit. -/
lemma cutAt_of_prompt_full (h : n < (utf8 prompt).length) :
    CutAt c texts ending w n ⟨c, ⟨w ++ (utf8 prompt).take n, room⟩, .outputFull⟩ := by
  have hlong : ∀ ts, ¬ (c.transcript ts).length ≤ n := by
    intro ts hle
    have hprompt := prompt_length_le_transcript c ts
    omega
  refine ⟨?_, (if_neg (hlong texts)).symm, 0, Nat.zero_le _, fun i _ => ?_, rfl⟩
  · obtain ⟨rest, heq⟩ := exists_transcript_eq c texts
    rw [heq, List.take_append_of_le_length (Nat.le_of_lt h)]
  · exact iff_of_false (Nat.not_lt_zero i) (hlong _)

/-- The prompt fits, and there is no submission. -/
lemma cutAt_nil (h : (utf8 prompt).length ≤ n) :
    CutAt c [] ending w n ⟨c, ⟨w ++ utf8 prompt, room⟩, ending⟩ := by
  refine ⟨?_, ?_, 0, Nat.le_refl 0, fun i hi => absurd hi (Nat.not_lt_zero i), rfl⟩
  · rw [transcript_nil, List.take_of_length_le h]
  · rw [transcript_nil, if_pos h]

/-- The prompt fits, but the answer does not. -/
lemma cutAt_of_answer_full (hprompt : (utf8 prompt).length ≤ n)
    (hanswer : n - (utf8 prompt).length < (utf8 (c.answer text)).length) :
    CutAt c (text :: texts) ending w n
      ⟨c.after text,
        ⟨w ++ utf8 prompt ++ (utf8 (c.answer text)).take (n - (utf8 prompt).length), room⟩,
        .outputFull⟩ := by
  refine ⟨?_, ?_, 1, Nat.succ_le_succ (Nat.zero_le _), fun i hi => ?_, rfl⟩
  · rw [transcript_cons, List.take_append, List.take_of_length_le hprompt,
      List.take_append_of_le_length (Nat.le_of_lt hanswer), List.append_assoc]
  · have hlong := transcript_cons_length c text texts
    rw [if_neg]
    omega
  · cases i with
    | zero => exact iff_of_true Nat.zero_lt_one hprompt
    | succ i =>
      have hend := promptEnd_succ c text texts i
      refine iff_of_false (by omega) fun hle => ?_
      omega

/-- Both fit, and the conversation goes on. -/
lemma CutAt.cons {o : Outcome} (hprompt : (utf8 prompt).length ≤ n)
    (hanswer : (utf8 (c.answer text)).length ≤ n - (utf8 prompt).length)
    (h : CutAt (c.after text) texts ending (w ++ utf8 prompt ++ utf8 (c.answer text))
      (n - (utf8 prompt).length - (utf8 (c.answer text)).length) o) :
    CutAt c (text :: texts) ending w n o := by
  have hlength := transcript_cons_length c text texts
  obtain ⟨m, hm, hends, hconsole⟩ := h.console
  refine ⟨?_, ?_, m + 1, Nat.succ_le_succ hm, fun i hi => ?_, ?_⟩
  · rw [h.written, transcript_cons, List.take_append, List.take_of_length_le hprompt,
      List.take_append, List.take_of_length_le hanswer, List.append_assoc, List.append_assoc]
  · rw [h.ending]
    refine if_congr ?_ rfl rfl
    omega
  · cases i with
    | zero => exact iff_of_true (Nat.succ_pos m) hprompt
    | succ i =>
      have hi' : i < texts.length := Nat.lt_of_succ_lt_succ hi
      rw [Nat.succ_lt_succ_iff, hends i hi', promptEnd_succ]
      omega
  · rw [hconsole]
    rfl

/-- It is enough to look at conversations whose first prompt fits. -/
lemma cutAt_of_prompt_fits {lines : List (List UInt8)}
    (h : (utf8 prompt).length ≤ n → CutAt c texts ending w n (c.converseLines ⟨w, some n⟩ lines)) :
    CutAt c texts ending w n (c.converseLines ⟨w, some n⟩ lines) := by
  by_cases hprompt : (utf8 prompt).length ≤ n
  · exact h hprompt
  · have hlt : n < (utf8 prompt).length := Nat.lt_of_not_le hprompt
    obtain ⟨room, hfull⟩ := Sink.write_of_lt w hlt
    rw [converseLines_of_full hfull]
    exact cutAt_of_prompt_full hlt

end CutAt

/-- A conversation over some lines with a limited output is cut where the output is full. -/
lemma cutAt_converseLines (c : Console) (w : List UInt8) (n : Nat) (lines : List (List UInt8)) :
    CutAt c (submissions lines) (endingOf lines) w n (c.converseLines ⟨w, some n⟩ lines) := by
  induction lines generalizing c w n with
  | nil =>
    refine cutAt_of_prompt_fits fun hprompt => ?_
    rw [converseLines_of_nil (Sink.write_of_le w hprompt) rfl]
    exact cutAt_nil hprompt
  | cons line lines ih =>
    refine cutAt_of_prompt_fits fun hprompt => ?_
    have hfits := Sink.write_of_le w hprompt
    cases hsub : submission? line with
    | none =>
      have hnil : submissions (line :: lines) = [] := submissions_cons_of_none hsub
      rw [converseLines_of_nil hfits hnil, hnil]
      exact cutAt_nil hprompt
    | some text =>
      rw [submissions_cons_of_some hsub, endingOf_cons_of_some hsub]
      by_cases hanswer : (utf8 (c.answer text)).length ≤ n - (utf8 prompt).length
      · rw [converseLines_of_answer hfits hsub (Sink.write_of_le _ hanswer)]
        exact (ih _ _ _).cons hprompt hanswer
      · have hlt := Nat.lt_of_not_le hanswer
        obtain ⟨room, hfull⟩ := Sink.write_of_lt (w ++ utf8 prompt) hlt
        rw [converseLines_of_answer_full hfits hsub hfull]
        exact cutAt_of_answer_full hprompt hlt

/-- What is written up to a prompt stands at the front of the transcript. -/
lemma transcript_take_isFront (c : Console) (texts : List String) (i : Nat) :
    c.transcript (texts.take i) <+: c.transcript texts := by
  induction texts generalizing c i with
  | nil => simp only [List.take_nil, List.prefix_rfl]
  | cons text texts ih =>
    cases i with
    | zero =>
      obtain ⟨rest, heq⟩ := exists_transcript_eq c (text :: texts)
      exact ⟨rest, heq.symm⟩
    | succ i =>
      rw [List.take_succ_cons, transcript_cons, transcript_cons]
      exact (List.prefix_append_right_inj _).2 ((List.prefix_append_right_inj _).2 (ih _ i))

/-- The banner fits. -/
lemma converse_of_banner_fits (input : List UInt8) {n : Nat} (h : (utf8 banner).length ≤ n) :
    converse (.limited n) input =
      start.converseLines ⟨utf8 banner, some (n - (utf8 banner).length)⟩ (Line.lines input) := by
  rw [converse, Sink.limited, Sink.write_of_le [] h, List.nil_append]

/-- The banner does not fit. -/
lemma converse_of_banner_full (input : List UInt8) {n : Nat} (h : n < (utf8 banner).length) :
    ∃ room, converse (.limited n) input =
      ⟨start, ⟨(utf8 banner).take n, room⟩, .outputFull⟩ := by
  obtain ⟨room, hfull⟩ := Sink.write_of_lt [] h
  exact ⟨room, by rw [converse, Sink.limited, hfull, List.nil_append]⟩

/-- What is written up to and with the prompt that has `i` submissions in front of it. -/
def shownUpTo (input : List UInt8) (i : Nat) : List UInt8 :=
  utf8 banner ++ start.exchanges ((submissions (Line.lines input)).take i) ++ utf8 prompt

/-- The outcome `o` is the conversation over the input, as far as it fits in `n` bytes. -/
structure Truncates (input : List UInt8) (n : Nat) (o : Outcome) : Prop where
  /-- What fits is written. -/
  written : o.output.written = (converse .unlimited input).output.written.take n
  /-- If all of it fits, the conversation ends as it would. -/
  ending : o.ending = if (converse .unlimited input).output.written.length ≤ n
    then (converse .unlimited input).ending else .outputFull
  /-- The submissions whose prompts fit are evaluated, and no others. -/
  console : ∃ m ≤ (submissions (Line.lines input)).length,
    (∀ i < (submissions (Line.lines input)).length, i < m ↔ (shownUpTo input i).length ≤ n) ∧
      o.console = start.afterAll ((submissions (Line.lines input)).take m)

section Truncates

variable {input : List UInt8} {n : Nat} {o : Outcome}

/-- Without a limit, the banner and the transcript of all submissions are written. -/
lemma written_unlimited (input : List UInt8) :
    (converse .unlimited input).output.written =
      utf8 banner ++ start.transcript (submissions (Line.lines input)) :=
  congrArg (fun o => o.output.written) (converse_unlimited_eq input)

/-- What is shown up to a prompt is the banner and the transcript so far. -/
lemma shownUpTo_eq (input : List UInt8) (i : Nat) :
    shownUpTo input i = utf8 banner ++ start.transcript ((submissions (Line.lines input)).take i) :=
  List.append_assoc _ _ _

/-- What is shown up to a prompt is as long as the banner and the text up to its end. -/
lemma shownUpTo_length (input : List UInt8) (i : Nat) :
    (shownUpTo input i).length =
      (utf8 banner).length + start.promptEnd (submissions (Line.lines input)) i := by
  rw [shownUpTo_eq, List.length_append]
  rfl

/-- Behind a banner that fits, the conversation is cut where its transcript is. -/
lemma truncates_of_cutAt (hbanner : (utf8 banner).length ≤ n)
    (h : CutAt start (submissions (Line.lines input)) (converse .unlimited input).ending
      (utf8 banner) (n - (utf8 banner).length) o) : Truncates input n o := by
  obtain ⟨m, hm, hends, hconsole⟩ := h.console
  refine ⟨?_, ?_, m, hm, fun i hi => ?_, hconsole⟩
  · rw [h.written, written_unlimited, List.take_append, List.take_of_length_le hbanner]
  · rw [h.ending, written_unlimited, List.length_append]
    refine if_congr ?_ rfl rfl
    omega
  · rw [hends i hi, shownUpTo_length]
    omega

/-- If the banner does not fit, nothing is evaluated. -/
lemma truncates_of_banner_full (room : Option Nat) (h : n < (utf8 banner).length) :
    Truncates input n ⟨start, ⟨(utf8 banner).take n, room⟩, .outputFull⟩ := by
  refine ⟨?_, ?_, 0, Nat.zero_le _, fun i _ => ?_, rfl⟩
  · rw [written_unlimited, List.take_append_of_le_length (Nat.le_of_lt h)]
  · rw [if_neg]
    rw [written_unlimited, List.length_append]
    omega
  · rw [shownUpTo_length]
    omega

/-- A limited conversation is cut where the unlimited one comes to the limit. -/
lemma truncates_converse (input : List UInt8) (n : Nat) :
    Truncates input n (converse (.limited n) input) := by
  by_cases hbanner : (utf8 banner).length ≤ n
  · refine truncates_of_cutAt hbanner ?_
    rw [converse_of_banner_fits input hbanner, converse_unlimited_eq]
    exact cutAt_converseLines start _ _ _
  · have hlt := Nat.lt_of_not_le hbanner
    obtain ⟨room, hfull⟩ := converse_of_banner_full input hlt
    rw [hfull]
    exact truncates_of_banner_full room hlt

end Truncates

/-- A limited output only cuts a conversation short.  With an output that takes everything, all
submissions are evaluated.  With a limited one, what is written is the front of what an output
that takes everything is given, as much as fits.  If all of it fits, the conversation ends as that
one does, and else because the output is full; and the submissions that were evaluated are those
whose prompts fit: with `i` submissions in front of it, a prompt ends behind `shown i`. -/
theorem converse_limited (input : List UInt8) (n : Nat) :
    (converse .unlimited input).console = start.afterAll (submissions (Line.lines input)) ∧
    let texts := submissions (Line.lines input)
    let unbounded := converse .unlimited input
    let whole := unbounded.output.written
    let shown := fun i => utf8 banner ++ start.exchanges (texts.take i) ++ utf8 prompt
    let outcome := converse (.limited n) input
    (∀ i, shown i <+: whole) ∧
    outcome.output.written = whole.take n ∧
    outcome.ending = (if whole.length ≤ n then unbounded.ending else .outputFull) ∧
    ∃ m ≤ texts.length, (∀ i < texts.length, i < m ↔ (shown i).length ≤ n) ∧
      outcome.console = start.afterAll (texts.take m) := by
  have hfront : ∀ i, shownUpTo input i <+: (converse .unlimited input).output.written := by
    intro i
    rw [shownUpTo_eq, written_unlimited]
    exact (List.prefix_append_right_inj _).2 (transcript_take_isFront start _ i)
  have htruncates := truncates_converse input n
  exact ⟨congrArg Outcome.console (converse_unlimited_eq input), hfront, htruncates.written,
    htruncates.ending, htruncates.console⟩

end Console

end Scriptlet
