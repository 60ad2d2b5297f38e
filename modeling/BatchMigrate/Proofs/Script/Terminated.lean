import BatchMigrate.Proofs.Script.Lines
import BatchMigrate.Proofs.Script.Run

/-!
# Lines written into a stream

A list of lines can be written into a stream with a terminator after each line (`Text.Terminated`). If no line breaks
(`Text.Unbroken`), a reader of the stream gives the list and then nothing more (`ByteReader.next_skip_eq`), in whatever
chunks the bytes arrive; therefore splitting finds the same in the stream as in the list (`Splitter.split_terminated`).
The last terminator may be missing, unless the last line is empty: then it is all that there is of that line.
-/

namespace BatchMigrate

namespace Text

variable {c : Char} {lines : List Text} {line text : Text}

/-- The line holds no terminator, and does not end with a carriage return that a line feed after it would take away. -/
def Unbroken (c : Char) (line : Text) : Prop := c ∉ line ∧ (c = '\n' → line.getLast? ≠ some '\r')

/-- The text holds the lines, each with a terminator after it. Only the last one may be missing, after a line that is not
empty. -/
inductive Terminated (c : Char) : List Text → Text → Prop
  | all (lines : List Text) : Terminated c lines (lines.flatMap (· ++ [c]))
  | butLast (lines : List Text) {last : Text} (h : last ≠ []) :
      Terminated c (lines ++ [last]) (lines.flatMap (· ++ [c]) ++ last)

theorem Unbroken.bare (h : Unbroken c line) : bare c line = line := if_neg fun hcr => h.2 hcr.1 hcr.2

/-- **Lines are read as they were written.** -/
theorem Terminated.lines_eq (h : ∀ line ∈ lines, Unbroken c line) (ht : Terminated c lines text) :
    Text.lines c text = lines := by
  have hwhole : ∀ line ∈ lines, c ∉ line ∧ Text.bare c line = line := fun line hl => ⟨(h line hl).1, (h line hl).bare⟩
  cases ht with
  | all => exact lines_flatMap hwhole
  | butLast lines hlast =>
    obtain ⟨hlines, hend⟩ := List.forall_mem_append.1 hwhole
    rw [lines_flatMap_append hlines, lines_of_not_mem (hend _ (List.mem_singleton_self _)).1, if_neg hlast]

end Text

namespace ByteReader

/-- At the end of a stream there are no answers left. -/
theorem answers_next_of_finished {r : ByteReader} (h : r.next.1 = .finished) : r.next.2.answers = [] := by
  rw [answers_eq]
  rcases next_cases r with ⟨_, _, _, hlines, _⟩ | ⟨_, _, _, hanswer⟩
  · rw [hlines, List.map_nil]
  · rw [hanswer] at h
    exact absurd h (answer_ne_finished _)

/-- **Any number of requests** are answered with the lines of the stream in order, and from then on with its end. -/
theorem next_skip_eq (k : Nat) (r : ByteReader) : (r.skip k).next.1 = r.answers[k]?.getD .finished := by
  induction k generalizing r with
  | zero =>
    rw [skip, answers]
    split
    · rename_i h
      exact h
    · rfl
  | succ k ih =>
    rw [skip, ih]
    conv => rhs; rw [answers]
    split
    · rename_i h
      rw [answers_next_of_finished h]
      rfl
    · rfl

end ByteReader

namespace Splitter

/-- **A list and a stream of the same lines.** Lines without terminators are written into a stream with a terminator after
each, or after each but a last one that is not empty. A reader of the stream gives the lines in order, and then its end,
however often it is asked; and splitting the stream, at once or on demand, finds the same as splitting the list. -/
theorem split_terminated {r : ByteReader} {lines : List Text} {text : Text}
    (h : ∀ line ∈ lines, Text.Unbroken r.terminator line) (ht : Text.Terminated r.terminator lines text)
    (hr : r.rest = text.utf8) :
    (∀ k, (r.skip k).next.1 = (lines.map Answer.line)[k]?.getD .finished) ∧
    ∀ (sp : Splitter) (stripComments : Bool),
      sp.split stripComments r.source = sp.split stripComments (.ofLines lines) ∧
      ∀ n, Run.pull sp n (.start stripComments r.source) = Run.pull sp n (.start stripComments (.ofLines lines)) := by
  have hanswers : r.answers = lines.map .line := by rw [ByteReader.answers_text hr, ht.lines_eq h]
  have hsource : r.source = .ofLines lines := by rw [ByteReader.source, Source.ofLines, hanswers]
  refine ⟨fun k => ?_, fun sp stripComments => ⟨?_, fun n => ?_⟩⟩
  · rw [ByteReader.next_skip_eq, hanswers]
  · rw [hsource]
  · rw [hsource]

/-- The last byte of the terminator is also that of another character, an empty line is written, the last terminator is
missing, and the chunks end inside characters. -/
theorem split_terminated_pilcrow :
    let r : ByteReader := { chunks := [[0xC3], [0xB6, 0xC2], [0xB6, 0xC2, 0xB6, 0x2F], [0x2A]], terminator := '¶' }
    let lines : List Text := [.of "ö", .of "", .of "/*"]
    (∀ line ∈ lines, Text.Unbroken r.terminator line) ∧ Text.Terminated r.terminator lines (.of "ö¶¶/*") ∧
      r.rest = (Text.of "ö¶¶/*").utf8 ∧ (r.skip 1).next.1 = .line [] ∧ (r.skip 3).next.1 = .finished ∧
      unix.split false r.source = .error (.unterminatedComment 3) := by
  intro r lines
  have h : ∀ line ∈ lines, Text.Unbroken r.terminator line := by
    unfold Text.Unbroken
    decide
  have ht : Text.Terminated r.terminator lines (.of "ö¶¶/*") := .butLast [.of "ö", .of ""] (by decide)
  have hr : r.rest = (Text.of "ö¶¶/*").utf8 := by decide
  obtain ⟨hnext, hsplit⟩ := split_terminated h ht hr
  exact ⟨h, ht, hr, hnext 1, hnext 3, (hsplit unix false).1⟩

end Splitter

end BatchMigrate
