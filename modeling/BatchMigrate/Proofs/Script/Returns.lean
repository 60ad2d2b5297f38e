import Mathlib.Data.List.Infix
import BatchMigrate.Proofs.Script.Reprint
import BatchMigrate.Proofs.Script.Terminated

/-!
# Carriage returns before line feeds

A carriage return right before a line feed is part of the line break. So carriage returns can be put in front of any line
feeds that have none (`Text.Returned`), and the text keeps its lines (`Text.Returned.lines_eq`) and splits as before
(`Splitter.splitText_returned`). The proof goes from line feed to line feed: the line before it does not end with a carriage
return of its own, and loses the one that was put there. All other carriage returns, inside a line or at the end of a last
line without a line feed, are characters of their lines.
-/

namespace BatchMigrate

namespace Text

variable {t t' rest : Text}

/-- The second text is the first one with a carriage return put in front of some of its line feeds. -/
inductive Returned : Text → Text → Prop
  | nil : Returned [] []
  | char (c : Char) {t t' : Text} (h : Returned t t') : Returned (c :: t) (c :: t')
  | lineFeed {t t' : Text} (h : Returned t t') : Returned ('\n' :: t) ('\r' :: '\n' :: t')

/-- Nothing is put into a text without line feeds. -/
theorem Returned.eq_of_not_mem (h : Returned t t') (hn : '\n' ∉ t) : t' = t := by
  induction h with
  | nil => rfl
  | char c _ ih => rw [ih fun hm => hn (List.mem_cons_of_mem c hm)]
  | lineFeed _ _ => exact absurd List.mem_cons_self hn

/-- What becomes of the first line and its line feed. -/
theorem Returned.exists_line : ∀ {line t' : Text}, Returned (line ++ '\n' :: rest) t' → '\n' ∉ line →
    ∃ rest', Returned rest rest' ∧ (t' = line ++ '\n' :: rest' ∨ t' = line ++ ['\r'] ++ '\n' :: rest')
  | [], _, h, _ => by
    cases h with
    | char _ h => exact ⟨_, h, .inl rfl⟩
    | lineFeed h => exact ⟨_, h, .inr rfl⟩
  | c :: line, _, h, hn => by
    rw [List.mem_cons, not_or] at hn
    rw [List.cons_append] at h
    cases h with
    | char _ h =>
      obtain ⟨rest', hrest, hcases⟩ := Returned.exists_line h hn.2
      exact ⟨rest', hrest, hcases.imp (congrArg (c :: ·)) (congrArg (c :: ·))⟩
    | lineFeed _ => exact absurd rfl hn.1

/-- The carriage return before a line feed is no character of the line. -/
theorem bare_return (line : Text) : bare '\n' (line ++ ['\r']) = line := by
  rw [bare, if_pos ⟨rfl, List.getLast?_concat⟩, List.dropLast_concat]

/-- **The lines stay.** -/
theorem Returned.lines_eq {t t' : Text} (h : Returned t t') (hr : ¬['\r', '\n'] <:+: t) : lines '\n' t' = lines '\n' t := by
  by_cases hn : '\n' ∈ t
  · obtain ⟨line, rest, rfl, hline⟩ := List.eq_append_cons_of_mem hn
    obtain ⟨rest', hrest, hcases⟩ := h.exists_line hline
    have hlater : ¬['\r', '\n'] <:+: rest := fun hi =>
      hr (hi.trans ((List.suffix_cons '\n' rest).trans (List.suffix_append line _)).isInfix)
    have hunbroken : Unbroken '\n' line := ⟨hline, fun _ hcr => by
      obtain ⟨start, rfl⟩ := List.getLast?_eq_some_iff.1 hcr
      exact hr ⟨start, rest, by simp⟩⟩
    rw [lines_append hline, hunbroken.bare, ← Returned.lines_eq hrest hlater]
    rcases hcases with rfl | rfl
    · rw [lines_append hline, hunbroken.bare]
    · have hreturn : '\n' ∉ line ++ ['\r'] := by simp [hline]
      rw [lines_append hreturn, bare_return]
  · rw [h.eq_of_not_mem hn]
  termination_by t.length

end Text

namespace Splitter

/-- **Line breaks with and without a carriage return.** In a text whose line feeds have no carriage return in front of them,
any of them can be given one, and the text splits as before: into the same events, or with the same fault. -/
theorem splitText_returned (sp : Splitter) (stripComments : Bool) {t t' : Text} (hr : ¬['\r', '\n'] <:+: t)
    (h : Text.Returned t t') : sp.splitText stripComments t' = sp.splitText stripComments t := by
  rw [splitText, splitText, source_text, source_text, h.lines_eq hr]

/-- Some line breaks have a carriage return, among them one inside a comment; one is inside a line, one right after such a
line break, and one ends the script. -/
theorem splitText_returned_mixed :
    let t : Text := .of "a\rb /* x\n\n*/ y\nGO 2\n\rend\r"
    let t' : Text := .of "a\rb /* x\r\n\n*/ y\r\nGO 2\r\n\rend\r"
    ¬['\r', '\n'] <:+: t ∧ Text.Returned t t' ∧
      unix.splitText false t' = .ok [.batch (.of "a\rb /* x\n\n*/ y\n"), .directive ⟨.of "GO 2", some 2⟩,
        .batch (.of "\rend\r\n")] := by
  intro t t'
  have hr : ¬['\r', '\n'] <:+: t := by decide
  have h : Text.Returned t t' := by
    simp only [t, t', Text.of, String.reduceToList]
    repeat constructor
  have hsplit : unix.splitText false t = .ok [.batch (.of "a\rb /* x\n\n*/ y\n"), .directive ⟨.of "GO 2", some 2⟩,
      .batch (.of "\rend\r\n")] := splitText_eq_ok.2 rfl
  exact ⟨hr, h, (splitText_returned unix false hr h).trans hsplit⟩

end Splitter

end BatchMigrate
