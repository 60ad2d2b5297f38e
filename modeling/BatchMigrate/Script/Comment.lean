import BatchMigrate.Text.Basic

/-!
# Comments

`/*` opens a block comment, which the first `*/` after it closes: block comments do not nest and may span lines. `--`
opens a comment that ends with its line. `Lex.mark` tells for each character of one line whether it belongs to a
comment, and in which state the line ends.
-/

namespace BatchMigrate

/-- Where the reading of a script stands. -/
inductive Lex
  /-- Outside all comments. -/
  | plain
  /-- Inside a comment that ends with the line. -/
  | lineComment
  /-- Inside a block comment that was opened on the given line. -/
  | blockComment (openedOn : Nat)
  deriving DecidableEq, Repr

/-- A character of a line, and whether it belongs to a comment. -/
structure Mark where
  char : Char
  inComment : Bool
  deriving DecidableEq, Repr

/-- A character outside comments. -/
def Mark.code (c : Char) : Mark := ⟨c, false⟩

/-- A character of a comment. -/
def Mark.comment (c : Char) : Mark := ⟨c, true⟩

namespace Lex

/-- The state in which the next line begins: a comment introduced by `--` ends with its line. -/
def atLineEnd : Lex → Lex
  | lineComment => plain
  | lex => lex

/-- The state is inside a block comment. -/
def inBlock : Lex → Bool
  | blockComment _ => true
  | _ => false

/-- The marked characters of the rest of line `n`, and the state in which the line ends. -/
def mark (n : Nat) : Lex → Text → List Mark × Lex
  | lex, [] => ([], lex)
  | plain, '/' :: '*' :: r =>
    let (marks, final) := mark n (blockComment n) r
    (.comment '/' :: .comment '*' :: marks, final)
  | plain, '-' :: '-' :: r =>
    let (marks, final) := mark n lineComment r
    (.comment '-' :: .comment '-' :: marks, final)
  | plain, c :: r =>
    let (marks, final) := mark n plain r
    (.code c :: marks, final)
  | lineComment, c :: r =>
    let (marks, final) := mark n lineComment r
    (.comment c :: marks, final)
  | blockComment _, '*' :: '/' :: r =>
    let (marks, final) := mark n plain r
    (.comment '*' :: .comment '/' :: marks, final)
  | blockComment k, c :: r =>
    let (marks, final) := mark n (blockComment k) r
    (.comment c :: marks, final)

end Lex

namespace Mark

/-- The text outside comments. -/
def codeText (marks : List Mark) : Text := (marks.filter fun m => !m.inComment).map Mark.char

/-- The text with its comments. -/
def fullText (marks : List Mark) : Text := marks.map Mark.char

/-- The text before the first comment. -/
def headText (marks : List Mark) : Text := (marks.takeWhile fun m => !m.inComment).map Mark.char

end Mark

end BatchMigrate
