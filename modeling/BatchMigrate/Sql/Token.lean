import BatchMigrate.Text.Decimal
import BatchMigrate.Text.Utf8

/-!
# SQL tokens

SQL text as words, numbers and symbols. White space, the byte order mark and comments stand between tokens and are no
tokens. Each token knows its place in the text, which messages of the database report.
-/

namespace BatchMigrate.Sql

/-- What a piece of SQL text is. -/
inductive Kind
  /-- White space or a comment. -/
  | gap
  /-- A keyword or a name. -/
  | word
  /-- A run of digits. -/
  | number
  /-- An operator, a bracket, a quoted text, a parameter, or a number that is not written as a run of digits. -/
  | symbol
  /-- Text that begins no token. -/
  | illegal
  deriving DecidableEq, Repr

/-- A token of SQL text. -/
structure Token where
  kind : Kind
  text : Text
  /-- The number of bytes before the token. -/
  offset : Nat
  /-- The text that follows the token. -/
  after : Text
  deriving DecidableEq, Repr

/-! ## Characters -/

/-- White space between tokens. -/
def isGap (c : Char) : Bool := c ∈ [' ', '\t', '\n', '\x0C', '\r', '\uFEFF']

/-- A character that begins a word: an ASCII letter, an underscore, or any character outside ASCII. -/
def beginsWord (c : Char) : Bool := c.isAlpha || c == '_' || 0x80 ≤ c.toNat

/-- A character that continues a word. -/
def continuesWord (c : Char) : Bool := beginsWord c || c.isDigit || c == '$'

/-- The symbols of two characters. -/
def pairs : List (Char × Char) :=
  [('|', '|'), ('<', '='), ('<', '>'), ('<', '<'), ('>', '='), ('>', '>'), ('=', '='), ('!', '='), ('-', '>')]

/-- The symbols of one character. -/
def singles : List Char := ['(', ')', ';', ',', '+', '-', '*', '/', '%', '<', '>', '=', '|', '&', '~', '.', '?']

/-! ## Cutting -/

/-- Cuts text after the first `*/`, or at its end. -/
def throughClose : Text → Text × Text
  | [] => ([], [])
  | '*' :: '/' :: r => (['*', '/'], r)
  | c :: r => (c :: (throughClose r).1, (throughClose r).2)

/-- Cuts quoted text after the closing quote, where a doubled quote closes nothing; none if nothing closes it. -/
def throughQuote (quote : Char) : Text → Option (Text × Text)
  | [] => none
  | [c] => if c = quote then some ([c], []) else none
  | c :: d :: r =>
    if c = quote then
      if d = quote then (throughQuote quote r).map fun (cut, rest) => (c :: d :: cut, rest)
      else some ([c], d :: r)
    else (throughQuote quote (d :: r)).map fun (cut, rest) => (c :: cut, rest)

/-- Cuts text after a point and the digits that follow it, if it begins with a point. -/
def throughFraction : Text → Text × Text
  | '.' :: r => ('.' :: r.takeWhile Text.isDigit, r.dropWhile Text.isDigit)
  | r => ([], r)

/-- Cuts text after a sign, if it begins with one. -/
def throughSign : Text → Text × Text
  | [] => ([], [])
  | c :: r => if c = '+' || c = '-' then ([c], r) else ([], c :: r)

/-- Cuts text after the exponent of a number, if it begins with one. -/
def throughExponent : Text → Text × Text
  | [] => ([], [])
  | e :: r =>
    let (sign, digits) := throughSign r
    if (e = 'e' || e = 'E') && digits.head?.any Text.isDigit then
      (e :: sign ++ digits.takeWhile Text.isDigit, digits.dropWhile Text.isDigit)
    else ([], e :: r)

/-- Cuts text after what follows the first digits of a number. A number that runs into a word is no token. -/
def throughNumber (r : Text) : Kind × Text × Text :=
  let digits := r.takeWhile Text.isDigit
  let (fraction, r) := throughFraction (r.dropWhile Text.isDigit)
  let (exponent, r) := throughExponent r
  let more := r.takeWhile continuesWord
  (if more ≠ [] then .illegal else if fraction ++ exponent = [] then .number else .symbol,
    digits ++ fraction ++ exponent ++ more, r.dropWhile continuesWord)

/-- What begins with `c`, how it goes on in `r`, and what follows it. -/
def cut (c : Char) (r : Text) : Kind × Text × Text :=
  if isGap c then (.gap, [], r)
  else if beginsWord c then (.word, r.takeWhile continuesWord, r.dropWhile continuesWord)
  else if c.isDigit then throughNumber r
  else if c = '.' && r.head?.any Text.isDigit then
    match throughNumber r with
    | (.number, more, rest) => (.symbol, more, rest)
    | other => other
  else if c ∈ ['\x27', '\x22', '\x60'] then
    match throughQuote c r with
    | some (more, rest) => (.symbol, more, rest)
    | none => (.illegal, r, [])
  else if c ∈ ['$', '@', ':', '#'] then
    let more := r.takeWhile continuesWord
    (if more = [] then .illegal else .symbol, more, r.dropWhile continuesWord)
  else
    match r with
    | [] => (if c ∈ singles then .symbol else .illegal, [], [])
    | d :: r' =>
      if c = '-' ∧ d = '-' then (.gap, d :: r'.takeWhile (· ≠ '\n'), r'.dropWhile (· ≠ '\n'))
      else if c = '/' ∧ d = '*' then (.gap, d :: (throughClose r').1, (throughClose r').2)
      else if (c, d) ∈ pairs then (.symbol, [d], r')
      else (if c ∈ singles then .symbol else .illegal, [], r)

/-! ## Nothing is lost -/

theorem throughClose_append : ∀ r : Text, (throughClose r).1 ++ (throughClose r).2 = r
  | [] => rfl
  | c :: r => by
    unfold throughClose
    split
    · contradiction
    · rename_i h; simp [h]
    · rename_i h; cases h; simp [throughClose_append r]

theorem throughQuote_append (q : Char) : ∀ {r a b : Text}, throughQuote q r = some (a, b) → a ++ b = r
  | [], a, b, h => by simp [throughQuote] at h
  | [c], a, b, h => by
    simp only [throughQuote] at h
    split at h <;> simp at h
    obtain ⟨rfl, rfl⟩ := h; rfl
  | c :: d :: r, a, b, h => by
    simp only [throughQuote] at h
    split at h
    · split at h
      · cases hq : throughQuote q r with
        | none => simp [hq] at h
        | some p =>
          have := throughQuote_append q hq
          simp [hq] at h
          obtain ⟨rfl, rfl⟩ := h
          simp [this]
      · simp at h
        obtain ⟨rfl, rfl⟩ := h; rfl
    · cases hq : throughQuote q (d :: r) with
      | none => simp [hq] at h
      | some p =>
        have := throughQuote_append q hq
        simp [hq] at h
        obtain ⟨rfl, rfl⟩ := h
        simp [this]

theorem throughFraction_append (r : Text) : (throughFraction r).1 ++ (throughFraction r).2 = r := by
  unfold throughFraction
  split <;> simp

theorem throughSign_append (r : Text) : (throughSign r).1 ++ (throughSign r).2 = r := by
  unfold throughSign
  split
  · rfl
  · split <;> rfl

theorem throughExponent_append (r : Text) : (throughExponent r).1 ++ (throughExponent r).2 = r := by
  unfold throughExponent
  split
  · rfl
  · simp only []
    split
    · simp [throughSign_append]
    · rfl

theorem throughNumber_append (r : Text) : (throughNumber r).2.1 ++ (throughNumber r).2.2 = r := by
  have h₁ := throughFraction_append (r.dropWhile Text.isDigit)
  have h₂ := throughExponent_append (throughFraction (r.dropWhile Text.isDigit)).2
  simp only [throughNumber, List.append_assoc, List.takeWhile_append_dropWhile, h₂, h₁]

/-- A cut piece and what follows it make up the text. -/
theorem cut_append (c : Char) (r : Text) : (cut c r).2.1 ++ (cut c r).2.2 = r := by
  unfold cut
  split
  · rfl
  split
  · simp
  split
  · exact throughNumber_append r
  split
  · have h := throughNumber_append r
    split <;> simp_all
  split
  · cases h : throughQuote c r with
    | none => simp
    | some p => simpa using throughQuote_append c h
  split
  · simp
  split
  · rfl
  split
  · simp
  split
  · simp [throughClose_append]
  split <;> rfl

/-- What follows a cut piece is no longer than what followed its first character. -/
theorem length_cut_le (c : Char) (r : Text) : (cut c r).2.2.length ≤ r.length := by
  have h := congrArg List.length (cut_append c r)
  rw [List.length_append] at h
  omega

/-! ## Tokens -/

/-- The tokens of text that begins at byte `offset`. -/
def tokensFrom (offset : Nat) (t : Text) : List Token :=
  match t with
  | [] => []
  | c :: r =>
    let text : Text := c :: (cut c r).2.1
    let rest := tokensFrom (offset + text.utf8.length) (cut c r).2.2
    if (cut c r).1 = .gap then rest else ⟨(cut c r).1, text, offset, (cut c r).2.2⟩ :: rest
  termination_by t.length
  decreasing_by exact Nat.lt_succ_of_le (length_cut_le c r)

/-- The tokens of a text. -/
def tokens (t : Text) : List Token := tokensFrom 0 t

end BatchMigrate.Sql
