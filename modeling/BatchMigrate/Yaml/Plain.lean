import BatchMigrate.Yaml.Node
import BatchMigrate.Yaml.Quoted

/-!
# Gaps and plain scalars

Between scalars stand blanks, comments and line ends; `settle` finds the place after them. A plain scalar goes on over
lines that are indented deeply enough, and its lines are folded as those of a quoted one.
-/

namespace BatchMigrate.Yaml

/-! ## Gaps -/

/-- Where the reading of a gap stands. -/
inductive Gap
  /-- Further on in a line. -/
  | line
  | comment
  /-- In the margin of a new line, after some characters. -/
  | margin (column : Nat)

/-- The place after a gap. A byte order mark may stand at the start of a line. -/
def settle : Gap → Text → Place
  | _, [] => .fresh 0 []
  | .comment, c :: r => if isBreak c then settle (.margin 0) r else settle .comment r
  | .line, c :: r =>
    if isBlank c then settle .line r
    else if c = '#' then settle .comment r
    else if isBreak c then settle (.margin 0) r
    else .inline (c :: r)
  | .margin column, c :: r =>
    if c = ' ' || (column = 0 && c = '\uFEFF') then settle (.margin (column + 1)) r
    else if c = '#' then settle .comment r
    else if isBreak c then settle (.margin 0) r
    else .fresh column (c :: r)

/-- What follows a gap inside brackets, and whether a line ended in the gap. Nothing follows a mark between documents,
because the brackets are not closed before it. -/
def settleFlow (inComment crossed : Bool) : Text → Bool × Text
  | [] => (crossed, [])
  | c :: r =>
    if isBreak c then if isMarker r then (true, []) else settleFlow false true r
    else if inComment then settleFlow true crossed r
    else if isBlank c then settleFlow false crossed r
    else if c = '#' then settleFlow true crossed r
    else (crossed, c :: r)

/-! ## Plain scalars -/

/-- The characters that end a plain scalar inside brackets. -/
def flowEnds : List Char := [',', '[', ']', '\x7b', '\x7d']

/-- A plain scalar can begin here. -/
def beginsPlain (inFlow : Bool) : Text → Bool
  | [] => false
  | c :: r =>
    !isBlank c && !isBreak c && !(c ∈ indicators) &&
      (c != '-' || !atGap r) && (!(c ∈ ['?', ':']) || (!inFlow && !atGap r))

/-- A colon here ends a plain scalar. -/
def colonEnds (inFlow : Bool) (r : Text) : Bool :=
  atGap r || (inFlow && r.head?.any fun c => c ∈ flowEnds || c = '?')

/-- The rest of a plain scalar on its line, and what follows it. -/
def plainLine (inFlow afterGap : Bool) : Text → Text × Text
  | [] => ([], [])
  | c :: r =>
    if isBreak c || (c = ':' && colonEnds inFlow r) || (c = '#' && afterGap) || (inFlow && c ∈ flowEnds) then
      ([], c :: r)
    else (c :: (plainLine inFlow (isBlank c) r).1, (plainLine inFlow (isBlank c) r).2)

/-- The text without blanks at its end. -/
def dropEndBlanks (t : Text) : Text := (t.reverse.dropWhile isBlank).reverse

/-- The line breaks and the blanks before the next text, where that text begins in its line, and the text. A tab does
not count as indentation. -/
def lineGap (least : Nat) (pending : Pending) (column : Nat) : Text → Pending × Nat × Text
  | [] => (pending, 0, [])
  | c :: r =>
    if isBreak c then lineGap least (pending.addBreak c) 0 r
    else if c = ' ' || (c = '\t' && least ≤ column) then lineGap least pending (column + 1) r
    else (pending, column, c :: r)

/-- A plain scalar goes on with the text at `column` of a new line. -/
def continuesPlain (inFlow : Bool) (least column : Nat) (t : Text) : Bool :=
  match t with
  | [] => false
  | c :: r =>
    least ≤ column && c != '#' && c != '\t' && !(column = 0 && isMarker t) && !(c = ':' && colonEnds inFlow r) &&
      !(inFlow && c ∈ flowEnds)

/-- What follows a plain scalar, when `rest` follows its last line and `next` is the next text: tabs may stand before a
comment and at the end of all text. -/
def afterPlain (rest next : Text) : Text := if next = [] || next.head? = some '#' then next else rest

/-- The rest of a plain scalar, whose further lines begin at column `least` or later: its text, whether it spans lines,
and what follows it. -/
def plainFrom (inFlow : Bool) (least : Nat) : Nat → Text → Text × Bool × Text
  | 0, t => (t, false, [])
  | fuel + 1, t =>
    let (line, rest) := plainLine inFlow false t
    let text := dropEndBlanks line
    if rest.head?.any isBreak then
      let (pending, column, next) := lineGap least (.blanks []) 0 rest
      if continuesPlain inFlow least column next then
        let (more, _, rest) := plainFrom inFlow least fuel next
        (text ++ pending.text ++ more, true, rest)
      else (text, false, afterPlain rest next)
    else (text, false, rest)

/-- A plain scalar at the start of the text. Inside brackets its further lines may begin anywhere. -/
def plain (inFlow : Bool) (least : Nat) (t : Text) : Text × Bool × Text :=
  plainFrom inFlow (if inFlow then 0 else least) (t.length + 1) t

end BatchMigrate.Yaml
