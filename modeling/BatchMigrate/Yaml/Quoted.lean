import BatchMigrate.Yaml.Char
import BatchMigrate.Yaml.Resolve

/-!
# Quoted scalars

Between single quotes only a doubled quote is special; between double quotes a backslash begins an escape. In both,
blanks around a line break mean nothing, and a single line break between other characters means a blank. The inside is
first read as parts, and the parts are then folded to the text that they mean.
-/

namespace BatchMigrate.Yaml

/-! ## Parts -/

/-- A part of a quoted scalar. -/
inductive Part
  /-- A character that is meant as it is. -/
  | char (c : Char)
  /-- A blank that means nothing beside a line break. -/
  | blank (c : Char)
  | lineBreak (c : Char)
  /-- A line break that means nothing. -/
  | joint
  deriving DecidableEq, Repr

/-- The part that a character outside escapes is. -/
def Part.ofChar (c : Char) : Part :=
  if isBreak c then .lineBreak c else if isBlank c then .blank c else .char c

/-- What a letter after a backslash stands for. -/
def escapes : List (Char × Char) :=
  [('0', '\x00'), ('a', '\x07'), ('b', '\x08'), ('t', '\t'), ('\t', '\t'), ('n', '\n'), ('v', '\x0B'), ('f', '\x0C'),
   ('r', '\r'), ('e', '\x1B'), (' ', ' '), ('\x22', '\x22'), ('/', '/'), ('\\', '\\'), ('N', '\u0085'), ('_', '\u00A0'),
   ('L', '\u2028'), ('P', '\u2029')]

/-- The number of hexadecimal digits after a letter that stands for a number. -/
def escapeWidths : List (Char × Nat) := [('x', 2), ('u', 4), ('U', 8)]

/-- The character with a number, if there is one. -/
def charOfNat? (n : Nat) : Option Char := if h : n.isValidChar then some (Char.ofNatAux n h) else none

/-- Where the reading of double-quoted text stands. -/
inductive DoubleState
  | text
  /-- After a backslash. -/
  | escape
  /-- Inside the digits of an escape: the number of digits to come, and the value of those before. -/
  | digits (left value : Nat)
  deriving DecidableEq, Repr

/-- The parts up to the closing quote, and what follows it. -/
def scanDouble : DoubleState → Text → Option (List Part × Text)
  | _, [] => none
  | .text, c :: r =>
    if c = '\x22' then some ([], r)
    else if c = '\\' then scanDouble .escape r
    else if isBreak c && isMarker r then none
    else (scanDouble .text r).map fun (parts, rest) => (.ofChar c :: parts, rest)
  | .escape, c :: r =>
    if isBreak c then
      if isMarker r then none
      else (scanDouble .text r).map fun (parts, rest) => (.joint :: parts, rest)
    else match escapes.lookup c with
      | some meant => (scanDouble .text r).map fun (parts, rest) => (.char meant :: parts, rest)
      | none => (escapeWidths.lookup c).bind fun width => scanDouble (.digits width 0) r
  | .digits left value, c :: r =>
    (digitIn? 16 c).bind fun d =>
      if left = 1 then
        (charOfNat? (16 * value + d)).bind fun meant =>
          (scanDouble .text r).map fun (parts, rest) => (.char meant :: parts, rest)
      else scanDouble (.digits (left - 1) (16 * value + d)) r

/-- The parts up to the closing quote, and what follows it. -/
def scanSingle : Text → Option (List Part × Text)
  | [] => none
  | '\x27' :: '\x27' :: r => (scanSingle r).map fun (parts, rest) => (.char '\x27' :: parts, rest)
  | '\x27' :: r => some ([], r)
  | c :: r =>
    if isBreak c && isMarker r then none
    else (scanSingle r).map fun (parts, rest) => (.ofChar c :: parts, rest)

/-! ## Folding -/

/-- What stands between two characters that are meant as they are. -/
inductive Pending
  | blanks (t : Text)
  /-- Line breaks: the first, and the others. -/
  | breaks (first more : Text)
  deriving DecidableEq, Repr

/-- The text that is meant: blanks are themselves, one line feed is a blank, and of several the first is dropped. -/
def Pending.text : Pending → Text
  | blanks t => t
  | breaks first more => if first = ['\n'] then (if more = [] then [' '] else more) else first ++ more

/-- One more blank; after a line break it means nothing. -/
def Pending.addBlank (c : Char) : Pending → Pending
  | blanks t => blanks (t ++ [c])
  | breaks first more => breaks first more

/-- One more line break; blanks before it mean nothing. -/
def Pending.addBreak (c : Char) : Pending → Pending
  | blanks _ => breaks [c] []
  | breaks first more => breaks first (more ++ [c])

/-- The text that parts mean. -/
def foldParts (pending : Pending) : List Part → Text
  | [] => pending.text
  | .char c :: rest => pending.text ++ c :: foldParts (.blanks []) rest
  | .blank c :: rest => foldParts (pending.addBlank c) rest
  | .lineBreak c :: rest => foldParts (pending.addBreak c) rest
  | .joint :: rest => pending.text ++ foldParts (.breaks [] []) rest

/-- A part that ends a line. -/
def Part.endsLine : Part → Bool
  | lineBreak _ => true
  | joint => true
  | _ => false

/-- A quoted scalar that begins with its quote: its text, whether it spans lines, and what follows it. -/
def quoted? : Text → Option (Text × Bool × Text)
  | '\x22' :: r => (scanDouble .text r).map fun (parts, rest) =>
    (foldParts (.blanks []) parts, parts.any Part.endsLine, rest)
  | '\x27' :: r => (scanSingle r).map fun (parts, rest) =>
    (foldParts (.blanks []) parts, parts.any Part.endsLine, rest)
  | _ => none

end BatchMigrate.Yaml
