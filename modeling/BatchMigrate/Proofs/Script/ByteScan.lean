import BatchMigrate.Proofs.Script.SeparatorLine
import BatchMigrate.Proofs.Text.Boundary
import BatchMigrate.Script.ByteScan

/-!
# The bytes and the characters of a line

The scan of the bytes of a line goes on byte by byte, also through the inside of a character. As no byte of a marker
continues a character, it finds a marker only where the characters have one (`Lex.standsAt_append`), and a character with
which no marker begins is passed over, however many bytes it has (`Lex.scanFrom?_char`). So each run of text that is sliced
out of the line begins and ends between two characters. `ScannedLine.Covers` is the invariant: what has been sliced out is
the part of the line up to the run that is being read. `Lex.Scans` tells what comes of the rest of the line, one lemma for
each way in which a run ends, and `Lex.exists_scanFrom?` follows the marks of its characters.
-/

namespace BatchMigrate

/-! ## Markers in bytes -/

namespace Lex

variable {bytes : List UInt8} {lex : Lex} {i : Nat}

theorem standsAt_iff_drop {c d : Char} : standsAt c d bytes i = true ↔ [c.toUInt8, d.toUInt8] <+: bytes.drop i := by
  have hfirst : bytes[i]? = (bytes.drop i)[0]? := by rw [List.getElem?_drop, Nat.add_zero]
  have hsecond : bytes[i + 1]? = (bytes.drop i)[1]? := by rw [List.getElem?_drop]
  rw [standsAt, hfirst, hsecond]
  rcases bytes.drop i with _ | ⟨x, _ | ⟨y, rest⟩⟩
  · simp
  · simp [List.cons_prefix_cons]
  · rw [List.cons_prefix_cons, List.cons_prefix_cons, eq_comm (a := c.toUInt8), eq_comm (a := d.toUInt8)]
    simp

/-- Two ASCII characters stand at the end of a part of a text if what follows begins with them. -/
theorem standsAt_append {c d : Char} (h : Text.utf8 [c, d] = [c.toUInt8, d.toUInt8]) (before rest : Text) :
    standsAt c d (Text.utf8 (before ++ rest)) (Text.utf8 before).length = true ↔ [c, d] <+: rest := by
  rw [standsAt_iff_drop, Text.utf8_append, List.drop_left, ← h, Text.utf8_isPrefix]

/-- At a byte that continues a character stands no ASCII character. -/
theorem standsAt_of_isContinuation {c d : Char} (hc : Text.isContinuation c.toUInt8 = false) {b : UInt8}
    (hb : bytes[i]? = some b) (h : Text.isContinuation b = true) : standsAt c d bytes i = false := by
  rw [standsAt, hb, Bool.and_eq_false_iff, decide_eq_false_iff_not, Option.some.injEq]
  refine .inl fun he => ?_
  rw [he, hc] at h
  cases h

/-- A marker that ends a run of text stands at a place in the bytes. -/
def endsRunAt (bytes : List UInt8) (i : Nat) : Lex → Bool
  | plain => standsAt '/' '*' bytes i || standsAt '-' '-' bytes i
  | blockComment _ => standsAt '*' '/' bytes i
  | lineComment => false

/-- A marker that ends a run of text stands at the start of a text. -/
def EndsRun (rest : Text) : Lex → Prop
  | plain => ['/', '*'] <+: rest ∨ ['-', '-'] <+: rest
  | blockComment _ => ['*', '/'] <+: rest
  | lineComment => False

theorem endsRunAt_append (lex : Lex) (before rest : Text) :
    endsRunAt (Text.utf8 (before ++ rest)) (Text.utf8 before).length lex = true ↔ EndsRun rest lex := by
  cases lex with
  | plain => rw [endsRunAt, Bool.or_eq_true, standsAt_append (by decide), standsAt_append (by decide), EndsRun]
  | lineComment => exact iff_of_false Bool.false_ne_true id
  | blockComment k => rw [endsRunAt, standsAt_append (by decide), EndsRun]

theorem endsRunAt_of_isContinuation (lex : Lex) {b : UInt8} (hb : bytes[i]? = some b)
    (h : Text.isContinuation b = true) : endsRunAt bytes i lex = false := by
  cases lex with
  | plain =>
    rw [endsRunAt, standsAt_of_isContinuation (by decide) hb h, standsAt_of_isContinuation (by decide) hb h]
    rfl
  | lineComment => rfl
  | blockComment k => exact standsAt_of_isContinuation (by decide) hb h

/-! ## Steps of the scan -/

variable {strip : Bool} {n start : Nat} {out : ScannedLine}

/-- A byte at which no marker stands is passed over. -/
theorem scanFrom?_succ (hi : i < bytes.length) (hlex : lex ≠ lineComment) (h : endsRunAt bytes i lex = false) :
    scanFrom? strip n bytes lex start i out = scanFrom? strip n bytes lex start (i + 1) out := by
  rw [scanFrom?.eq_def, dif_pos hi]
  cases lex with
  | plain => exact if_neg (Bool.eq_false_iff.1 h)
  | lineComment => exact absurd rfl hlex
  | blockComment k => exact if_neg (Bool.eq_false_iff.1 h)

/-- The bytes that continue a character are passed over. -/
theorem scanFrom?_continuations (hlex : lex ≠ lineComment) (after : List UInt8) : ∀ more before : List UInt8,
    (∀ b ∈ more, Text.isContinuation b = true) →
    scanFrom? strip n (before ++ (more ++ after)) lex start before.length out =
      scanFrom? strip n (before ++ (more ++ after)) lex start (before ++ more).length out
  | [], before, _ => by rw [List.append_nil]
  | b :: more, before, h => by
    have hbyte : (before ++ (b :: more ++ after))[before.length]? = some b := by
      rw [List.getElem?_append_right (Nat.le_refl _), Nat.sub_self]
      rfl
    have hlt : before.length < (before ++ (b :: more ++ after)).length := (List.getElem?_eq_some_iff.1 hbyte).1
    have ih := scanFrom?_continuations hlex after more (before ++ [b]) fun c hc => h c (List.mem_cons_of_mem b hc)
    rw [scanFrom?_succ hlt hlex (endsRunAt_of_isContinuation lex hbyte (h b List.mem_cons_self))]
    simpa using ih

/-- A character with which no marker begins is passed over, however many bytes it has. -/
theorem scanFrom?_char (hlex : lex ≠ lineComment) {before : Text} {c : Char} {rest : Text} (h : ¬EndsRun (c :: rest) lex) :
    scanFrom? strip n (Text.utf8 (before ++ c :: rest)) lex start before.utf8.length out =
      scanFrom? strip n (Text.utf8 (before ++ c :: rest)) lex start (Text.utf8 (before ++ [c])).length out := by
  obtain ⟨first, more, hc, _, hmore⟩ := Text.exists_utf8EncodeChar_eq_cons c
  have hends : endsRunAt (Text.utf8 (before ++ c :: rest)) before.utf8.length lex = false :=
    Bool.eq_false_iff.2 fun hmark => h ((endsRunAt_append lex before (c :: rest)).1 hmark)
  have hbytes : Text.utf8 (before ++ c :: rest) = before.utf8 ++ [first] ++ (more ++ rest.utf8) := by
    rw [Text.utf8_append, Text.utf8_cons, hc]
    simp
  have hlength : (Text.utf8 (before ++ [c])).length = (before.utf8 ++ [first] ++ more).length := by
    rw [Text.utf8_append, Text.utf8_singleton, hc]
    simp
  rw [scanFrom?_succ (by rw [hbytes]; simp) hlex hends, hlength, hbytes, ← scanFrom?_continuations hlex rest.utf8 more _ hmore]
  simp

end Lex

/-! ## Runs of text -/

namespace ScannedLine

variable {strip inComment : Bool} {line done run rest : Text} {out : ScannedLine}

/-- A run of text that is sliced out of a line. -/
def runPiece (inComment : Bool) (done run : Text) : LinePiece :=
  ⟨inComment, done.utf8.length, (done ++ run).utf8.length, run⟩

theorem keep?_append (strip inComment : Bool) (done run rest : Text) (out : ScannedLine) :
    out.keep? strip (done ++ run ++ rest).utf8 inComment done.utf8.length (done ++ run).utf8.length =
      some (out.add strip (runPiece inComment done run)) := by
  rw [keep?, Text.slice?_append]
  rfl

/-- Each piece begins where the one before it ends. -/
def Adjoining (first last : Nat) : List LinePiece → Prop
  | [] => first = last
  | piece :: rest => piece.first = first ∧ Adjoining piece.last last rest

theorem Adjoining.concat (piece : LinePiece) : ∀ {pieces : List LinePiece} {first : Nat},
    Adjoining first piece.first pieces → Adjoining first piece.last (pieces ++ [piece])
  | [], _, h => ⟨h.symm, rfl⟩
  | _ :: _, _, ⟨hfirst, hrest⟩ => ⟨hfirst, hrest.concat piece⟩

/-- What was sliced out of a line covers a part of it, from its start on. -/
structure Covers (line done : Text) (out : ScannedLine) : Prop where
  adjoining : Adjoining 0 done.utf8.length out.pieces
  sliced : ∀ piece ∈ out.pieces, Text.slice? line.utf8 piece.first piece.last = some piece.text
  whole : out.pieces.flatMap LinePiece.text = done
  plain : (out.pieces.filter fun piece => !piece.inComment).flatMap LinePiece.text = out.plain
  comment : ∀ place ∈ out.firstComment, Text.isBoundary line.utf8 place = true

theorem Covers.nil (line : Text) : Covers line [] {} :=
  ⟨rfl, fun _ h => absurd h List.not_mem_nil, rfl, rfl, fun _ h => by cases h⟩

/-- One more run of text covers more of the line. -/
theorem Covers.add (h : Covers line done out) (hline : line = done ++ run ++ rest) (strip inComment : Bool) :
    Covers line (done ++ run) (out.add strip (runPiece inComment done run)) where
  adjoining := h.adjoining.concat (runPiece inComment done run)
  sliced := by
    intro piece hpiece
    rcases List.mem_append.1 hpiece with hpiece | hpiece
    · exact h.sliced piece hpiece
    · rw [List.mem_singleton.1 hpiece, hline]
      exact Text.slice?_append done run rest
  whole := by
    rw [ScannedLine.add, List.flatMap_append, h.whole]
    simp [runPiece]
  plain := by
    rw [ScannedLine.add, List.filter_append, List.flatMap_append, h.plain]
    cases inComment <;> simp [runPiece]
  comment := h.comment

/-- A run of text outside comments, with which the first comment is opened if none was. -/
def openAfter (strip : Bool) (done run : Text) (out : ScannedLine) : ScannedLine :=
  { out.add strip (runPiece false done run) with
    firstComment := out.firstComment.or (some (done ++ run).utf8.length) }

theorem Covers.openAfter (h : Covers line done out) (hline : line = done ++ run ++ rest) (strip : Bool) :
    Covers line (done ++ run) (out.openAfter strip done run) where
  __ := h.add hline strip false
  comment := by
    intro place hplace
    rcases Option.or_eq_some_iff.1 hplace with hplace | ⟨_, hplace⟩
    · exact h.comment place hplace
    · cases hplace
      rw [hline]
      exact Text.isBoundary_append (done ++ run) rest

/-- **The pieces of a line**: slices between boundaries of characters, the first from the start of the line, each from where
the one before it ends and the last up to the end of the line. Together they are the line, and those outside comments are its
plain text; and its first comment is opened at a boundary. -/
structure Partitions (line : Text) (out : ScannedLine) : Prop where
  adjoining : Adjoining 0 line.utf8.length out.pieces
  ordered : ∀ piece ∈ out.pieces, piece.first ≤ piece.last ∧ piece.last ≤ line.utf8.length
  boundaries : ∀ piece ∈ out.pieces,
    Text.isBoundary line.utf8 piece.first = true ∧ Text.isBoundary line.utf8 piece.last = true
  sliced : ∀ piece ∈ out.pieces, Text.slice? line.utf8 piece.first piece.last = some piece.text
  comment : ∀ place ∈ out.firstComment, place ≤ line.utf8.length ∧ Text.isBoundary line.utf8 place = true
  whole : out.pieces.flatMap LinePiece.text = line
  plain : (out.pieces.filter fun piece => !piece.inComment).flatMap LinePiece.text = out.plain

theorem Covers.partitions (h : Covers line line out) : out.Partitions line where
  __ := h
  ordered piece hpiece :=
    have ⟨hle, hlast, _⟩ := Text.slice?_eq_some (h.sliced piece hpiece)
    ⟨hle, hlast⟩
  boundaries piece hpiece := (Text.slice?_eq_some (h.sliced piece hpiece)).2.2
  comment place hplace := ⟨Text.le_of_isBoundary (h.comment place hplace), h.comment place hplace⟩

end ScannedLine

/-! ## The scan of a line -/

namespace Lex

variable {strip : Bool} {n : Nat} {line done run rest : Text} {out : ScannedLine}

/-- At the end of a line its last run is sliced out. -/
theorem scanFrom?_end (strip : Bool) (n : Nat) (lex : Lex) (done run : Text) (out : ScannedLine) :
    scanFrom? strip n (done ++ run).utf8 lex done.utf8.length (done ++ run).utf8.length out =
      some (out.add strip (ScannedLine.runPiece (lex != plain) done run), lex.atLineEnd) := by
  have hkeep := ScannedLine.keep?_append strip (lex != plain) done run [] out
  rw [List.append_nil] at hkeep
  rw [scanFrom?.eq_def, dif_neg (Nat.lt_irrefl _), hkeep]
  rfl

/-- A comment introduced by two hyphens goes up to the end of its line. -/
theorem scanFrom?_lineComment (strip : Bool) (n : Nat) (done run rest : Text) (out : ScannedLine) :
    scanFrom? strip n (done ++ run ++ rest).utf8 lineComment done.utf8.length (done ++ run).utf8.length out =
      some (out.add strip (ScannedLine.runPiece true done (run ++ rest)), plain) := by
  have hend := scanFrom?_end strip n lineComment done (run ++ rest) out
  rw [← List.append_assoc] at hend
  by_cases hi : (done ++ run).utf8.length < (done ++ run ++ rest).utf8.length
  · rw [scanFrom?.eq_def, dif_pos hi]
    exact hend
  · have hrest : (done ++ run).utf8.length = (done ++ run ++ rest).utf8.length := by
      rw [Text.utf8_append _ rest, List.length_append] at hi ⊢
      omega
    rw [hrest]
    exact hend

/-- A marker that opens a comment ends a run of text. -/
theorem scanFrom?_opens {c d : Char} {next : Lex}
    (h : c = '/' ∧ d = '*' ∧ next = blockComment n ∨ c = '-' ∧ d = '-' ∧ next = lineComment) (done run rest : Text) :
    scanFrom? strip n (done ++ run ++ c :: d :: rest).utf8 plain done.utf8.length (done ++ run).utf8.length out =
      scanFrom? strip n (done ++ run ++ c :: d :: rest).utf8 next (done ++ run).utf8.length
        (done ++ run ++ [c, d]).utf8.length (out.openAfter strip done run) := by
  have hlength : (done ++ run ++ [c, d]).utf8.length = (done ++ run).utf8.length + 2 := by
    rw [Text.utf8_append _ [c, d], List.length_append]
    rcases h with ⟨rfl, rfl, _⟩ | ⟨rfl, rfl, _⟩ <;> rfl
  have hi : (done ++ run).utf8.length < (done ++ run ++ c :: d :: rest).utf8.length := by
    rw [Text.utf8_append _ (c :: d :: rest), List.length_append, Text.utf8_cons, List.length_append]
    have hc := List.length_pos_iff.2 (String.utf8EncodeChar_ne_nil (c := c))
    omega
  have hopens := standsAt_append (c := '/') (d := '*') (by decide) (done ++ run) (c :: d :: rest)
  have hhyphens := standsAt_append (c := '-') (d := '-') (by decide) (done ++ run) (c :: d :: rest)
  rw [scanFrom?.eq_def, dif_pos hi, hlength]
  dsimp only
  rw [ScannedLine.keep?_append]
  rcases h with ⟨rfl, rfl, rfl⟩ | ⟨rfl, rfl, rfl⟩
  · rw [hopens.2 (List.prefix_append ['/', '*'] rest)]
    rfl
  · have hslash : standsAt '/' '*' (done ++ run ++ '-' :: '-' :: rest).utf8 (done ++ run).utf8.length = false :=
      Bool.eq_false_iff.2 fun hslash => by simpa using hopens.1 hslash
    rw [hslash, hhyphens.2 (List.prefix_append ['-', '-'] rest)]
    rfl

/-- The marker that closes a block comment belongs to it. -/
theorem scanFrom?_closes (strip : Bool) (n k : Nat) (done run rest : Text) (out : ScannedLine) :
    scanFrom? strip n (done ++ run ++ '*' :: '/' :: rest).utf8 (blockComment k) done.utf8.length
        (done ++ run).utf8.length out =
      scanFrom? strip n (done ++ run ++ '*' :: '/' :: rest).utf8 plain (done ++ (run ++ ['*', '/'])).utf8.length
        (done ++ (run ++ ['*', '/'])).utf8.length
        (out.add strip (ScannedLine.runPiece true done (run ++ ['*', '/']))) := by
  have hlength : (done ++ (run ++ ['*', '/'])).utf8.length = (done ++ run).utf8.length + 2 := by
    rw [← List.append_assoc, Text.utf8_append _ ['*', '/'], List.length_append]
    rfl
  have hi : (done ++ run).utf8.length < (done ++ run ++ '*' :: '/' :: rest).utf8.length := by
    rw [Text.utf8_append _ ('*' :: '/' :: rest), List.length_append]
    exact Nat.lt_add_of_pos_right (Nat.succ_pos _)
  have hcloses := (standsAt_append (c := '*') (d := '/') (by decide) (done ++ run) ('*' :: '/' :: rest)).2
    (List.prefix_append ['*', '/'] rest)
  have hkeep := ScannedLine.keep?_append strip true done (run ++ ['*', '/']) rest out
  have hline : done ++ (run ++ ['*', '/']) ++ rest = done ++ run ++ '*' :: '/' :: rest := by simp
  rw [hline, hlength] at hkeep
  rw [scanFrom?.eq_def, dif_pos hi, hlength]
  dsimp only
  rw [hcloses, hkeep]
  rfl

/-! ### Bytes and marks -/

/-- The marks of a run of text that is read in a state. -/
def runMarks (run : Text) (lex : Lex) : List Mark := run.map fun c => ⟨c, lex != plain⟩

theorem runMarks_append (left right : Text) (lex : Lex) :
    runMarks (left ++ right) lex = runMarks left lex ++ runMarks right lex := List.map_append

theorem codeText_runMarks (run : Text) : ∀ lex : Lex, Mark.codeText (runMarks run lex) = if lex != plain then [] else run
  | plain => Mark.codeText_code run
  | lineComment | blockComment _ => Mark.codeText_of_comment (by simp [runMarks])

theorem fullText_runMarks (run : Text) (lex : Lex) : Mark.fullText (runMarks run lex) = run := by
  rw [Mark.fullText, runMarks, List.map_map]
  exact List.map_id run

theorem kept_append (strip : Bool) (left right : List Mark) :
    ScanState.kept strip (left ++ right) = ScanState.kept strip left ++ ScanState.kept strip right := by
  cases strip
  · exact Mark.fullText_append left right
  · exact Mark.codeText_append left right

open ScannedLine (runPiece)

theorem plain_add (strip : Bool) (lex : Lex) (done run : Text) (out : ScannedLine) :
    (out.add strip (runPiece (lex != plain) done run)).plain = out.plain ++ Mark.codeText (runMarks run lex) := by
  rw [codeText_runMarks]
  cases lex with
  | plain => rfl
  | lineComment | blockComment => exact (List.append_nil _).symm

theorem retained_add (strip : Bool) (lex : Lex) (done run : Text) (out : ScannedLine) :
    (out.add strip (runPiece (lex != plain) done run)).retained =
      out.retained ++ ScanState.kept strip (runMarks run lex) := by
  cases strip with
  | false =>
    have hkept : ScanState.kept false (runMarks run lex) = run := fullText_runMarks run lex
    rw [hkept, ScannedLine.add, Bool.and_false]
    rfl
  | true =>
    have hkept : ScanState.kept true (runMarks run lex) = if lex != plain then [] else run := codeText_runMarks run lex
    rw [hkept, ScannedLine.add, Bool.and_true]
    cases lex with
    | plain => rfl
    | lineComment | blockComment => exact (List.append_nil _).symm

/-- From a place on, the marks of the rest of a line tell what is sliced out of it. -/
structure Scans (strip : Bool) (line done : Text) (lex : Lex) (marks : List Mark) (out out' : ScannedLine) : Prop where
  covers : out'.Covers line line
  plain : out'.plain = out.plain ++ Mark.codeText marks
  retained : out'.retained = out.retained ++ ScanState.kept strip marks
  /-- The first comment stays the first. -/
  opened : ∀ place, out.firstComment = some place → out'.firstComment = some place
  /-- Where the line goes on outside comments, the next comment ends the text before it. -/
  head : lex = .plain → out.firstComment = none →
    out'.firstComment.getD line.utf8.length = (done ++ Mark.headText marks).utf8.length
  /-- A comment that goes up to the end of the line is not opened in it. -/
  unopened : lex = .lineComment → out'.firstComment = out.firstComment

namespace Scans

variable {lex next : Lex} {marks : List Mark} {out' : ScannedLine}

/-- The last run of a line. -/
theorem of_end (h : out.Covers (done ++ run) done) (strip : Bool) (lex : Lex) :
    Scans strip (done ++ run) done lex (runMarks run lex) out (out.add strip (runPiece (lex != .plain) done run)) where
  covers := h.add (List.append_nil _).symm strip _
  plain := plain_add strip lex done run out
  retained := retained_add strip lex done run out
  opened _ hplace := hplace
  head hlex hnone := by
    subst hlex
    have hhead : Mark.headText (runMarks run .plain) = run := Mark.headText_code run
    rw [hhead, ScannedLine.add, hnone]
    rfl
  unopened _ := rfl

/-- A run outside comments, which a comment ends. -/
theorem of_open {c d : Char} (h : Scans strip line (done ++ run) next (.comment c :: .comment d :: marks)
    (out.openAfter strip done run) out') :
    Scans strip line done .plain (runMarks run .plain ++ .comment c :: .comment d :: marks) out out' where
  covers := h.covers
  plain := by
    have hplain : (out.openAfter strip done run).plain = out.plain ++ Mark.codeText (runMarks run .plain) :=
      plain_add strip .plain done run out
    rw [h.plain, hplain, Mark.codeText_append, List.append_assoc]
  retained := by
    have hretained : (out.openAfter strip done run).retained = out.retained ++ ScanState.kept strip (runMarks run .plain) :=
      retained_add strip .plain done run out
    rw [h.retained, hretained, kept_append, List.append_assoc]
  opened place hplace := h.opened place (by rw [ScannedLine.openAfter, hplace]; rfl)
  head _ hnone := by
    have hfirst := h.opened (done ++ run).utf8.length (by rw [ScannedLine.openAfter, hnone]; rfl)
    have hhead : Mark.headText (runMarks run .plain ++ .comment c :: .comment d :: marks) = run :=
      Mark.headText_append (by rintro m ⟨⟩; rfl) run
    rw [hfirst, hhead]
    rfl
  unopened hlex := by cases hlex

/-- A run of a block comment, up to the end of the comment. -/
theorem of_close {k : Nat} (h : Scans strip line (done ++ run) .plain marks
    (out.add strip (runPiece true done run)) out') :
    Scans strip line done (.blockComment k) (runMarks run (.blockComment k) ++ marks) out out' where
  covers := h.covers
  plain := by
    rw [h.plain, Mark.codeText_append, ← List.append_assoc, ← plain_add strip (.blockComment k) done run out]
    rfl
  retained := by
    rw [h.retained, kept_append, ← List.append_assoc, ← retained_add strip (.blockComment k) done run out]
    rfl
  opened := h.opened
  head hlex := by cases hlex
  unopened hlex := by cases hlex

end Scans

/-- A character with which no marker begins joins the run that is being read. -/
theorem exists_scanFrom?_char {lex : Lex} (hlex : lex ≠ lineComment) {c : Char} (hends : ¬EndsRun (c :: rest) lex)
    (hline : line = done ++ run ++ c :: rest) {marks : List Mark} {final : Lex}
    (h : ∃ out', scanFrom? strip n line.utf8 lex done.utf8.length (done ++ (run ++ [c])).utf8.length out =
        some (out', final) ∧ Scans strip line done lex (runMarks (run ++ [c]) lex ++ marks) out out') :
    ∃ out', scanFrom? strip n line.utf8 lex done.utf8.length (done ++ run).utf8.length out = some (out', final) ∧
      Scans strip line done lex (runMarks run lex ++ ⟨c, lex != plain⟩ :: marks) out out' := by
  obtain ⟨out', hscan, S⟩ := h
  refine ⟨out', ?_, ?_⟩
  · rw [hline, scanFrom?_char hlex hends, ← hline, List.append_assoc]
    exact hscan
  · rw [runMarks_append, List.append_assoc] at S
    exact S

/-- **The scan of the bytes simulates the marking of the characters**: from each place on that it reaches it has a result,
which is what the marks of the rest of the line tell. -/
theorem exists_scanFrom? (strip : Bool) (n : Nat) (lex : Lex) (rest : Text) : ∀ (line done run : Text) {out : ScannedLine},
    line = done ++ run ++ rest → out.Covers line done →
    ∃ out', scanFrom? strip n line.utf8 lex done.utf8.length (done ++ run).utf8.length out =
        some (out', (lex.mark n rest).2.atLineEnd) ∧
      Scans strip line done lex (runMarks run lex ++ (lex.mark n rest).1) out out' := by
  fun_induction mark n lex rest with
  | case1 lex =>
    rintro line done run out rfl hcovers
    rw [List.append_nil] at hcovers ⊢
    rw [List.append_nil]
    exact ⟨_, scanFrom?_end strip n lex done run out, .of_end hcovers strip lex⟩
  | case2 rest marks final hmarks ih =>
    rintro line done run out rfl hcovers
    obtain ⟨out', hscan, S⟩ := ih _ (done ++ run) ['/', '*'] (by simp) (hcovers.openAfter rfl strip)
    rw [hmarks] at hscan S
    exact ⟨out', (scanFrom?_opens (.inl ⟨rfl, rfl, rfl⟩) done run rest).trans hscan, .of_open S⟩
  | case3 rest marks final hmarks ih =>
    rintro line done run out rfl hcovers
    obtain ⟨out', hscan, S⟩ := ih _ (done ++ run) ['-', '-'] (by simp) (hcovers.openAfter rfl strip)
    rw [hmarks] at hscan S
    exact ⟨out', (scanFrom?_opens (.inr ⟨rfl, rfl, rfl⟩) done run rest).trans hscan, .of_open S⟩
  | case4 c rest hblock hhyphens marks final hmarks ih =>
    intro line done run out hline hcovers
    have hends : ¬EndsRun (c :: rest) plain := by
      rintro (⟨more, hmore⟩ | ⟨more, hmore⟩)
      · cases hmore
        exact hblock more rfl rfl
      · cases hmore
        exact hhyphens more rfl rfl
    have hstep := ih line done (run ++ [c]) (hline.trans (by simp)) hcovers
    rw [hmarks] at hstep
    exact exists_scanFrom?_char (fun h => by cases h) hends hline hstep
  | case5 c rest marks final hmarks ih =>
    rintro line done run out rfl hcovers
    rw [mark_lineComment, Prod.mk.injEq] at hmarks
    obtain ⟨rfl, rfl⟩ := hmarks
    have hcovers : out.Covers (done ++ (run ++ c :: rest)) done := by rwa [← List.append_assoc]
    have hend := Scans.of_end hcovers strip lineComment
    rw [← List.append_assoc, runMarks_append] at hend
    exact ⟨_, scanFrom?_lineComment strip n done run (c :: rest) out, hend⟩
  | case6 k rest marks final hmarks ih =>
    intro line done run out hline hcovers
    have hsplit : line = done ++ (run ++ ['*', '/']) ++ rest := hline.trans (by simp)
    obtain ⟨out', hscan, S⟩ := ih line (done ++ (run ++ ['*', '/'])) [] (hsplit.trans (by simp)) (hcovers.add hsplit strip true)
    rw [hmarks] at hscan S
    rw [List.append_nil] at hscan
    have hclose := Scans.of_close (k := k) S
    rw [runMarks_append, List.append_assoc] at hclose
    refine ⟨out', ?_, hclose⟩
    rw [hline, scanFrom?_closes, ← hline]
    exact hscan
  | case7 k c rest hclose marks final hmarks ih =>
    intro line done run out hline hcovers
    have hends : ¬EndsRun (c :: rest) (blockComment k) := by
      rintro ⟨more, hmore⟩
      cases hmore
      exact hclose more rfl rfl
    have hstep := ih line done (run ++ [c]) (hline.trans (by simp)) hcovers
    rw [hmarks] at hstep
    exact exists_scanFrom?_char (fun h => by cases h) hends hline hstep

theorem exists_scanBytes? (strip : Bool) (n : Nat) (lex : Lex) (line : Text) :
    ∃ out, lex.scanBytes? strip n line = some (out, (lex.mark n line).2.atLineEnd) ∧
      Scans strip line [] lex (lex.mark n line).1 {} out :=
  exists_scanFrom? strip n lex line line [] [] rfl (.nil line)

end Lex

/-! ## Lines with their state -/

namespace ScanState

variable {strip : Bool} {n : Nat} {lex : Lex} {line : Text} {out : ScannedLine}

/-- Outside comments, the text before the first comment is sliced out of the bytes. -/
theorem slice?_headText (S : Lex.Scans strip line [] .plain (Lex.plain.mark n line).1 {} out) :
    Text.slice? line.utf8 0 (out.firstComment.getD line.utf8.length) = some (Mark.headText (Lex.plain.mark n line).1) := by
  obtain ⟨rest, hrest⟩ := Lex.headText_isPrefix n .plain line
  have hslice := Text.slice?_append [] (Mark.headText (Lex.plain.mark n line).1) rest
  rw [List.nil_append, hrest] at hslice
  rw [S.head rfl rfl]
  exact hslice

theorem codeText_lineComment (n : Nat) (line : Text) : Mark.codeText (Lex.lineComment.mark n line).1 = [] := by
  rw [Lex.mark_lineComment]
  exact Mark.codeText_of_comment (by simp [Mark.comment])

/-- Of a line inside a comment that ends with it, white space alone is compared with the separator. -/
theorem candidateBytes?_lineComment (S : Lex.Scans false line [] .lineComment (Lex.lineComment.mark n line).1 {} out)
    (separator : Separator) :
    ∃ found, candidateBytes? false .lineComment line out = some found ∧ found.bind separator.recognize = none := by
  have hplain : out.plain = [] := by
    rw [S.plain, codeText_lineComment]
    rfl
  have hslice := Text.slice?_append [] line []
  rw [List.append_nil, List.nil_append] at hslice
  have hfirst : out.firstComment.getD line.utf8.length = line.utf8.length := by rw [S.unopened rfl]; rfl
  refine ⟨if Text.trim line = Text.trim [] then some line else none, ?_, ?_⟩
  · rw [candidateBytes?, hfirst, hplain]
    exact congrArg (Option.map _) hslice
  · split
    next h => exact (separator.recognize_of_trim_eq h).trans separator.recognize_nil
    next => rfl

/-- What is compared with the separator is the same as without the bytes. -/
theorem exists_candidateBytes? (S : Lex.Scans strip line [] lex (lex.mark n line).1 {} out) (separator : Separator) :
    ∃ found, candidateBytes? strip lex line out = some found ∧
      found.bind separator.recognize = (candidate strip lex (lex.mark n line).1).bind separator.recognize := by
  cases strip with
  | true =>
    refine ⟨_, rfl, ?_⟩
    rw [S.plain]
    rfl
  | false =>
    cases lex with
    | plain =>
      refine ⟨_, congrArg (Option.map _) (slice?_headText S), ?_⟩
      rw [S.plain]
      rfl
    | lineComment =>
      obtain ⟨found, hfound, hnone⟩ := candidateBytes?_lineComment S separator
      refine ⟨found, hfound, hnone.trans ?_⟩
      rw [candidate, Lex.headText_of_ne_plain n (fun h => by cases h), codeText_lineComment]
      exact separator.recognize_nil.symm
    | blockComment k => exact ⟨none, rfl, rfl⟩

/-- A line has the same outcome whether its bytes or its characters are scanned. -/
theorem scanLineBytes?_eq (s : ScanState) (separator : Separator) (terminator line : Text) (isLast : Bool) :
    s.scanLineBytes? separator terminator line isLast = some (s.scanLine separator terminator line isLast) := by
  obtain ⟨out, hscan, S⟩ := Lex.exists_scanBytes? s.stripComments (s.lineNumber + 1) s.lex line
  obtain ⟨found, hfound, hbind⟩ := exists_candidateBytes? S separator
  rw [scanLineBytes?, hscan, Option.bind_eq_bind, Option.bind_some]
  dsimp only
  rw [hfound, Option.bind_eq_bind, Option.bind_some, hbind, S.retained, scanLine]
  dsimp only
  generalize (if (s.lex.mark (s.lineNumber + 1) line).2.atLineEnd.inBlock then none
    else (candidate s.stripComments s.lex (s.lex.mark (s.lineNumber + 1) line).1).bind separator.recognize) = found
  cases found <;> rfl

/-- **Scanning the bytes of a line is safe**, in whatever state the line begins: the scan has a result, so that no slice cuts
a character or lies outside the line. What is sliced out of the line is a partition of it, and it is what marking the
characters gives: the same text outside comments, the same text for the batch, the same state at the end and the same outcome
of the line. -/
theorem scanBytes_partitions (s : ScanState) (separator : Separator) (terminator line : Text) (isLast : Bool) :
    ∃ out, s.lex.scanBytes? s.stripComments (s.lineNumber + 1) line =
        some (out, (s.lex.mark (s.lineNumber + 1) line).2.atLineEnd) ∧
      out.Partitions line ∧
      out.plain = Mark.codeText (s.lex.mark (s.lineNumber + 1) line).1 ∧
      out.retained = kept s.stripComments (s.lex.mark (s.lineNumber + 1) line).1 ∧
      s.scanLineBytes? separator terminator line isLast = some (s.scanLine separator terminator line isLast) := by
  obtain ⟨out, hscan, S⟩ := Lex.exists_scanBytes? s.stripComments (s.lineNumber + 1) s.lex line
  exact ⟨out, hscan, S.covers.partitions, S.plain, S.retained, s.scanLineBytes?_eq separator terminator line isLast⟩

end ScanState

end BatchMigrate
