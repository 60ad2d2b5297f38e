import BatchMigrate.Proofs.Text.Pieces
import BatchMigrate.Proofs.Text.Utf8
import BatchMigrate.Script.Source

/-!
# The lines of a stream

The bytes of a stream are cut after each leftmost occurrence of the terminator (`ByteLine.ofBytes`). A reader that has
its bytes in any chunks takes the first of these lines from what is left of them (`ByteReader.next_cases`); so each
request concerns the next line, and what has been read and what is left make up the stream (`ByteReader.next_skip`).
The reader looks for the terminator at the end of what it has read; that this finds the leftmost occurrence is
`ByteReader.readChunk_eq`, whose induction carries that the bytes read so far hold no terminator.
-/

namespace BatchMigrate

/-! ## Cutting at a mark -/

/-- The bytes before and after the leftmost occurrence of `mark`. -/
def cutAt (mark : List UInt8) : List UInt8 → Option (List UInt8 × List UInt8)
  | [] => none
  | b :: bytes =>
    if mark <+: b :: bytes then some ([], (b :: bytes).drop mark.length)
    else (cutAt mark bytes).map fun (before, after) => (b :: before, after)

section Cut

variable {mark bytes before after : List UInt8}

theorem eq_append_of_cutAt (h : cutAt mark bytes = some (before, after)) : bytes = before ++ mark ++ after := by
  induction bytes generalizing before after with
  | nil => cases h
  | cons b bytes ih =>
    rw [cutAt] at h
    split at h
    · rename_i hp
      cases h
      rw [List.nil_append, List.prefix_iff_eq_append.1 hp]
    · obtain ⟨⟨before, after⟩, hc, he⟩ := Option.map_eq_some_iff.1 h
      cases he
      rw [ih hc, List.cons_append, List.cons_append]

/-- Bytes are not cut if and only if the mark does not occur in them. -/
theorem cutAt_eq_none (hm : mark ≠ []) : cutAt mark bytes = none ↔ ¬mark <:+: bytes := by
  induction bytes with
  | nil => simp [cutAt, hm]
  | cons b bytes ih =>
    rw [cutAt, List.infix_cons_iff, not_or, ← ih]
    by_cases hp : mark <+: b :: bytes
    · simp [hp]
    · simp [hp]

/-- Bytes are cut at an occurrence of the mark that no other one precedes. -/
theorem cutAt_append (hm : mark ≠ []) (after : List UInt8) (h : ¬mark <:+: (before ++ mark).dropLast) :
    cutAt mark (before ++ mark ++ after) = some (before, after) := by
  induction before with
  | nil =>
    cases mark with
    | nil => exact absurd rfl hm
    | cons m mark => simp [cutAt]
  | cons b before ih =>
    have hne : before ++ mark ≠ [] := List.append_ne_nil_of_right_ne_nil before hm
    rw [List.cons_append, List.dropLast_cons_of_ne_nil hne, List.infix_cons_iff, not_or] at h
    have hp : ¬mark <+: b :: (before ++ mark ++ after) := by
      intro hp
      have hinit : b :: (before ++ mark).dropLast <+: b :: (before ++ mark ++ after) :=
        List.cons_prefix_cons.2 ⟨rfl, (List.dropLast_prefix _).trans (List.prefix_append _ _)⟩
      have hlen : mark.length ≤ (b :: (before ++ mark).dropLast).length := by
        simp only [List.length_cons, List.length_dropLast, List.length_append]
        omega
      exact h.1 (List.prefix_of_prefix_length_le hp hinit hlen)
    rw [List.cons_append, List.cons_append, cutAt, if_neg hp, ih h.2]
    rfl

/-- The mark does not occur before the place where it occurs first. -/
theorem not_infix_of_cutAt (hm : mark ≠ []) (h : cutAt mark bytes = some (before, after)) : ¬mark <:+: before := by
  induction bytes generalizing before after with
  | nil => cases h
  | cons b bytes ih =>
    rw [cutAt] at h
    split at h
    · cases h
      simpa using hm
    · rename_i hp
      obtain ⟨⟨before, after⟩, hc, he⟩ := Option.map_eq_some_iff.1 h
      cases he
      rw [List.infix_cons_iff, not_or]
      refine ⟨fun hb => hp (hb.trans ?_), ih hc⟩
      rw [eq_append_of_cutAt hc, List.append_assoc, ← List.cons_append]
      exact List.prefix_append _ _

theorem length_lt_of_cutAt (hm : mark ≠ []) (h : cutAt mark bytes = some (before, after)) :
    after.length < bytes.length := by
  have hpos := List.length_pos_iff.2 hm
  rw [eq_append_of_cutAt h]
  simp only [List.length_append]
  omega

end Cut

/-! ## Lines of bytes -/

theorem Text.utf8_singleton_ne_nil (c : Char) : Text.utf8 [c] ≠ [] := by
  simp [utf8]

/-- A line of a stream. -/
structure ByteLine where
  /-- The bytes before the terminator. -/
  body : List UInt8
  /-- A terminator follows them. -/
  terminated : Bool
  deriving DecidableEq, Repr

namespace ByteLine

/-- All bytes of the line. -/
def bytes (terminator : Char) (l : ByteLine) : List UInt8 :=
  l.body ++ if l.terminated then Text.utf8 [terminator] else []

/-- The bytes that are the text of the line: before a line feed, one carriage return is no part of it. -/
def content (terminator : Char) (l : ByteLine) : List UInt8 :=
  if l.terminated ∧ terminator = '\n' ∧ l.body.getLast? = some 0x0D then l.body.dropLast else l.body

/-- The lines of a stream, cut after each leftmost occurrence of the terminator. What follows the last of them is a line
if there are any bytes. -/
def ofBytes (terminator : Char) (bytes : List UInt8) : List ByteLine :=
  match _h : cutAt (Text.utf8 [terminator]) bytes with
  | some (before, after) => ⟨before, true⟩ :: ofBytes terminator after
  | none => if bytes = [] then [] else [⟨bytes, false⟩]
  termination_by bytes.length
  decreasing_by exact length_lt_of_cutAt (Text.utf8_singleton_ne_nil terminator) _h

variable {terminator : Char} {stream before after : List UInt8}

theorem ofBytes_of_some (h : cutAt (Text.utf8 [terminator]) stream = some (before, after)) :
    ofBytes terminator stream = ⟨before, true⟩ :: ofBytes terminator after := by
  rw [ofBytes]
  split
  · rename_i h'
    rw [h] at h'
    cases h'
    rfl
  · rename_i h'
    rw [h] at h'
    cases h'

theorem ofBytes_of_none (h : cutAt (Text.utf8 [terminator]) stream = none) :
    ofBytes terminator stream = if stream = [] then [] else [⟨stream, false⟩] := by
  rw [ofBytes]
  split
  · rename_i h'
    rw [h] at h'
    cases h'
  · rfl

theorem ofBytes_nil : ofBytes terminator [] = [] := ofBytes_of_none rfl

theorem content_isPrefix (terminator : Char) (l : ByteLine) : l.content terminator <+: l.body := by
  unfold content
  split
  · exact List.dropLast_prefix _
  · exact List.prefix_rfl

/-- No terminator occurs in the bytes before that of a line. -/
theorem not_infix_body {l : ByteLine} (h : l ∈ ofBytes terminator stream) : ¬Text.utf8 [terminator] <:+: l.body := by
  have hm := Text.utf8_singleton_ne_nil terminator
  fun_induction ofBytes terminator stream with
  | case1 stream before after hc ih =>
    rcases List.mem_cons.1 h with rfl | h
    · exact not_infix_of_cutAt hm hc
    · exact ih h
  | case2 hc => cases h
  | case3 stream hc hne =>
    rw [List.mem_singleton.1 h]
    exact (cutAt_eq_none hm).1 hc

end ByteLine

/-! ## Answers -/

/-- The answer to a request that concerns the given bytes: their text, or a fault if they are those of no text. -/
def Answer.Fits (bytes : List UInt8) : Answer → Prop
  | .line text => text.utf8 = bytes
  | .failed (.badBytes _) => ∀ text : Text, text.utf8 ≠ bytes
  | _ => False

namespace ByteReader

theorem answer_fits (bytes : List UInt8) : (answer bytes).Fits bytes := by
  unfold answer
  split
  · rename_i h
    exact Text.ofUtf8_eq_ok.1 h
  · rename_i h
    intro text ht
    rw [Text.ofUtf8_eq_ok.2 ht] at h
    cases h

theorem answer_utf8 (t : Text) : answer t.utf8 = .line t := by
  rw [answer, Text.ofUtf8_eq_ok.2 rfl]

theorem answer_ne_finished (bytes : List UInt8) : answer bytes ≠ .finished := by
  intro h
  have hfits := answer_fits bytes
  rw [h] at hfits
  exact hfits

end ByteReader

/-! ## Reading -/

namespace ByteReader

variable {mark : List UInt8}

theorem readChunk_append (mark : List UInt8) : ∀ (a b read : List UInt8), readChunk mark read (a ++ b) =
    match readChunk mark read a with
    | (read, some bytes) => (read, some (bytes ++ b))
    | (read, none) => readChunk mark read b
  | [], _, _ => rfl
  | x :: a, b, read => by
    rw [List.cons_append, readChunk, readChunk]
    split
    · rfl
    · exact readChunk_append mark a b _

/-- How the stream is cut into chunks makes no difference. -/
theorem readThrough_eq (mark : List UInt8) : ∀ (chunks : List (List UInt8)) (read : List UInt8),
    (readThrough mark read chunks).1 = (readChunk mark read chunks.flatten).1 ∧
      (readThrough mark read chunks).2.flatten = (readChunk mark read chunks.flatten).2.getD []
  | [], _ => ⟨rfl, rfl⟩
  | chunk :: chunks, read => by
    rw [List.flatten_cons, readChunk_append, readThrough]
    rcases readChunk mark read chunk with ⟨read, _ | bytes⟩
    · exact readThrough_eq mark chunks read
    · exact ⟨rfl, rfl⟩

/-- **Reading on** from bytes that hold no mark finds the leftmost one. -/
theorem readChunk_eq (hm : mark ≠ []) : ∀ (bytes read : List UInt8), ¬mark <:+: read.reverse →
    readChunk mark read bytes = match cutAt mark (read.reverse ++ bytes) with
      | some (before, after) => ((before ++ mark).reverse, some after)
      | none => ((read.reverse ++ bytes).reverse, none)
  | [], read, h => by
    rw [List.append_nil, (cutAt_eq_none hm).2 h, readChunk, List.reverse_reverse]
  | b :: bytes, read, h => by
    have hread : (b :: read).reverse = read.reverse ++ [b] := List.reverse_cons
    have hnext : read.reverse ++ b :: bytes = (b :: read).reverse ++ bytes := by simp
    have hmark : mark.reverse.isPrefixOf (b :: read) = true ↔ mark <:+ (b :: read).reverse := by
      rw [List.isPrefixOf_iff_prefix, ← List.reverse_prefix, List.reverse_reverse]
    rw [readChunk, hnext]
    by_cases hp : mark <:+ (b :: read).reverse
    · obtain ⟨before, hb⟩ := hp
      have hinit : (before ++ mark).dropLast = read.reverse := by rw [hb, hread, List.dropLast_concat]
      rw [if_pos (hmark.2 ⟨before, hb⟩), ← hb, cutAt_append hm bytes (hinit ▸ h)]
      show (b :: read, some bytes) = ((before ++ mark).reverse, some bytes)
      rw [hb, List.reverse_reverse]
    · rw [if_neg (mt hmark.1 hp)]
      refine readChunk_eq hm bytes (b :: read) fun hi => ?_
      rw [hread] at hi hp
      exact (List.infix_concat_iff.1 hi).elim hp h

/-- What has been read of a stream up to the first terminator, and what is left. -/
theorem readThrough_cases (r : ByteReader) :
    match cutAt (Text.utf8 [r.terminator]) r.rest with
    | some (before, after) =>
      (readThrough (Text.utf8 [r.terminator]) [] r.chunks).1 = (before ++ Text.utf8 [r.terminator]).reverse ∧
        (readThrough (Text.utf8 [r.terminator]) [] r.chunks).2.flatten = after
    | none =>
      (readThrough (Text.utf8 [r.terminator]) [] r.chunks).1 = r.rest.reverse ∧
        (readThrough (Text.utf8 [r.terminator]) [] r.chunks).2.flatten = [] := by
  have hm := Text.utf8_singleton_ne_nil r.terminator
  have heq := readThrough_eq (Text.utf8 [r.terminator]) r.chunks []
  rw [readChunk_eq hm r.chunks.flatten [] (by simpa using hm)] at heq
  rw [rest]
  cases hc : cutAt (Text.utf8 [r.terminator]) r.chunks.flatten with
  | none => simpa [hc] using heq
  | some cut => simpa [hc] using heq

/-- The text of a line that a terminator ends. -/
theorem lineBytes_terminated (terminator : Char) (body : List UInt8) :
    lineBytes terminator (body ++ Text.utf8 [terminator]).reverse = ByteLine.content terminator ⟨body, true⟩ := by
  have hp : (Text.utf8 [terminator]).reverse.isPrefixOf ((Text.utf8 [terminator]).reverse ++ body.reverse) = true :=
    List.isPrefixOf_iff_prefix.2 (List.prefix_append _ _)
  rw [List.reverse_append, lineBytes, if_pos hp, List.drop_left, ByteLine.content]
  rcases List.eq_nil_or_concat body with rfl | ⟨init, b, rfl⟩
  · simp
  · simp only [List.concat_eq_append, List.reverse_append, List.reverse_cons, List.reverse_nil, List.nil_append,
      List.cons_append, List.getLast?_append, List.getLast?_singleton, Option.some_or, Option.some.injEq, true_and,
      List.dropLast_concat]
    by_cases hb : b = 0x0D
    · subst hb
      by_cases ht : terminator = '\n' <;> simp [ht]
    · rw [if_neg fun h => hb h.2]
      split
      · rename_i heq
        exact absurd (List.cons.inj heq).1 hb
      · simp

/-- The text of a line that the end of the stream ends. -/
theorem lineBytes_unterminated {terminator : Char} {bytes : List UInt8} (h : ¬Text.utf8 [terminator] <:+: bytes) :
    lineBytes terminator bytes.reverse = bytes := by
  have hp : ¬(Text.utf8 [terminator]).reverse.isPrefixOf bytes.reverse = true := by
    rw [List.isPrefixOf_iff_prefix, List.reverse_prefix]
    exact fun hs => h hs.isInfix
  rw [lineBytes, if_neg hp, List.reverse_reverse]

/-- The lines that are left. -/
def lines (r : ByteReader) : List ByteLine := ByteLine.ofBytes r.terminator r.rest

/-- **One request.** At the end of the stream the reader has finished; otherwise the answer is that for the first line
that is left, and the reader goes on behind it. -/
theorem next_cases (r : ByteReader) :
    (r.lines = [] ∧ r.rest = [] ∧ r.next.1 = .finished ∧ r.next.2.lines = [] ∧ r.next.2.rest = []) ∨
    ∃ line, r.lines = line :: r.next.2.lines ∧ r.rest = line.bytes r.terminator ++ r.next.2.rest ∧
      r.next.1 = answer (line.content r.terminator) := by
  have hm := Text.utf8_singleton_ne_nil r.terminator
  have hread := readThrough_cases r
  rcases hthrough : readThrough (Text.utf8 [r.terminator]) [] r.chunks with ⟨read, chunks⟩
  rw [hthrough] at hread
  have hnext : read ≠ [] → r.next = (answer (lineBytes r.terminator read), { r with chunks }) := fun hne => by
    cases read with
    | nil => exact absurd rfl hne
    | cons b read => rw [next, hthrough]
  cases hc : cutAt (Text.utf8 [r.terminator]) r.rest with
  | some cut =>
    obtain ⟨before, after⟩ := cut
    rw [hc] at hread
    obtain ⟨rfl, rfl⟩ := hread
    right
    rw [lines, ByteLine.ofBytes_of_some hc, hnext (by simp [hm]), lineBytes_terminated]
    exact ⟨_, rfl, eq_append_of_cutAt hc, rfl⟩
  | none =>
    rw [hc] at hread
    obtain ⟨rfl, hrest⟩ := hread
    have hlines : lines { r with chunks } = [] := (congrArg (ByteLine.ofBytes r.terminator) hrest).trans ByteLine.ofBytes_nil
    rw [lines, ByteLine.ofBytes_of_none hc]
    by_cases he : r.rest = []
    · left
      rw [he] at hthrough
      rw [if_pos he, next, hthrough]
      exact ⟨rfl, he, rfl, hlines, hrest⟩
    · right
      rw [if_neg he, hnext (by simp [he]), lineBytes_unterminated ((cutAt_eq_none hm).1 hc)]
      refine ⟨⟨r.rest, false⟩, congrArg _ hlines.symm, ?_, rfl⟩
      rw [show rest { r with chunks } = [] from hrest, ByteLine.bytes, List.append_nil]
      exact (List.append_nil r.rest).symm

theorem terminator_next (r : ByteReader) : r.next.2.terminator = r.terminator := by
  unfold next
  split <;> rfl

/-- All answers are those for the lines of the stream. -/
theorem answers_eq (r : ByteReader) : r.answers = r.lines.map fun line => answer (line.content r.terminator) := by
  fun_induction answers r with
  | case1 r h =>
    rcases next_cases r with ⟨hlines, _⟩ | ⟨line, _, _, hanswer⟩
    · rw [hlines]
      rfl
    · rw [hanswer] at h
      exact absurd h (answer_ne_finished _)
  | case2 r h hlt ih =>
    rcases next_cases r with ⟨_, _, hanswer, _⟩ | ⟨line, hlines, _, hanswer⟩
    · exact absurd hanswer h
    · rw [hlines, List.map_cons, ← hanswer, ih, terminator_next]

/-- No line that is read holds the terminator. -/
theorem not_mem_of_line_mem {r : ByteReader} {t : Text} (h : .line t ∈ r.answers) : r.terminator ∉ t := by
  rw [answers_eq] at h
  obtain ⟨l, hl, hanswer⟩ := List.mem_map.1 h
  have hfits := answer_fits (l.content r.terminator)
  rw [hanswer] at hfits
  intro hmem
  obtain ⟨before, after, rfl⟩ := List.append_of_mem hmem
  have hmark : Text.utf8 [r.terminator] <:+: l.content r.terminator :=
    ⟨Text.utf8 before, Text.utf8 after, by rw [← hfits, ← Text.utf8_append, ← Text.utf8_append, List.append_assoc]; rfl⟩
  exact ByteLine.not_infix_body hl (hmark.trans (l.content_isPrefix r.terminator).isInfix)

/-! ## Any number of requests -/

/-- The reader after some requests. -/
def skip (r : ByteReader) : Nat → ByteReader
  | 0 => r
  | k + 1 => r.next.2.skip k

/-- **Any number of requests.** After `k` of them the next answer is that for line `k` of the stream, if it has so many,
and the lines before make up the stream with what is left. -/
theorem next_skip (k : Nat) (r : ByteReader) :
    (match r.lines[k]? with
      | some line => Answer.Fits (line.content r.terminator) (r.skip k).next.1
      | none => (r.skip k).next.1 = .finished) ∧
      (r.lines.take k).flatMap (ByteLine.bytes r.terminator) ++ (r.skip k).rest = r.rest := by
  induction k generalizing r with
  | zero =>
    refine ⟨?_, rfl⟩
    rcases next_cases r with ⟨hlines, _, hanswer, _⟩ | ⟨line, hlines, _, hanswer⟩
    · rw [hlines]
      exact hanswer
    · rw [hlines]
      show Answer.Fits _ r.next.1
      rw [hanswer]
      exact answer_fits _
  | succ k ih =>
    obtain ⟨hfits, hrest⟩ := ih r.next.2
    rw [terminator_next] at hfits hrest
    rcases next_cases r with ⟨hlines, hend, _, hnil, hnext⟩ | ⟨line, hlines, hbytes, _⟩
    · rw [hnil] at hfits hrest
      rw [hnext, List.take_nil] at hrest
      rw [hlines, hend, List.take_nil]
      exact ⟨hfits, hrest⟩
    · rw [hlines, List.take_succ_cons, List.flatMap_cons, List.append_assoc]
      exact ⟨hfits, (congrArg _ hrest).trans hbytes.symm⟩

end ByteReader

/-! ## The lines of a text -/

namespace Text

/-- The text of a line that a terminator ends: before a line feed, one carriage return is no part of it. -/
def bare (c : Char) (t : Text) : Text := if c = '\n' ∧ t.getLast? = some '\r' then t.dropLast else t

/-- The lines that the pieces of a text make: what follows the last terminator is a line if it is anything. -/
def linesOf (c : Char) : List Text → List Text
  | [] => []
  | [last] => if last = [] then [] else [last]
  | piece :: next :: pieces => bare c piece :: linesOf c (next :: pieces)

/-- The lines of a text. -/
def lines (c : Char) (t : Text) : List Text := linesOf c (splitOn c t)

variable {c : Char}

theorem lines_of_not_mem {t : Text} (h : c ∉ t) : lines c t = if t = [] then [] else [t] := by
  rw [lines, List.splitOn_eq_singleton h, linesOf]

theorem lines_append {s : Text} (h : c ∉ s) (t : Text) : lines c (s ++ c :: t) = bare c s :: lines c t := by
  rw [lines, List.splitOn_append_cons_self, List.splitOn_eq_singleton h, lines]
  cases ht : splitOn c t with
  | nil => exact absurd ht (List.splitOn_ne_nil c t)
  | cons piece pieces => rfl

theorem bare_subset (c : Char) (t : Text) : bare c t ⊆ t := by
  unfold bare
  split
  · exact List.dropLast_subset t
  · exact List.Subset.refl t

theorem not_mem_of_mem_linesOf {line : Text} : ∀ {pieces : List Text}, (∀ piece ∈ pieces, c ∉ piece) →
    line ∈ linesOf c pieces → c ∉ line
  | [], _, h => by cases h
  | [last], hp, h => by
    rw [linesOf] at h
    split at h
    · cases h
    · exact hp line h
  | piece :: next :: pieces, hp, h => by
    obtain ⟨hpiece, hp⟩ := List.forall_mem_cons.1 hp
    rcases List.mem_cons.1 h with rfl | h
    · exact fun hm => hpiece (bare_subset c piece hm)
    · exact not_mem_of_mem_linesOf hp h

/-- No line of a text holds the terminator. -/
theorem not_mem_of_mem_lines {t line : Text} (h : line ∈ lines c t) : c ∉ line :=
  not_mem_of_mem_linesOf (fun _ => not_mem_of_mem_splitOn) h

/-- Lines that are written with a terminator after each are read again, and then the lines of what follows. -/
theorem lines_flatMap_append : ∀ {texts : List Text}, (∀ t ∈ texts, c ∉ t ∧ bare c t = t) → ∀ rest : Text,
    lines c (texts.flatMap (· ++ [c]) ++ rest) = texts ++ lines c rest
  | [], _, _ => rfl
  | t :: texts, h, rest => by
    obtain ⟨⟨hc, hbare⟩, htexts⟩ := List.forall_mem_cons.1 h
    rw [List.flatMap_cons, List.append_assoc, List.append_assoc, List.singleton_append, lines_append hc, hbare,
      lines_flatMap_append htexts, List.cons_append]

theorem lines_flatMap {texts : List Text} (h : ∀ t ∈ texts, c ∉ t ∧ bare c t = t) :
    lines c (texts.flatMap (· ++ [c])) = texts := by
  have happend := lines_flatMap_append h []
  rw [List.append_nil] at happend
  exact happend.trans (List.append_nil texts)

end Text

section Text

variable {c : Char}

/-- Inside a character no terminator begins. -/
theorem cutAt_append_continuations : ∀ {more : List UInt8}, (∀ b ∈ more, Text.isContinuation b = true) →
    ∀ r : List UInt8, cutAt (Text.utf8 [c]) (more ++ r) =
      (cutAt (Text.utf8 [c]) r).map fun (before, after) => (more ++ before, after)
  | [], _, r => by
    simp
  | b :: more, h, r => by
    obtain ⟨hb, hmore⟩ := List.forall_mem_cons.1 h
    obtain ⟨first, rest, hc, hfirst, _⟩ := Text.exists_utf8EncodeChar_eq_cons c
    have hp : ¬Text.utf8 [c] <+: b :: (more ++ r) := by
      rw [Text.utf8_singleton, hc, List.cons_prefix_cons]
      rintro ⟨rfl, _⟩
      rw [hb] at hfirst
      cases hfirst
    rw [List.cons_append, cutAt, if_neg hp, cutAt_append_continuations hmore r, Option.map_map]
    rfl

/-- Another character is no terminator and holds none. -/
theorem cutAt_append_char {d : Char} (h : d ≠ c) (r : List UInt8) :
    cutAt (Text.utf8 [c]) (String.utf8EncodeChar d ++ r) =
      (cutAt (Text.utf8 [c]) r).map fun (before, after) => (String.utf8EncodeChar d ++ before, after) := by
  obtain ⟨first, more, hd, _, hmore⟩ := Text.exists_utf8EncodeChar_eq_cons d
  have hp : ¬Text.utf8 [c] <+: String.utf8EncodeChar d ++ r := by
    rw [Text.utf8_singleton]
    intro hp
    rcases List.prefix_or_prefix_of_prefix hp (List.prefix_append _ r) with hcd | hdc
    · exact h (Text.eq_of_utf8EncodeChar_isPrefix hcd).symm
    · exact h (Text.eq_of_utf8EncodeChar_isPrefix hdc)
  rw [hd, List.cons_append] at hp ⊢
  rw [cutAt, if_neg hp, cutAt_append_continuations hmore r, Option.map_map]
  rfl

/-- A text without the terminator is passed over. -/
theorem cutAt_append_text : ∀ {t : Text}, c ∉ t → ∀ r : List UInt8, cutAt (Text.utf8 [c]) (t.utf8 ++ r) =
    (cutAt (Text.utf8 [c]) r).map fun (before, after) => (t.utf8 ++ before, after)
  | [], _, r => by
    simp [Text.utf8]
  | d :: t, h, r => by
    rw [List.mem_cons, not_or] at h
    rw [Text.utf8_cons d t, List.append_assoc, cutAt_append_char (Ne.symm h.1), cutAt_append_text h.2, Option.map_map]
    simp only [Function.comp_def, List.append_assoc]

namespace ByteLine

theorem ofBytes_text_terminated {t : Text} (h : c ∉ t) (after : List UInt8) :
    ofBytes c (t.utf8 ++ (Text.utf8 [c] ++ after)) = ⟨t.utf8, true⟩ :: ofBytes c after := by
  refine ofBytes_of_some ?_
  have hm := Text.utf8_singleton_ne_nil c
  have hmark : cutAt (Text.utf8 [c]) ([] ++ Text.utf8 [c] ++ after) = some ([], after) := by
    refine cutAt_append hm after fun hi => ?_
    have hlen := hi.length_le
    rw [List.nil_append, List.length_dropLast] at hlen
    have hpos := List.length_pos_iff.2 hm
    omega
  rw [List.nil_append] at hmark
  rw [cutAt_append_text h, hmark]
  show some (t.utf8 ++ [], after) = _
  rw [List.append_nil]

theorem ofBytes_text {t : Text} (h : c ∉ t) : ofBytes c t.utf8 = if t = [] then [] else [⟨t.utf8, false⟩] := by
  have hc : cutAt (Text.utf8 [c]) t.utf8 = none := by
    rw [← List.append_nil t.utf8, cutAt_append_text h]
    rfl
  rw [ofBytes_of_none hc]
  cases t with
  | nil => rfl
  | cons d t => simp [Text.utf8_cons, String.utf8EncodeChar_ne_nil]

/-- A character ends in the byte of a carriage return only if it is one. -/
theorem getLast?_utf8EncodeChar (d : Char) : (String.utf8EncodeChar d).getLast? = some 0x0D ↔ d = '\r' := by
  refine ⟨fun h => ?_, fun h => h ▸ rfl⟩
  obtain ⟨first, more, hd, _, hmore⟩ := Text.exists_utf8EncodeChar_eq_cons d
  rw [hd] at h
  rcases List.eq_nil_or_concat more with rfl | ⟨init, last, rfl⟩
  · have hcr : String.utf8EncodeChar d = String.utf8EncodeChar '\r' := by
      rw [hd]
      exact congrArg (fun b => [b]) (Option.some.inj h)
    exact Text.eq_of_utf8EncodeChar_isPrefix (hcr ▸ List.prefix_refl _)
  · rw [List.concat_eq_append, ← List.cons_append, List.getLast?_concat, Option.some.injEq] at h
    have hcont := hmore last (by simp)
    rw [h] at hcont
    exact absurd hcont (by decide)

/-- Text keeps its carriage returns, but for one before a line feed. -/
theorem content_text (c : Char) (t : Text) : content c ⟨t.utf8, true⟩ = (Text.bare c t).utf8 := by
  rcases List.eq_nil_or_concat t with rfl | ⟨init, d, rfl⟩
  · simp [content, Text.bare, Text.utf8]
  · have hlast : (Text.utf8 init ++ String.utf8EncodeChar d).getLast? = (String.utf8EncodeChar d).getLast? := by
      rw [List.getLast?_append, List.getLast?_eq_some_getLast String.utf8EncodeChar_ne_nil, Option.some_or]
    rw [List.concat_eq_append, content, Text.bare, Text.utf8_append, Text.utf8_singleton]
    simp only [true_and, hlast, getLast?_utf8EncodeChar, List.getLast?_concat, Option.some.injEq]
    split
    · rename_i h
      rw [h.2, List.dropLast_concat]
      exact List.dropLast_concat
    · rw [Text.utf8_append, Text.utf8_singleton]

/-- The lines of the bytes of a text are those of the text. -/
theorem map_content_ofBytes (c : Char) (t : Text) :
    (ofBytes c t.utf8).map (content c) = (Text.lines c t).map Text.utf8 := by
  by_cases hc : c ∈ t
  · obtain ⟨s, rest, rfl, hs⟩ := List.eq_append_cons_of_mem hc
    rw [Text.utf8_append, ← List.singleton_append, Text.utf8_append, ofBytes_text_terminated hs,
      List.singleton_append, Text.lines_append hs, List.map_cons, List.map_cons, content_text,
      map_content_ofBytes c rest]
  · rw [ofBytes_text hc, Text.lines_of_not_mem hc]
    split <;> simp [content]
  termination_by t.length

end ByteLine

namespace ByteReader

/-- **The lines of a text** are what its bytes are read as. -/
theorem answers_text {r : ByteReader} {t : Text} (h : r.rest = t.utf8) :
    r.answers = (Text.lines r.terminator t).map .line := by
  have hlines := congrArg (List.map answer) (ByteLine.map_content_ofBytes r.terminator t)
  rw [List.map_map, List.map_map, ← h] at hlines
  rw [answers_eq]
  exact hlines.trans (List.map_congr_left fun line _ => answer_utf8 line)

end ByteReader

end Text

end BatchMigrate
