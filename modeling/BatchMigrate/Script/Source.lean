import BatchMigrate.Files.Fault

/-!
# Sources of lines

A source is asked for one line after the other. `Source` is any source, as the answers that it will give: it may fail,
and nothing says that it repeats itself after it has finished. `ByteReader` cuts a stream of bytes, which arrives in
chunks, at the occurrences of one character.
-/

namespace BatchMigrate

/-- What a source answers when it is asked for the next line. -/
inductive Answer
  /-- A line, without its terminator. -/
  | line (text : Text)
  /-- There are no more lines. -/
  | finished
  /-- The line cannot be read. -/
  | failed (fault : ReadFault)
  deriving DecidableEq, Repr

/-! ## Any source -/

/-- A source as the answers it gives to the requests to come; after the last of them it has finished. -/
structure Source where
  answers : List Answer
  /-- The number of requests made so far. -/
  asked : Nat := 0
  deriving DecidableEq, Repr

namespace Source

/-- The source of the given lines. -/
def ofLines (lines : List Text) : Source := { answers := lines.map .line }

/-- The next answer. -/
def next (s : Source) : Answer × Source :=
  match s.answers with
  | [] => (.finished, ⟨[], s.asked + 1⟩)
  | answer :: rest => (answer, ⟨rest, s.asked + 1⟩)

end Source

/-! ## Streams of bytes -/

/-- A stream of bytes that is cut into lines at each occurrence of `terminator`. -/
structure ByteReader where
  /-- The bytes to come, in the pieces in which they arrive. -/
  chunks : List (List UInt8)
  terminator : Char := '\n'
  deriving DecidableEq, Repr

namespace ByteReader

/-- The bytes that have not been read. -/
def rest (r : ByteReader) : List UInt8 := r.chunks.flatten

/-- Reads on in one chunk until what has been read, latest byte first, ends with `mark`; none if the chunk ends
before. -/
def readChunk (mark read : List UInt8) : List UInt8 → List UInt8 × Option (List UInt8)
  | [] => (read, none)
  | b :: bytes =>
    if mark.reverse.isPrefixOf (b :: read) then (b :: read, some bytes) else readChunk mark (b :: read) bytes

/-- Reads on until what has been read, latest byte first, ends with `mark`, or the stream ends. -/
def readThrough (mark read : List UInt8) : List (List UInt8) → List UInt8 × List (List UInt8)
  | [] => (read, [])
  | chunk :: chunks =>
    match readChunk mark read chunk with
    | (read, some bytes) => (read, bytes :: chunks)
    | (read, none) => readThrough mark read chunks

/-- The line that the read bytes, latest first, hold: without the terminator and, before a line feed, without one
carriage return. -/
def lineBytes (terminator : Char) (read : List UInt8) : List UInt8 :=
  let mark := (Text.utf8 [terminator]).reverse
  if mark.isPrefixOf read then
    match read.drop mark.length with
    | 0x0D :: line => if terminator = '\n' then line.reverse else (0x0D :: line).reverse
    | line => line.reverse
  else read.reverse

/-- The answer for the bytes of one line. -/
def answer (line : List UInt8) : Answer :=
  match Text.ofUtf8 line with
  | .ok text => .line text
  | .error fault => .failed (.badBytes fault)

/-- The next line. One that is not text is passed over with a fault, and the line after it is next. -/
def next (r : ByteReader) : Answer × ByteReader :=
  match readThrough (Text.utf8 [r.terminator]) [] r.chunks with
  | ([], chunks) => (.finished, { r with chunks })
  | (read, chunks) => (answer (lineBytes r.terminator read), { r with chunks })

/-! ## All lines -/

theorem length_readChunk (mark : List UInt8) : ∀ (bytes read : List UInt8),
    (readChunk mark read bytes).1.length + ((readChunk mark read bytes).2.getD []).length =
      read.length + bytes.length
  | [], read => by simp [readChunk]
  | b :: bytes, read => by
    unfold readChunk
    split
    · simp; omega
    · have := length_readChunk mark bytes (b :: read)
      simp at this ⊢; omega

theorem length_readThrough (mark : List UInt8) : ∀ (chunks : List (List UInt8)) (read : List UInt8),
    (readThrough mark read chunks).1.length + (readThrough mark read chunks).2.flatten.length =
      read.length + chunks.flatten.length
  | [], read => by simp [readThrough]
  | chunk :: chunks, read => by
    have hc := length_readChunk mark chunk read
    unfold readThrough
    split <;> rename_i h <;> simp only [h] at hc
    · simp at hc ⊢; omega
    · have := length_readThrough mark chunks ‹_›
      simp at hc this ⊢; omega

/-- A request that is answered with a line or a fault uses up bytes. -/
theorem length_rest_next {r : ByteReader} (h : r.next.1 ≠ .finished) : r.next.2.rest.length < r.rest.length := by
  have hl := length_readThrough (Text.utf8 [r.terminator]) r.chunks []
  cases he : readThrough (Text.utf8 [r.terminator]) [] r.chunks with
  | mk read chunks =>
    cases read with
    | nil => simp [next, he] at h
    | cons b read =>
      simp only [he, List.length_cons, List.length_nil] at hl
      simp only [next, he, rest]
      omega

/-- The answers up to the end of the stream. -/
def answers (r : ByteReader) : List Answer :=
  if h : r.next.1 = .finished then []
  else
    have := length_rest_next h
    r.next.1 :: answers r.next.2
  termination_by r.rest.length

/-- The lines of the stream, as a source. -/
def source (r : ByteReader) : Source := { answers := r.answers }

end ByteReader

end BatchMigrate
