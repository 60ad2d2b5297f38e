import BatchMigrate.Yaml.Block
import BatchMigrate.Yaml.Plain

/-!
# Reading YAML

`read?` gives the node that a document holds. It knows block and flow collections and scalars of every style, but
neither tags, anchors and aliases, nor keys that are not scalars, nor directives; a text that uses them is refused like
one that is malformed. The depth of the recursion is bounded by the length of the text.
-/

namespace BatchMigrate.Yaml

/-! ## Scalars -/

/-- A quoted or plain scalar: the node, whether it spans lines, and what follows it. -/
def scalar? (inFlow : Bool) (least : Nat) (t : Text) : Option (Node × Bool × Text) :=
  match quoted? t with
  | some (text, spans, rest) => some (.scalar false text, spans, rest)
  | none =>
    if beginsPlain inFlow t then
      let (text, spans, rest) := plain inFlow least t
      some (.scalar true text, spans, rest)
    else none

/-- The longest distance between the start of a key and the colon after it. -/
def maxKeyLength : Nat := 1024

/-- A key of a block mapping, which stands on one line with the colon after it, and what follows the colon. -/
def key? (least : Nat) (t : Text) : Option (Text × Text) :=
  match scalar? false least t with
  | some (.scalar _ key, false, rest) =>
    match settle .line rest with
    | .inline (':' :: after) =>
      if atGap after && t.length ≤ after.length + 1 + maxKeyLength then some (key, after) else none
    | _ => none
  | _ => none

/-! ## Flow collections -/

/-- What follows a colon inside brackets that makes the scalar before it a key. After a quoted key nothing has to
separate the colon from the value. -/
def flowColon? (node : Node) (spans : Bool) (rest : Text) : Option (Text × Text) :=
  match node, spans, settleFlow false false rest with
  | .scalar isPlain key, false, (false, ':' :: after) => if !isPlain || atGap after then some (key, after) else none
  | _, _, _ => none

mutual

/-- A node inside brackets: the node, whether it spans lines, and what follows it. -/
def flowNode? : Nat → Text → Option (Node × Bool × Text)
  | 0, _ => none
  | fuel + 1, t =>
    match t with
    | '[' :: r => (flowSeq? fuel r).map fun (items, rest) => (.seq items, true, rest)
    | '\x7b' :: r => (flowMap? fuel r).map fun (entries, rest) => (.map entries, true, rest)
    | t => scalar? true 0 t

/-- The value after a colon inside brackets, which may be missing. -/
def flowValue? : Nat → Text → Option (Node × Text)
  | 0, _ => none
  | fuel + 1, t =>
    let (_, next) := settleFlow false false t
    match next with
    | ',' :: _ => some (.empty, next)
    | ']' :: _ => some (.empty, next)
    | '\x7d' :: _ => some (.empty, next)
    | next => (flowNode? fuel next).map fun (node, _, rest) => (node, rest)

/-- The items of a sequence in brackets, up to the closing one. An item may be a mapping of one entry. -/
def flowSeq? : Nat → Text → Option (List Node × Text)
  | 0, _ => none
  | fuel + 1, t =>
    match (settleFlow false false t).2 with
    | ']' :: rest => some ([], rest)
    | next => do
      let (node, spans, rest) ← flowNode? fuel next
      let (item, rest) ← match flowColon? node spans rest with
        | some (key, after) => (flowValue? fuel after).map fun (value, rest) => (Node.map [(key, value)], rest)
        | none => some (node, rest)
      match (settleFlow false false rest).2 with
      | ',' :: rest => (flowSeq? fuel rest).map fun (items, rest) => (item :: items, rest)
      | ']' :: rest => some ([item], rest)
      | _ => none

/-- The entries of a mapping in brackets, up to the closing one. A value may be missing. -/
def flowMap? : Nat → Text → Option (List (Text × Node) × Text)
  | 0, _ => none
  | fuel + 1, t =>
    match (settleFlow false false t).2 with
    | '\x7d' :: rest => some ([], rest)
    | next => do
      let (node, spans, rest) ← flowNode? fuel next
      let (entry, rest) ← match flowColon? node spans rest, node with
        | some (key, after), _ => (flowValue? fuel after).map fun (value, rest) => ((key, value), rest)
        | none, .scalar _ key => some ((key, Node.empty), rest)
        | none, _ => none
      match (settleFlow false false rest).2 with
      | ',' :: rest => (flowMap? fuel rest).map fun (entries, rest) => (entry :: entries, rest)
      | '\x7d' :: rest => some ([entry], rest)
      | _ => none

end

/-! ## Block collections -/

/-- Nothing follows that belongs to a node: the text ends, or a mark between documents stands there. -/
def endsDocument (column : Nat) (t : Text) : Bool := t = [] || (column = 0 && isMarker t)

/-- A block scalar begins here. -/
def beginsBlockScalar (t : Text) : Bool := t.head? = some '|' || t.head? = some '>'

/-- A node that belongs to a key or a dash at `column` stands at column `next` of a new line: it is indented, or it is a
block scalar. -/
def belongs (column next : Nat) (t : Text) : Bool :=
  !endsDocument next t && (column < next || (next = column && beginsBlockScalar t))

/-- An item of a block sequence begins here. -/
def beginsItem (t : Text) : Bool := t.head? = some '-' && atGap t.tail

/-- A node in the middle of a line that is neither a block mapping nor a block sequence: a flow collection, or a scalar
of any style. -/
def inlineNode? (fuel least : Nat) (t : Text) : Option (Node × Place) :=
  match t with
  | '|' :: r => (blockScalar? false least r).map fun (text, rest) => (.scalar false text, settle (.margin 0) rest)
  | '>' :: r => (blockScalar? true least r).map fun (text, rest) => (.scalar false text, settle (.margin 0) rest)
  | '[' :: _ => (flowNode? fuel t).map fun (node, _, rest) => (node, settle .line rest)
  | '\x7b' :: _ => (flowNode? fuel t).map fun (node, _, rest) => (node, settle .line rest)
  | t => (scalar? false least t).map fun (node, _, rest) => (node, settle .line rest)

mutual

/-- A node at `column`, which is at least `least`: a block collection, or what can also stand within a line. -/
def blockNode? : Nat → Nat → Nat → Text → Option (Node × Place)
  | 0, _, _, _ => none
  | fuel + 1, least, column, t =>
    if beginsItem t then (blockSeq? fuel column t).map fun (items, place) => (.seq items, place)
    else if (key? least t).isSome then (blockMap? fuel column t).map fun (entries, place) => (.map entries, place)
    else inlineNode? fuel least t

/-- The items of a sequence whose dashes stand at `column`, from the first dash on. -/
def blockSeq? : Nat → Nat → Text → Option (List Node × Place)
  | 0, _, _ => none
  | fuel + 1, column, t => do
    let after := t.tail
    if '\t' ∈ after.takeWhile isBlank then none
    else
      let (item, place) ← match settle .line after with
        | .inline rest => blockNode? fuel (column + 1) (column + (t.length - rest.length)) rest
        | .fresh next rest =>
          if belongs column next rest then blockNode? fuel (column + 1) next rest
          else some (.empty, .fresh next rest)
      match place with
      | .fresh next rest =>
        if next = column && beginsItem rest && !endsDocument next rest then
          (blockSeq? fuel column rest).map fun (items, place) => (item :: items, place)
        else some ([item], place)
      | .inline _ => some ([item], place)

/-- The entries of a mapping whose keys stand at `column`, from the first key on. -/
def blockMap? : Nat → Nat → Text → Option (List (Text × Node) × Place)
  | 0, _, _ => none
  | fuel + 1, column, t => do
    let (key, after) ← key? (column + 1) t
    let (value, place) ← match settle .line after with
      | .inline rest => inlineNode? fuel (column + 1) rest
      | .fresh next rest =>
        if belongs column next rest then blockNode? fuel (column + 1) next rest
        else if next = column && beginsItem rest && !endsDocument next rest then
          (blockSeq? fuel column rest).map fun (items, place) => (.seq items, place)
        else some (.empty, .fresh next rest)
    match place with
    | .fresh next rest =>
      if next = column && !endsDocument next rest then
        (blockMap? fuel column rest).map fun (entries, place) => ((key, value) :: entries, place)
      else some ([(key, value)], place)
    | .inline _ => some ([(key, value)], place)

end

/-! ## Documents -/

/-- Nothing but marks for the end of a document follows. -/
def isDone : Nat → Place → Bool
  | _, .fresh _ [] => true
  | fuel + 1, .fresh 0 ('.' :: '.' :: '.' :: r) => atGap r && isDone fuel (settle .line r)
  | _, _ => false

/-- The node of a document whose line ends are line feeds, and the place after it. -/
def documentNode? (fuel : Nat) (t : Text) : Option (Node × Place) :=
  match settle (.margin 0) t with
  | .inline _ => none
  | .fresh column rest =>
    if rest = [] then some (.empty, .fresh 0 [])
    else if column = 0 && isMarker rest then
      if rest.head? = some '-' then
        match settle .line (rest.drop 3) with
        | .inline r => inlineNode? fuel 0 r
        | .fresh column r =>
          if endsDocument column r then some (.empty, .fresh column r) else blockNode? fuel 0 column r
      else none
    else blockNode? fuel 0 column rest

/-- The node that a text holds, if it is one well-formed document. -/
def read? (t : Text) : Option Node :=
  if t.all isAllowed then
    let t := normalizeBreaks t
    match documentNode? (4 * t.length + 8) t with
    | some (node, place) => if isDone t.length place then some node else none
    | none => none
  else none

end BatchMigrate.Yaml
