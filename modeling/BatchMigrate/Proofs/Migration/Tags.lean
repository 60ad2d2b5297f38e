import Mathlib.Data.List.Forall2
import BatchMigrate.Migration.Tags
import BatchMigrate.Proofs.Text.Fold
import BatchMigrate.Proofs.Text.Pieces
import BatchMigrate.Proofs.Text.Trim

/-!
# The header of a script

The header is the longest run of lines at the top of a script that are blank or begin with `--` (`Tags.HeaderOf`). Each of
its lines that reads `-- tags: …`, up to white space and the case of the word, gives the tags of its list (`Tags.LineTags`),
the others give none; the tags of the script are those of all lines in a row (`Tags.ofScript_header`). What follows the
header is of no account, and tags that are written on such lines, among other comments, are read back.

Lines are taken as they stand between line feeds. Whether the last one ends with a line feed makes no difference, nor does a
carriage return at the end of a line: an empty line is blank, and the white space around a line is taken off.
-/

namespace BatchMigrate.Tags

open Text (SameWord)

variable {line list script body tag : Text} {tags header : List Text}

/-! ## Lists with commas -/

/-- A tag as it is read: not empty, with no white space around it and no comma in it. -/
structure IsTag (tag : Text) : Prop where
  ne_nil : tag ≠ []
  trim_eq : Text.trim tag = tag
  no_comma : ',' ∉ tag

instance : DecidablePred IsTag := fun tag =>
  decidable_of_iff (tag ≠ [] ∧ Text.trim tag = tag ∧ ',' ∉ tag)
    ⟨fun ⟨hne, htrim, hcomma⟩ => ⟨hne, htrim, hcomma⟩, fun h => ⟨h.ne_nil, h.trim_eq, h.no_comma⟩⟩

/-- The tags among the pieces between commas. -/
theorem ofList_intercalate {pieces : List Text} (hne : pieces ≠ []) (h : ∀ piece ∈ pieces, ',' ∉ piece) :
    ofList (Text.intercalate [','] pieces) = (pieces.map Text.trim).filter (· ≠ []) := by
  rw [ofList, List.splitOn_intercalate ',' h hne]

/-- What is read from a list are tags. -/
theorem isTag_of_mem_ofList (h : tag ∈ ofList list) : IsTag tag := by
  obtain ⟨hmem, hne⟩ := List.mem_filter.1 h
  obtain ⟨piece, hpiece, rfl⟩ := List.mem_map.1 hmem
  exact ⟨by simpa using hne, Text.trimBy_trimBy Text.isSpace piece,
    fun hcomma => Text.not_mem_of_mem_splitOn hpiece ((Text.trimBy_isInfix Text.isSpace piece).subset hcomma)⟩

/-- The list with a blank after each comma, and one in front. -/
theorem cons_intercalate_blank : ∀ {tags : List Text}, tags ≠ [] →
    ' ' :: Text.intercalate [',', ' '] tags = Text.intercalate [','] (tags.map (' ' :: ·))
  | [], hne => absurd rfl hne
  | [tag], _ => rfl
  | tag :: next :: tags, _ => by
    have ih := cons_intercalate_blank (List.cons_ne_nil next tags)
    rw [List.intercalate_cons_cons, List.map_cons,
      List.intercalate_cons_of_ne_nil (List.map_eq_nil_iff.not.2 (List.cons_ne_nil next tags)), ← ih]
    simp

/-- Tags that are written with blanks and commas are read back. -/
theorem ofList_written (h : ∀ tag ∈ tags, IsTag tag) (hne : tags ≠ []) :
    ofList (' ' :: Text.intercalate [',', ' '] tags) = tags := by
  have hcomma : ∀ piece ∈ tags.map (' ' :: ·), ',' ∉ piece := by
    intro piece hpiece
    obtain ⟨tag, htag, rfl⟩ := List.mem_map.1 hpiece
    exact List.not_mem_cons_of_ne_of_not_mem (by decide) (h tag htag).no_comma
  have htrim : tags.map (Text.trim ∘ (' ' :: ·)) = tags := by
    refine (List.map_congr_left fun tag htag => ?_).trans (List.map_id tags)
    have hblank := @Text.trim_append [' '] [] rfl rfl tag
    rw [List.append_nil] at hblank
    exact hblank.trans (h tag htag).trim_eq
  rw [cons_intercalate_blank hne, ofList_intercalate (List.map_eq_nil_iff.not.2 hne) hcomma, List.map_map, htrim,
    List.filter_eq_self]
  exact fun tag htag => decide_eq_true (h tag htag).ne_nil

/-! ## Lines -/

/-- A line of the header: blank, or a comment. -/
def IsHeaderLine (line : Text) : Prop := Text.trim line = [] ∨ ['-', '-'] <+: Text.trim line

instance : DecidablePred IsHeaderLine := fun _ => inferInstanceAs (Decidable (_ ∨ _))

/-- The line reads `--`, the word `tags` but for case, a colon and the list, with or without white space before the word and
before the colon. -/
def Spells (line list : Text) : Prop :=
  ∃ gap word gap' : Text, gap.isBlank = true ∧ SameWord (Text.of "tags") word ∧ gap'.isBlank = true ∧
    line = '-' :: '-' :: (gap ++ (word ++ (gap' ++ ':' :: list)))

/-- The tags that a line of the header gives. -/
inductive LineTags (line : Text) : List Text → Prop
  /-- The pieces of the list between its commas, without white space around them and without the empty ones. -/
  | tags {pieces : List Text} (hne : pieces ≠ []) (h : ∀ piece ∈ pieces, ',' ∉ piece)
      (hline : Spells (Text.trim line) (Text.intercalate [','] pieces)) :
      LineTags line ((pieces.map Text.trim).filter (· ≠ []))
  /-- None, on any other line. -/
  | other (h : ∀ list, ¬Spells (Text.trim line) list) : LineTags line []

/-- **The tags lines** are those of the grammar. -/
theorem tagList?_eq_some : tagList? line = some list ↔ Spells line list := by
  constructor
  · intro h
    unfold tagList? at h
    split at h
    · rename_i rest
      split at h
      · rename_i word after hcut
        split at h
        · rename_i colon hcolon
          cases h
          obtain ⟨hword, hrest⟩ := Text.cutWord_eq_some.1 hcut
          refine ⟨_, word, _, Text.isBlank_takeWhile rest, hword, Text.isBlank_takeWhile after, ?_⟩
          rw [← hcolon, List.takeWhile_append_dropWhile, ← hrest, List.takeWhile_append_dropWhile]
        · cases h
      · cases h
    · cases h
  · rintro ⟨gap, word, gap', hgap, hword, hgap', rfl⟩
    have hne : word ≠ [] := hword.ne_nil (by decide)
    have hall : (Text.of "tags").all (fun c => !Text.isSpace c) = true := by decide
    have hspace : ∀ c ∈ word, Text.isSpace c = false :=
      hword.isSpace fun c hc => Bool.not_eq_true' _ ▸ List.all_eq_true.1 hall c hc
    have hhead : ∀ c, (word ++ (gap' ++ ':' :: list)).head? = some c → Text.isSpace c = false := by
      intro c hc
      rw [List.head?_append, List.head?_eq_some_head hne, Option.some_or] at hc
      exact hspace c (List.mem_of_head? ((List.head?_eq_some_head hne).trans hc))
    have hcut : Text.cutWord ['t', 'a', 'g', 's'] (word ++ (gap' ++ ':' :: list)) = some (word, gap' ++ ':' :: list) :=
      Text.cutWord_eq_some.2 ⟨hword, rfl⟩
    have hcolon : (gap' ++ ':' :: list).dropWhile Text.isSpace = ':' :: list :=
      Text.dropWhile_blank hgap' fun c hc => by
        cases hc
        decide
    simp only [tagList?, Text.dropWhile_blank hgap hhead, hcut, hcolon]

/-- The tags on a line. -/
def onLine (line : Text) : List Text := ((tagList? (Text.trim line)).map ofList).getD []

theorem onLine_of_spells (h : Spells (Text.trim line) list) : onLine line = ofList list := by
  rw [onLine, tagList?_eq_some.2 h]
  rfl

theorem tagList?_eq_none : tagList? line = none ↔ ∀ list, ¬Spells line list := by
  simp only [Option.eq_none_iff_forall_ne_some, Ne, tagList?_eq_some]

theorem onLine_of_not_spells (h : ∀ list, ¬Spells (Text.trim line) list) : onLine line = [] := by
  rw [onLine, tagList?_eq_none.2 h]
  rfl

/-- **Each line gives just these tags.** -/
theorem lineTags_iff : LineTags line tags ↔ onLine line = tags := by
  constructor
  · rintro (⟨hne, hcomma, hline⟩ | hother)
    · rw [onLine_of_spells hline, ofList_intercalate hne hcomma]
    · exact onLine_of_not_spells hother
  · rintro rfl
    by_cases h : ∃ list, Spells (Text.trim line) list
    · obtain ⟨list, hlist⟩ := h
      rw [onLine_of_spells hlist]
      refine .tags (List.splitOn_ne_nil ',' list) (fun piece => Text.not_mem_of_mem_splitOn) ?_
      rwa [List.intercalate_splitOn]
    · rw [onLine_of_not_spells (not_exists.1 h)]
      exact .other (not_exists.1 h)

theorem isTag_of_mem_onLine (h : tag ∈ onLine line) : IsTag tag := by
  unfold onLine at h
  cases hlist : tagList? (Text.trim line) with
  | none =>
    rw [hlist] at h
    cases h
  | some list =>
    rw [hlist] at h
    exact isTag_of_mem_ofList h

/-! ## Headers -/

/-- The lines of the script are those of the header and of the rest, which begins with no line of a header. -/
structure HeaderOf (script : Text) (header rest : List Text) : Prop where
  script_eq : script = Text.intercalate ['\n'] (header ++ rest)
  unbroken : ∀ line ∈ header ++ rest, '\n' ∉ line
  isHeaderLine : ∀ line ∈ header, IsHeaderLine line
  not_isHeaderLine : ∀ line, rest.head? = some line → ¬IsHeaderLine line

theorem exists_headerOf (script : Text) : ∃ header rest, HeaderOf script header rest := by
  refine ⟨(Text.splitOn '\n' script).takeWhile (IsHeaderLine ·),
    (Text.splitOn '\n' script).dropWhile (IsHeaderLine ·), ?_⟩
  constructor
  · rw [List.takeWhile_append_dropWhile, List.intercalate_splitOn]
  · rw [List.takeWhile_append_dropWhile]
    exact fun line => Text.not_mem_of_mem_splitOn
  · exact fun line hline => by simpa using List.mem_takeWhile_imp hline
  · intro line hline
    have hnot := List.head?_dropWhile_not (IsHeaderLine ·) (Text.splitOn '\n' script)
    rw [hline] at hnot
    exact of_decide_eq_false hnot

theorem ofScript_eq (script : Text) :
    ofScript script = ((Text.splitOn '\n' script).takeWhile (IsHeaderLine ·)).flatMap onLine := by
  have hline : (fun line : Text => decide (IsHeaderLine line)) =
      (fun line => line = [] || ['-', '-'].isPrefixOf line) ∘ Text.trim := by
    funext line
    rw [Bool.eq_iff_iff, Function.comp_apply, decide_eq_true_eq, Bool.or_eq_true, decide_eq_true_eq,
      List.isPrefixOf_iff_prefix, IsHeaderLine]
  rw [hline, ofScript, headerLines, List.takeWhile_map, List.flatMap_map]
  rfl

/-- **The tags are those of the lines of the header.** -/
theorem HeaderOf.ofScript_eq {rest : List Text} (h : HeaderOf script header rest) :
    ofScript script = header.flatMap onLine := by
  have hrest : rest.takeWhile (IsHeaderLine ·) = [] := by
    cases rest with
    | nil => rfl
    | cons line rest => exact List.takeWhile_cons_of_neg (by simpa using h.not_isHeaderLine line rfl)
  by_cases hnil : header ++ rest = []
  · obtain ⟨rfl, rfl⟩ := List.append_eq_nil_iff.1 hnil
    rw [h.script_eq]
    rfl
  · rw [Tags.ofScript_eq, h.script_eq, List.splitOn_intercalate '\n' h.unbroken hnil,
      List.takeWhile_append_of_pos fun line hline => by simpa using h.isHeaderLine line hline, hrest, List.append_nil]

/-- The first line of a text. -/
def firstLine (t : Text) : Text := t.takeWhile (· ≠ '\n')

/-- A text that does not begin with a line of a header has no tags. -/
theorem ofScript_of_firstLine (h : ¬IsHeaderLine (firstLine body)) : ofScript body = [] := by
  obtain ⟨lines, hlines⟩ := Text.exists_splitOn_eq_cons '\n' body
  rw [Tags.ofScript_eq, hlines, List.takeWhile_cons_of_neg (by simpa [firstLine] using h)]
  rfl

/-- Lines of a header on top of a text add their tags in front. -/
theorem ofScript_append (hheader : ∀ line ∈ header, IsHeaderLine line ∧ '\n' ∉ line) (body : Text) :
    ofScript (header.flatMap (· ++ ['\n']) ++ body) = header.flatMap onLine ++ ofScript body := by
  induction header with
  | nil => rfl
  | cons line header ih =>
    obtain ⟨⟨hline, hunbroken⟩, hlater⟩ := List.forall_mem_cons.1 hheader
    have hlines : Text.splitOn '\n' ((line :: header).flatMap (· ++ ['\n']) ++ body) =
        line :: Text.splitOn '\n' (header.flatMap (· ++ ['\n']) ++ body) := by
      rw [List.flatMap_cons, List.append_assoc, List.append_assoc, List.singleton_append, List.splitOn_append_cons_self,
        List.splitOn_eq_singleton hunbroken, List.singleton_append]
    rw [Tags.ofScript_eq, hlines, List.takeWhile_cons_of_pos (by simpa using hline), List.flatMap_cons, ← Tags.ofScript_eq,
      ih hlater, List.flatMap_cons, List.append_assoc]

/-! ## Writing a header -/

/-- A tags line as one writes it. -/
def tagsLine (tags : List Text) : Text := Text.of "-- tags: " ++ Text.intercalate (Text.of ", ") tags

/-- A list that is not empty ends its line without white space. -/
theorem trim_tagsLine (h : ∀ tag ∈ tags, IsTag tag) (hne : tags ≠ []) : Text.trim (tagsLine tags) = tagsLine tags := by
  refine Text.trimBy_eq_self (fun c hc => ?_) fun c hc => ?_
  · have hfirst : (Text.of "-- tags: ").head? = some '-' := rfl
    unfold tagsLine at hc
    rw [List.head?_append, hfirst, Option.some_or] at hc
    cases hc
    decide
  · have hlast := h _ (List.getLast_mem hne)
    have hlist : (Text.intercalate (Text.of ", ") tags).getLast? = (tags.getLast hne).getLast? := by
      rw [← Text.getLast?_intercalate tags.dropLast hlast.ne_nil, List.dropLast_concat_getLast]
    unfold tagsLine at hc
    rw [List.getLast?_append, hlist, List.getLast?_eq_some_getLast hlast.ne_nil, Option.some_or,
      ← List.getLast?_eq_some_getLast, ← hlast.trim_eq] at hc
    exact Text.getLast?_trimBy hc

/-- A list of tags makes a tags line, and they are read from its list. -/
theorem exists_spells (h : ∀ tag ∈ tags, IsTag tag) :
    ∃ list, Spells (Text.trim (tagsLine tags)) list ∧ ofList list = tags := by
  by_cases hne : tags = []
  · subst hne
    exact ⟨[], ⟨[' '], Text.of "tags", [], rfl, rfl, rfl, by decide⟩, rfl⟩
  · refine ⟨' ' :: Text.intercalate [',', ' '] tags, ?_, ofList_written h hne⟩
    rw [trim_tagsLine h hne]
    exact ⟨[' '], Text.of "tags", [], rfl, rfl, rfl, rfl⟩

theorem not_mem_tagsLine (h : ∀ tag ∈ tags, '\n' ∉ tag) : '\n' ∉ tagsLine tags := by
  intro hmem
  rcases List.mem_append.1 hmem with hstart | hlist
  · revert hstart
    decide
  · rcases Text.mem_intercalate hlist with hsep | ⟨tag, htag, hc⟩
    · revert hsep
      decide
    · exact h tag htag hc

/-- A line to be written into a header: a list of tags, or any other line. -/
inductive Note
  | listing (tags : List Text)
  | other (line : Text)

namespace Note

/-- The line. -/
def text : Note → Text
  | listing tags => tagsLine tags
  | other line => line

/-- The tags that it lists. -/
def listed : Note → List Text
  | listing tags => tags
  | other _ => []

/-- The line can stand in a header: a list of tags without line feeds, or a line that is blank or a comment and is no tags
line. -/
inductive Legal : Note → Prop
  | listing {tags : List Text} (htags : ∀ tag ∈ tags, IsTag tag) (hunbroken : ∀ tag ∈ tags, '\n' ∉ tag) :
      Legal (listing tags)
  | other {line : Text} (hline : IsHeaderLine line) (hunbroken : '\n' ∉ line)
      (hother : ∀ list, ¬Spells (Text.trim line) list) : Legal (other line)

variable {note : Note}

/-- **What is listed is read.** -/
theorem Legal.onLine_text (h : note.Legal) : onLine note.text = note.listed := by
  cases h with
  | listing htags hunbroken =>
    obtain ⟨list, hspells, hlist⟩ := exists_spells htags
    exact (onLine_of_spells hspells).trans hlist
  | other hline hunbroken hother => exact onLine_of_not_spells hother

theorem Legal.isHeaderLine_text (h : note.Legal) : IsHeaderLine note.text := by
  cases h with
  | listing htags hunbroken =>
    obtain ⟨list, ⟨gap, word, gap', -, -, -, hline⟩, -⟩ := exists_spells htags
    exact .inr ⟨_, hline.symm⟩
  | other hline hunbroken hother => exact hline

theorem Legal.not_mem_text (h : note.Legal) : '\n' ∉ note.text := by
  cases h with
  | listing htags hunbroken => exact not_mem_tagsLine hunbroken
  | other hline hunbroken hother => exact hunbroken

end Note

/-! ## The tags of a script -/

/-- **The tags of a script.** They are those of the lines of its header, one after the other: of each tags line the pieces of
its list, trimmed, without the empty ones. What follows a header makes no difference. What is read are tags, and tags that
are listed on any lines of a header, among blank lines and other comments, are read back. -/
theorem ofScript_header :
    (∀ script, ∃ header rest parts, HeaderOf script header rest ∧ List.Forall₂ LineTags header parts ∧
      ofScript script = parts.flatten) ∧
    (∀ (header : List Text) body, (∀ line ∈ header, IsHeaderLine line ∧ '\n' ∉ line) →
      ¬IsHeaderLine (firstLine body) →
        ofScript (header.flatMap (· ++ ['\n']) ++ body) = ofScript (header.flatMap (· ++ ['\n']))) ∧
    (∀ script, ∀ tag ∈ ofScript script, IsTag tag) ∧
    ∀ (notes : List Note) body, (∀ note ∈ notes, note.Legal) → ¬IsHeaderLine (firstLine body) →
      ofScript (notes.flatMap (·.text ++ ['\n']) ++ body) = notes.flatMap Note.listed := by
  refine ⟨fun script => ?_, fun header body hheader hbody => ?_, fun script tag htag => ?_,
    fun notes body hnotes hbody => ?_⟩
  · obtain ⟨header, rest, h⟩ := exists_headerOf script
    refine ⟨header, rest, header.map onLine, h, ?_, ?_⟩
    · exact List.forall₂_map_right_iff.2 (List.forall₂_same.2 fun line _ => lineTags_iff.2 rfl)
    · rw [h.ofScript_eq, List.flatMap_def]
  · have hnone := ofScript_append hheader []
    rw [ofScript_append hheader body, ofScript_of_firstLine hbody]
    rw [List.append_nil] at hnone
    exact hnone.symm
  · rw [Tags.ofScript_eq] at htag
    obtain ⟨line, -, hline⟩ := List.mem_flatMap.1 htag
    exact isTag_of_mem_onLine hline
  · have hheader : ∀ line ∈ notes.map Note.text, IsHeaderLine line ∧ '\n' ∉ line :=
      List.forall_mem_map.2 fun note hnote => ⟨(hnotes note hnote).isHeaderLine_text, (hnotes note hnote).not_mem_text⟩
    have hwritten := ofScript_append hheader body
    rw [List.flatMap_map, List.flatMap_map, ofScript_of_firstLine hbody, List.append_nil] at hwritten
    rw [hwritten]
    exact List.flatMap_congr fun note hnote => (hnotes note hnote).onLine_text

/-- White space of several kinds, a word with a long s, empty pieces, lines that only look like tags lines, and one that comes
too late. -/
theorem ofScript_header_mixed :
    let header : List Text :=
      [[], .of "\t-- TAGS :a,, b c ,\r", .of "--\u00a0tag\u017f:\u017f", .of "-- tags", .of "---tags: d"]
    let body : Text := .of "select 1 -- tags: e\n-- tags: f"
    let notes : List Note :=
      [.listing [.of "a", .of "b c"], .other [], .other (.of "-- by hand"), .listing [], .listing [.of "a"]]
    ((∀ line ∈ header, IsHeaderLine line ∧ '\n' ∉ line) ∧ ¬IsHeaderLine (firstLine body) ∧
      ofScript (header.flatMap (· ++ ['\n']) ++ body) = [.of "a", .of "b c", .of "\u017f"]) ∧
    (∀ note ∈ notes, note.Legal) ∧
      ofScript (notes.flatMap (·.text ++ ['\n']) ++ body) = [.of "a", .of "b c", .of "a"] := by
  intro header body notes
  have hheader : ∀ line ∈ header, IsHeaderLine line ∧ '\n' ∉ line := by decide +kernel
  have hbody : ¬IsHeaderLine (firstLine body) := by decide +kernel
  have hnotes : ∀ note ∈ notes, note.Legal := by
    have hother : ∀ line, tagList? (Text.trim line) = none → ∀ list, ¬Spells (Text.trim line) list :=
      fun _ => tagList?_eq_none.1
    simp only [notes, List.forall_mem_cons]
    exact ⟨.listing (by decide) (by decide), .other (by decide) (by decide) (hother _ (by decide)),
      .other (by decide) (by decide) (hother _ (by decide)), .listing (by decide) (by decide),
      .listing (by decide) (by decide), List.forall_mem_nil _⟩
  have htags : ofScript (header.flatMap (· ++ ['\n'])) = [.of "a", .of "b c", .of "\u017f"] := by decide +kernel
  exact ⟨⟨hheader, hbody, (ofScript_header.2.1 header body hheader hbody).trans htags⟩, hnotes,
    ofScript_header.2.2.2 notes body hnotes hbody⟩

end BatchMigrate.Tags
