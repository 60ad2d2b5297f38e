import BatchMigrate.Proofs.Config.Validate
import BatchMigrate.Proofs.Runner.Transaction
import BatchMigrate.Proofs.Sql.Name

/-!
# Settings and the database

Settings are checked on their own (`Config.validate`), and again when a runner is opened. Both checks accept the same
separators, terminators and beginnings of names; but then the database has to accept the name of the version table
(`VersionTable.exists_create_eq_ok`). So a runner is opened on a database, an empty one or not, exactly if its settings pass
the check and the name is legal (`Runner.connect_iff`). The check looks at the characters of a beginning and not at the
places where they stand: it accepts a digit at the start, and the start that the database keeps for itself.
-/

namespace BatchMigrate

open Sql

/-! ## Names of version tables -/

/-- A list without `z` begins a longer one that goes on with `z` only if it ends before. -/
theorem isPrefix_append_cons {α : Type} {x a b : List α} {z : α} (hz : z ∉ x) : x <+: a ++ z :: b ↔ x <+: a := by
  refine ⟨fun h => ?_, fun h => h.trans (List.prefix_append _ _)⟩
  rcases List.prefix_or_prefix_of_prefix h (List.prefix_append a (z :: b)) with h' | ⟨t, rfl⟩
  · exact h'
  · cases t with
    | nil => exact ⟨[], by simp⟩
    | cons y t =>
      obtain ⟨rfl, _⟩ := List.cons_prefix_cons.1 ((List.prefix_append_right_inj a).1 h)
      exact absurd (List.mem_append_right a List.mem_cons_self) hz

namespace VersionTable

variable {p sql : Text}

theorem ne_nil_of_isTablePrefix (hp : isTablePrefix p = true) : p ≠ [] := by
  simp only [isTablePrefix, Bool.and_eq_true, decide_eq_true_eq] at hp
  exact hp.1

theorem isWordChar_of_isTablePrefix (hp : isTablePrefix p = true) : ∀ c ∈ p, Text.isWordChar c = true := by
  simp only [isTablePrefix, Bool.and_eq_true, List.all_eq_true] at hp
  exact hp.2

theorem name_ne_nil (p : Text) : name p ≠ [] := List.append_ne_nil_of_right_ne_nil _ (by decide)

theorem lowerAscii_name (p : Text) : Text.lowerAscii (name p) = Text.lowerAscii p ++ Text.of "version_info" := by
  rw [name, Text.lowerAscii, List.map_append]
  rfl

/-- What comes after a beginning does not make the name one that belongs to the database. -/
theorem isReservedName_name (p : Text) :
    Clause.isReservedName (name p) = false ↔ ¬Text.of "sqlite_" <+: Text.lowerAscii p := by
  have hv : 'v' ∉ Text.of "sqlite_" := by decide
  have hrest : Text.of "version_info" = 'v' :: Text.of "ersion_info" := rfl
  rw [Clause.isReservedName, ← Bool.not_eq_true, List.isPrefixOf_iff_prefix, lowerAscii_name, hrest,
    isPrefix_append_cons hv]

/-- No keyword ends as the names of version tables do. -/
theorem reserved_name (p : Text) : Reader.reserved.contains (Text.lowerAscii (name p)) = false := by
  have hend : ∀ w ∈ Reader.reserved, ¬Text.of "version_info" <:+ w := by decide +kernel
  rw [← Bool.not_eq_true, List.contains_iff_mem, lowerAscii_name]
  exact fun h => hend _ h (List.suffix_append _ _)

section Accepted

variable (hp : isTablePrefix p = true)

include hp

theorem isWordChar_name : ∀ c ∈ name p, Text.isWordChar c = true :=
  List.forall_mem_append.2 ⟨isWordChar_of_isTablePrefix hp, List.all_eq_true.1 (by decide)⟩

theorem head?_name : (name p).head? = p.head? := by
  rw [name, List.head?_append, List.head?_eq_some_head (ne_nil_of_isTablePrefix hp), Option.some_or]

/-- **Beginnings of legal names** begin neither with a digit nor with `sqlite_`. -/
theorem legalName_name : LegalName (name p) ↔
    (∀ c ∈ p.head?, Text.isDigit c = false) ∧ ¬Text.of "sqlite_" <+: Text.lowerAscii p := by
  rw [legalName_iff (name_ne_nil p) (isWordChar_name hp), head?_name hp, isReservedName_name]

/-- A version table can be made in any database, if its name is legal, and in none otherwise. -/
theorem exists_create_eq_ok (db : Database) : (∃ db', create p db = .ok db') ↔ LegalName (name p) := by
  obtain ⟨c, hc⟩ : ∃ c, (name p).head? = some c := ⟨_, List.head?_eq_some_head (name_ne_nil p)⟩
  have hword := isWordChar_name hp c (List.mem_of_head? hc)
  rw [legalName_iff (name_ne_nil p) (isWordChar_name hp), create]
  simp only [hc, Option.any_some, Option.mem_def, Option.some.injEq, forall_eq']
  cases hdigit : Text.isDigit c with
  | true => simp [beginsWord_of_isDigit hdigit]
  | false =>
    have hbegins : beginsWord c = true := beginsWord_of_isWordChar hword hdigit
    cases hreserved : Clause.isReservedName (name p) <;> simp [hbegins]

end Accepted

/-! ## The statement -/

/-- The words before the name. -/
def createWords : List Text := ["CREATE", "TABLE", "IF", "NOT", "EXISTS"].map Text.of

theorem createHead_eq : createHead = '\n' :: createWords.flatMap (· ++ [' ']) := by decide

/-- The name is read as one token, and as a word unless its first character is a digit. -/
theorem exists_tokensFrom_name (hp : isTablePrefix p = true) {rest : Text}
    (hrest : ∀ d ∈ rest.head?, continuesWord d = false) (offset : Nat) : ∃ t after,
      tokensFrom offset (name p ++ rest) = t :: after ∧ t.text = name p ∧
        (t.kind = .word ↔ ∀ c ∈ p.head?, Text.isDigit c = false) := by
  have hword := isWordChar_name hp
  cases p with
  | nil => exact absurd rfl (ne_nil_of_isTablePrefix hp)
  | cons c p =>
    have hhead : (∀ d ∈ (c :: p).head?, Text.isDigit d = false) ↔ Text.isDigit c = false := by simp
    rw [hhead]
    cases hc : Text.isDigit c with
    | false =>
      have hname : isWord (name (c :: p)) = true := isWord_of_isWordChar hc hword
      exact ⟨_, _, tokensFrom_word hname hrest offset, rfl, by simp⟩
    | true =>
      have hmore : ∀ d ∈ p ++ Text.of "version_inf", Text.isWordChar d = true := List.forall_mem_append.2
        ⟨fun d hd => isWordChar_of_isTablePrefix hp d (List.mem_cons_of_mem c hd), List.all_eq_true.1 (by decide)⟩
      have hname : name (c :: p) = c :: (p ++ Text.of "version_inf" ++ ['o']) := by
        rw [List.append_assoc]
        rfl
      have htext : name (c :: p) ++ rest = c :: (p ++ Text.of "version_inf" ++ 'o' :: rest) := by
        rw [hname, List.cons_append, List.append_assoc _ ['o'], List.singleton_append]
      have htokens := tokensFrom_illegal (by decide : Text.isWordChar 'o' = true) (by decide) (by decide) hc hmore hrest
        offset
      exact ⟨_, _, htext ▸ htokens, hname.symm, by simp⟩

/-- **The name in the statement** that makes a version table is one token, after the words that come first. It is a name
exactly if it does not begin with a digit. -/
theorem tokens_createSql (hp : isTablePrefix p = true) : ∃ before t after,
    tokens (createSql p) = before ++ t :: after ∧ before.map Token.text = createWords ∧ t.text = name p ∧
      (Reader.isName t = true ↔ ∀ c ∈ p.head?, Text.isDigit c = false) := by
  obtain ⟨columns, hcolumns, hblank⟩ : ∃ columns : Text, createSql p = createHead ++ name p ++ columns ∧
      columns.head? = some ' ' := ⟨_, rfl, by decide +kernel⟩
  have hstop : ∀ d ∈ columns.head?, continuesWord d = false := by
    intro d hd
    cases hblank.symm.trans hd
    decide
  rw [createHead_eq, List.append_assoc, List.cons_append] at hcolumns
  obtain ⟨start, hstart⟩ := tokensFrom_cons_gap (by decide : isGap '\n' = true) 0
    (createWords.flatMap (· ++ [' ']) ++ (name p ++ columns))
  obtain ⟨before, next, hbefore, hwords⟩ := tokensFrom_words start (name p ++ columns)
    (by decide : ∀ w ∈ createWords, isWord w = true)
  obtain ⟨t, after, ht, htext, hkind⟩ := exists_tokensFrom_name hp hstop next
  refine ⟨before, t, after, ?_, hwords, htext, ?_⟩
  · rw [tokens, hcolumns, hstart, hbefore, ht]
  · rw [← hkind, Reader.isName, htext, reserved_name, Bool.not_false, Bool.and_true, decide_eq_true_eq]

end VersionTable

/-! ## Opening a runner -/

namespace Runner

open VersionTable

/-- A runner is opened if the settings pass the check and the version table can be made. -/
theorem exists_connect_eq_ok (c : Config) (db : Database) : (∃ r, connect c db = .ok r) ↔
    c.validate = .ok () ∧ ∃ db', create c.tablePrefix db = .ok db' := by
  rw [Config.validate_eq_ok]
  constructor
  · rintro ⟨r, h⟩
    obtain ⟨htable, splitter, db', hsplitter, hcreate, _⟩ := connect_eq_ok.1 h
    exact ⟨⟨⟨splitter, hsplitter⟩, htable⟩, db', hcreate⟩
  · rintro ⟨⟨⟨splitter, hsplitter⟩, htable⟩, db', hcreate⟩
    exact ⟨_, connect_eq_ok.2 ⟨htable, splitter, db', hsplitter, hcreate, rfl⟩⟩

/-- **What a check of the settings predicts.** A runner is opened on a database, an empty one or any other, exactly if the
settings pass the check and the name of the version table is legal. In the statement that is made for an accepted beginning
the name is one token, and it is legal exactly if that token is a name that the database leaves free: if the beginning
starts neither with a digit nor with `sqlite_`. -/
theorem connect_iff (c : Config) (db : Database) :
    ((∃ r, connect c db = .ok r) ↔ c.validate = .ok () ∧ LegalName (name c.tablePrefix)) ∧
    ∀ {p sql : Text}, createSql? p = some sql →
      (LegalName (name p) ↔ (∀ d ∈ p.head?, Text.isDigit d = false) ∧ ¬Text.of "sqlite_" <+: Text.lowerAscii p) ∧
      ∃ before t after, tokens sql = before ++ t :: after ∧ before.map Token.text = createWords ∧ t.text = name p ∧
        (LegalName (name p) ↔ Reader.isName t = true ∧ Clause.isReservedName t.text = false) := by
  refine ⟨?_, fun {p sql} h => ?_⟩
  · rw [exists_connect_eq_ok]
    refine and_congr_right fun hvalid => exists_create_eq_ok (Config.validate_eq_ok.1 hvalid).2 db
  · unfold createSql? at h
    split at h
    · rename_i hp
      cases h
      have hlegal := legalName_name hp
      obtain ⟨before, t, after, htokens, hwords, htext, hname⟩ := tokens_createSql hp
      refine ⟨hlegal, before, t, after, htokens, hwords, htext, ?_⟩
      rw [hlegal, hname, htext, isReservedName_name]
    · cases h

/-- Settings whose version table is called `A1_version_info`. -/
theorem connect_iff_letters :
    ({ tablePrefix := .of "A1_" } : Config).validate = .ok () ∧ LegalName (name (.of "A1_")) ∧
    (∃ r, connect { tablePrefix := .of "A1_" } {} = .ok r) ∧
    createSql? (.of "A1_") = some (createSql (.of "A1_")) ∧
    ∃ before t after, tokens (createSql (.of "A1_")) = before ++ t :: after ∧ before.map Token.text = createWords ∧
      t.text = .of "A1_version_info" ∧ Reader.isName t = true := by
  have hvalid : ({ tablePrefix := .of "A1_" } : Config).validate = .ok () := rfl
  have hsql : createSql? (.of "A1_") = some (createSql (.of "A1_")) := rfl
  obtain ⟨hopen, hname⟩ := connect_iff { tablePrefix := .of "A1_" } {}
  obtain ⟨hlegal, before, t, after, htokens, hwords, htext, htoken⟩ := hname hsql
  have hlegal := hlegal.2 ⟨fun d hd => by cases hd; decide, by decide⟩
  exact ⟨hvalid, hlegal, hopen.2 ⟨hvalid, hlegal⟩, hsql, before, t, after, htokens, hwords, htext, (htoken.1 hlegal).1⟩

/-- **Settings that pass the check, and no runner.** A digit at the start makes the name of the version table illegal, and
so does the start that belongs to the database. -/
theorem connect_refused_of_valid :
    (({ tablePrefix := .of "1_" } : Config).validate = .ok () ∧
      createSql? (.of "1_") = some (createSql (.of "1_")) ∧ ¬LegalName (name (.of "1_")) ∧
      ∃ fault, connect { tablePrefix := .of "1_" } {} = .error (.database fault)) ∧
    ({ tablePrefix := .of "sqlite_" } : Config).validate = .ok () ∧
      createSql? (.of "sqlite_") = some (createSql (.of "sqlite_")) ∧ ¬LegalName (name (.of "sqlite_")) ∧
      ∃ fault, connect { tablePrefix := .of "sqlite_" } {} = .error (.database fault) := by
  refine ⟨⟨rfl, rfl, fun h => ?_, _, rfl⟩, rfl, rfl, fun h => h.free (by decide), _, rfl⟩
  obtain ⟨c, hc, hbegins⟩ := h.begins
  cases hc
  exact absurd hbegins (by decide)

end Runner

end BatchMigrate
