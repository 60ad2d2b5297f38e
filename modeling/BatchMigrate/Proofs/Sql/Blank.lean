import BatchMigrate.Proofs.Sql.Comments

/-!
# Blank texts

White space of Unicode is more than what separates tokens: some of it makes a word. But a statement begins with a
keyword, so if a blank text has the tokens of statements, it has none at all (`tokens_eq_nil_of_blank`), and does nothing
to a database (`run_of_tokens_nil`).
-/

namespace BatchMigrate.Sql

/-! ## Texts without tokens -/

theorem run_of_tokens_nil {sql : Text} (h : tokens sql = []) (db : Database) : db.run sql = (.ok (), db) := by
  show db.runClauses (clauses sql) = _
  rw [clauses, h]
  rfl

theorem tokens_of_gap {sql : Text} (h : ∀ c ∈ sql, isGap c = true) : tokens sql = [] := by
  obtain ⟨offset, he⟩ := tokensFrom_blank 0 [] h
  rw [List.append_nil, tokensFrom_nil] at he
  exact he

/-- A token is part of the text. -/
theorem text_subset_of_mem_tokensFrom {t : Token} : ∀ {sql : Text} {offset : Nat}, t ∈ tokensFrom offset sql →
    t.text ⊆ sql
  | [], offset, h => by
    rw [tokensFrom_nil] at h
    cases h
  | c :: r, offset, h => by
    have hcut : c :: r = c :: ((cut c r).2.1 ++ (cut c r).2.2) := by rw [cut_append]
    have hlater : t ∈ tokensFrom (offset + (Text.utf8 (c :: (cut c r).2.1)).length) (cut c r).2.2 →
        t.text ⊆ c :: r := fun h => by
      have ih := text_subset_of_mem_tokensFrom h
      rw [hcut, ← List.cons_append]
      exact List.Subset.trans ih (List.subset_append_right _ _)
    by_cases hgap : (cut c r).1 = .gap
    · rw [tokensFrom_gap hgap] at h
      exact hlater h
    · rw [tokensFrom_token hgap] at h
      rcases List.mem_cons.1 h with rfl | h
      · rw [hcut, ← List.cons_append]
        exact List.subset_append_left _ _
      · exact hlater h
  termination_by sql => sql.length
  decreasing_by exact Nat.lt_succ_of_le (length_cut_le c r)

/-- The tokens that have been read are the first ones of the next clause. -/
theorem exists_clause_of_read : ∀ (ts : List Token) {read : List Token} (sql : Text) (base : Nat), read ≠ [] →
    ∃ c ∈ clausesFrom sql base read ts, read.reverse <+: c.tokens
  | [], read, sql, base, h => by
    rw [clausesFrom, if_neg h]
    exact ⟨_, List.mem_cons_self, List.prefix_refl _⟩
  | t :: ts, read, sql, base, h => by
    rw [clausesFrom]
    split
    · refine ⟨_, List.mem_cons_self, ?_⟩
      rw [List.reverse_cons]
      exact List.prefix_append _ _
    · obtain ⟨c, hc, hread⟩ := exists_clause_of_read ts sql base (List.cons_ne_nil t read)
      refine ⟨c, hc, List.IsPrefix.trans ?_ hread⟩
      rw [List.reverse_cons]
      exact List.prefix_append _ _

/-- White space has no case. -/
theorem toLower_of_isSpace {c : Char} (h : Text.isSpace c = true) : c.toLower = c := by
  unfold Char.toLower
  split
  · rename_i hupper
    simp only [ge_iff_le, UInt32.le_iff_toNat_le] at hupper
    simp only [Text.isSpace, Text.spaceRanges, List.any_cons, List.any_nil, Bool.or_eq_true, Bool.and_eq_true,
      decide_eq_true_eq, Char.toNat, Bool.false_eq_true, or_false] at h
    have hfirst : 65 ≤ c.val.toNat := hupper.1
    have hlast : c.val.toNat ≤ 90 := hupper.2
    omega
  · rfl

/-- The words that begin a statement. -/
def keywords : List Text :=
  [.of "create", .of "drop", .of "insert", .of "delete", .of "select", .of "begin", .of "commit"]

theorem mem_keywords_of_simpleStatement {first : Text} {read : Reader Statement}
    (h : simpleStatement first = some read) : first ∈ keywords := by
  by_contra hnot
  simp only [keywords, List.mem_cons, List.not_mem_nil, or_false, not_or] at hnot
  obtain ⟨-, hdrop, hinsert, hdelete, hselect, hbegin, hcommit⟩ := hnot
  rw [simpleStatement, if_neg hdrop, if_neg hinsert, if_neg hdelete, if_neg hselect, if_neg hbegin,
    if_neg hcommit] at h
  cases h

/-- A statement begins with a keyword. -/
theorem Clause.exists_keyword {c : Clause} {taken : Text → Bool} {st : Statement} (h : c.statement taken = .ok st) :
    ∃ t ts, c.tokens = t :: ts ∧ Text.lowerAscii t.text ∈ keywords := by
  obtain ⟨ts, sql, base⟩ := c
  unfold statement at h
  cases ts with
  | nil => cases h
  | cons t ts =>
    refine ⟨t, ts, rfl, ?_⟩
    dsimp only at h
    split at h
    · rename_i hcreate
      rw [(Bool.and_eq_true_iff.1 hcreate).2 |> of_decide_eq_true]
      exact List.mem_cons_self
    · split at h
      · rename_i read hread
        split at hread
        · exact mem_keywords_of_simpleStatement hread
        · cases hread
      · cases h

/-- A keyword is no white space. -/
theorem exists_not_isSpace {t : Text} (h : Text.lowerAscii t ∈ keywords) : ∃ c ∈ t, Text.isSpace c = false := by
  have hletter : ∀ word ∈ keywords, ¬word.all Text.isSpace = true := by decide
  by_contra hall
  have hspace : ∀ c ∈ t, Text.isSpace c = true := by simpa using hall
  have hlower : Text.lowerAscii t = t := by
    rw [Text.lowerAscii, List.map_congr_left fun c hc => toLower_of_isSpace (hspace c hc), List.map_id']
  rw [hlower] at h
  exact hletter t h (List.all_eq_true.2 hspace)

/-- **Blank text** with the tokens of statements has none. -/
theorem tokens_eq_nil_of_blank {full code : Text} (hfull : Readable full)
    (h : List.Forall₂ Token.Alike (tokens full) (tokens code)) (hblank : code.isBlank = true) : tokens code = [] := by
  have hspace : ∀ c ∈ code, Text.isSpace c = true := List.all_eq_true.1 hblank
  cases hcode : tokens code with
  | nil => rfl
  | cons u us =>
    rw [hcode] at h
    cases hts : tokens full with
    | nil =>
      rw [hts] at h
      cases h
    | cons t ts =>
      rw [hts] at h
      obtain ⟨htu, -⟩ := List.forall₂_cons.1 h
      have hsub : t.text ⊆ code := by
        rw [htu.text]
        exact text_subset_of_mem_tokensFrom (by rw [← tokens, hcode]; exact List.mem_cons_self)
      have hsemi : t.text ≠ [';'] := fun he => by
        have := hspace ';' (hsub (by rw [he]; exact List.mem_cons_self))
        cases this
      obtain ⟨c, hc, hread⟩ := exists_clause_of_read ts full 0 (List.cons_ne_nil t [])
      obtain ⟨st, hst, -⟩ := hfull c (by rw [clauses, hts, clausesFrom, if_neg hsemi]; exact hc)
      obtain ⟨t', ts', htokens, hword⟩ := Clause.exists_keyword hst
      rw [htokens] at hread
      obtain ⟨rfl, -⟩ := List.cons_prefix_cons.1 hread
      obtain ⟨d, hd, hnot⟩ := exists_not_isSpace hword
      rw [hspace d (hsub hd)] at hnot
      cases hnot

end BatchMigrate.Sql
