import Mathlib.Data.List.TakeWhile
import BatchMigrate.Proofs.Faults
import BatchMigrate.Sql.Statement

/-!
# What statements are made of

A statement that can be read and quotes no text is made of words, numbers, brackets, signs and a semicolon
(`Clause.simple_of_statement`): each reader takes such tokens only (`Reader.Consumes`), and the last one takes the end of
the clause (`Reader.Ends`). So a text all of whose clauses are such statements (`Readable`) has no other tokens
(`simple_of_readable`).
-/

namespace BatchMigrate.Sql

/-- A word, a number, or one of the symbols that statements use. -/
def Token.Simple (t : Token) : Prop := t.kind = .word ∨ t.kind = .number ∨ ∃ c ∈ ['(', ')', ';', '+', '-'], t.text = [c]

/-! ## Readers -/

/-- A semicolon among the tokens is the last of them. -/
def Closed (ts : List Token) : Prop := ∀ before t after, ts = before ++ t :: after → t.text = [';'] → after = []

theorem Closed.suffix {used rest : List Token} (h : Closed (used ++ rest)) : Closed rest :=
  fun before t after he => h (used ++ before) t after (by rw [he, List.append_assoc])

theorem Closed.tail {t : Token} {ts : List Token} (h : Closed (t :: ts)) : Closed ts :=
  fun before u after he => h (t :: before) u after (congrArg (t :: ·) he)

namespace Reader

variable {α β : Type} {x : Except (Option Token) (α × List Token)}
  {f : α × List Token → Except (Option Token) (β × List Token)} {ts : List Token}

/-- What the reader has read is simple. -/
def Consumes (x : Except (Option Token) (α × List Token)) (ts : List Token) : Prop :=
  ∀ a rest, x = .ok (a, rest) → ∃ used, ts = used ++ rest ∧ ∀ t ∈ used, t.Simple

/-- If the reader reads something with the property from the tokens of a clause, all of them are simple. -/
def Ends (p : α → Prop) (x : Except (Option Token) (α × List Token)) (ts : List Token) : Prop :=
  ∀ a rest, x = .ok (a, rest) → p a → Closed ts → ∀ t ∈ ts, t.Simple

theorem Consumes.bind (h : Consumes x ts) (hf : ∀ a rest, Consumes (f (a, rest)) rest) : Consumes (x >>= f) ts := by
  intro b rest hb
  obtain ⟨⟨a, middle⟩, ha, hb⟩ := exists_of_bind_eq_ok hb
  obtain ⟨used, rfl, hused⟩ := h a middle ha
  obtain ⟨used', rfl, hused'⟩ := hf a middle b rest hb
  exact ⟨used ++ used', by rw [List.append_assoc], List.forall_mem_append.2 ⟨hused, hused'⟩⟩

theorem Consumes.bind_ends {p : β → Prop} (h : Consumes x ts) (hf : ∀ a rest, Ends p (f (a, rest)) rest) :
    Ends p (x >>= f) ts := by
  intro b rest hb hp hclosed
  obtain ⟨⟨a, middle⟩, ha, hb⟩ := exists_of_bind_eq_ok hb
  obtain ⟨used, rfl, hused⟩ := h a middle ha
  exact List.forall_mem_append.2 ⟨hused, hf a middle b rest hb hp hclosed.suffix⟩

theorem Consumes.map {f : α × List Token → β × List Token} (h : Consumes x ts) (hf : ∀ p, (f p).2 = p.2) :
    Consumes (x.map f) ts := by
  intro b rest hb
  obtain ⟨⟨a, rest'⟩, ha, hb⟩ := exists_of_map_eq_ok hb
  obtain rfl : rest' = rest := (hf (a, rest')).symm.trans (congrArg Prod.snd hb)
  exact h a rest' ha

theorem Consumes.pure {a : α} : Consumes (.ok (a, ts)) ts := by
  intro b rest h
  cases h
  exact ⟨[], rfl, fun _ h => by cases h⟩

theorem consumes_token {p : Token → Bool} (hp : ∀ t, p t = true → t.Simple) : Consumes (token p ts) ts := by
  intro t rest h
  cases ts with
  | nil => cases h
  | cons u ts =>
    rw [token] at h
    split at h
    · rename_i hu
      cases h
      exact ⟨[t], rfl, List.forall_mem_singleton.2 (hp t hu)⟩
    · cases h

theorem consumes_keyword (word : String) : Consumes (keyword word ts) ts :=
  consumes_token fun t ht => .inl (by simp only [Bool.and_eq_true, decide_eq_true_eq] at ht; exact ht.1)

theorem simple_of_isName {t : Token} (h : isName t = true) : t.Simple := by
  simp only [isName, Bool.and_eq_true, decide_eq_true_eq] at h
  exact .inl h.1

theorem consumes_name : Consumes (name ts) ts := consumes_token fun _ => simple_of_isName

/-- Names that are passed over are simple. -/
theorem Consumes.of_dropWhile (h : Consumes x (ts.dropWhile isName)) : Consumes x ts := by
  intro a rest ha
  obtain ⟨used, hts, hused⟩ := h a rest ha
  refine ⟨ts.takeWhile isName ++ used, ?_, List.forall_mem_append.2 ⟨fun t ht => ?_, hused⟩⟩
  · rw [List.append_assoc, ← hts, List.takeWhile_append_dropWhile]
  · exact simple_of_isName (List.mem_takeWhile_imp ht)

theorem consumes_symbol {c : Char} (hc : c ∈ ['(', ')', ';', '+', '-']) : Consumes (symbol c ts) ts :=
  consumes_token fun t ht => by
    simp only [Bool.and_eq_true, decide_eq_true_eq] at ht
    exact .inr (.inr ⟨c, hc, ht.2⟩)

theorem consumes_integer : Consumes (integer ts) ts := by
  have hnumber : ∀ {ts : List Token}, Consumes (token (·.kind = .number) ts) ts :=
    consumes_token fun t ht => .inr (.inl (of_decide_eq_true ht))
  have hsign : ∀ {c : Char} {t : Token} {ts : List Token} {f : Token × List Token → Int × List Token},
      c ∈ ['(', ')', ';', '+', '-'] → t.text = [c] → (∀ p, (f p).2 = p.2) →
        Consumes ((token (·.kind = .number) ts).map f) (t :: ts) := by
    intro c t ts f hc ht hf a rest h
    obtain ⟨used, rfl, hused⟩ := hnumber.map hf a rest h
    exact ⟨t :: used, rfl, List.forall_mem_cons.2 ⟨.inr (.inr ⟨c, hc, ht⟩), hused⟩⟩
  cases ts with
  | nil =>
    intro a rest h
    cases h
  | cons t ts =>
    rw [integer]
    split
    · rename_i ht
      exact hsign (by decide) ht fun _ => rfl
    · split
      · rename_i ht
        exact hsign (by decide) ht fun _ => rfl
      · exact hnumber.map fun _ => rfl

theorem consumes_optionally (first : String) {more : Reader Unit} (hmore : ∀ ts, Consumes (more ts) ts) :
    Consumes (optionally first more ts) ts := by
  have hfirst : Consumes (keyword first ts) ts := consumes_keyword first
  unfold optionally
  rcases ht : keyword first ts with _ | ⟨t, rest⟩
  · exact .pure
  · intro a rest' h
    obtain ⟨used, rfl, hused⟩ := hfirst t rest ht
    have hrest : Consumes ((more rest).map fun read => (true, read.2)) rest := (hmore rest).map fun _ => rfl
    obtain ⟨used', rfl, hused'⟩ := hrest a rest' h
    exact ⟨used ++ used', by rw [List.append_assoc], List.forall_mem_append.2 ⟨hused, hused'⟩⟩

/-- Where no quoted text is read, nothing is. -/
theorem eq_of_texts_eq_nil {rest : List Token} (h : texts ts = .ok ([], rest)) : rest = ts := by
  match ts with
  | [] =>
    cases h
    rfl
  | [t] =>
    rw [texts] at h
    split at h <;> cases h
    rfl
  | t :: u :: ts =>
    rw [texts] at h
    split at h
    · split at h
      · obtain ⟨_, _, hread⟩ := exists_of_map_eq_ok h
        cases hread
      · cases h
    · cases h
      rfl

theorem finish_ends {p : β → Prop} {f : Unit × List Token → Except (Option Token) (β × List Token)} :
    Ends p (finish ts >>= f) ts := by
  intro b rest h _ hclosed
  obtain ⟨⟨_, middle⟩, hfinish, _⟩ := exists_of_bind_eq_ok h
  cases ts with
  | nil => exact fun _ h => by cases h
  | cons t ts =>
    rw [finish] at hfinish
    split at hfinish
    · rename_i ht
      obtain rfl : ts = [] := hclosed [] t ts rfl ht
      exact List.forall_mem_singleton.2 (.inr (.inr ⟨';', by decide, ht⟩))
    · cases hfinish

end Reader

/-! ## Statements -/

open Reader

theorem createHead_consumes (ts : List Token) : Consumes (createHead ts) ts := by
  refine (consumes_keyword "table").bind fun _ ts => ?_
  refine (consumes_optionally "if" fun ts => ?_).bind fun _ _ => ?_
  · exact (consumes_keyword "not").bind fun _ _ => (consumes_keyword "exists").bind fun _ _ => .pure
  · exact consumes_name.bind fun _ _ => .pure

theorem createBody_ends (ts : List Token) : Ends (fun _ => True) (createBody ts) ts := by
  refine (consumes_symbol (c := '(') (by decide)).bind_ends fun _ ts => ?_
  refine consumes_name.bind_ends fun _ ts => ?_
  refine (Consumes.of_dropWhile (consumes_symbol (c := ')') (by decide))).bind_ends fun _ ts => ?_
  cases ts with
  | nil => exact fun _ _ _ _ _ _ h => by cases h
  | cons t ts =>
    dsimp only
    split
    · rename_i ht
      intro option rest h hp hclosed
      exact List.forall_mem_cons.2 ⟨simple_of_isName ht, finish_ends (p := fun _ => True) option rest h hp hclosed.tail⟩
    · exact finish_ends

/-- The texts that a statement quotes. -/
def Statement.texts : Statement → List Text
  | .insert _ _ texts => texts
  | _ => []

theorem simpleStatement_ends {first : Text} {read : Reader Statement} (hread : simpleStatement first = some read)
    (ts : List Token) : Ends (·.texts = []) (read ts) ts := by
  unfold simpleStatement at hread
  split at hread
  · cases hread
    refine (consumes_keyword "table").bind_ends fun _ ts => ?_
    refine (consumes_optionally "if" fun ts => ?_).bind_ends fun _ ts => ?_
    · exact (consumes_keyword "exists").bind fun _ _ => .pure
    · exact consumes_name.bind_ends fun _ ts => finish_ends
  split at hread
  · cases hread
    refine (consumes_keyword "into").bind_ends fun _ ts => ?_
    refine consumes_name.bind_ends fun _ ts => ?_
    refine (consumes_keyword "values").bind_ends fun _ ts => ?_
    refine (consumes_symbol (c := '(') (by decide)).bind_ends fun _ ts => ?_
    refine consumes_integer.bind_ends fun _ ts => ?_
    intro st rest h hnone hclosed
    obtain ⟨⟨texts, middle⟩, htexts, h⟩ := exists_of_bind_eq_ok h
    obtain rfl : texts = [] := by
      obtain ⟨_, _, hrest⟩ := exists_of_bind_eq_ok h
      obtain ⟨_, _, hst⟩ := exists_of_bind_eq_ok hrest
      cases hst
      exact hnone
    cases eq_of_texts_eq_nil htexts
    refine Consumes.bind_ends (p := fun st => st.texts = []) (consumes_symbol (c := ')') (by decide)) ?_
      st rest h hnone hclosed
    exact fun _ ts => finish_ends
  split at hread
  · cases hread
    refine (consumes_keyword "from").bind_ends fun _ ts => ?_
    exact consumes_name.bind_ends fun _ ts => finish_ends
  split at hread
  · cases hread
    refine consumes_integer.bind_ends fun _ ts => ?_
    cases ts with
    | nil => exact finish_ends
    | cons t ts =>
      dsimp only
      split
      · rename_i ht
        intro st rest h hnone hclosed
        exact List.forall_mem_cons.2 ⟨simple_of_isName ht, finish_ends (p := (·.texts = [])) st rest h hnone hclosed.tail⟩
      · exact finish_ends
  split at hread
  · cases hread
    exact finish_ends
  split at hread
  · cases hread
    exact finish_ends
  · cases hread

/-- A statement that makes a table has been read to its end. -/
theorem Clause.exists_of_create_eq_ok {c : Clause} {taken : Text → Bool} {ts : List Token} {st : Statement}
    (h : c.create taken ts = .ok st) :
    ∃ head rest, createHead ts = .ok (head, rest) ∧ ∃ option rest', createBody rest = .ok (option, rest') := by
  have body : ∀ {rest : List Token} {f : Option Token × List Token → Except Fault Statement},
      ((createBody rest).mapError c.misfit >>= f) = .ok st → ∃ option rest', createBody rest = .ok (option, rest') := by
    intro rest f h
    obtain ⟨⟨option, rest'⟩, hbody, _⟩ := exists_of_bind_eq_ok h
    exact ⟨option, rest', eq_ok_of_mapError_eq_ok hbody⟩
  obtain ⟨⟨head, rest⟩, hhead, h⟩ := exists_of_bind_eq_ok h
  refine ⟨head, rest, eq_ok_of_mapError_eq_ok hhead, ?_⟩
  dsimp only at h
  split at h
  · split at h
    · cases h
    · split at h
      · cases h
      · exact body h
  · exact body h

/-- **A statement that can be read** and quotes no text is made of simple tokens. -/
theorem Clause.simple_of_statement {c : Clause} {taken : Text → Bool} {st : Statement} (hc : Closed c.tokens)
    (h : c.statement taken = .ok st) (hnone : st.texts = []) : ∀ t ∈ c.tokens, t.Simple := by
  obtain ⟨ts, sql, base⟩ := c
  unfold statement at h
  cases ts with
  | nil => exact fun _ h => by cases h
  | cons t ts =>
    dsimp only at h
    have hclosed : Closed ts := hc.tail
    split at h
    · rename_i hcreate
      simp only [Bool.and_eq_true, decide_eq_true_eq] at hcreate
      refine List.forall_mem_cons.2 ⟨.inl hcreate.1, ?_⟩
      obtain ⟨head, rest, hhead, option, rest', hbody⟩ := exists_of_create_eq_ok h
      obtain ⟨used, rfl, hused⟩ := createHead_consumes ts head rest hhead
      exact List.forall_mem_append.2 ⟨hused, createBody_ends rest option rest' hbody trivial hclosed.suffix⟩
    · split at h
      · rename_i read hread
        split at hread
        · rename_i hword
          obtain ⟨⟨_, rest⟩, hst, rfl⟩ := exists_of_map_eq_ok h
          exact List.forall_mem_cons.2 ⟨.inl hword,
            simpleStatement_ends hread ts _ rest (eq_ok_of_mapError_eq_ok hst) hnone hclosed⟩
        · cases hread
      · cases h

/-! ## Texts -/

/-- Clauses end at semicolons. -/
theorem closed_of_mem_clausesFrom {c : Clause} : ∀ {ts read : List Token} {sql : Text} {base : Nat},
    (∀ t ∈ read, t.text ≠ [';']) → c ∈ clausesFrom sql base read ts → Closed c.tokens
  | [], read, sql, base, hread, h => by
    rw [clausesFrom] at h
    split at h
    · cases h
    · rw [List.mem_singleton.1 h]
      intro before t after he ht
      have hmem : t ∈ read.reverse := (show read.reverse = _ from he) ▸ List.mem_append_right _ List.mem_cons_self
      exact absurd ht (hread t (List.mem_reverse.1 hmem))
  | t :: ts, read, sql, base, hread, h => by
    rw [clausesFrom] at h
    split at h
    · split at h
      · exact closed_of_mem_clausesFrom (fun _ h => by cases h) h
      · rcases List.mem_cons.1 h with rfl | h
        · intro before u after he hu
          rw [List.reverse_cons] at he
          -- a semicolon among the tokens before would have ended the clause
          rcases List.eq_nil_or_concat after with rfl | ⟨after, last, rfl⟩
          · rfl
          · rw [List.concat_eq_append, ← List.cons_append, ← List.append_assoc] at he
            have hfront := (List.append_inj' he rfl).1
            have hmem : u ∈ read.reverse := hfront ▸ List.mem_append_right _ List.mem_cons_self
            exact absurd hu (hread u (List.mem_reverse.1 hmem))
        · exact closed_of_mem_clausesFrom (fun _ h => by cases h) h
    · rename_i ht
      exact closed_of_mem_clausesFrom (List.forall_mem_cons.2 ⟨ht, hread⟩) h

/-- Each token is a semicolon or belongs to a clause. -/
theorem mem_clausesFrom {t : Token} : ∀ {ts read : List Token} {sql : Text} {base : Nat}, t ∈ read ∨ t ∈ ts →
    t.text = [';'] ∨ ∃ c ∈ clausesFrom sql base read ts, t ∈ c.tokens
  | [], read, sql, base, h => by
    rcases h with h | h
    · rw [clausesFrom, if_neg (List.ne_nil_of_mem h)]
      exact .inr ⟨_, List.mem_singleton_self _, List.mem_reverse.2 h⟩
    · cases h
  | u :: ts, read, sql, base, h => by
    have hlater : ∀ {read : List Token} {sql : Text} {base : Nat} {cs : List Clause}, t ∈ read ∨ t ∈ ts →
        clausesFrom sql base read ts ⊆ cs → t.text = [';'] ∨ ∃ c ∈ cs, t ∈ c.tokens :=
      fun h hcs => (mem_clausesFrom h).imp_right fun ⟨c, hc, ht⟩ => ⟨c, hcs hc, ht⟩
    have hmem : t ∈ u :: read ∨ t ∈ ts := by
      rcases h with h | h
      · exact .inl (List.mem_cons_of_mem _ h)
      · rcases List.mem_cons.1 h with rfl | h
        · exact .inl List.mem_cons_self
        · exact .inr h
    rw [clausesFrom]
    split
    · rename_i hu
      rcases hmem with hread | hlast
      · split
        · rename_i hnil
          subst hnil
          exact .inl (List.mem_singleton.1 hread ▸ hu)
        · exact .inr ⟨_, List.mem_cons_self, List.mem_reverse.2 hread⟩
      · split
        · exact hlater (.inr hlast) (List.Subset.refl _)
        · exact hlater (.inr hlast) (List.subset_cons_self _ _)
    · exact hlater hmem (List.Subset.refl _)

/-- All clauses of the text can be read as statements, which quote no texts. -/
def Readable (sql : Text) : Prop := ∀ c ∈ clauses sql, ∃ st, c.statement (fun _ => false) = .ok st ∧ st.texts = []

instance : DecidablePred Readable := fun sql =>
  decidable_of_iff (∀ c ∈ clauses sql, (c.statement fun _ => false).toOption.any (·.texts = []) = true) <| by
    refine forall₂_congr fun c _ => ?_
    cases c.statement fun _ => false <;> simp [Except.toOption]

/-- **A text of statements** is made of simple tokens. -/
theorem simple_of_readable {sql : Text} (h : Readable sql) : ∀ t ∈ tokens sql, t.Simple := by
  intro t ht
  have hmem : t ∈ [] ∨ t ∈ tokens sql := .inr ht
  rcases mem_clausesFrom hmem with hsemi | ⟨c, hc, ht⟩
  · exact .inr (.inr ⟨';', by decide, hsemi⟩)
  · obtain ⟨st, hst, hnone⟩ := h c hc
    exact Clause.simple_of_statement (closed_of_mem_clausesFrom (fun _ h => by cases h) hc) hst hnone t ht

end BatchMigrate.Sql
