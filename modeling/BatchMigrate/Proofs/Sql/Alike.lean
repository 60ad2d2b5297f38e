import Mathlib.Data.List.Forall2
import BatchMigrate.Proofs.Sql.Interpreter

/-!
# Statements that are spelled alike

Two lists of tokens are alike if the tokens have the same texts, wherever they stand. Readers do not look at places
(`Reader.Alike.bind` puts their steps together), so clauses of like tokens are the same statement, or none
(`Clause.statement_alike`), and texts of like tokens do the same to a database (`Database.run_alike`).
-/

namespace BatchMigrate.Sql

/-! ## Tokens -/

/-- The tokens differ in their places at most. -/
structure Token.Alike (t u : Token) : Prop where
  kind : t.kind = u.kind
  text : t.text = u.text

/-! ## Readers -/

namespace Reader

variable {α β γ δ : Type} {R : α → β → Prop} {S : γ → δ → Prop} {ts us : List Token}

/-- Two readings end alike: with a fault, or with related results and like tokens left. -/
def Alike (R : α → β → Prop) : Except (Option Token) (α × List Token) → Except (Option Token) (β × List Token) → Prop
  | .ok (a, ts), .ok (b, us) => R a b ∧ List.Forall₂ Token.Alike ts us
  | .error _, .error _ => True
  | _, _ => False

/-- One step after the other. -/
theorem Alike.bind {x : Except (Option Token) (α × List Token)} {y : Except (Option Token) (β × List Token)}
    {f : α × List Token → Except (Option Token) (γ × List Token)}
    {g : β × List Token → Except (Option Token) (δ × List Token)} (h : Alike R x y)
    (hf : ∀ a b ts us, R a b → List.Forall₂ Token.Alike ts us → Alike S (f (a, ts)) (g (b, us))) :
    Alike S (x >>= f) (y >>= g) := by
  rcases x with _ | ⟨a, ts⟩ <;> rcases y with _ | ⟨b, us⟩
  · trivial
  · exact h.elim
  · exact h.elim
  · exact hf a b ts us h.1 h.2

theorem Alike.pure {a : α} {b : β} (hab : R a b) (h : List.Forall₂ Token.Alike ts us) :
    Alike R (Except.ok (a, ts)) (Except.ok (b, us)) := ⟨hab, h⟩

theorem alike_token {p : Token → Bool} (hp : ∀ t u, Token.Alike t u → p t = p u)
    (h : List.Forall₂ Token.Alike ts us) : Alike Token.Alike (token p ts) (token p us) := by
  cases h with
  | nil => trivial
  | @cons t u _ _ htu h =>
    rw [token, token, hp t u htu]
    split
    · exact ⟨htu, h⟩
    · trivial

theorem alike_keyword (word : String) (h : List.Forall₂ Token.Alike ts us) :
    Alike Token.Alike (keyword word ts) (keyword word us) :=
  alike_token (fun t u htu => by rw [htu.kind, htu.text]) h

theorem isName_alike {t u : Token} (h : Token.Alike t u) : isName t = isName u := by
  rw [isName, isName, h.kind, h.text]

theorem alike_name (h : List.Forall₂ Token.Alike ts us) : Alike Token.Alike (name ts) (name us) :=
  alike_token (fun _ _ => isName_alike) h

theorem alike_symbol (c : Char) (h : List.Forall₂ Token.Alike ts us) :
    Alike Token.Alike (symbol c ts) (symbol c us) :=
  alike_token (fun t u htu => by rw [htu.kind, htu.text]) h

/-- A step whose result is put in another form. -/
theorem Alike.map {x : Except (Option Token) (α × List Token)} {y : Except (Option Token) (β × List Token)}
    {f : α × List Token → γ × List Token} {g : β × List Token → δ × List Token} (h : Alike R x y)
    (hf : ∀ a b ts us, R a b → List.Forall₂ Token.Alike ts us →
      S (f (a, ts)).1 (g (b, us)).1 ∧ List.Forall₂ Token.Alike (f (a, ts)).2 (g (b, us)).2) :
    Alike S (x.map f) (y.map g) := by
  rcases x with _ | ⟨a, ts⟩ <;> rcases y with _ | ⟨b, us⟩
  · trivial
  · exact h.elim
  · exact h.elim
  · exact hf a b ts us h.1 h.2

theorem alike_integer (h : List.Forall₂ Token.Alike ts us) : Alike Eq (integer ts) (integer us) := by
  have hnumber : ∀ {ts us : List Token}, List.Forall₂ Token.Alike ts us →
      Alike Token.Alike (token (·.kind = .number) ts) (token (·.kind = .number) us) :=
    fun h => alike_token (fun t u htu => by rw [htu.kind]) h
  cases h with
  | nil => trivial
  | @cons t u ts us htu h =>
    rw [integer, integer, htu.text]
    split
    · exact (hnumber h).map fun n m ts us hnm h => ⟨by simp only [hnm.text], h⟩
    · split
      · exact (hnumber h).map fun n m ts us hnm h => ⟨by simp only [hnm.text], h⟩
      · exact (hnumber (.cons htu h)).map fun n m ts us hnm h => ⟨by simp only [hnm.text], h⟩

theorem isQuoted_alike {t u : Token} (h : Token.Alike t u) : isQuoted t = isQuoted u := by
  rw [isQuoted, isQuoted, h.kind, h.text]

theorem alike_texts : ∀ {ts us : List Token}, List.Forall₂ Token.Alike ts us → Alike Eq (texts ts) (texts us)
  | _, _, .nil => ⟨rfl, .nil⟩
  | _, _, .cons htu .nil => by
    rw [texts, texts, htu.text]
    split
    · trivial
    · exact ⟨rfl, .cons htu .nil⟩
  | _, _, .cons htu (.cons hquoted h) => by
    rw [texts, texts, htu.text, isQuoted_alike hquoted, hquoted.text]
    split
    · split
      · exact (alike_texts h).map fun _ _ _ _ hmore h => ⟨by simp only [hmore], h⟩
      · trivial
    · exact ⟨rfl, .cons htu (.cons hquoted h)⟩

theorem alike_finish (h : List.Forall₂ Token.Alike ts us) : Alike Eq (finish ts) (finish us) := by
  cases h with
  | nil => exact ⟨rfl, .nil⟩
  | @cons t u _ _ htu h =>
    rw [finish, finish, htu.text]
    split
    · exact ⟨rfl, h⟩
    · trivial

theorem alike_optionally (first : String) {more : Reader Unit}
    (hmore : ∀ {ts us : List Token}, List.Forall₂ Token.Alike ts us → Alike Eq (more ts) (more us))
    (h : List.Forall₂ Token.Alike ts us) : Alike Eq (optionally first more ts) (optionally first more us) := by
  have hfirst := alike_keyword first h
  unfold optionally
  rcases ht : keyword first ts with _ | ⟨t, ts'⟩ <;> rcases hu : keyword first us with _ | ⟨u, us'⟩
  all_goals rw [ht, hu] at hfirst
  · exact ⟨rfl, h⟩
  · exact hfirst.elim
  · exact hfirst.elim
  · exact (hmore hfirst.2).map fun _ _ _ _ _ h => ⟨rfl, h⟩

theorem alike_dropWhile (h : List.Forall₂ Token.Alike ts us) :
    List.Forall₂ Token.Alike (ts.dropWhile isName) (us.dropWhile isName) := by
  induction h with
  | nil => exact .nil
  | @cons t u ts us htu h ih =>
    rw [List.dropWhile_cons, List.dropWhile_cons, isName_alike htu]
    split
    · exact ih
    · exact .cons htu h

end Reader

/-! ## Statements -/

section Statements

open Reader

variable {ts us : List Token}

theorem alike_createHead (h : List.Forall₂ Token.Alike ts us) :
    Alike (fun a b : Bool × Token => a.1 = b.1 ∧ Token.Alike a.2 b.2) (createHead ts) (createHead us) := by
  refine (alike_keyword "table" h).bind fun _ _ _ _ _ h => ?_
  refine Alike.bind (alike_optionally "if" (fun h => ?_) h) fun _ _ _ _ hif h => ?_
  · refine (alike_keyword "not" h).bind fun _ _ _ _ _ h => ?_
    exact (alike_keyword "exists" h).bind fun _ _ _ _ _ h => .pure rfl h
  · exact (alike_name h).bind fun _ _ _ _ hname h => .pure ⟨hif, hname⟩ h

theorem alike_createBody (h : List.Forall₂ Token.Alike ts us) :
    Alike (fun a b : Option Token => a.isSome = b.isSome) (createBody ts) (createBody us) := by
  refine (alike_symbol '(' h).bind fun _ _ _ _ _ h => ?_
  refine (alike_name h).bind fun _ _ _ _ _ h => ?_
  refine (alike_symbol ')' (alike_dropWhile h)).bind fun _ _ _ _ _ h => ?_
  cases h with
  | nil => exact ⟨rfl, .nil⟩
  | @cons t u _ _ htu h =>
    simp only [isName_alike htu]
    split
    · exact (alike_finish h).bind fun _ _ _ _ _ h => .pure rfl h
    · exact (alike_finish (.cons htu h)).bind fun _ _ _ _ _ h => .pure rfl h

/-- A statement other than one that makes a table is read from like tokens alike. -/
theorem alike_simpleStatement {first : Text} {read : Reader Statement} (hread : simpleStatement first = some read)
    (h : List.Forall₂ Token.Alike ts us) : Alike Eq (read ts) (read us) := by
  unfold simpleStatement at hread
  split at hread
  · cases hread
    refine (alike_keyword "table" h).bind fun _ _ _ _ _ h => ?_
    refine Alike.bind (alike_optionally "if" (fun h => ?_) h) fun _ _ _ _ hif h => ?_
    · exact (alike_keyword "exists" h).bind fun _ _ _ _ _ h => .pure rfl h
    · refine (alike_name h).bind fun _ _ _ _ hname h => ?_
      exact (alike_finish h).bind fun _ _ _ _ _ h => .pure (by rw [hif, hname.text]) h
  split at hread
  · cases hread
    refine (alike_keyword "into" h).bind fun _ _ _ _ _ h => ?_
    refine (alike_name h).bind fun _ _ _ _ hname h => ?_
    refine (alike_keyword "values" h).bind fun _ _ _ _ _ h => ?_
    refine (alike_symbol '(' h).bind fun _ _ _ _ _ h => ?_
    refine (alike_integer h).bind fun _ _ _ _ hvalue h => ?_
    refine (alike_texts h).bind fun _ _ _ _ htexts h => ?_
    refine (alike_symbol ')' h).bind fun _ _ _ _ _ h => ?_
    exact (alike_finish h).bind fun _ _ _ _ _ h => .pure (by rw [hvalue, hname.text, htexts]) h
  split at hread
  · cases hread
    refine (alike_keyword "from" h).bind fun _ _ _ _ _ h => ?_
    refine (alike_name h).bind fun _ _ _ _ hname h => ?_
    exact (alike_finish h).bind fun _ _ _ _ _ h => .pure (by rw [hname.text]) h
  split at hread
  · cases hread
    refine (alike_integer h).bind fun _ _ _ _ hvalue h => ?_
    cases h with
    | nil => exact (alike_finish .nil).bind fun _ _ _ _ _ h => .pure (by rw [hvalue]) h
    | @cons t u _ _ htu h =>
      simp only [isName_alike htu]
      split
      · exact (alike_finish h).bind fun _ _ _ _ _ h => .pure (by rw [hvalue]) h
      · exact (alike_finish (.cons htu h)).bind fun _ _ _ _ _ h => .pure (by rw [hvalue]) h
  split at hread
  · cases hread
    exact (alike_finish h).bind fun _ _ _ _ _ h => .pure rfl h
  split at hread
  · cases hread
    exact (alike_finish h).bind fun _ _ _ _ _ h => .pure rfl h
  · cases hread

variable {c c' : Clause}

/-- After readers that end alike, steps that agree come to the same. -/
theorem toOption_bind_alike {α β γ : Type} {R : α → β → Prop} {x : Except (Option Token) (α × List Token)}
    {y : Except (Option Token) (β × List Token)} {e e' : Option Token → Fault} {f : α × List Token → Except Fault γ}
    {g : β × List Token → Except Fault γ} (h : Alike R x y)
    (hf : ∀ a b ts us, R a b → List.Forall₂ Token.Alike ts us → (f (a, ts)).toOption = (g (b, us)).toOption) :
    (x.mapError e >>= f).toOption = (y.mapError e' >>= g).toOption := by
  rcases x with _ | ⟨a, ts⟩ <;> rcases y with _ | ⟨b, us⟩
  · rfl
  · exact h.elim
  · exact h.elim
  · exact hf a b ts us h.1 h.2

theorem create_alike (taken : Text → Bool) (h : List.Forall₂ Token.Alike ts us) :
    (c.create taken ts).toOption = (c'.create taken us).toOption := by
  refine toOption_bind_alike (alike_createHead h) fun ⟨ifNotExists, name⟩ ⟨ifNotExists', name'⟩ ts us hhead h => ?_
  obtain ⟨rfl, hname⟩ := hhead
  have hname : name.text = name'.text := hname.text
  have hbracket : (ts.head?.any fun t => t.text = ['(']) = us.head?.any fun t => t.text = ['('] := by
    cases h with
    | nil => rfl
    | cons htu => simp only [List.head?_cons, Option.any_some, htu.text]
  simp only [hbracket, hname]
  split
  · split
    · rfl
    · split
      · rfl
      · refine toOption_bind_alike (alike_createBody h) fun a b _ _ hab _ => ?_
        cases a <;> cases b <;> simp_all [Except.toOption]
  · refine toOption_bind_alike (alike_createBody h) fun a b _ _ hab _ => ?_
    cases a <;> cases b <;> simp_all [Except.toOption]

/-- **Clauses of like tokens** are the same statement, or none. -/
theorem Clause.statement_alike (taken : Text → Bool) (h : List.Forall₂ Token.Alike c.tokens c'.tokens) :
    (c.statement taken).toOption = (c'.statement taken).toOption := by
  obtain ⟨ts, sql, base⟩ := c
  obtain ⟨us, sql', base'⟩ := c'
  unfold statement
  cases (h : List.Forall₂ Token.Alike ts us) with
  | nil => rfl
  | @cons t u ts us htu h =>
    simp only [htu.kind, htu.text]
    split
    · exact create_alike taken h
    · split
      · rename_i read hread
        have hword : simpleStatement (Text.lowerAscii u.text) = some read := by
          split at hread
          · exact hread
          · cases hread
        have hread := alike_simpleStatement hword h
        rcases ht : read ts with _ | ⟨a, ts'⟩ <;> rcases hu : read us with _ | ⟨b, us'⟩
        all_goals rw [ht, hu] at hread
        · rfl
        · exact hread.elim
        · exact hread.elim
        · exact congrArg some hread.1
      · rfl

end Statements

/-! ## Texts -/

/-- Like tokens are cut into like clauses. -/
theorem clausesFrom_alike {ts us : List Token} (h : List.Forall₂ Token.Alike ts us) :
    ∀ {sql sql' : Text} {base base' : Nat} {read read' : List Token}, List.Forall₂ Token.Alike read read' →
      List.Forall₂ (fun c c' : Clause => List.Forall₂ Token.Alike c.tokens c'.tokens)
        (clausesFrom sql base read ts) (clausesFrom sql' base' read' us) := by
  induction h with
  | nil =>
    intro sql sql' base base' read read' hread
    rw [clausesFrom, clausesFrom]
    cases hread with
    | nil => exact .nil
    | cons htu hread =>
      rw [if_neg (List.cons_ne_nil _ _), if_neg (List.cons_ne_nil _ _)]
      exact .cons (List.rel_reverse (.cons htu hread)) .nil
  | @cons t u ts us htu h ih =>
    intro sql sql' base base' read read' hread
    rw [clausesFrom, clausesFrom, htu.text]
    split
    · cases hread with
      | nil => exact ih .nil
      | cons htu' hread =>
        rw [if_neg (List.cons_ne_nil _ _), if_neg (List.cons_ne_nil _ _)]
        exact .cons (List.rel_reverse (.cons htu (.cons htu' hread))) (ih .nil)
    · exact ih (.cons htu hread)

/-- Two runs end alike: both with a fault or both without one, and with the same database. -/
def EndsAlike {ε ε' α α' : Type} (x : Except ε α × Database) (y : Except ε' α' × Database) : Prop :=
  x.1.isOk = y.1.isOk ∧ x.2 = y.2

namespace Database

theorem runClauses_alike {cs cs' : List Clause}
    (h : List.Forall₂ (fun c c' : Clause => List.Forall₂ Token.Alike c.tokens c'.tokens) cs cs') :
    ∀ db : Database, EndsAlike (db.runClauses cs) (db.runClauses cs') := by
  induction h with
  | nil => exact fun db => ⟨rfl, rfl⟩
  | @cons c c' cs cs' hc h ih =>
    intro db
    have hst := Clause.statement_alike db.hasTable hc
    rw [runClauses, runClauses]
    rcases hs : c.statement db.hasTable with fault | st <;> rcases hs' : c'.statement db.hasTable with fault' | st'
    all_goals rw [hs, hs'] at hst
    · exact ⟨rfl, rfl⟩
    · cases hst
    · cases hst
    · cases hst
      rw [show (Except.ok st >>= db.exec) = db.exec st from rfl]
      rcases db.exec st with fault | db'
      · exact ⟨rfl, rfl⟩
      · exact ih db'

/-- **Texts of like tokens** do the same to a database. -/
theorem run_alike {sql sql' : Text} (h : List.Forall₂ Token.Alike (tokens sql) (tokens sql')) (db : Database) :
    EndsAlike (db.run sql) (db.run sql') :=
  runClauses_alike (clausesFrom_alike h .nil) db

end Database

end BatchMigrate.Sql
