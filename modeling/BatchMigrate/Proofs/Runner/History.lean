import BatchMigrate.Proofs.Runner.Rows
import BatchMigrate.Proofs.Runner.Stages

/-!
# The history of a version table

A database outlives its runners: they are opened on it one after the other, with settings that may differ in all but the
name of the version table, and between their runs the scripts are edited. `History` is any sequence of such steps. Each
step takes no row away and records versions that had none (`Session.Step.grows`), and so does a history
(`Session.History.grows`); hence no version is applied twice, and the largest version never gets smaller
(`Session.rows_append_only`).
-/

namespace BatchMigrate

open Sql VersionTable

/-! ## Rows that are added -/

namespace VersionTable

/-- The rows of the version table; none if it cannot be read. -/
def rowsD (tablePrefix : Text) (db : Database) : List VersionRow := (VersionTable.rows tablePrefix db).toOption.getD []

/-- From one database to the other, the versions have been recorded, and a version table that could be read still can. -/
structure Grows (tablePrefix : Text) (before after : Database) (versions : List Int) : Prop where
  recorded : Recorded (rowsD tablePrefix before) (rowsD tablePrefix after) versions
  readable : ∀ {rows}, VersionTable.rows tablePrefix before = .ok rows →
    VersionTable.rows tablePrefix after = .ok (rowsD tablePrefix after)

variable {tablePrefix : Text} {db db' db'' : Database} {rows rows' : List VersionRow} {versions : List Int}

theorem rowsD_of_ok (h : VersionTable.rows tablePrefix db = .ok rows) : rowsD tablePrefix db = rows := by
  rw [rowsD, h]
  rfl

theorem rows_of_mem_rowsD {row : VersionRow} (h : row ∈ rowsD tablePrefix db) :
    VersionTable.rows tablePrefix db = .ok (rowsD tablePrefix db) := by
  cases hrows : VersionTable.rows tablePrefix db with
  | error fault =>
    rw [rowsD, hrows] at h
    cases h
  | ok rows => rw [rowsD_of_ok hrows]

theorem Grows.refl (tablePrefix : Text) (db : Database) : Grows tablePrefix db db [] where
  recorded := .refl _
  readable h := by rw [h, rowsD_of_ok h]

theorem Grows.of_recorded (h : VersionTable.rows tablePrefix db = .ok rows)
    (h' : VersionTable.rows tablePrefix db' = .ok rows') (hrec : Recorded rows rows' versions) :
    Grows tablePrefix db db' versions where
  recorded := by rwa [rowsD_of_ok h, rowsD_of_ok h']
  readable _ := by rw [h', rowsD_of_ok h']

theorem Grows.trans {earlier later : List Int} (h : Grows tablePrefix db db' earlier)
    (h' : Grows tablePrefix db' db'' later) : Grows tablePrefix db db'' (earlier ++ later) where
  recorded := h.recorded.trans h'.recorded
  readable hrows := h'.readable (h.readable hrows)

/-- No row is taken away. -/
theorem Grows.exists_rows (h : Grows tablePrefix db db' versions) (hrows : VersionTable.rows tablePrefix db = .ok rows) :
    ∃ rows', VersionTable.rows tablePrefix db' = .ok rows' ∧ rows ⊆ rows' :=
  ⟨_, h.readable hrows, rowsD_of_ok hrows ▸ h.recorded.kept⟩

/-- Making the version table adds no row to one that is there already. -/
theorem grows_create (h : create tablePrefix db = .ok db') : Grows tablePrefix db db' [] := by
  simp only [create] at h
  split at h
  · cases h
  · split at h
    · cases h
    · cases h
      cases hg : db.tables.get? (name tablePrefix) with
      | some table =>
        have hhas : db.hasTable (name tablePrefix) = true := by rw [Database.hasTable, hg]; rfl
        rw [if_pos hhas]
        exact .refl tablePrefix db
      | none =>
        have hhas : ¬db.hasTable (name tablePrefix) = true := by simp [Database.hasTable, hg]
        have hnone : rowsD tablePrefix db = [] := by
          rw [rowsD, VersionTable.rows, rowsFor, hg]
          rfl
        rw [if_neg hhas]
        have hnew : VersionTable.rows tablePrefix { db with tables := db.tables.add (name tablePrefix) (.versions []) } =
            .ok [] := rows_eq_ok_iff.2 (Tables.get?_add_self _ hg)
        refine ⟨?_, fun _ => by rw [hnew, rowsD_of_ok hnew]⟩
        rw [hnone, rowsD_of_ok hnew]
        exact .refl []

end VersionTable

/-! ## Runs -/

namespace Runner

variable {r r' : Runner} {d : Disk}

theorem grows_connect {config : Config} {db : Database} (h : connect config db = .ok r) :
    r.config = config ∧ Grows config.tablePrefix db r.db [] := by
  obtain ⟨_, splitter, db', _, hcreate, rfl⟩ := connect_eq_ok.1 h
  exact ⟨rfl, grows_create hcreate⟩

/-- The versions that the report of a run names. -/
def reported : Except RunFault ApplyReport → List Int
  | .ok report => report.applied
  | .error _ => []

section Runs

variable [Interpreter]

variable [LawfulInterpreter]

/-- **A run** records versions that had no row, those in its report among them. -/
theorem grows_apply {ms : List Migration} (hspares : ∀ m ∈ ms, r.SparesTable d m) (now : Text) :
    ∃ versions, Grows r.config.tablePrefix r.db (r.apply d now ms).2.db versions ∧
      (reported (r.apply d now ms).1).Sublist versions := by
  cases hrows : VersionTable.rows r.config.tablePrefix r.db with
  | error fault =>
    rw [apply, hrows]
    exact ⟨[], .refl _ _, List.Sublist.refl _⟩
  | ok rows =>
    obtain ⟨after, versions, hrec, hafter, hok⟩ := apply_rows now hspares hrows
    refine ⟨versions, .of_recorded hrows hafter hrec, ?_⟩
    cases hresult : (r.apply d now ms).1 with
    | error fault => exact List.nil_sublist _
    | ok report => exact (hok report hresult).1 ▸ List.Sublist.refl report.applied

theorem grows_up (hspares : ∀ ms, r.load d = .ok ms → ∀ m ∈ ms, r.SparesTable d m) (now : Text) :
    ∃ versions, Grows r.config.tablePrefix r.db (r.up d now).2.db versions ∧
      (reported (r.up d now).1).Sublist versions := by
  rw [up]
  cases hload : r.load d with
  | error fault => exact ⟨[], .refl _ _, List.Sublist.refl _⟩
  | ok ms => exact grows_apply (hspares ms hload) now

theorem grows_upTo (hspares : ∀ ms, r.load d = .ok ms → ∀ m ∈ ms, r.SparesTable d m) (now : Text) (target : Int) :
    ∃ versions, Grows r.config.tablePrefix r.db (r.upTo d now target).2.db versions ∧
      (reported (r.upTo d now target).1).Sublist versions := by
  rw [upTo]
  cases hload : r.load d with
  | error fault => exact ⟨[], .refl _ _, List.Sublist.refl _⟩
  | ok ms =>
    dsimp only
    split
    · exact grows_apply (fun m hm => hspares ms hload m (List.mem_filter.1 hm).1) now
    · exact ⟨[], .refl _ _, List.Sublist.refl _⟩

end Runs

/-- The current version is the largest of the recorded ones. -/
theorem currentVersion_eq_ok {v : Option Int} : r.currentVersion = .ok v ↔
    ∃ rows, VersionTable.rows r.config.tablePrefix r.db = .ok rows ∧ (rows.map (·.version)).max? = v := by
  simp only [rows_eq_ok_iff]
  rw [currentVersion, maxVersion, rowsFor]
  cases r.db.tables.get? (name r.config.tablePrefix) with
  | none => simp [Except.map, Except.mapError]
  | some table => cases table <;> simp [Except.map, Except.mapError]

end Runner

/-! ## Histories -/

/-- A runner with its database, and the files that it loads. -/
structure Session where
  disk : Disk
  runner : Runner

namespace Session

section Histories

variable [Interpreter] [LawfulInterpreter]

/-- No script that the runner loads names the version table. -/
def Spares (s : Session) : Prop := ∀ ms, s.runner.load s.disk = .ok ms → ∀ m ∈ ms, s.runner.SparesTable s.disk m

/-- One step of a history, with the versions that it reports as applied. -/
inductive Step (tablePrefix : Text) : Session → List Int → Session → Prop
  /-- Another runner is opened on the database. -/
  | opened {s : Session} {config : Config} {runner : Runner} (hstart : config.tablePrefix = tablePrefix)
      (h : Runner.connect config s.runner.db = .ok runner) : Step tablePrefix s [] { s with runner }
  /-- Files are written or removed. -/
  | edited (s : Session) (disk : Disk) : Step tablePrefix s [] { s with disk }
  /-- Pending migrations are applied; the run may fail. -/
  | up {s : Session} (now : Text) (h : s.Spares) : Step tablePrefix s (Runner.reported (s.runner.up s.disk now).1)
      { s with runner := (s.runner.up s.disk now).2 }
  /-- Pending migrations up to a version are applied; the run may fail. -/
  | upTo {s : Session} (now : Text) (target : Int) (h : s.Spares) :
      Step tablePrefix s (Runner.reported (s.runner.upTo s.disk now target).1)
        { s with runner := (s.runner.upTo s.disk now target).2 }
  /-- The state of the migrations is looked at. -/
  | status (s : Session) : Step tablePrefix s [] s

/-- Steps one after the other, with all versions that they report as applied. -/
inductive History (tablePrefix : Text) : Session → List Int → Session → Prop
  | nil (s : Session) : History tablePrefix s [] s
  | cons {s s₁ s₂ : Session} {first rest : List Int} (h : Step tablePrefix s first s₁)
      (hs : History tablePrefix s₁ rest s₂) : History tablePrefix s (first ++ rest) s₂

variable {tablePrefix : Text} {s s' : Session} {applied : List Int}

/-- **One step** takes no row away and records versions that had none, those that it reports among them. -/
theorem Step.grows (hs : s.runner.config.tablePrefix = tablePrefix) (h : Step tablePrefix s applied s') :
    s'.runner.config.tablePrefix = tablePrefix ∧
      ∃ versions, Grows tablePrefix s.runner.db s'.runner.db versions ∧ applied.Sublist versions := by
  subst hs
  cases h with
  | opened hstart h =>
    obtain ⟨hconfig, hgrows⟩ := Runner.grows_connect h
    rw [hstart] at hgrows
    exact ⟨by rw [hconfig, hstart], [], hgrows, List.Sublist.refl _⟩
  | edited disk => exact ⟨rfl, [], .refl _ _, List.Sublist.refl _⟩
  | up now h => exact ⟨by rw [Runner.up_eq], Runner.grows_up h now⟩
  | upTo now target h => exact ⟨by rw [Runner.upTo_eq], Runner.grows_upTo h now target⟩
  | status => exact ⟨rfl, [], .refl _ _, List.Sublist.refl _⟩

/-- **Any number of steps.** -/
theorem History.grows (h : History tablePrefix s applied s') (hs : s.runner.config.tablePrefix = tablePrefix) :
    s'.runner.config.tablePrefix = tablePrefix ∧
      ∃ versions, Grows tablePrefix s.runner.db s'.runner.db versions ∧ applied.Sublist versions := by
  induction h with
  | nil s => exact ⟨hs, [], .refl _ _, List.Sublist.refl _⟩
  | cons h _ ih =>
    obtain ⟨hnext, earlier, hgrows, hsub⟩ := h.grows hs
    obtain ⟨hlast, later, hgrows', hsub'⟩ := ih hnext
    exact ⟨hlast, earlier ++ later, hgrows.trans hgrows', hsub.append hsub'⟩

/-- **The version table is append-only**, whatever happens after a runner has first been opened on a database: runners
are opened, files edited, migrations applied, with or without success, as long as no script names the version table. At
any two moments of such a history, the rows of the earlier one are rows of the later one. No version is reported as
applied twice, and each that has been has a row. The current version is the largest that is recorded, and never gets
smaller. -/
theorem rows_append_only {config : Config} {db : Database} {r : Runner} (hopen : Runner.connect config db = .ok r)
    {disk : Disk} {s₁ s₂ : Session} {before after : List Int}
    (h₁ : History config.tablePrefix ⟨disk, r⟩ before s₁) (h₂ : History config.tablePrefix s₁ after s₂) :
    (∀ rows, VersionTable.rows config.tablePrefix db = .ok rows →
      ∃ rows₁, VersionTable.rows config.tablePrefix s₁.runner.db = .ok rows₁ ∧ rows ⊆ rows₁) ∧
    (∀ rows₁, VersionTable.rows config.tablePrefix s₁.runner.db = .ok rows₁ →
      ∃ rows₂, VersionTable.rows config.tablePrefix s₂.runner.db = .ok rows₂ ∧ rows₁ ⊆ rows₂) ∧
    (before ++ after).Nodup ∧
    (∀ v ∈ before ++ after, ∃ rows₂, VersionTable.rows config.tablePrefix s₂.runner.db = .ok rows₂ ∧
      v ∈ rows₂.map (·.version)) ∧
    (∀ rows₂, VersionTable.rows config.tablePrefix s₂.runner.db = .ok rows₂ →
      s₂.runner.currentVersion = .ok (rows₂.map (·.version)).max?) ∧
    ∀ v₁, s₁.runner.currentVersion = .ok (some v₁) →
      ∃ v₂, s₂.runner.currentVersion = .ok (some v₂) ∧ v₁ ≤ v₂ := by
  obtain ⟨hconfig, hgrows⟩ := Runner.grows_connect hopen
  obtain ⟨hstart₁, versions₁, hgrows₁, hsub₁⟩ := h₁.grows (by rw [hconfig])
  obtain ⟨hstart₂, versions₂, hgrows₂, hsub₂⟩ := h₂.grows hstart₁
  have hall := (hgrows₁.trans hgrows₂).recorded
  have hsub := hsub₁.append hsub₂
  refine ⟨fun rows h => (hgrows.trans hgrows₁).exists_rows h, fun rows h => hgrows₂.exists_rows h,
    hall.nodup.sublist hsub, fun v hv => ?_, fun rows₂ h => ?_, fun v₁ h => ?_⟩
  · have hv := (hall.mem_iff v).2 (Or.inr (hsub.subset hv))
    obtain ⟨row, hrow, _⟩ := List.mem_map.1 hv
    exact ⟨_, rows_of_mem_rowsD hrow, hv⟩
  · exact Runner.currentVersion_eq_ok.2 ⟨rows₂, by rwa [hstart₂], rfl⟩
  · obtain ⟨rows₁, hrows₁, hmax₁⟩ := Runner.currentVersion_eq_ok.1 h
    rw [hstart₁] at hrows₁
    obtain ⟨rows₂, hrows₂, hkept⟩ := hgrows₂.exists_rows hrows₁
    have hmem : v₁ ∈ rows₂.map (·.version) := List.map_subset _ hkept (List.max?_eq_some_iff.1 hmax₁).1
    obtain ⟨v₂, hmax₂⟩ := Option.isSome_iff_exists.1 (List.isSome_max?_of_mem hmem)
    exact ⟨v₂, Runner.currentVersion_eq_ok.2 ⟨rows₂, by rwa [hstart₂], hmax₂⟩,
      (List.max?_eq_some_iff.1 hmax₂).2 v₁ hmem⟩

end Histories

/-- A runner for a database in which a version is recorded that no script has. -/
def oldRunner : Runner :=
  { Runner.freshRunner with
    db.tables := [(name (.of "sqlbatch_"), .versions [⟨7, .of "old", .of "00", .of "dawn"⟩])] }

theorem spares_stagedDisk (db : Database) : Spares ⟨Runner.stagedDisk, { Runner.freshRunner with db }⟩ := by
  intro ms hload
  cases (Runner.load_stagedDisk db).symm.trans hload
  exact Runner.sparesTable_stagedDisk db

/-- A script is applied; then all scripts are removed, and a run fails; then they are put back and applied. -/
theorem rows_append_only_oldRunner :
    Runner.connect {} oldRunner.db = .ok oldRunner ∧
      ∃ first failed second : Except RunFault ApplyReport × Runner,
        oldRunner.upTo Runner.stagedDisk (.of "morning") 1 = first ∧ first.2.up { root := .empty } (.of "noon") = failed ∧
        failed.2.up Runner.stagedDisk (.of "evening") = second ∧
        (∃ rows, VersionTable.rows (.of "sqlbatch_") second.2.db = .ok rows ∧
          [⟨7, .of "old", .of "00", .of "dawn"⟩] ⊆ rows) ∧
        (Runner.reported first.1 ++ (Runner.reported failed.1 ++ Runner.reported second.1)).Nodup := by
  have hopen : Runner.connect {} oldRunner.db = .ok oldRunner := rfl
  have hempty : ∀ db, Spares ⟨{ root := .empty }, { Runner.freshRunner with db }⟩ := by
    intro db ms hload
    have hfault : Runner.freshRunner.load { root := .empty } = .error (.unreadable .notFound) := by decide +kernel
    cases hfault.symm.trans hload
  rcases hfirst : oldRunner.upTo Runner.stagedDisk (.of "morning") 1 with first
  rcases hfailed : first.2.up { root := .empty } (.of "noon") with failed
  rcases hsecond : failed.2.up Runner.stagedDisk (.of "evening") with second
  have hr₁ : first.2 = { Runner.freshRunner with db := first.2.db } := by
    rw [← hfirst]
    exact Runner.upTo_eq ..
  have hr₂ : failed.2 = { Runner.freshRunner with db := failed.2.db } := by
    have heq := Runner.up_eq first.2 { root := .empty } (.of "noon")
    rwa [hfailed, hr₁] at heq
  have h₁ : History (.of "sqlbatch_") ⟨Runner.stagedDisk, oldRunner⟩ (Runner.reported first.1 ++ [])
      ⟨Runner.stagedDisk, first.2⟩ := by
    rw [← hfirst]
    exact .cons (.upTo _ _ (spares_stagedDisk _)) (.nil _)
  have h₂ : History (.of "sqlbatch_") ⟨Runner.stagedDisk, first.2⟩
      ([] ++ (Runner.reported failed.1 ++ ([] ++ (Runner.reported second.1 ++ [])))) ⟨Runner.stagedDisk, second.2⟩ := by
    refine .cons (.edited _ { root := .empty }) ?_
    rw [← hfailed]
    refine .cons (.up _ (hr₁ ▸ hempty first.2.db)) ?_
    rw [hfailed]
    refine .cons (.edited _ Runner.stagedDisk) ?_
    rw [← hsecond]
    exact .cons (.up _ (hr₂ ▸ spares_stagedDisk failed.2.db)) (.nil _)
  obtain ⟨hrows₁, hrows₂, hnodup, _⟩ := rows_append_only hopen h₁ h₂
  obtain ⟨rows₁, hread₁, hkept₁⟩ := hrows₁ _ rfl
  obtain ⟨rows₂, hread₂, hkept₂⟩ := hrows₂ rows₁ hread₁
  refine ⟨hopen, first, failed, second, rfl, hfailed, hsecond, ⟨rows₂, hread₂, List.Subset.trans hkept₁ hkept₂⟩, ?_⟩
  simpa using hnodup

end Session

end BatchMigrate
