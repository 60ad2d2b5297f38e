import BatchMigrate.Config.Basic
import BatchMigrate.Proofs.Faults

/-!
# Settings that can be used

Settings pass the check exactly if there is a splitter for them and the name of the version table may begin as they say
(`Config.validate_eq_ok`), that is, if each of three settings has a value of the right form (`Config.validate_iff`).
-/

namespace BatchMigrate

/-- There is a splitter with any terminator and separator that are not empty, if the separator is one word. -/
theorem Splitter.exists_ofTexts_eq_ok {terminator keyword : Text} : (∃ sp, ofTexts terminator keyword = .ok sp) ↔
    terminator ≠ [] ∧ keyword ≠ [] ∧ keyword.any Text.isSpace = false := by
  constructor
  · rintro ⟨sp, h⟩
    obtain ⟨sp₀, hterminator, h⟩ := exists_of_bind_eq_ok h
    obtain ⟨separator, hseparator, _⟩ := exists_of_map_eq_ok h
    unfold ofTerminator at hterminator
    unfold Separator.ofKeyword at hseparator
    split at hterminator
    · rename_i hne
      split at hseparator
      · rename_i hword
        exact ⟨hne, hword⟩
      · cases hseparator
    · cases hterminator
  · rintro ⟨hne, hword⟩
    rw [ofTexts, ofTerminator, dif_pos hne]
    show ∃ sp, (Separator.ofKeyword keyword).map _ = .ok sp
    rw [Separator.ofKeyword, dif_pos hword]
    exact ⟨_, rfl⟩

namespace Config

variable {c : Config}

/-- Settings pass the check if there is a splitter for them and the name of the version table may begin as they say. -/
theorem validate_eq_ok : c.validate = .ok () ↔
    (∃ splitter, c.splitter.splitter = .ok splitter) ∧ isTablePrefix c.tablePrefix = true := by
  unfold validate
  constructor
  · intro h
    obtain ⟨splitter, hsplitter, h⟩ := exists_of_bind_eq_ok h
    split at h
    · rename_i htable
      exact ⟨⟨splitter, hsplitter⟩, htable⟩
    · cases h
  · rintro ⟨⟨splitter, hsplitter⟩, htable⟩
    rw [hsplitter, htable]
    rfl

/-- **Settings can be used** if the terminator, the separator and the start of the name of the version table have the right
form, each by itself. -/
theorem validate_iff : c.validate = .ok () ↔ c.splitter.terminator ≠ [] ∧
    (c.splitter.separator ≠ [] ∧ c.splitter.separator.any Text.isSpace = false) ∧ isTablePrefix c.tablePrefix = true := by
  rw [validate_eq_ok, ← and_assoc, ← Splitter.exists_ofTexts_eq_ok]
  refine and_congr_left fun _ => exists_congr fun splitter => ⟨eq_ok_of_mapError_eq_ok, fun h => ?_⟩
  rw [SplitterConfig.splitter, h]
  rfl

end Config

end BatchMigrate
