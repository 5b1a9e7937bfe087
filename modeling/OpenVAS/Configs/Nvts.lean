import OpenVAS.Configs.Families

/-! `manage_set_config_nvts` chooses the NVTs that it is given in one family, and changes nothing
else of what the config scans with. -/
namespace Configs

open CString Choices

/-! The rows. -/

section Rows

variable {db : Database} {selector family : CString} {constraining growing exclude : Bool}
  {listed : Bool → Finset CString} {choice : Choice CString}

end Rows

/-! The function. -/

section Function

variable {db : Database} {now : Int} {config : Nat} {selector family : CString} {row : Config}
  {choice : Choice CString} {selectedNvts : List CString}

/-- What the function leaves. -/
structure Picks (config : Nat) (selector family : CString) (row : Config) (choice : Choice CString)
    (selected : Finset CString) (db after : Database) : Prop where
  changes : ChangesOnly selector family db after
  placed : Placed after selector row.familiesGrowing
  shape : Shape after selector row.familiesGrowing family choice.growing
    (listing (items db family) (choice.pick (items db family) selected))
  row : ∃ row', (config, row') ∈ after.configs.rows ∧ row.Like row' ∧
    row'.nvtsGrowing = row.nvtsGrowing ∧
    row'.nvtCount = row.nvtCount - choice.chosen.card +
      (choice.pick (items db family) selected).chosen.card
  others : ∀ number ≠ config, ∀ other,
    (number, other) ∈ after.configs.rows ↔ (number, other) ∈ db.configs.rows

end Function

end Configs
