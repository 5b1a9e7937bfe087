import OpenVAS.Configs.Families

/-! `switch_representation` writes the same choices in the other way: with families that grow
unless there is an exclude, or with families that are static unless there is an include. -/
namespace Configs

open CString Choices

section Family

variable {db : Database} {selector family : CString} {constraining growing : Bool}
  {listed : Bool → Finset CString}

end Family

/-! The loop. -/

section All

variable {db : Database} {selector : CString} {constraining : Bool}

end All

/-! The whole function. -/

end Configs
