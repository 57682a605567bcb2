import StackVm.Machine.Basic
import StackVm.Text.Blank
import StackVm.Text.Read

/-! Settings read from environment variables.  Each variable overrides one setting when its
value, with surrounding blanks removed, is valid, and is ignored otherwise: the loop threshold
is `off`, `none` or an unsigned 64-bit count (a count of zero counts as one), the depth limit
a positive machine-word count, and specialization one of `1`, `on`, `true`, `0`, `off`,
`false`. -/

namespace StackVm

namespace Config

/-- The variable holding the loop threshold. -/
def thresholdVar : String := "BASALT_OSR_THRESHOLD"

/-- The variable holding the depth limit. -/
def depthVar : String := "BASALT_MAX_RECURSION_DEPTH"

/-- The variable holding the specialization switch. -/
def specializeVar : String := "BASALT_SPECIALIZE"

/-- The configuration with the settings found through `lookup` applied. -/
def withEnv (c : Config) (lookup : String → Option String) : Config :=
  let c := match lookup thresholdVar with
    | some raw =>
      match Blank.trim raw with
      | "off" | "none" => { c with osrThreshold := none }
      | v => match Read.unsigned? v (Nat.pow 2 64) with
        | some n => { c with osrThreshold := some (max n 1) }
        | none => c
    | none => c
  let c := match lookup depthVar with
    | some raw =>
      match Read.unsigned? (Blank.trim raw) (Nat.pow 2 64) with
      | some n => if n > 0 then { c with maxDepth := n } else c
      | none => c
    | none => c
  match lookup specializeVar with
  | some raw =>
    match Blank.trim raw with
    | "1" | "on" | "true" => { c with specialize := true }
    | "0" | "off" | "false" => { c with specialize := false }
    | _ => c
  | none => c

end Config

end StackVm
