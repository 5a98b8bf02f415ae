/-
# Warning and feature flags

A flag `-Wname` or `-Fname` switches a warning or a feature on, `-Wno-name` or
`-Fno-name` switches it off. `-Wall` and `-Wno-all` switch all warnings; they are
applied before the others, so that a flag for one warning overrides them.
-/

import RiscBackend.Config.Basic
import RiscBackend.Text.Cut
import RiscBackend.Text.Layout

namespace RiscBackend

/-- What a flag asks for. -/
structure FlagRequest where
  /-- Whether the flag is about a warning and not about a feature. -/
  isWarning : Bool
  name : String
  enable : Bool
  deriving DecidableEq, Repr

/-- Read a flag, with or without its dash. A flag without a group letter is about
a warning. -/
def FlagRequest.ofFlag (flag : String) : FlagRequest :=
  let body := Text.dropStart "-" flag
  let negative := Text.hasStart "Wno-" body || Text.hasStart "Fno-" body
  let isFeature := Text.hasStart "F" body
  let name := if isFeature then Text.dropStart "F" body else Text.dropStart "W" body
  { isWarning := !isFeature
    name := if negative then Text.dropStart "no-" name else name
    enable := !negative }

namespace Config

/-- Switch all warnings. -/
def setAllWarnings (c : Config) (enabled : Bool) : Config :=
  Warning.all.foldl (fun c w => c.setWarning w enabled) c

/-- Apply a flag; an unknown name gives nothing. -/
def applyFlag? (c : Config) (flag : String) : Option Config :=
  let request := FlagRequest.ofFlag flag
  if request.isWarning then
    if request.name = "all" then some (c.setAllWarnings request.enable)
    else (Warning.ofName? request.name).map fun w => c.setWarning w request.enable
  else (Feature.ofName? request.name).map fun f => c.setFeature f request.enable

/-- Whether a flag switches all warnings and is applied first. -/
def isAllFlag (flag : String) : Bool :=
  let body := Text.dropStart "-" flag
  body = "Wall" || body = "Wno-all"

/-- Apply flags; the unknown ones are given back in order. -/
def applyFlags (c : Config) : List String → Config × List String
  | [] => (c, [])
  | flag :: rest =>
    match c.applyFlag? flag with
    | some c => applyFlags c rest
    | none =>
      let (c, unknown) := applyFlags c rest
      (c, flag :: unknown)

/-- Apply flags, those for all warnings first; the unknown ones are given back in
order. -/
def processFlags (c : Config) (flags : List String) : Config × List String :=
  (c.applyFlags (flags.filter isAllFlag)).1.applyFlags (flags.filter fun flag => !isAllFlag flag)

/-- One line of the listing of switches. -/
def switchLine (name : String) (enabled : Bool) (usage : String) : String :=
  "  - " ++ Text.padRight 12 name ++ ": " ++ toString enabled ++ " (" ++ usage ++ ")\n"

/-- The features and warnings with their states, each sorted by name. -/
def describe (c : Config) : String :=
  let features := Feature.all.mergeSort fun a b => a.name ≤ b.name
  let warnings := Warning.all.mergeSort fun a b => a.name ≤ b.name
  "Features:\n" ++
    String.join (features.map fun f => switchLine f.name (c.feature f) f.describe) ++
    "Warnings:\n" ++
    String.join (warnings.map fun w => switchLine w.name (c.warning w) w.describe)

end Config

end RiscBackend
