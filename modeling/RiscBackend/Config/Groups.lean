/-
# Warning and feature switches on the command line

Every warning and every feature is a setting with a pair of switches. Their
defaults are the present states of the configuration, and after a command line
was read the states are taken back from the switches. A switch that turns a
setting off wins over one that turns it on.
-/

import RiscBackend.Cli.FlagSet
import RiscBackend.Config.Basic

namespace RiscBackend.Config

open Cli (FlagSet Group GroupEntry DefinitionFault)

/-- The setting of a warning. -/
def warningEntry (c : Config) (w : Warning) : GroupEntry :=
  { name := w.name, letter := "W", usage := w.describe, on? := some (c.warning w)
    off? := some false }

/-- The setting of a feature. -/
def featureEntry (c : Config) (f : Feature) : GroupEntry :=
  { name := f.name, letter := "F", usage := f.describe, on? := some (c.feature f)
    off? := some false }

/-- The group of all warnings. -/
def warningGroup (c : Config) : Group :=
  { title := "Warning Flags", kind := "warning flag", entries := Warning.all.map c.warningEntry }

/-- The group of all features. -/
def featureGroup (c : Config) : Group :=
  { title := "Feature Flags", kind := "feature flag", entries := Feature.all.map c.featureEntry }

/-- Define the switches of all warnings and features. -/
def addGroups (c : Config) (fs : FlagSet) : FlagSet × Option DefinitionFault :=
  match fs.addGroup c.warningGroup with
  | (fs, none) => fs.addGroup c.featureGroup
  | failed => failed

/-- The state of a setting according to its switches. -/
def switched (fs : FlagSet) (e : GroupEntry) : Bool :=
  !fs.isOn e.offName && fs.isOn e.onName

/-- Take the states of all warnings and features from their switches. -/
def applyGroups (c : Config) (fs : FlagSet) : Config :=
  let c := Warning.all.foldl (fun c w => c.setWarning w (switched fs (c.warningEntry w))) c
  Feature.all.foldl (fun c f => c.setFeature f (switched fs (c.featureEntry f))) c

end RiscBackend.Config
