/-
# Choosing a target

A target is written `backend/machine`. The machine may be left out; the native
backend has only one, and for the other the machine of the host is taken. Which one
that is, QBE knows; it is a part of what is known about a host.
-/

import RiscBackend.Config.Basic
import RiscBackend.Text.Cut

namespace RiscBackend

/-- The machine that QBE names for a system and a processor. -/
def qbeMachine (system processor : String) : String :=
  match system, processor with
  | "darwin", "amd64" => "amd64_apple"
  | "darwin", "arm64" => "arm64_apple"
  | "freebsd", "arm64" => "arm64"
  | "linux", "arm64" => "arm64"
  | "linux", "riscv64" => "rv64"
  | _, _ => "amd64_sysv"

/-- The operating system and processor on which the program runs, and what QBE takes
for their machine. -/
structure Host where
  system : String
  processor : String
  machineOf : String → String → String := qbeMachine

/-- The machine that QBE generates code for on a host. -/
def Host.qbeTarget (host : Host) : String :=
  host.machineOf host.system host.processor

/-- Choose a target. The second part of the answer is a note for the user, empty
unless the machine was chosen for them. -/
def Config.setTarget (c : Config) (host : Host) (target : String) :
    Except ConfigFault (Config × String) :=
  let (backend, machine?) := Text.cut '/' target
  let machine := machine?.getD ""
  if backend = "" || backend = "rv32" then
    if machine = "" || machine = "rv32" then
      .ok ({ c with backend := .rv32, target := "rv32", arch := "riscv32" }, "")
    else .error (.noTarget machine)
  else if backend = "qbe" then
    if machine = "" then
      let machine := host.qbeTarget
      .ok ({ c with backend := .qbe, target := machine, arch := host.processor },
        s!"rvbe: info: no qbe target specified, defaulting to host target '{machine}'\n")
    else .ok ({ c with backend := .qbe, target := machine, arch := host.processor }, "")
  else .error (.unsupportedBackend backend)

end RiscBackend
