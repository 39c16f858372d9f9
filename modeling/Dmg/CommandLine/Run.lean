import Dmg.CommandLine.Options
import Dmg.Machine.Recording

/-!
The command line: it runs a cartridge for a number of frames without a display, and can save what
the display would show, print what goes over the serial line, and list every instruction fetched.
-/

namespace Dmg.CommandLine

def usage : List String :=
  [ "Usage: emu-gb --rom <file> [OPTIONS]",
    "",
    "Options:",
    "  --rom <file>         Cartridge image (.gb, at most 32 KiB)",
    "  --frames <n>         Number of frames to run [default: 200]",
    "  --screenshot <file>  Save a PNG screenshot after the last frame",
    "  --record <dir>       Record every frame as PNG to <dir>/frames",
    "  --serial             Echo serial port bytes to stdout",
    "  --trace              Print each instruction fetch to stderr",
    "  --reset              Start at $0000 with cleared registers" ]

def traceLine (fetch : Fetch) : String :=
  let registers := fetch.registers
  hexWord fetch.address ++ "  " ++ padRight 14 fetch.instruction.operation.mnemonic ++
    " A=" ++ hexByte registers.a ++ " F=" ++ hexByte registers.f ++
    " BC=" ++ hexWord registers.bc ++ " DE=" ++ hexWord registers.de ++
    " HL=" ++ hexWord registers.hl ++ " SP=" ++ hexWord registers.sp

def success : UInt32 := 0

def failure : UInt32 := 1

def observe (options : Options) (machine : Machine) : Machine :=
  let machine := if options.serial then machine.mapSpace (·.listen) else machine
  if options.trace then machine.mapCpu (·.startTrace) else machine

variable {m : Type → Type} [Monad m] [Host m]

def fail (line : String) : m UInt32 := do
  Host.report line
  pure failure

def echo (machine : Machine) : m Machine := do
  match machine with
  | ⟨cpu, ppu, space, clock⟩ =>
      let (fetches, cpu) := cpu.takeTrace
      let (bytes, space) := space.takeSerial
      fetches.forM fun fetch => Host.report (traceLine fetch)
      if !bytes.isEmpty then Host.send bytes
      pure ⟨cpu, ppu, space, clock⟩

@[specialize] def playFrames : Nat → Machine → m (Except MachineError Unit × Machine)
  | 0, machine => pure (.ok (), machine)
  | count + 1, machine => do
      let (outcome, machine) := machine.runFrame
      let machine ← echo machine
      match outcome with
      | .error error => pure (.error error, machine)
      | .ok _ => playFrames count machine

def saveScreenshot (machine : Machine) (path : String) : m UInt32 := do
  match ← machine.savePicture path with
  | .error error => fail ("Screenshot error: " ++ error.message)
  | .ok _ =>
      Host.report ("Screenshot saved to " ++ path)
      pure success

/-- A recording takes the place of a plain run, and then no screenshot is saved. -/
@[specialize] def playMachine (options : Options) (machine : Machine) : m UInt32 := do
  match options.recordTo with
  | some directory =>
      match ← machine.record echo directory options.frames with
      | (.error error, _) => fail ("Record error: " ++ error.message)
      | (.ok _, _) => pure success
  | none =>
      match ← playFrames options.frames machine with
      | (.error error, machine) =>
          fail ("Emulation stopped after " ++ Nat.repr machine.clock.cycles ++ " cycles: " ++
            error.message)
      | (.ok _, machine) =>
          match options.screenshot with
          | some path => saveScreenshot machine path
          | none => pure success

def play (options : Options) : m UInt32 := do
  match options.rom with
  | none => fail "No ROM specified. Use --rom <file>"
  | some path =>
      match ← Host.readFile path with
      | .error error => fail ("Failed to read ROM " ++ path ++ ": " ++ error.message)
      | .ok image =>
          match Machine.boot image (if options.reset then .reset else .postBoot) with
          | .error error => fail ("Failed to load ROM: " ++ error.message)
          | .ok machine => playMachine options (observe options machine)

def run (arguments : List String) : m UInt32 := do
  match Options.parse {} arguments with
  | .usage =>
      usage.forM Host.report
      pure success
  | .unknown argument => fail ("Unknown argument: " ++ argument)
  | .play options => play options

end Dmg.CommandLine
