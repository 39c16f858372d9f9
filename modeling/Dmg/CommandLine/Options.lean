import Dmg.Text.Numeral

/-!
The arguments of the command line.  They are read from left to right, and a later one overrides an
earlier one; the first that asks for help or is unknown ends the reading.
-/

namespace Dmg

structure Options where
  rom : Option String := none
  frames : Nat := 200
  screenshot : Option String := none
  recordTo : Option String := none
  serial : Bool := false
  trace : Bool := false
  reset : Bool := false
deriving DecidableEq

inductive Request
  | play (options : Options)
  | usage
  | unknown (argument : String)
deriving DecidableEq

/-- What one argument does: it takes the next one, if there is a next, it stands alone, or it asks
for help. -/
inductive Argument
  | withValue (change : Options → Option String → Options)
  | alone (change : Options → Options)
  | help

namespace Options

def framesOf (text : String) : Nat :=
  (numeral? 10 0x100000000 text.toList).getD 200

def argument? : String → Option Argument
  | "--rom" => some (.withValue fun options value => { options with rom := value })
  | "--frames" => some (.withValue fun options value =>
      match value with
      | some text => { options with frames := framesOf text }
      | none => options)
  | "--screenshot" => some (.withValue fun options value => { options with screenshot := value })
  | "--record" => some (.withValue fun options value => { options with recordTo := value })
  | "--serial" => some (.alone fun options => { options with serial := true })
  | "--trace" => some (.alone fun options => { options with trace := true })
  | "--reset" => some (.alone fun options => { options with reset := true })
  | "--help" | "-h" => some .help
  | _ => none

def parse (options : Options) : List String → Request
  | [] => .play options
  | text :: rest =>
      match argument? text with
      | some (.withValue change) =>
          match rest with
          | [] => .play (change options none)
          | value :: rest => (change options (some value)).parse rest
      | some (.alone change) => (change options).parse rest
      | some .help => .usage
      | none => .unknown text

end Options

end Dmg
