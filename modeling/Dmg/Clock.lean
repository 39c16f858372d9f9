/-!
A count of elapsed clock cycles.
-/

namespace Dmg

structure Clock where
  cycles : Nat := 0
deriving DecidableEq, Inhabited

def Clock.zero : Clock := {}

def Clock.advance (clock : Clock) : Clock :=
  { cycles := clock.cycles + 1 }

def Clock.advanceBy (clock : Clock) : Nat → Clock
  | 0 => clock
  | count + 1 => clock.advance.advanceBy count

@[simp] theorem Clock.cycles_advance (clock : Clock) : clock.advance.cycles = clock.cycles + 1 := rfl

theorem Clock.cycles_advanceBy (clock : Clock) (count : Nat) :
    (clock.advanceBy count).cycles = clock.cycles + count := by
  induction count generalizing clock with
  | zero => rfl
  | succ count ih =>
      simp only [Clock.advanceBy, ih, Clock.cycles_advance]
      omega

instance : LT Clock := ⟨fun left right => left.cycles < right.cycles⟩

instance (left right : Clock) : Decidable (left < right) :=
  inferInstanceAs (Decidable (left.cycles < right.cycles))

end Dmg
