/-! Lengths of time, counted in nanoseconds. Moments elsewhere are natural numbers too: nanoseconds on a
clock of which only order and differences mean anything, and which comes to an end. -/
namespace ArithDispatch

/-- The last moment on the clock, whose whole seconds are a signed 64-bit count. To add a duration to a
moment panics when the sum would lie behind it. -/
def lastMoment : Nat := Nat.pow 2 63 * 1000000000 - 1

structure Duration where
  nanoseconds : Nat
  deriving DecidableEq, Repr

namespace Duration

/-- The longest duration, whose whole seconds are an unsigned 64-bit count. -/
def longest : Duration := ⟨UInt64.size * 1000000000 - 1⟩

def ofMilliseconds (n : Nat) : Duration := ⟨n * 1000000⟩

def seconds (d : Duration) : Nat := d.nanoseconds / 1000000000

/-- The nanoseconds past the last whole second. -/
def subsecond (d : Duration) : Nat := d.nanoseconds % 1000000000

def ofParts (seconds subsecond : Nat) : Duration := ⟨seconds * 1000000000 + subsecond⟩

theorem ofParts_seconds_subsecond (d : Duration) : ofParts d.seconds d.subsecond = d := by
  simp only [ofParts, seconds, subsecond]
  congr 1
  omega

end Duration

end ArithDispatch
