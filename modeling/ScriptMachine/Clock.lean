/-!
# Clocks

A clock gives the time in milliseconds, as a 64-bit number that wraps. A manual clock stands
still between readings unless it ticks; a sampled clock gives whatever readings it was made
with, one after the other, so that every behaviour of a real clock is among them.
-/

namespace ScriptMachine

/-- A source of time. -/
inductive Clock where
  /-- The present time, and how much each reading adds to it. -/
  | manual (now tick : UInt64)
  /-- The readings, and how many of them were taken. -/
  | sampled (readings : Nat → UInt64) (taken : Nat)

namespace Clock

/-- A manual clock at time zero. -/
def ticking (tick : UInt64) : Clock := manual 0 tick

/-- Read the clock. -/
def read : Clock → UInt64 × Clock
  | manual now tick => (now, manual (now + tick) tick)
  | sampled readings taken => (readings taken, sampled readings (taken + 1))

/-- What the next reading will give. -/
def peek : Clock → UInt64
  | manual now _ => now
  | sampled readings taken => readings taken

/-- Let time pass on a manual clock. -/
def advance (ms : UInt64) : Clock → Clock
  | manual now tick => manual (now + ms) tick
  | c => c

/-- Set a manual clock. -/
def setTime (ms : UInt64) : Clock → Clock
  | manual _ tick => manual ms tick
  | c => c

/-- The sum of a time and a duration, if it is a time. -/
theorem toNat_add_of_lt {now ms : UInt64} (h : now.toNat + ms.toNat < UInt64.size) :
    (now + ms).toNat = now.toNat + ms.toNat := by
  rw [UInt64.toNat_add, Nat.mod_eq_of_lt h]

@[simp] theorem read_fst (c : Clock) : c.read.1 = c.peek := by cases c <;> rfl

end Clock
end ScriptMachine
