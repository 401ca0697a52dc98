namespace OffsideScript

/-- What a clock shows each time that it is read, in milliseconds, and how often it has been read. -/
structure Clock where
  reading : Nat → Nat
  taken : Nat

namespace Clock

/-- Each reading is the next one. -/
def read (clock : Clock) : Nat × Clock :=
  (clock.reading clock.taken, { clock with taken := clock.taken + 1 })

/-- A clock that always shows the same moment. -/
def still (moment : Nat) : Clock :=
  ⟨fun _ => moment, 0⟩

instance : Coe Nat Clock := ⟨still⟩

/-- The clock has shown the recorded moments and shows one other moment after them. -/
def resumed (recorded : Array Nat) (moment : Nat) : Clock :=
  ⟨fun index => recorded.getD index moment, 0⟩

end Clock

end OffsideScript
