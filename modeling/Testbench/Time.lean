/-!
# Time

Lengths of time and points in time. Both count whole nanoseconds, so every sum
and difference is exact and no carry between seconds and nanoseconds has to be
reasoned about; the split into seconds and a remainder exists only where a time
is read or written.

A `Timestamp` carries its range: seconds fit in 64 bits. Moving past the end of
that range is not a time, which is why `Timestamp.add?` may answer `none`.

A model clock is an `Anchor`: the moment it was last reset. Its reading is the
time since then, and a moment before the anchor reads zero.

## Main definitions

* `Duration`: A length of time.
* `Timestamp`: A point in time within the representable range.
* `Timestamp.add?`: The moment a duration later, if it is in range.
* `Timestamp.since`: The duration from an earlier moment.
* `Anchor.elapsed`: The reading of a clock at a moment.

## Theorems

* `Timestamp.seconds_subsec`: The two written parts determine the moment.
* `Timestamp.since_of_add?`: A duration added is the duration measured.
-/

namespace Testbench

structure Duration where
  nanos : Nat
  deriving DecidableEq, Repr, Inhabited

namespace Duration

def ofMillis (n : Nat) : Duration := ⟨n * 1000000⟩

def ofParts (seconds nanos : Nat) : Duration := ⟨seconds * 1000000000 + nanos⟩

/-- Whole milliseconds, rounded down. -/
def millis (d : Duration) : Nat := d.nanos / 1000000

def seconds (d : Duration) : Nat := d.nanos / 1000000000

/-- Nanoseconds beyond the last whole second. -/
def subsec (d : Duration) : Nat := d.nanos % 1000000000

@[simp] theorem millis_ofMillis (n : Nat) : (ofMillis n).millis = n := by
  simp only [ofMillis, millis]
  omega

end Duration

/-- A point in time, in nanoseconds since 1970-01-01 00:00:00. Its seconds fit in
    a signed 64-bit number. -/
structure Timestamp where
  nanos : Int
  first_le : -9223372036854775808 * 1000000000 ≤ nanos
  lt_end : nanos < 9223372036854775808 * 1000000000
  deriving DecidableEq

namespace Timestamp

def epoch : Timestamp := ⟨0, by decide, by decide⟩

instance : Inhabited Timestamp := ⟨epoch⟩

instance : LE Timestamp := ⟨fun s t => s.nanos ≤ t.nanos⟩

instance : LT Timestamp := ⟨fun s t => s.nanos < t.nanos⟩

instance (s t : Timestamp) : Decidable (s ≤ t) := inferInstanceAs (Decidable (s.nanos ≤ t.nanos))

instance (s t : Timestamp) : Decidable (s < t) := inferInstanceAs (Decidable (s.nanos < t.nanos))

def ofNanos? (n : Int) : Option Timestamp :=
  if h : -9223372036854775808 * 1000000000 ≤ n ∧ n < 9223372036854775808 * 1000000000 then
    some ⟨n, h.1, h.2⟩
  else none

/-- The moment with the given written parts. A remainder of a second or more is
    no written form of a moment. -/
def ofParts? (seconds : Int) (nanos : Nat) : Option Timestamp :=
  if nanos < 1000000000 then ofNanos? (seconds * 1000000000 + nanos) else none

/-- Whole seconds since the epoch, rounded down. -/
def seconds (t : Timestamp) : Int := t.nanos / 1000000000

/-- Nanoseconds beyond the last whole second, also before the epoch. -/
def subsec (t : Timestamp) : Nat := (t.nanos % 1000000000).toNat

/-- The moment `d` later, if it is representable. -/
def add? (t : Timestamp) (d : Duration) : Option Timestamp := ofNanos? (t.nanos + d.nanos)

/-- The time from `s` to `t`, or none at all if `t` is not after `s`. -/
def since (t s : Timestamp) : Duration := ⟨(t.nanos - s.nanos).toNat⟩

theorem ext_nanos {s t : Timestamp} (h : s.nanos = t.nanos) : s = t := by
  cases s
  cases t
  simpa only [mk.injEq] using h

theorem ofNanos?_eq_some {n : Int} {t : Timestamp} : ofNanos? n = some t ↔ t.nanos = n := by
  unfold ofNanos?
  constructor
  · intro h
    split at h
    · rw [← Option.some.inj h]
    · exact absurd h (by simp only [reduceCtorEq, not_false_eq_true])
  · intro h
    subst h
    rw [dif_pos ⟨t.first_le, t.lt_end⟩]

theorem add?_eq_some {s t : Timestamp} {d : Duration} :
    s.add? d = some t ↔ t.nanos = s.nanos + d.nanos :=
  ofNanos?_eq_some

theorem seconds_subsec (t : Timestamp) : ofParts? t.seconds t.subsec = some t := by
  have hlt : t.subsec < 1000000000 := by
    simp only [subsec]
    omega
  rw [ofParts?, if_pos hlt, ofNanos?_eq_some]
  simp only [seconds, subsec]
  omega

theorem since_of_add? {s t : Timestamp} {d : Duration} (h : s.add? d = some t) :
    t.since s = d := by
  rw [add?_eq_some] at h
  cases d
  simp only [since, Duration.mk.injEq]
  simp only at h
  omega

end Timestamp

/-- A model clock: the moment of its last reset. -/
structure Anchor where
  moment : Timestamp
  deriving DecidableEq

/-- The time since the clock was reset, or zero if `now` precedes the reset. -/
def Anchor.elapsed (x : Anchor) (now : Timestamp) : Duration := now.since x.moment

end Testbench
