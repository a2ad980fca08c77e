/-!
# The platform clock

Durations and instants as the standard library has them: unsigned 64-bit seconds in the one, signed 64-bit seconds in
the other, and nanoseconds below a second in both.  Adding a duration to an instant is checked; `+` panics where the
check fails.
-/

namespace Clock

def nanosPerSec : Nat := 1000000000

theorem nanosPerSec_pos : 0 < nanosPerSec := by decide

def maxSecs : Int := 9223372036854775807

structure Duration where
  secs : UInt64
  nanos : Nat
  nanos_lt : nanos < nanosPerSec

def Duration.fromSecs (secs : UInt64) : Duration := ⟨secs, 0, nanosPerSec_pos⟩

def Duration.toNanos (d : Duration) : Nat := d.secs.toNat * nanosPerSec + d.nanos

structure Instant where
  secs : Int
  nanos : Nat
  secs_ge : -maxSecs - 1 ≤ secs
  secs_le : secs ≤ maxSecs
  nanos_lt : nanos < nanosPerSec

namespace Instant

/-- The instant `secs` and `nanos`, if the seconds fit. -/
def ofSecs? (secs : Int) (nanos : Nat) (hge : -maxSecs - 1 ≤ secs) (hlt : nanos < nanosPerSec) : Option Instant :=
  if hle : secs ≤ maxSecs then some ⟨secs, nanos, hge, hle, hlt⟩ else none

/-- `Instant::checked_add`: the nanoseconds may carry one second. -/
def checkedAdd (self : Instant) (d : Duration) : Option Instant :=
  have hge := self.secs_ge
  if h : self.nanos + d.nanos < nanosPerSec then
    ofSecs? (self.secs + d.secs.toNat) (self.nanos + d.nanos) (by omega) h
  else
    ofSecs? (self.secs + d.secs.toNat + 1) (self.nanos + d.nanos - nanosPerSec) (by omega)
      (by have := self.nanos_lt; have := d.nanos_lt; omega)

/-- `Instant + Duration`. -/
def add (self : Instant) (d : Duration) : Except String Instant :=
  match self.checkedAdd d with
  | some instant => .ok instant
  | none => .error "overflow when adding duration to instant"

/-- The seconds and nanoseconds in nanoseconds. -/
def toNanos (self : Instant) : Int := self.secs * nanosPerSec + self.nanos

theorem ofSecs?_eq_some {secs : Int} {nanos : Nat} {hge : -maxSecs - 1 ≤ secs} {hlt : nanos < nanosPerSec}
    {instant : Instant} : ofSecs? secs nanos hge hlt = some instant ↔ instant.secs = secs ∧ instant.nanos = nanos := by
  obtain ⟨secs', nanos', hge', hle', hlt'⟩ := instant
  unfold ofSecs?
  split
  · simp only [Option.some.injEq, Instant.mk.injEq]
    exact ⟨fun h => ⟨h.1.symm, h.2.symm⟩, fun h => ⟨h.1.symm, h.2.symm⟩⟩
  · next h =>
    simp only [reduceCtorEq, false_iff, not_and]
    rintro rfl
    exact absurd hle' h

/-- A checked sum is the exact one. -/
theorem toNanos_checkedAdd {self instant : Instant} {d : Duration} (h : self.checkedAdd d = some instant) :
    instant.toNanos = self.toNanos + (d.secs.toNat * nanosPerSec + d.nanos) := by
  unfold checkedAdd at h
  unfold toNanos
  split at h
  · obtain ⟨hs, hn⟩ := ofSecs?_eq_some.1 h
    rw [hs, hn]
    simp only [nanosPerSec]
    omega
  · next hcarry =>
    obtain ⟨hs, hn⟩ := ofSecs?_eq_some.1 h
    rw [hs, hn]
    simp only [nanosPerSec] at hcarry ⊢
    omega

/-- Whole seconds are added as long as the sum of the seconds fits, and then the sum is exact. -/
theorem checkedAdd_fromSecs {self : Instant} {secs : UInt64} :
    (∃ instant, self.checkedAdd (.fromSecs secs) = some instant ∧
      instant.toNanos = self.toNanos + secs.toNat * nanosPerSec) ↔ self.secs + secs.toNat ≤ maxSecs := by
  have hnanos : self.nanos + (Duration.fromSecs secs).nanos < nanosPerSec := self.nanos_lt
  constructor
  · rintro ⟨instant, h, -⟩
    rw [checkedAdd, dif_pos hnanos] at h
    have hsecs := (ofSecs?_eq_some.1 h).1
    exact hsecs ▸ instant.secs_le
  · intro h
    obtain ⟨instant, hchecked⟩ : ∃ instant, self.checkedAdd (.fromSecs secs) = some instant := by
      rw [checkedAdd, dif_pos hnanos]
      exact ⟨_, dif_pos h⟩
    refine ⟨instant, hchecked, ?_⟩
    rw [toNanos_checkedAdd hchecked]
    simp [Duration.fromSecs]

/-- `+` panics on whole seconds exactly if their sum does not fit. -/
theorem add_fromSecs {self : Instant} {secs : UInt64} :
    (∃ instant, self.add (.fromSecs secs) = .ok instant) ↔ self.secs + secs.toNat ≤ maxSecs := by
  rw [← checkedAdd_fromSecs]
  constructor
  · rintro ⟨instant, h⟩
    unfold add at h
    split at h
    · next instant' hchecked =>
      exact ⟨instant', hchecked, by rw [toNanos_checkedAdd hchecked]; simp [Duration.fromSecs]⟩
    · cases h
  · rintro ⟨instant, hchecked, -⟩
    exact ⟨instant, by rw [add, hchecked]⟩

/-- An earlier instant has no later seconds. -/
theorem secs_le_of_toNanos_le {self other : Instant} (h : self.toNanos ≤ other.toNanos) : self.secs ≤ other.secs := by
  have hself := self.nanos_lt
  have hother := other.nanos_lt
  simp only [toNanos, nanosPerSec] at h hself hother
  omega

end Instant

end Clock
