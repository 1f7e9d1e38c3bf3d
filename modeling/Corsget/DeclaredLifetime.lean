import Corsget.Refreshing

/-!
# The declared lifetime

A response may declare its lifetime in several places: every `max-age` of every
`Cache-Control` line, and every `Expires` line, of which one that is no date means that the
response has expired.  `effective_ttl` is the least of three numbers: the configured one,
the first `max-age` of the first line and the seconds until the first `Expires`
(`effectiveTtl_le_iff`); what it cannot read it takes for no limit at all.

So the lifetime is within everything that is declared exactly when nothing that is
overlooked is less than what is read (`lifetime_declared_iff`).
-/

namespace Corsget

open Text Effect

section Lifetimes

variable [Crates] {configured now : ℕ} {headers : HeaderMap}

/-! ## What is declared -/

/-- The date of an `Expires` line. -/
def expiresDate (value : HeaderValue) : Option ℕ := value.toStr.bind Crates.parseHttpDate

/-- **The lifetime of a response is within what the response declares**, and one of zero is
not stored. -/
structure LifetimeDeclared (configured : ℕ) (headers : HeaderMap) (now : ℕ) : Prop where
  le_configured : effectiveTtl configured headers now ≤ configured
  maxAge : ∀ value ∈ headers.getAll .cacheControl, ∀ item ∈ value.text.splitOn ',', ∀ age,
    maxAgeDirective (trim item) = some age → effectiveTtl configured headers now ≤ age
  expires : ∀ value ∈ headers.getAll .expires, ∀ date, expiresDate value = some date →
    effectiveTtl configured headers now ≤ (date * 10 ^ 9 - now) / 10 ^ 9
  expired : ∀ value ∈ headers.getAll .expires, ∀ date, expiresDate value = some date →
    date * 10 ^ 9 ≤ now → effectiveTtl configured headers now = 0
  invalid : ∀ value ∈ headers.getAll .expires, expiresDate value = none →
    effectiveTtl configured headers now = 0
  stored : ∀ (plan : CachePlan) (status : ℕ) (requestHeaders : HeaderMap) (es : List (Event Io))
    (w : CacheWriter), plan.ttl = configured →
      Trace (beginWrite plan status headers requestHeaders) es (some w) →
        ∃ instant : ℕ, (⟨.systemTime, instant⟩ : Event Io) ∈ es ∧
          w.entry.ttl = effectiveTtl configured headers instant ∧ w.entry.ttl ≠ 0

/-- A bound is no less than one of the three that are read. -/
def Covered (configured : ℕ) (headers : HeaderMap) (now bound : ℕ) : Prop :=
  configured ≤ bound ∨ (∃ age, ageBound headers = some age ∧ age ≤ bound) ∨
    ∃ seconds, expiryBound headers now = some seconds ∧ seconds ≤ bound

/-- **What is overlooked is no less than what is read.** -/
structure OverlookedCovered (configured : ℕ) (headers : HeaderMap) (now : ℕ) : Prop where
  /-- A `max-age` other than the one that is read. -/
  maxAge : ∀ value ∈ headers.getAll .cacheControl, ∀ item ∈ value.text.splitOn ',', ∀ age,
    maxAgeDirective (trim item) = some age → ageBound headers ≠ some age →
      Covered configured headers now age
  /-- A date other than the one that is read. -/
  expires : ∀ value ∈ headers.getAll .expires, ∀ date, expiresDate value = some date →
    expiresAt headers ≠ some date →
      Covered configured headers now ((date * 10 ^ 9 - now) / 10 ^ 9)
  /-- An `Expires` line that is no date. -/
  invalid : ∀ value ∈ headers.getAll .expires, expiresDate value = none →
    configured = 0 ∨ ageBound headers = some 0 ∨ expiryBound headers now = some 0

/-! ## What is read -/

/-- **The lifetime is the least of three numbers.** -/
theorem effectiveTtl_le_iff {bound : ℕ} :
    effectiveTtl configured headers now ≤ bound ↔ Covered configured headers now bound := by
  rw [← not_lt, lt_effectiveTtl_iff]
  unfold Covered AllowsAge
  simp only [not_and_or, not_forall, not_lt, exists_prop]

theorem covered_zero_iff :
    Covered configured headers now 0 ↔
      configured = 0 ∨ ageBound headers = some 0 ∨ expiryBound headers now = some 0 := by
  unfold Covered
  simp only [Nat.le_zero, exists_eq_right]

/-- A writer is created only with a lifetime. -/
theorem lifetime_of_beginWrite {plan : CachePlan} {status : ℕ}
    {requestHeaders : HeaderMap} {es : List (Event Io)} {w : CacheWriter}
    (h : Trace (beginWrite plan status headers requestHeaders) es (some w)) :
    ∃ instant : ℕ, (⟨.systemTime, instant⟩ : Event Io) ∈ es ∧
      w.entry.ttl = effectiveTtl plan.ttl headers instant ∧ w.entry.ttl ≠ 0 := by
  obtain ⟨vary, created, accessed, instant, tempId, haccepts, rfl, rfl⟩ :=
    beginWrite_trace_iff.mp h
  refine ⟨instant, ?_, rfl, haccepts.lifetime⟩
  unfold beginWriteEvents
  simp

/-- **The lifetime is within what is declared exactly when what is overlooked is no less than
what is read.** -/
theorem lifetime_declared_iff (configured : ℕ) (headers : HeaderMap) (now : ℕ) :
    LifetimeDeclared configured headers now ↔ OverlookedCovered configured headers now := by
  constructor
  · intro h
    refine ⟨?_, ?_, ?_⟩
    · intro value hvalue item hitem age hage _
      exact effectiveTtl_le_iff.mp (h.maxAge value hvalue item hitem age hage)
    · intro value hvalue date hdate _
      exact effectiveTtl_le_iff.mp (h.expires value hvalue date hdate)
    · intro value hvalue hinvalid
      rw [← covered_zero_iff]
      exact effectiveTtl_le_iff.mp (h.invalid value hvalue hinvalid).le
  · intro h
    have hexpires : ∀ value ∈ headers.getAll .expires, ∀ date, expiresDate value = some date →
        effectiveTtl configured headers now ≤ (date * 10 ^ 9 - now) / 10 ^ 9 := by
      intro value hvalue date hdate
      rw [effectiveTtl_le_iff]
      by_cases hread : expiresAt headers = some date
      · refine .inr (.inr ⟨_, ?_, le_refl _⟩)
        unfold expiryBound
        rw [hread, Option.map_some]
      · exact h.expires value hvalue date hdate hread
    refine ⟨effectiveTtl_le_iff.mpr (.inl (le_refl _)), ?_, hexpires, ?_, ?_, ?_⟩
    · intro value hvalue item hitem age hage
      rw [effectiveTtl_le_iff]
      by_cases hread : ageBound headers = some age
      · exact .inr (.inl ⟨age, hread, le_refl _⟩)
      · exact h.maxAge value hvalue item hitem age hage hread
    · intro value hvalue date hdate hpast
      have hle := hexpires value hvalue date hdate
      rwa [Nat.sub_eq_zero_of_le hpast, Nat.zero_div, Nat.le_zero] at hle
    · intro value hvalue hinvalid
      rw [← Nat.le_zero, effectiveTtl_le_iff, covered_zero_iff]
      exact h.invalid value hvalue hinvalid
    · rintro plan status requestHeaders es w rfl htrace
      exact lifetime_of_beginWrite htrace

end Lifetimes

/-! ## An `Expires` that is no date -/

/-- `Expires: 0` is taken for no limit. -/
theorem invalid_expires_is_overlooked : ¬∀ (crates : Crates) (configured : ℕ)
    (headers : HeaderMap) (now : ℕ), @LifetimeDeclared crates configured headers now := by
  intro hall
  have hdeclared := hall reference 900 [(.expires, .fromStatic "0".toList)] 0
  have hzero := @LifetimeDeclared.invalid reference _ _ _ hdeclared (.fromStatic "0".toList)
    (by decide) (by decide)
  revert hzero
  decide

end Corsget
