import Corsget.Http
import Mathlib.Data.List.AList

/-!
# Byte limits

`limit.rs`: the per-result cap, the connection bandwidth tiers, and the errors of
the metered stream.  A cap of zero means no cap.

Instants are in nanoseconds.  A charge reads the clock once; the code reads it
once for each tier.
-/

namespace Corsget

open Text

/-- A rate or bandwidth limit tier: `max` units per `window` seconds. -/
structure LimitTier where
  window : ℕ
  max : ℕ
deriving DecidableEq

/-- `BandwidthError`. -/
inductive BandwidthError where
  | resultExceeded (used max : ℕ)
  | connectionExceeded (max secs : ℕ)
deriving DecidableEq

/-- `MeteredError`. -/
inductive MeteredError where
  | upstream (text : Str)
  | resultExceeded (used max : ℕ)
  | connectionExceeded (max secs : ℕ)
deriving DecidableEq

/-- `impl From<BandwidthError> for MeteredError`. -/
def MeteredError.fromBandwidth : BandwidthError → MeteredError
  | .resultExceeded used max => .resultExceeded used max
  | .connectionExceeded max secs => .connectionExceeded max secs

/-- The text of a `MeteredError`. -/
def MeteredError.toText : MeteredError → Str
  | .upstream text => "upstream stream error: ".toList ++ text
  | .resultExceeded used max =>
      "result size cap exceeded (".toList ++ decimal used ++ " > ".toList ++
        decimal max ++ " bytes)".toList
  | .connectionExceeded max secs =>
      "bandwidth limit exceeded for tier (".toList ++ decimal max ++
        " bytes / ".toList ++ decimal secs ++ "s)".toList

/-- `u64::saturating_add`. -/
def saturatingAdd (m n : ℕ) : ℕ := min (m + n) (2 ^ 64 - 1)

/-- Total bytes of one response against its cap. -/
structure ResultSizeGuard where
  used : ℕ
  max : ℕ
deriving DecidableEq

namespace ResultSizeGuard

/-- `ResultSizeGuard::new`. -/
def new (max : ℕ) : ResultSizeGuard := ⟨0, max⟩

/-- `ResultSizeGuard::would_exceed`. -/
def wouldExceed (g : ResultSizeGuard) (n : ℕ) : Bool := g.max != 0 && g.max < n

/-- `ResultSizeGuard::charge`: the verdict and the guard it leaves. -/
def charge (g : ResultSizeGuard) (n : ℕ) : Except BandwidthError Unit × ResultSizeGuard :=
  if g.max = 0 then (.ok (), g)
  else
    let g := { g with used := saturatingAdd g.used n }
    if g.max < g.used then (.error (.resultExceeded g.used g.max), g) else (.ok (), g)

end ResultSizeGuard

/-! ## Connection tiers -/

/-- `Window`. -/
structure Window where
  period : ℕ
  max : ℕ
deriving DecidableEq

/-- The window of a configured tier. -/
def Window.ofTier (tier : LimitTier) : Window where
  period := tier.window * 10 ^ 9
  max := tier.max

/-- `WindowState`. -/
structure WindowState where
  used : ℕ
  windowStart : ℕ
deriving DecidableEq

namespace WindowState

/-- `WindowState::new`. -/
def new (now : ℕ) : WindowState := ⟨0, now⟩

/-- `WindowState::charge`: the verdict and the state it leaves. -/
def charge (s : WindowState) (n : ℕ) (window : Window) (now : ℕ) :
    Except BandwidthError Unit × WindowState :=
  let s := if window.period ≤ now - s.windowStart then { used := 0, windowStart := now } else s
  let newUsed := saturatingAdd s.used n
  if window.max < newUsed then
    (.error (.connectionExceeded window.max (window.period / 10 ^ 9)), s)
  else (.ok (), { s with used := newUsed })

end WindowState

/-- The window states of one tier, by bucket. -/
abbrev WindowStates := AList fun _ : Str => WindowState

/-- `BandwidthLimiter`. -/
structure BandwidthLimiter where
  tiers : List (Window × WindowStates)

namespace BandwidthLimiter

/-- `BandwidthLimiter::new`. -/
def new (tiers : List LimitTier) : BandwidthLimiter where
  tiers := tiers.map fun tier => (Window.ofTier tier, ∅)

/-- The loop of `BandwidthLimiter::charge`: every tier is charged, and the first
error is kept. -/
def chargeTiers (bucket : Str) (n now : ℕ) :
    List (Window × WindowStates) → Except BandwidthError Unit × List (Window × WindowStates)
  | [] => (.ok (), [])
  | (window, states) :: rest =>
      let (verdict, state) := ((states.lookup bucket).getD (.new now)).charge n window now
      let (later, rest) := chargeTiers bucket n now rest
      (match verdict with
        | .error e => .error e
        | .ok () => later, (window, states.insert bucket state) :: rest)

/-- `BandwidthLimiter::charge`. -/
def charge (limiter : BandwidthLimiter) (bucket : Str) (n now : ℕ) :
    Except BandwidthError Unit × BandwidthLimiter :=
  let (verdict, tiers) := chargeTiers bucket n now limiter.tiers
  (verdict, ⟨tiers⟩)

end BandwidthLimiter

end Corsget
