import Corsget.Http

/-!
# Allow and deny lists

The decision of `matcher.rs` for a host: the blacklist is consulted first, but
a whitelist match overrides it, and a nonempty whitelist denies what it does
not list.
-/

namespace Corsget

open Text

/-- A compiled list entry.  A wildcard or user-supplied expression is the
matcher that the regex compiler made of it. -/
inductive MatchEntry where
  | exact (host : Str)
  | wildcard (re : Str → Bool)
  | regex (re : Str → Bool)

/-- `MatchEntry::is_match`. -/
def MatchEntry.isMatch : MatchEntry → Str → Bool
  | .exact host, subject => eqIgnoreAsciiCase host subject
  | .wildcard re, subject => re subject
  | .regex re, subject => re subject

/-- A compiled blacklist and whitelist. -/
structure TargetList where
  blacklist : List MatchEntry
  whitelist : List MatchEntry

namespace TargetList

/-- `TargetList::is_allowed`. -/
def isAllowed (l : TargetList) (subject : Str) : Bool :=
  let blacklisted := l.blacklist.any fun e => e.isMatch subject
  let whitelisted := l.whitelist.any fun e => e.isMatch subject
  whitelisted || (!blacklisted && l.whitelist.isEmpty)

/-- `TargetList::has_whitelist`. -/
def hasWhitelist (l : TargetList) : Bool := !l.whitelist.isEmpty

end TargetList

/-- The target and origin lists. -/
structure MatchPolicy where
  target : TargetList
  origin : TargetList

end Corsget
