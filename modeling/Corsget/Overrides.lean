import Corsget.Matcher

/-!
# Response header overrides

The compiled rules of `headers.rs` and how they change a response's headers: a
rule whose `site` matches the requested or the final URL removes, then adds,
then sets its headers, and the rules run in configuration order.
-/

namespace Corsget

open Text

/-- `HeaderOverrideRule`. -/
structure HeaderOverrideRule where
  site : MatchEntry
  remove : List HeaderName
  add : List (HeaderName × HeaderValue)
  set : List (HeaderName × HeaderValue)

namespace HeaderOverrideRule

/-- `HeaderOverrideRule::matches`. -/
def applies (rule : HeaderOverrideRule) (requested finalUrl : Url) : Bool :=
  rule.site.isMatch requested.asStr || rule.site.isMatch finalUrl.asStr

/-- `HeaderOverrideRule::apply`. -/
def apply (rule : HeaderOverrideRule) (headers : HeaderMap) : HeaderMap :=
  let headers := rule.remove.foldl (fun headers name => headers.remove name) headers
  let headers := rule.add.foldl (fun headers line => headers.append line.1 line.2) headers
  rule.set.foldl (fun headers line => headers.insert line.1 line.2) headers

end HeaderOverrideRule

/-- `HeaderOverridePolicy`. -/
structure HeaderOverridePolicy where
  rules : List HeaderOverrideRule

/-- `HeaderOverridePolicy::apply`. -/
def HeaderOverridePolicy.apply (policy : HeaderOverridePolicy) (headers : HeaderMap)
    (requested finalUrl : Url) : HeaderMap :=
  policy.rules.foldl
    (fun headers rule => if rule.applies requested finalUrl then rule.apply headers else headers)
    headers

end Corsget
