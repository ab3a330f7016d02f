/-!
# Warnings

What the program reports while it goes on.
-/

namespace NullAccess

/-- What the program reports without stopping. -/
inductive Warning where
  | ledgerUnreadable
  | fileUnreadable
  | configInvalid
  | configNotMapping
  | ruleSkipped
  | rulesMissing
  | listingTimedOut
  deriving DecidableEq, Repr

namespace Warning

/-- The text of a warning, with `%s` for each detail. -/
def template : Warning → String
  | ledgerUnreadable => "Ledger %s is unreadable, starting empty: %s"
  | fileUnreadable => "Could not read %s: %s"
  | configInvalid => "Invalid configuration in %s, using defaults: %s"
  | configNotMapping => "Ignoring %s: top level must be a mapping"
  | ruleSkipped => "Skipping source rule %s: bad pattern (%s)"
  | rulesMissing => "Source rules not found at %s"
  | listingTimedOut => "git ls-files timed out"

end Warning

end NullAccess
