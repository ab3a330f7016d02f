import NullAccess.Finding.Basic

/-!
# Suggested fixes

Every form of dereference has its remedy, and a looked-up value has a more fitting one than a
parameter.
-/

namespace NullAccess.Finding

def remedy (name : String) : AccessKind → BindingKind → String
  | .methodCall, .assignment =>
    s!"Use optional chaining: `{name}?.method()`, or check the lookup result: " ++
      s!"`if (!{name}) return;`"
  | .memberAccess, .assignment =>
    s!"Use optional chaining: `{name}?.property`, or add a fallback at the assignment: " ++
      "`?? defaultValue`"
  | .methodCall, .parameter =>
    s!"Use optional chaining: `{name}?.method()` OR add a null check: `if (!{name}) return;`"
  | .memberAccess, .parameter =>
    s!"Use optional chaining: `{name}?.property` OR add a null check: `if (!{name}) return;`"
  | .indexAccess, _ =>
    s!"Use optional chaining: `{name}?.[key]` OR add a null check: `if (!{name}) return;`"
  | .conditionalAccess, _ =>
    s!"Guard the condition: `if ({name} && {name}.property)` or use `{name}?.property`"

def fix (f : Finding) : String := remedy f.bindingName f.accessKind f.bindingKind

/-- The finding with a suggested fix, which one that is there already remains. -/
def withFix (f : Finding) : Finding :=
  { f with suggestedFix := some (f.suggestedFix.getD f.fix) }

end NullAccess.Finding
