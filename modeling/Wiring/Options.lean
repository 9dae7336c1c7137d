import Wiring.Text.Affix
import Wiring.Text.Blank

/-!
# Options

The two switches of a run, and the pairs of key and value by which a build tool sets them. A pair
for another processor is passed over; of several pairs for one switch the last counts.
-/

namespace Wiring

/-- What a run recognises and generates beyond the defaults. -/
structure Options where
  /-- Recognise the older `javax.inject` annotations beside the native ones. -/
  javax : Bool := false
  /-- Attach the generated factory functions to the companion object of the component. -/
  companionExtensions : Bool := false
  deriving DecidableEq, Repr, Inhabited

namespace Options

/-- The value a flag is given as: a few words mean true, in any case and with blanks around them,
and everything else means false. -/
def parseFlag (value : String) : Bool :=
  ["true", "1", "yes", "on"].contains (Text.lowerAscii (Text.trim value))

/-- A key without the one `inject.` it may start with. -/
def bareKey (key : String) : String :=
  (Text.afterHead? "inject." key).getD key

/-- Apply one pair. -/
def set (o : Options) (key value : String) : Options :=
  if bareKey key = "enableJavaxAnnotations" then { o with javax := parseFlag value }
  else if bareKey key = "generateCompanionExtensions" then
    { o with companionExtensions := parseFlag value }
  else o

/-- Apply pairs from the first to the last. -/
def overlay (o : Options) (pairs : List (String × String)) : Options :=
  pairs.foldl (fun o pair => o.set pair.1 pair.2) o

end Options

end Wiring
