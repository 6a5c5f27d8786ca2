/-!
The texts of the two truth values. No other spelling is accepted.
-/

namespace TunnelIngress.Text

def flag? (s : String) : Option Bool :=
  if s = "true" then some true else if s = "false" then some false else none

end TunnelIngress.Text
