/-!
# URLs

The URL parser of the platform, as far as a program reads it: the hostname of an
absolute URL, or nothing where `new URL(text)` throws.
-/

namespace Ecma

/-- The platform's URL parser. -/
class Url where
  /-- `new URL(text).hostname`; `none` where the constructor throws. -/
  hostname : String → Option String

end Ecma
