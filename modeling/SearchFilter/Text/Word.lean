/-!
# Words of letters and digits

* `isWordChar` — ASCII letters and digits, hyphen and underscore.
-/

namespace SearchFilter.Text

/-- The characters of a word: ASCII letters and digits, hyphen and underscore. -/
def isWordChar (c : Char) : Bool := c.isAlphanum || c = '-' || c = '_'

end SearchFilter.Text
