/-!
Lower case, as far as the letters of plain names go: those of ASCII, and the sign
for kelvin, which is a capital K.
-/

namespace FluentQuery.Text

def lower (s : String) : String :=
  s.map fun c => if c == '\u212a' then 'k' else c.toLower

end FluentQuery.Text
