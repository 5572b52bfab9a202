/-
# Names

The names of tags, attributes and entities: a letter, an underscore or a colon,
and then also digits, hyphens, points and combining marks.

* `isName`.
-/

import Wayside.Text.Blank

namespace Wayside.Xml

open Text

/-- The characters that a name may start with. -/
def nameStartRanges : List (Nat × Nat) :=
  [(0x3A, 0x3A), (0x41, 0x5A), (0x5F, 0x5F), (0x61, 0x7A), (0xC0, 0xD6), (0xD8, 0xF6),
   (0xF8, 0x2FF), (0x370, 0x37D), (0x37F, 0x1FFF), (0x200C, 0x200D), (0x2070, 0x218F),
   (0x2C00, 0x2FEF), (0x3001, 0xD7FF), (0xF900, 0xFDCF), (0xFDF0, 0xFFFD)]

/-- The characters that a name may have behind its start. -/
def nameRanges : List (Nat × Nat) :=
  nameStartRanges ++
    [(0x2D, 0x2E), (0x30, 0x39), (0xB7, 0xB7), (0x300, 0x36F), (0x203F, 0x2040)]

/-- A name. -/
def isName : List Char → Bool
  | [] => false
  | c :: rest => inRanges nameStartRanges c && rest.all (inRanges nameRanges)

end Wayside.Xml
