/-
# Labels

Type names and plurals are labels in the sense of RFC 1123: at most 63 bytes of lower-case ASCII
letters, digits and hyphens, beginning and ending with a letter or digit.
-/

namespace ConfigRegistry.Label

/-- The greatest length of a label, in bytes. -/
def maxLength : Nat := 63

/-- A lower-case ASCII letter or a digit. -/
def isAlphanumeric (c : Char) : Bool := ('a' ≤ c && c ≤ 'z') || ('0' ≤ c && c ≤ '9')

/-- Whether the rest of a label may follow; `ending` tells whether the label could end here,
which it can after a letter or digit. -/
def continues (ending : Bool) : List Char → Bool
  | [] => ending
  | c :: rest =>
    if isAlphanumeric c then continues true rest
    else if c == '-' then continues false rest
    else false

/-- Whether the characters are those of a label, of whatever length. -/
def isWord : List Char → Bool
  | [] => false
  | c :: rest => isAlphanumeric c && continues true rest

end ConfigRegistry.Label

namespace ConfigRegistry

/-- Whether a text is a label. -/
def isLabel (s : String) : Bool :=
  s.utf8ByteSize ≤ Label.maxLength && Label.isWord s.toList

end ConfigRegistry
