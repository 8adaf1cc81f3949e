/-! White space as Unicode defines it, trimming, cutting at a separator or at a byte, and hexadecimal digits. -/
namespace Criterion.Text

/-- The ranges of code points with the property White_Space. -/
def whiteSpace : List (Nat × Nat) :=
  [(0x9, 0xD), (0x20, 0x20), (0x85, 0x85), (0xA0, 0xA0), (0x1680, 0x1680), (0x2000, 0x200A), (0x2028, 0x2029),
    (0x202F, 0x202F), (0x205F, 0x205F), (0x3000, 0x3000)]

def inRanges (ranges : List (Nat × Nat)) (c : Char) : Bool :=
  ranges.any fun (low, high) => low ≤ c.toNat && c.toNat ≤ high

def isWhite (c : Char) : Bool := inRanges whiteSpace c

def trim (cs : List Char) : List Char := ((cs.dropWhile isWhite).reverse.dropWhile isWhite).reverse

/-- Cuts at every separator, so that there is one piece more than there are separators. -/
def split (separator : Char) : List Char → List (List Char)
  | [] => [[]]
  | c :: cs =>
    if c = separator then [] :: split separator cs
    else
      match split separator cs with
      | [] => [[c]]
      | first :: rest => (c :: first) :: rest

/-- The text without its first `n` bytes in UTF-8, unless that would cut a character. -/
def dropBytes? : Nat → List Char → Option (List Char)
  | 0, cs => some cs
  | _ + 1, [] => none
  | n + 1, c :: cs => if c.utf8Size ≤ n + 1 then dropBytes? (n + 1 - c.utf8Size) cs else none

/-- The first `n` bytes of the text, unless that would cut a character. -/
def takeBytes? (n : Nat) (cs : List Char) : Option (List Char) :=
  (dropBytes? n cs).map fun rest => cs.take (cs.length - rest.length)

def hexValue? (c : Char) : Option Nat :=
  if c.isDigit then some (c.toNat - 48)
  else if 'a' ≤ c ∧ c ≤ 'f' then some (c.toNat - 87)
  else if 'A' ≤ c ∧ c ≤ 'F' then some (c.toNat - 55)
  else none

/-- How many hexadecimal digits follow the letter of an escape. -/
def hexLength? : Char → Option Nat
  | 'x' => some 2
  | 'u' => some 4
  | 'U' => some 8
  | _ => none

end Criterion.Text
