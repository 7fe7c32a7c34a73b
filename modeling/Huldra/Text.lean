import Mathlib.Data.List.DropRight

/-!
# Text — the string operations the source uses, over lists of characters

The source cleans identifiers, queries and dates with `str.strip`, `removeprefix`, `split` and a
few regular expressions.  They are written here over `List Char`, so that they compute.
-/

namespace Huldra

abbrev Text := List Char

namespace Text

/-- `str.isspace` for one character: what `strip` removes and `\s` matches. -/
def isSpace (c : Char) : Bool :=
  let n := c.toNat
  (9 ≤ n && n ≤ 13) || (28 ≤ n && n ≤ 32) || n == 0x85 || n == 0xa0 || n == 0x1680 ||
    (0x2000 ≤ n && n ≤ 0x200a) || n == 0x2028 || n == 0x2029 || n == 0x202f || n == 0x205f ||
    n == 0x3000

def lstrip (s : Text) : Text :=
  s.dropWhile isSpace

def rstrip (s : Text) : Text :=
  (s.reverse.dropWhile isSpace).reverse

/-- `str.strip()`. -/
def strip (s : Text) : Text :=
  rstrip (lstrip s)

/-- `str.removeprefix`. -/
def removePrefix (p s : Text) : Text :=
  if p.isPrefixOf s then s.drop p.length else s

/-- `str.endswith`, and the text without that ending. -/
def removeSuffix (p s : Text) : Text :=
  if p.isSuffixOf s then s.take (s.length - p.length) else s

def lowerAscii (c : Char) : Char :=
  if 'A' ≤ c ∧ c ≤ 'Z' then Char.ofNat (c.toNat + 32) else c

/-- The first of each run of ten decimal digits: what `\d` matches and `int` reads. -/
def decimalZeros : List Nat :=
  [0x30, 0x660, 0x6f0, 0x7c0, 0x966, 0x9e6, 0xa66, 0xae6, 0xb66, 0xbe6, 0xc66, 0xce6, 0xd66,
    0xde6, 0xe50, 0xed0, 0xf20, 0x1040, 0x1090, 0x17e0, 0x1810, 0x1946, 0x19d0, 0x1a80, 0x1a90,
    0x1b50, 0x1bb0, 0x1c40, 0x1c50, 0xa620, 0xa8d0, 0xa900, 0xa9d0, 0xa9f0, 0xaa50, 0xabf0,
    0xff10, 0x104a0, 0x10d30, 0x11066, 0x110f0, 0x11136, 0x111d0, 0x112f0, 0x11450, 0x114d0,
    0x11650, 0x116c0, 0x11730, 0x118e0, 0x11950, 0x11c50, 0x11d50, 0x11da0, 0x11f50, 0x16a60,
    0x16ac0, 0x16b50, 0x1d7ce, 0x1d7d8, 0x1d7e2, 0x1d7ec, 0x1d7f6, 0x1e140, 0x1e2f0, 0x1e4f0,
    0x1e950, 0x1fbf0]

/-- The value of a decimal digit. -/
def digitValue (c : Char) : Option Nat :=
  (decimalZeros.find? fun first => first ≤ c.toNat && c.toNat < first + 10).map (c.toNat - ·)

def isDigit (c : Char) : Bool :=
  (digitValue c).isSome

/-- `int(s)` for a text of decimal digits. -/
def toNat (s : Text) : Nat :=
  s.foldl (fun n c => 10 * n + (digitValue c).getD 0) 0

/-- `sys.int_info.default_max_str_digits` -/
def maxStrDigits : Nat :=
  4300

/-- The part before the first character that `p` accepts, and the rest from it on. -/
def splitAtFirst (p : Char → Bool) (s : Text) : Text × Text :=
  (s.takeWhile fun c => !p c, s.dropWhile fun c => !p c)

/-- `re.sub(r"\s+", " ", s)`. -/
def collapseSpaces : Text → Text
  | [] => []
  | [c] => if isSpace c then [' '] else [c]
  | c :: d :: rest =>
      if isSpace c then
        if isSpace d then collapseSpaces (d :: rest) else ' ' :: collapseSpaces (d :: rest)
      else c :: collapseSpaces (d :: rest)

/-! ## Stripping twice -/

theorem dropWhile_eq_self_of_prefix {p : Char → Bool} {s t : Text} (hpre : t <+: s)
    (hs : s.dropWhile p = s) : t.dropWhile p = t := by
  cases t with
  | nil => rfl
  | cons c rest =>
      cases s with
      | nil => simp at hpre
      | cons c' rest' =>
          have hhead : c = c' := (List.cons_prefix_cons.1 hpre).1
          have hc : p c' = false := by
            by_contra hspace
            simp [hspace] at hs
          simp [hhead, hc]

theorem rstrip_prefix_self (s : Text) : rstrip s <+: s :=
  List.rdropWhile_prefix isSpace s

theorem strip_strip (s : Text) : strip (strip s) = strip s := by
  have hleft : lstrip (strip s) = strip s :=
    dropWhile_eq_self_of_prefix (rstrip_prefix_self (lstrip s))
      (List.dropWhile_idempotent isSpace s)
  have hright : rstrip (strip s) = strip s := by
    simp [strip, rstrip, List.dropWhile_idempotent]
  calc
    strip (strip s) = rstrip (lstrip (strip s)) := rfl
    _ = rstrip (strip s) := by rw [hleft]
    _ = strip s := hright

theorem collapseSpaces_eq_nil {s : Text} : collapseSpaces s = [] ↔ s = [] := by
  induction s using collapseSpaces.induct with
  | case1 => simp [collapseSpaces]
  | case2 c h => simp [collapseSpaces, h]
  | case3 c h => simp [collapseSpaces, h]
  | case4 c d rest hc hd ih => simpa [collapseSpaces, hc, hd] using ih
  | case5 c d rest hc hd ih => simp [collapseSpaces, hc, hd]
  | case6 c d rest hc ih => simp [collapseSpaces, hc]
end Text

end Huldra
