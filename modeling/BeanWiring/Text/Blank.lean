/-
# Blanks and plain text operations

Which characters count as blank, trimming, and the small searches in text that the
rest of the library is written with.  All of them work on lists of characters, so
that a statement about them is a statement about lists.

`isBlank` is the `White_Space` property of the character standard; `isMarkupBlank`
is the smaller set that separates tokens of markup.
-/

namespace BeanWiring.Text

/-! ## Blanks -/

/-- Characters with the `White_Space` property. -/
def isBlank (c : Char) : Bool :=
  let n := c.toNat
  (9 ≤ n && n ≤ 13) || n == 0x20 || n == 0x85 || n == 0xA0 || n == 0x1680 ||
    (0x2000 ≤ n && n ≤ 0x200A) || n == 0x2028 || n == 0x2029 || n == 0x202F ||
    n == 0x205F || n == 0x3000

/-- Space, tab, carriage return and line feed: the blanks of markup. -/
def isMarkupBlank (c : Char) : Bool :=
  c == ' ' || c == '\t' || c == '\r' || c == '\n'

/-- Drops the elements at the end that satisfy `p`. -/
def dropRightWhile {α : Type} (p : α → Bool) (s : List α) : List α :=
  (s.reverse.dropWhile p).reverse

/-- Drops the blanks at both ends. -/
def trimChars (s : List Char) : List Char :=
  dropRightWhile isBlank (s.dropWhile isBlank)

/-- Drops the blanks at both ends of a text. -/
def trim (s : String) : String :=
  String.ofList (trimChars s.toList)

/-! ## Searching -/

/-- The text after `start`, if the text begins with it. -/
def stripStart? : (start s : List Char) → Option (List Char)
  | [], s => some s
  | _ :: _, [] => none
  | a :: start, b :: s => if a = b then stripStart? start s else none

/-- Whether a text begins with `start`. -/
def startsWith (start s : List Char) : Bool :=
  (stripStart? start s).isSome

/-- Whether a text ends with `tail`. -/
def endsWith (tail s : List Char) : Bool :=
  startsWith tail.reverse s.reverse

/-- Whether a text contains another one. -/
def mentions (part : List Char) : List Char → Bool
  | [] => part.isEmpty
  | c :: s => startsWith part (c :: s) || mentions part s

/-- The text before and after the first character `c`, which belongs to neither. -/
def cutAt? (c : Char) : List Char → Option (List Char × List Char)
  | [] => none
  | d :: s => if d = c then some ([], s) else (cutAt? c s).map fun p => (d :: p.1, p.2)

/-- The pieces between the characters satisfying `p`; always at least one piece. -/
def splitBy (p : Char → Bool) : List Char → List (List Char)
  | [] => [[]]
  | c :: s =>
    if p c then
      [] :: splitBy p s
    else
      match splitBy p s with
      | [] => [[c]]
      | piece :: rest => (c :: piece) :: rest

/-- Number of bytes that a text takes in UTF-8. -/
def byteLength (s : List Char) : Nat :=
  s.foldr (fun c n => c.utf8Size + n) 0

/-! ## Laws of lengths -/

@[simp] theorem byteLength_nil : byteLength [] = 0 := rfl

@[simp] theorem byteLength_cons (c : Char) (s : List Char) :
    byteLength (c :: s) = c.utf8Size + byteLength s := rfl

@[simp] theorem byteLength_append (s t : List Char) :
    byteLength (s ++ t) = byteLength s + byteLength t := by
  induction s with
  | nil => exact (Nat.zero_add _).symm
  | cons c s ih => rw [List.cons_append, byteLength_cons, byteLength_cons, ih, Nat.add_assoc]

/-! ## Laws of cutting and splitting -/

/-- A cut loses nothing but the character it was made at. -/
theorem eq_of_cutAt? {c : Char} {s a b : List Char} (h : cutAt? c s = some (a, b)) :
    s = a ++ c :: b := by
  induction s generalizing a with
  | nil => simp [cutAt?] at h
  | cons d s ih =>
    by_cases hd : d = c
    · simp [cutAt?, hd] at h
      simp [← h.1, ← h.2, hd]
    · simp only [cutAt?, hd, if_false, Option.map_eq_some_iff, Prod.mk.injEq] at h
      obtain ⟨⟨x, y⟩, hxy, rfl, rfl⟩ := h
      simp [ih hxy]

/-- The first one is where a text is cut. -/
theorem cutAt?_append {c : Char} {a b : List Char} (h : c ∉ a) :
    cutAt? c (a ++ c :: b) = some (a, b) := by
  induction a with
  | nil => simp [cutAt?]
  | cons d a ih =>
    simp only [List.mem_cons, not_or] at h
    have hd : d ≠ c := fun e => h.1 e.symm
    simp [cutAt?, hd, ih h.2]

/-- A text splits into at least one piece. -/
theorem splitBy_ne_nil (p : Char → Bool) (s : List Char) : splitBy p s ≠ [] := by
  cases s with
  | nil => simp [splitBy]
  | cons c s =>
    simp only [splitBy]
    split
    · simp
    · split <;> simp

end BeanWiring.Text
