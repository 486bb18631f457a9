/-!
# Texts measured in bytes

A text is a list of characters, while spans count the bytes of its UTF-8 form. This file holds
the measure and the cuts at byte offsets. A cut inside a character or behind the end is refused.

## Main definitions

* `Text.byteLength` — bytes of a text
* `Text.dropBytes?`, `Text.takeBytes?`, `Text.slice?` — cuts at byte offsets
* `Text.takeWithin` — the longest start of a text within a number of bytes
* `Text.decodeUtf8?` — the text that a list of bytes encodes
-/

namespace Localization.Text

/-- Number of bytes that a text takes in UTF-8. -/
def byteLength : List Char → Nat
  | [] => 0
  | c :: rest => c.utf8Size + byteLength rest

@[simp] theorem byteLength_nil : byteLength [] = 0 := rfl

@[simp] theorem byteLength_cons (c : Char) (rest : List Char) :
    byteLength (c :: rest) = c.utf8Size + byteLength rest := rfl

@[simp] theorem byteLength_append (s t : List Char) :
    byteLength (s ++ t) = byteLength s + byteLength t := by
  induction s with
  | nil => simp
  | cons c s ih => simp [ih, Nat.add_assoc]

/-- The text behind its first `n` bytes. -/
def dropBytes? : Nat → List Char → Option (List Char)
  | 0, text => some text
  | _ + 1, [] => none
  | n + 1, c :: rest => if c.utf8Size ≤ n + 1 then dropBytes? (n + 1 - c.utf8Size) rest else none

/-- The first `n` bytes of the text. -/
def takeBytes? : Nat → List Char → Option (List Char)
  | 0, _ => some []
  | _ + 1, [] => none
  | n + 1, c :: rest =>
    if c.utf8Size ≤ n + 1 then (takeBytes? (n + 1 - c.utf8Size) rest).map (c :: ·) else none

/-- The text between two byte offsets; both must be character boundaries, in order. -/
def slice? (text : List Char) (start stop : Nat) : Option (List Char) :=
  if start ≤ stop then (dropBytes? start text).bind (takeBytes? (stop - start)) else none

/-- The longest start of the text that takes at most `n` bytes. A character that would reach beyond
them is left out. -/
def takeWithin : Nat → List Char → List Char
  | _, [] => []
  | n, c :: rest => if c.utf8Size ≤ n then c :: takeWithin (n - c.utf8Size) rest else []

/-- The text that bytes encode in UTF-8, if they do. -/
def decodeUtf8? (bytes : List UInt8) : Option String :=
  String.fromUTF8? ⟨bytes.toArray⟩

end Localization.Text
