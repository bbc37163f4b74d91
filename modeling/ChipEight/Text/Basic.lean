set_option autoImplicit false

/-!
Text as it stands in files.  Blanks part words, two slashes start a comment that runs to the end of
its line, a carriage return ends a line with or without a line feed after it, and the bytes of a
text are UTF-8, which is read strictly: overlong forms, surrogates and cut sequences are refused.
-/

namespace ChipEight.Text.Blank

/-- The space characters, the line and paragraph separators, and the controls that part text. -/
def isBlank (c : Char) : Bool :=
  let n := c.toNat
  (0x09 ≤ n && n ≤ 0x0D) || (0x1C ≤ n && n ≤ 0x20) || n == 0x85 || n == 0xA0 || n == 0x1680 ||
    (0x2000 ≤ n && n ≤ 0x200A) || n == 0x2028 || n == 0x2029 || n == 0x202F || n == 0x205F ||
    n == 0x3000

def trimStart (text : List Char) : List Char :=
  text.dropWhile isBlank

def trimEnd (text : List Char) : List Char :=
  (text.reverse.dropWhile isBlank).reverse

def trim (text : List Char) : List Char :=
  trimEnd (trimStart text)

/-- The characters before the first blank, and what follows the blanks after them. -/
def firstWord (text : List Char) : List Char × List Char :=
  (text.takeWhile (!isBlank ·), trimStart (text.dropWhile (!isBlank ·)))

end ChipEight.Text.Blank

namespace ChipEight.Comment

def cut : List Char → List Char
  | [] => []
  | '/' :: '/' :: _ => []
  | c :: rest => c :: cut rest

@[simp] theorem cut_nil : cut [] = [] := rfl

theorem cut_cons_of_ne {c : Char} (other : c ≠ '/') (text : List Char) :
    cut (c :: text) = c :: cut text := by
  rw [cut]
  intro rest slash
  exact absurd slash other

theorem cut_slash {text : List Char} (single : text.head? ≠ some '/') :
    cut ('/' :: text) = '/' :: cut text := by
  rw [cut]
  rintro rest - rfl
  exact single rfl

theorem exists_comment (text : List Char) : ∃ comment, text = cut text ++ comment := by
  fun_induction cut text with
  | case1 => exact ⟨[], rfl⟩
  | case2 rest => exact ⟨_, rfl⟩
  | case3 c rest _ ih =>
    obtain ⟨comment, whole⟩ := ih
    exact ⟨comment, by rw [List.cons_append, ← whole]⟩

end ChipEight.Comment

namespace ChipEight.Text.Newline

/-- The text with a line feed for each of its line ends. -/
def unified : List Char → List Char
  | [] => []
  | '\r' :: '\n' :: rest => '\n' :: unified rest
  | c :: rest => (if c = '\r' then '\n' else c) :: unified rest

theorem unified_of_not_mem {text : List Char} (h : '\r' ∉ text) : unified text = text := by
  fun_induction unified text with
  | case1 => rfl
  | case2 rest ih => simp at h
  | case3 c rest _ ih =>
    simp only [List.mem_cons, not_or] at h
    simp [Ne.symm h.1, ih h.2]

end ChipEight.Text.Newline

namespace ChipEight.Text.Utf8

def encode (text : List Char) : List UInt8 :=
  (String.ofList text).toUTF8.data.toList

def decode? (bytes : List UInt8) : Option (List Char) :=
  (ByteArray.mk bytes.toArray).utf8Decode?.map (·.toList)

@[simp] theorem decode?_encode (text : List Char) : decode? (encode text) = some text := by
  change text.utf8Encode.utf8Decode?.map (·.toList) = some text
  simp

theorem encode_append (s t : List Char) : encode (s ++ t) = encode s ++ encode t := by
  change (s ++ t).utf8Encode.data.toList = s.utf8Encode.data.toList ++ t.utf8Encode.data.toList
  rw [List.utf8Encode_append, ByteArray.toList_data_append]

end ChipEight.Text.Utf8
