import OAuthRelay.Wire.Framing

/-!
# JSON strings

A string literal is a sequence of pieces between quotes: characters that stand for
themselves, escapes of one letter, and UTF-16 code units in hexadecimal. A literal that
ends in the middle of a surrogate pair, or has half of one, stands for no text.

A text has many literals. The one a serializer writes escapes what has to be escaped and
nothing else (`quote`), and it frames the text.
-/

set_option autoImplicit false

namespace OAuthRelay.Wire.Json

/-! ## Pieces of a literal -/

def isHexDigit (c : Char) : Bool :=
  ('0' ≤ c && c ≤ '9') || ('a' ≤ c && c ≤ 'f') || ('A' ≤ c && c ≤ 'F')

/-- A hexadecimal digit as it is written. -/
structure HexDigit where
  char : Char
  valid : isHexDigit char = true
  deriving DecidableEq

namespace HexDigit

def value (digit : HexDigit) : ℕ :=
  if digit.char ≤ '9' then digit.char.toNat - 48
  else if digit.char ≤ 'F' then digit.char.toNat - 55
  else digit.char.toNat - 87

/-- The digit of a number, in lower case. -/
def ofFin (n : Fin 16) : HexDigit where
  char := "0123456789abcdef".toList.getD n '0'
  valid := by
    revert n
    decide

theorem value_ofFin (n : Fin 16) : (ofFin n).value = n := by
  revert n
  decide

end HexDigit

/-- Escapes of one letter. -/
inductive Escape where
  | quote
  | backslash
  | slash
  | backspace
  | formFeed
  | lineFeed
  | carriageReturn
  | tab
  deriving DecidableEq

namespace Escape

def letter : Escape → Char
  | quote => '"'
  | backslash => '\\'
  | slash => '/'
  | backspace => 'b'
  | formFeed => 'f'
  | lineFeed => 'n'
  | carriageReturn => 'r'
  | tab => 't'

/-- The character that is meant. -/
def char : Escape → Char
  | quote => '"'
  | backslash => '\\'
  | slash => '/'
  | backspace => '\x08'
  | formFeed => '\x0c'
  | lineFeed => '\n'
  | carriageReturn => '\r'
  | tab => '\t'

def all : List Escape :=
  [quote, backslash, slash, backspace, formFeed, lineFeed, carriageReturn, tab]

/-- The escape with a letter. -/
def ofLetter (c : Char) : Option Escape := all.find? fun escape => escape.letter = c

/-- The escape that means a character. -/
def ofChar (c : Char) : Option Escape := all.find? fun escape => escape.char = c

theorem char_of_ofChar {c : Char} {escape : Escape} (h : ofChar c = some escape) :
    escape.char = c := by
  simpa using List.find?_some h

theorem ofLetter_letter (escape : Escape) : ofLetter escape.letter = some escape := by
  cases escape <;> decide

theorem letter_ne_u (escape : Escape) : escape.letter ≠ 'u' := by
  cases escape <;> decide

end Escape

/-- A character that may stand for itself. -/
def isPlain (c : Char) : Bool := c ≠ '"' && c ≠ '\\' && 0x20 ≤ c.toNat

/-- A piece of a string literal. -/
inductive Piece where
  | plain (c : Char) (valid : isPlain c = true)
  | escape (escape : Escape)
  | unicode (d₁ d₂ d₃ d₄ : HexDigit)
  deriving DecidableEq

namespace Piece

def text : Piece → List Char
  | plain c _ => [c]
  | escape e => ['\\', e.letter]
  | unicode d₁ d₂ d₃ d₄ => ['\\', 'u', d₁.char, d₂.char, d₃.char, d₄.char]

/-- Reads a piece. -/
def read : List Char → Option (Piece × List Char)
  | [] => none
  | c :: rest =>
      if h : isPlain c = true then some (plain c h, rest)
      else if c = '\\' then
        match rest with
        | [] => none
        | letter :: rest =>
            if letter = 'u' then
              match rest with
              | a :: b :: c :: d :: rest =>
                  if h : isHexDigit a = true ∧ isHexDigit b = true ∧ isHexDigit c = true ∧
                      isHexDigit d = true then
                    some (unicode ⟨a, h.1⟩ ⟨b, h.2.1⟩ ⟨c, h.2.2.1⟩ ⟨d, h.2.2.2⟩, rest)
                  else none
              | _ => none
            else (Escape.ofLetter letter).map fun e => (escape e, rest)
      else none

theorem read_text (piece : Piece) (rest : List Char) :
    read (piece.text ++ rest) = some (piece, rest) := by
  cases piece with
  | plain c valid => simp [read, text, valid]
  | escape e =>
      have special : isPlain '\\' = false := by decide
      simp [read, text, special, e.letter_ne_u, e.ofLetter_letter]
  | unicode d₁ d₂ d₃ d₄ =>
      have special : isPlain '\\' = false := by decide
      simp [read, text, special, d₁.valid, d₂.valid, d₃.valid, d₄.valid]

/-- **A piece can be told from what follows it.** -/
theorem framing : Framing (fun _ => True) text :=
  .of_decode fun piece rest _ => read_text piece rest

/-- No piece starts with a quote. -/
theorem text_ne_quote (piece : Piece) (x rest : List Char) : piece.text ++ x ≠ '"' :: rest := by
  intro same
  cases piece with
  | plain c valid =>
      obtain rfl := (List.cons.inj same).1
      exact absurd valid (by decide)
  | escape e => exact absurd (List.cons.inj same).1 (by decide)
  | unicode => exact absurd (List.cons.inj same).1 (by decide)

/-- The code unit of four digits. -/
def unit (d₁ d₂ d₃ d₄ : HexDigit) : ℕ :=
  4096 * d₁.value + 256 * d₂.value + 16 * d₃.value + d₄.value

end Piece

/-- The first half of a surrogate pair. -/
def isHigh (unit : ℕ) : Bool := 0xd800 ≤ unit && unit < 0xdc00

/-- The second half of a surrogate pair. -/
def isLow (unit : ℕ) : Bool := 0xdc00 ≤ unit && unit < 0xe000

/-- The text of the pieces that follow half a surrogate pair, or follow a character. -/
def decodeFrom : Option ℕ → List Piece → Option (List Char)
  | none, [] => some []
  | some _, [] => none
  | none, .plain c _ :: rest => (decodeFrom none rest).map (c :: ·)
  | none, .escape e :: rest => (decodeFrom none rest).map (e.char :: ·)
  | none, .unicode d₁ d₂ d₃ d₄ :: rest =>
      if isHigh (Piece.unit d₁ d₂ d₃ d₄) then decodeFrom (some (Piece.unit d₁ d₂ d₃ d₄)) rest
      else if isLow (Piece.unit d₁ d₂ d₃ d₄) then none
      else (decodeFrom none rest).map (Char.ofNat (Piece.unit d₁ d₂ d₃ d₄) :: ·)
  | some high, .unicode d₁ d₂ d₃ d₄ :: rest =>
      if isLow (Piece.unit d₁ d₂ d₃ d₄) then
        (decodeFrom none rest).map (Char.ofNat
          (0x10000 + 1024 * (high - 0xd800) + (Piece.unit d₁ d₂ d₃ d₄ - 0xdc00)) :: ·)
      else none
  | some _, .plain .. :: _ => none
  | some _, .escape _ :: _ => none

/-- The text of a literal. -/
def decode (pieces : List Piece) : Option String := (decodeFrom none pieces).map String.ofList

/-- A literal in quotes. -/
def literal (pieces : List Piece) : List Char := '"' :: (pieces.flatMap Piece.text ++ ['"'])

/-- **A literal can be told from what follows it.** -/
theorem literal_framing : Framing (fun _ => True) literal := by
  intro a b x y _ _ same
  have inner := Piece.framing.terminated fun piece x rest _ => piece.text_ne_quote x rest
  exact (inner.headed '"') a b x y (by simp) (by simp) same

/-! ## Writing a text -/

/-- The piece a serializer writes for a character. -/
def Piece.ofChar (c : Char) : Piece :=
  if h : isPlain c = true then .plain c h
  else
    match Escape.ofChar c with
    | some e => .escape e
    | none => .unicode (.ofFin 0) (.ofFin 0) (.ofFin (.ofNat 16 (c.toNat / 16)))
        (.ofFin (.ofNat 16 (c.toNat % 16)))

/-- A character that has to be escaped and has no letter is a control character. -/
theorem lt_of_not_plain {c : Char} (special : ¬ isPlain c = true)
    (letterless : Escape.ofChar c = none) : c.toNat < 0x20 := by
  have unlike : ∀ e : Escape, e.char ≠ c := by
    intro e same
    have found := List.find?_eq_none.mp letterless e (by cases e <;> decide)
    simp [same] at found
  have quote : c ≠ '"' := (unlike .quote).symm
  have backslash : c ≠ '\\' := (unlike .backslash).symm
  simpa [isPlain, quote, backslash] using special

/-- **What is written for a character stands for it.** -/
theorem decodeFrom_ofChar (c : Char) (rest : List Piece) :
    decodeFrom none (Piece.ofChar c :: rest) = (decodeFrom none rest).map (c :: ·) := by
  unfold Piece.ofChar
  split
  · rfl
  · rename_i special
    split
    · rename_i e found
      rw [decodeFrom, Escape.char_of_ofChar found]
    · rename_i letterless
      have control := lt_of_not_plain special letterless
      have unit : Piece.unit (.ofFin 0) (.ofFin 0) (.ofFin (.ofNat 16 (c.toNat / 16)))
          (.ofFin (.ofNat 16 (c.toNat % 16))) = c.toNat := by
        simp only [Piece.unit, HexDigit.value_ofFin, Fin.ofNat]
        omega
      have high : isHigh c.toNat = false := by
        simp only [isHigh, Bool.and_eq_false_iff, decide_eq_false_iff_not]
        omega
      have low : isLow c.toNat = false := by
        simp only [isLow, Bool.and_eq_false_iff, decide_eq_false_iff_not]
        omega
      simp only [decodeFrom, unit, high, low, Bool.false_eq_true, if_false, Char.ofNat_toNat]

/-- The literal a serializer writes for a text. -/
def quote (text : String) : List Char := literal (text.toList.map Piece.ofChar)

theorem decode_quoted (text : String) : decode (text.toList.map Piece.ofChar) = some text := by
  have spelled : ∀ chars : List Char, decodeFrom none (chars.map Piece.ofChar) = some chars := by
    intro chars
    induction chars with
    | nil => rfl
    | cons c chars ih => rw [List.map_cons, decodeFrom_ofChar, ih, Option.map_some]
  rw [decode, spelled, Option.map_some, String.ofList_toList]

/-- **A quoted text can be told from what follows it.** -/
theorem quote_framing : Framing (fun _ => True) quote := by
  apply literal_framing.comap
  intro a b same
  have decoded := congrArg decode same
  rw [decode_quoted, decode_quoted] at decoded
  exact Option.some.inj decoded

end OAuthRelay.Wire.Json
