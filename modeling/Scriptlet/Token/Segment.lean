import Scriptlet.Token

namespace Scriptlet

/-- What a stretch of text is. Layout is a run of blanks or a comment. -/
inductive SegmentKind where
  | token (kind : TokenKind) (literal : Option Literal)
  | layout
  | unterminated
  | unexpected

/-- A stretch of a text. Put together, the segments of a text are the text. -/
structure Segment where
  kind : SegmentKind
  text : List Char

namespace Segment

def isBlank (c : Char) : Bool := c == ' ' || c == '\t' || c == '\n' || c == '\r' || c == '\x0c'

/-- Words are made of letters, digits and underscores of the ASCII range. -/
def isWordStart (c : Char) : Bool := c.isAlpha || c == '_'

def isWordRest (c : Char) : Bool := c.isAlphanum || c == '_'

/-- The double quote, which opens and closes strings. -/
def quote : Char := '\x22'

def keywords : List (String × TokenKind) :=
  [("and", .kwAnd), ("break", .kwBreak), ("class", .kwClass), ("continue", .kwContinue),
   ("else", .kwElse), ("false", .kwFalse), ("for", .kwFor), ("fun", .kwFun), ("if", .kwIf),
   ("nil", .kwNil), ("or", .kwOr), ("print", .kwPrint), ("return", .kwReturn), ("super", .kwSuper),
   ("this", .kwThis), ("true", .kwTrue), ("var", .kwVar), ("while", .kwWhile)]

def wordKind (word : List Char) : TokenKind :=
  (keywords.lookup (String.ofList word)).getD .identifier

def pairKind? : Char → Char → Option TokenKind
  | '+', '+' => some .plusPlus
  | '-', '-' => some .minusMinus
  | '&', '&' => some .ampersandAmpersand
  | '|', '|' => some .pipePipe
  | '<', '<' => some .lessLess
  | '>', '>' => some .greaterGreater
  | '=', '=' => some .equalEqual
  | '!', '=' => some .bangEqual
  | '>', '=' => some .greaterEqual
  | '<', '=' => some .lessEqual
  | _, _ => none

def charKind? : Char → Option TokenKind
  | '(' => some .leftParen
  | ')' => some .rightParen
  | '\x7b' => some .leftBrace
  | '\x7d' => some .rightBrace
  | ',' => some .comma
  | '.' => some .dot
  | ';' => some .semicolon
  | '+' => some .plus
  | '-' => some .minus
  | '*' => some .star
  | '/' => some .slash
  | '&' => some .ampersand
  | '|' => some .pipe
  | '^' => some .caret
  | '~' => some .tilde
  | '!' => some .bang
  | '=' => some .equal
  | '>' => some .greater
  | '<' => some .less
  | _ => none

/-- The digits after a point, and what follows them. A point without a digit is not part of the
number. -/
def fraction : List Char → List Char × List Char
  | '.' :: d :: cs =>
    if d.isDigit then (d :: cs.takeWhile Char.isDigit, cs.dropWhile Char.isDigit)
    else ([], '.' :: d :: cs)
  | cs => ([], cs)

def number (c : Char) (cs : List Char) : Segment × List Char :=
  let whole := c :: cs.takeWhile Char.isDigit
  let (places, rest) := fraction (cs.dropWhile Char.isDigit)
  let literal := Literal.number (Number.ofDigits whole places)
  (⟨.token .number (some literal), if places.isEmpty then whole else whole ++ '.' :: places⟩, rest)

def word (c : Char) (cs : List Char) : Segment × List Char :=
  let text := c :: cs.takeWhile isWordRest
  (⟨.token (wordKind text) none, text⟩, cs.dropWhile isWordRest)

/-- What follows an opening quote: a string runs to the next quote, over line ends too. -/
def quoted (cs : List Char) : Segment × List Char :=
  let inner := cs.takeWhile (· != quote)
  match cs.dropWhile (· != quote) with
  | [] => (⟨.unterminated, quote :: inner⟩, [])
  | q :: rest =>
    (⟨.token .string (some (.string (String.ofList inner))), quote :: inner ++ [q]⟩, rest)

def blanks (c : Char) (cs : List Char) : Segment × List Char :=
  (⟨.layout, c :: cs.takeWhile isBlank⟩, cs.dropWhile isBlank)

/-- A comment ends before the line end. -/
def comment (c : Char) (cs : List Char) : Segment × List Char :=
  (⟨.layout, c :: cs.takeWhile (· != '\n')⟩, cs.dropWhile (· != '\n'))

def single (c : Char) (cs : List Char) : Segment × List Char :=
  match charKind? c with
  | some kind => (⟨.token kind none, [c]⟩, cs)
  | none => (⟨.unexpected, [c]⟩, cs)

def operator (c : Char) : List Char → Segment × List Char
  | d :: cs =>
    match pairKind? c d with
    | some kind => (⟨.token kind none, [c, d]⟩, cs)
    | none => single c (d :: cs)
  | [] => single c []

/-- The first segment of a text that starts with `c`, and the rest of the text. -/
def first (c : Char) (cs : List Char) : Segment × List Char :=
  if isBlank c then blanks c cs
  else if c.isDigit then number c cs
  else if isWordStart c then word c cs
  else if c == quote then quoted cs
  else if c == '/' && cs.head? == some '/' then comment c cs
  else operator c cs

theorem length_fraction (cs : List Char) : (fraction cs).2.length ≤ cs.length := by
  unfold fraction
  split
  · split
    · have h := (List.dropWhile_sublist Char.isDigit (l := ‹List Char›)).length_le
      simp only [List.length_cons]; omega
    · simp
  · simp

theorem length_first (c : Char) (cs : List Char) : (first c cs).2.length ≤ cs.length := by
  have drop (p : Char → Bool) : (cs.dropWhile p).length ≤ cs.length :=
    (List.dropWhile_sublist p).length_le
  have hs (c : Char) (cs : List Char) : (single c cs).2 = cs := by
    unfold single; split <;> rfl
  unfold first
  split
  · exact drop isBlank
  split
  · exact Nat.le_trans (length_fraction _) (drop Char.isDigit)
  split
  · exact drop isWordRest
  split
  · unfold quoted
    split
    · exact Nat.zero_le _
    · next h => have := drop (· != quote); rw [h] at this; simp at this ⊢; omega
  split
  · exact drop (· != '\n')
  · unfold operator
    split
    · split <;> simp [hs]
    · simp [hs]

/-- All segments of a text in order. -/
def ofText : List Char → List Segment
  | [] => []
  | c :: cs => (first c cs).1 :: ofText (first c cs).2
termination_by cs => cs.length
decreasing_by exact Nat.lt_succ_of_le (length_first c cs)

end Segment

end Scriptlet
