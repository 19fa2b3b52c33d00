import Cairn.Text.BreakClass

/-!
# Cairn — where a line may end

Decides for every character of a text whether a line may end in front of it,
by the line breaking rules of Unicode. A text is a row of signs, which are
characters with the marks on them. A rule looks at a gap between two signs, at
what is before it and at what is behind it. Rules come in an order, and the
first one that says something counts; where none does, a line may end.

## Main statements

* `length_lineBreaks` — there is one answer for every character.
-/

namespace Cairn

namespace BreakClass

/-- Signs that end a line by themselves. -/
def endsLine (k : BreakClass) : Bool :=
  k = .hardBreak || k = .carriageReturn || k = .lineFeed

/-- Signs that a line ends at, or that are blank. -/
def isBlank (k : BreakClass) : Bool :=
  k.endsLine || k = .space || k = .zeroWidthSpace

/-- Signs that attach to the character before them. -/
def attaches (k : BreakClass) : Bool :=
  k = .mark || k = .joiner

/-- Opening brackets. -/
def opens (k : BreakClass) : Bool :=
  k = .opening || k = .wideOpening

/-- Closing brackets. -/
def closes (k : BreakClass) : Bool :=
  k = .closing || k = .closingParenthesis

/-- Quotation marks. -/
def isQuote (k : BreakClass) : Bool :=
  k = .quote || k = .openingQuote || k = .closingQuote

/-- Letters of words. -/
def isLetter (k : BreakClass) : Bool :=
  k = .letter || k = .hebrewLetter || k = .dottedCircle

/-- Ideographs and pictographs. -/
def isIdeograph (k : BreakClass) : Bool :=
  k = .ideograph || k = .figure || k = .figureModifier

/-- Hangul letters and syllables. -/
def isHangul (k : BreakClass) : Bool :=
  k = .leadingJamo || k = .vowelJamo || k = .trailingJamo || k = .syllable || k = .closedSyllable

/-- Letters of writings in which a virama joins letters. -/
def isAksara (k : BreakClass) : Bool :=
  k = .aksara || k = .aksaraStart || k = .dottedCircle

/-- Signs that stand at numbers. -/
def isNumberSign (k : BreakClass) : Bool :=
  k = .beforeNumber || k = .afterNumber

/-- Signs inside of numbers. -/
def isInNumber (k : BreakClass) : Bool :=
  k = .separator || k = .slash

/-- Signs that no line starts with, also behind a space. -/
def neverStarts (k : BreakClass) : Bool :=
  k.closes || k = .exclamation || k.isInNumber

end BreakClass

-- ---------------------------------------------------------------------------
-- Signs
-- ---------------------------------------------------------------------------

/-- A character and the marks on it. -/
structure Sign where
  kind : BreakClass
  /-- How many marks are on it. -/
  marks : Nat
  /-- Whether a joiner is its last character. -/
  joined : Bool
deriving DecidableEq, Repr

namespace Sign

/-- A character without marks. -/
def ofChar (c : Char) : Sign :=
  let kind := BreakClass.ofChar c
  ⟨kind, 0, kind = .joiner⟩

/-- Puts a character in front of a text. Marks at the start of the text go with
it, unless it is blank. -/
def cons (c : Char) : List Sign → List Sign
  | [] => [ofChar c]
  | s :: rest =>
    let first := ofChar c
    if s.kind.attaches && ! first.kind.isBlank then
      { first with marks := s.marks + 1, joined := s.joined } :: rest
    else first :: s :: rest

/-- A mark on nothing counts as a letter. -/
def settled (s : Sign) : Sign :=
  if s.kind.attaches then { s with kind := .letter } else s

end Sign

/-- The signs of a text. -/
def signs (cs : List Char) : List Sign :=
  (cs.foldr Sign.cons []).map Sign.settled

-- ---------------------------------------------------------------------------
-- Gaps
-- ---------------------------------------------------------------------------

/-- A place between two signs of a text. -/
structure Gap where
  left : Sign
  /-- What is before the left sign, the nearest first. -/
  before : List Sign
  right : Sign
  /-- What is behind the right sign. -/
  behind : List Sign
deriving DecidableEq, Repr

/-- Whether there is a first sign and its class passes the test. -/
def firstIs (p : BreakClass → Bool) (row : List Sign) : Bool :=
  (row.head?.map fun s => p s.kind).getD false

/-- Whether there is no first sign or its class passes the test. -/
def edgeOr (p : BreakClass → Bool) (row : List Sign) : Bool :=
  (row.head?.map fun s => p s.kind).getD true

namespace Gap

/-- What is before the gap, the nearest first. -/
def back (g : Gap) : List Sign :=
  g.left :: g.before

/-- What is before the gap, without the spaces at it. -/
def backOverSpaces (g : Gap) : List Sign :=
  g.back.dropWhile (·.kind = .space)

/-- Says that a line does not end here, if the condition holds. -/
def keep (condition : Bool) : Option Bool :=
  if condition then some false else none

/-- Says that a line may end here, if the condition holds. -/
def part (condition : Bool) : Option Bool :=
  if condition then some true else none

-- ---------------------------------------------------------------------------
-- Blanks and what sticks to everything
-- ---------------------------------------------------------------------------

/-- A line ends behind signs that end it, and not in front of them. -/
def atLineEnd (g : Gap) : Option Bool :=
  if g.left.kind = .carriageReturn then some (g.right.kind ≠ .lineFeed)
  else if g.left.kind.endsLine then some true
  else keep g.right.kind.endsLine

/-- A line does not end in front of a blank. -/
def beforeBlank (g : Gap) : Option Bool :=
  keep (g.right.kind = .space || g.right.kind = .zeroWidthSpace)

/-- A line may end behind a zero width space and the spaces that follow it. -/
def behindZeroWidthSpace (g : Gap) : Option Bool :=
  part (firstIs (· = .zeroWidthSpace) g.backOverSpaces)

/-- A line does not end behind a joiner. -/
def behindJoiner (g : Gap) : Option Bool :=
  keep g.left.joined

/-- A line does not end at glue, but may end between a hyphen or a space and it. -/
def atGlue (g : Gap) : Option Bool :=
  let b := g.left.kind
  let k := g.right.kind
  keep (k = .wordJoiner || b = .wordJoiner || b = .glue
    || (k = .glue && ! (b = .space || b = .breakAfter || b = .hyphen)))

-- ---------------------------------------------------------------------------
-- Punctuation, also with spaces
-- ---------------------------------------------------------------------------

/-- A line does not end in front of closing brackets, exclamation marks,
separators and slashes. -/
def beforeClosing (g : Gap) : Option Bool :=
  keep g.right.kind.neverStarts

/-- A line does not end behind an opening bracket and its spaces. -/
def behindOpening (g : Gap) : Option Bool :=
  keep (firstIs BreakClass.opens g.backOverSpaces)

/-- What an opening quotation mark stands behind. -/
def startsQuote (k : BreakClass) : Bool :=
  k.isBlank || k.opens || k.isQuote || k = .glue

/-- A line does not end behind a quotation mark that opens, and its spaces. -/
def behindOpeningQuote (g : Gap) : Option Bool :=
  let row := g.backOverSpaces
  keep (firstIs (· = .openingQuote) row && edgeOr startsQuote row.tail)

/-- What a closing quotation mark stands in front of. -/
def endsQuote (k : BreakClass) : Bool :=
  k.isBlank || k = .glue || k = .wordJoiner || k.isQuote || k.neverStarts

/-- A line does not end in front of a quotation mark that closes. -/
def beforeClosingQuote (g : Gap) : Option Bool :=
  keep (g.right.kind = .closingQuote && edgeOr endsQuote g.behind)

/-- A line does not end between a closing bracket and a sign that starts no
line, nor between two dashes. -/
def inPunctuation (g : Gap) : Option Bool :=
  keep ((firstIs BreakClass.closes g.backOverSpaces && g.right.kind = .nonstarter)
    || (firstIs (· = .dash) g.backOverSpaces && g.right.kind = .dash))

/-- A line may end behind a space. -/
def behindSpace (g : Gap) : Option Bool :=
  part (g.left.kind = .space)

-- ---------------------------------------------------------------------------
-- Neighbours
-- ---------------------------------------------------------------------------

/-- A line does not end at a quotation mark. -/
def atQuote (g : Gap) : Option Bool :=
  keep (g.left.kind.isQuote || g.right.kind.isQuote)

/-- A line may end at a placeholder. -/
def atPlaceholder (g : Gap) : Option Bool :=
  part (g.left.kind = .placeholder || g.right.kind = .placeholder)

/-- Whether the gap is behind a hyphen of a Hebrew word. -/
def behindHebrewHyphen (g : Gap) : Bool :=
  (g.left.kind = .hyphen || g.left.kind = .breakAfter) && firstIs (· = .hebrewLetter) g.before

/-- Whether the gap is in front of a sign that starts a line only behind a
space, or behind a sign that a line ends in front of. -/
def atUnbreakable (g : Gap) : Bool :=
  let k := g.right.kind
  k = .breakAfter || k = .hyphen || k = .nonstarter || k = .ellipsis || g.left.kind = .breakBefore

/-- Whether the gap is inside a number, or between a number and what belongs to
it. -/
def inNumber (g : Gap) : Bool :=
  let b := g.left.kind
  let k := g.right.kind
  (b.isLetter && k = .digit) || (b = .digit && k.isLetter)
    || (b.isNumberSign && k.isLetter) || (b.isLetter && k.isNumberSign)
    || (b = .beforeNumber && k.isIdeograph) || (b.isIdeograph && k = .afterNumber)
    || ((b = .digit || b.closes) && k.isNumberSign)
    || (b.isNumberSign && (k.opens || k = .digit))
    || ((b = .digit || b = .hyphen || b.isInNumber) && k = .digit)

/-- Whether the gap is inside a Hangul syllable, or between Hangul and the sign
of a number. -/
def inHangul (g : Gap) : Bool :=
  let b := g.left.kind
  let k := g.right.kind
  (b = .leadingJamo && (k = .leadingJamo || k = .vowelJamo || k = .syllable || k = .closedSyllable))
    || ((b = .vowelJamo || b = .syllable) && (k = .vowelJamo || k = .trailingJamo))
    || ((b = .trailingJamo || b = .closedSyllable) && k = .trailingJamo)
    || (b.isHangul && k = .afterNumber)
    || (b = .beforeNumber && k.isHangul)

/-- Whether the gap is inside a group of letters that a virama joins. -/
def inAksara (g : Gap) : Bool :=
  let b := g.left.kind
  let k := g.right.kind
  (b = .prebase && k.isAksara)
    || (b.isAksara && (k = .virama || k = .finalVirama))
    || (b = .virama && firstIs BreakClass.isAksara g.before && (k = .aksara || k = .dottedCircle))
    || (b.isAksara && k.isAksara && firstIs (· = .finalVirama) g.behind)

/-- Whether the gap is inside a word, or between a word and its brackets. -/
def inWord (g : Gap) : Bool :=
  let b := g.left.kind
  let k := g.right.kind
  ((b.isLetter || b = .separator) && k.isLetter)
    || ((b.isLetter || b = .digit) && k = .opening)
    || (b = .closingParenthesis && (k.isLetter || k = .digit))
    || (b = .slash && k = .hebrewLetter)

/-- Whether the gap is inside a pictograph, as in the two letters of a flag. -/
def inPictograph (g : Gap) : Bool :=
  let flags := g.back.takeWhile (·.kind = .regionalIndicator)
  (g.right.kind = .regionalIndicator && flags.length % 2 = 1)
    || (g.left.kind = .figure && g.right.kind = .figureModifier)

/-- A line does not end inside of what belongs together. -/
def inside (g : Gap) : Option Bool :=
  keep (g.behindHebrewHyphen || g.atUnbreakable || g.inNumber
    || g.inHangul || g.inAksara || g.inWord || g.inPictograph)

-- ---------------------------------------------------------------------------
-- The rules in their order
-- ---------------------------------------------------------------------------

/-- The rules, the strongest first. -/
def rules : List (Gap → Option Bool) :=
  [atLineEnd, beforeBlank, behindZeroWidthSpace, behindJoiner, atGlue, beforeClosing, behindOpening,
    behindOpeningQuote, beforeClosingQuote, inPunctuation, behindSpace, atQuote, atPlaceholder,
    inside]

/-- Whether a line may end at a gap. -/
def mayEnd (g : Gap) : Bool :=
  (rules.findSome? fun rule => rule g).getD true

end Gap

/-- For every character of the signs, whether a line may end in front of it,
where `before` is what is before them, the nearest first. -/
def breaksFrom (before : List Sign) : List Sign → List Bool
  | [] => []
  | s :: rest =>
    let allowed :=
      match before with
      | [] => false
      | b :: bs => Gap.mayEnd ⟨b, bs, s, rest⟩
    allowed :: List.replicate s.marks false ++ breaksFrom (s :: before) rest

/-- For every character of a text, whether a line may end in front of it. -/
def lineBreaks (cs : List Char) : List Bool :=
  breaksFrom [] (signs cs)

-- ---------------------------------------------------------------------------
-- One answer for every character
-- ---------------------------------------------------------------------------

/-- How many characters signs have. -/
def charCount : List Sign → Nat
  | [] => 0
  | s :: rest => s.marks + 1 + charCount rest

theorem charCount_cons (c : Char) (row : List Sign) :
    charCount (Sign.cons c row) = charCount row + 1 := by
  cases row with
  | nil => rfl
  | cons s rest =>
    simp only [Sign.cons]
    split
    · simp only [charCount]
      omega
    · simp only [charCount, Sign.ofChar]
      omega

theorem charCount_settled (row : List Sign) :
    charCount (row.map Sign.settled) = charCount row := by
  induction row with
  | nil => rfl
  | cons s rest ih =>
    simp only [List.map_cons, charCount, ih, Sign.settled]
    split <;> rfl

theorem charCount_signs (cs : List Char) : charCount (signs cs) = cs.length := by
  rw [signs, charCount_settled]
  induction cs with
  | nil => rfl
  | cons c cs ih => rw [List.foldr_cons, charCount_cons, ih, List.length_cons]

theorem length_breaksFrom (before row : List Sign) :
    (breaksFrom before row).length = charCount row := by
  induction row generalizing before with
  | nil => rfl
  | cons s rest ih =>
    simp only [breaksFrom, charCount, List.length_cons, List.length_append, List.length_replicate,
      List.cons_append, ih]
    omega

/-- There is one answer for every character. -/
theorem length_lineBreaks (cs : List Char) : (lineBreaks cs).length = cs.length := by
  rw [lineBreaks, length_breaksFrom, charCount_signs]

end Cairn
