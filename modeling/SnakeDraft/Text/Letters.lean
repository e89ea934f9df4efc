/-!
Letters without regard to case. Names are compared up to the case of their ASCII letters
(`sameFold`); codes are read in capitals, where a ligature or a sharp s counts as the capitals it
stands for (`capitals`).
-/

namespace SnakeDraft.Text

/-- A text with its ASCII capitals made small; every other character stands for itself. -/
def foldCase (text : String) : String :=
  text.map Char.toLower

/-- Equality up to the case of ASCII letters. -/
def sameFold (a b : String) : Bool :=
  foldCase a == foldCase b

/-- The characters outside ASCII whose capital form holds an ASCII letter, with that form. -/
def ligatures : List (Char × List Char) :=
  [('ß', ['S', 'S']), ('ı', ['I']), ('ŉ', ['ʼ', 'N']), ('ſ', ['S']), ('ǰ', ['J', '\u030C']),
    ('\u1E96', ['H', '\u0331']), ('\u1E97', ['T', '\u0308']), ('\u1E98', ['W', '\u030A']),
    ('\u1E99', ['Y', '\u030A']), ('\u1E9A', ['A', 'ʾ']), ('\uFB00', ['F', 'F']),
    ('\uFB01', ['F', 'I']), ('\uFB02', ['F', 'L']), ('\uFB03', ['F', 'F', 'I']),
    ('\uFB04', ['F', 'F', 'L']), ('\uFB05', ['S', 'T']), ('\uFB06', ['S', 'T'])]

/-- The capital form of a character as far as ASCII letters go: a character whose capital form has
no ASCII letter stands for itself. -/
def capitalForm (c : Char) : List Char :=
  (ligatures.lookup c).getD [c.toUpper]

/-- The capitals of a text, character by character. -/
def capitals (cs : List Char) : List Char :=
  cs.flatMap capitalForm

end SnakeDraft.Text
