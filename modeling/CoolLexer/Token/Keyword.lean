import CoolLexer.Text

/-!
# Keywords

Keywords are matched case-sensitively. In a rendered token stream a keyword is named by its spelling
in capitals.
-/

namespace CoolLexer

/-- The reserved words other than `true` and `false`. -/
inductive Keyword where
  | caseWord
  | classWord
  | elseWord
  | esacWord
  | fiWord
  | ifWord
  | inWord
  | inheritsWord
  | isvoidWord
  | letWord
  | loopWord
  | newWord
  | notWord
  | ofWord
  | poolWord
  | thenWord
  | whileWord
deriving Repr, DecidableEq

namespace Keyword

def spelling : Keyword → Text
  | caseWord => "case".toList
  | classWord => "class".toList
  | elseWord => "else".toList
  | esacWord => "esac".toList
  | fiWord => "fi".toList
  | ifWord => "if".toList
  | inWord => "in".toList
  | inheritsWord => "inherits".toList
  | isvoidWord => "isvoid".toList
  | letWord => "let".toList
  | loopWord => "loop".toList
  | newWord => "new".toList
  | notWord => "not".toList
  | ofWord => "of".toList
  | poolWord => "pool".toList
  | thenWord => "then".toList
  | whileWord => "while".toList

/-- The name of a keyword in a rendered token stream. -/
def name (k : Keyword) : Text := k.spelling.map Char.toUpper

def all : List Keyword :=
  [caseWord, classWord, elseWord, esacWord, fiWord, ifWord, inWord, inheritsWord, isvoidWord,
    letWord, loopWord, newWord, notWord, ofWord, poolWord, thenWord, whileWord]

def ofSpelling? (word : Text) : Option Keyword := all.find? (·.spelling == word)

theorem ofSpelling?_spelling (k : Keyword) : ofSpelling? k.spelling = some k := by
  cases k <;> decide

end Keyword

end CoolLexer
