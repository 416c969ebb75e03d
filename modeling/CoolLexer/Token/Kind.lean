import CoolLexer.Token.Keyword
import CoolLexer.Token.Symbol

/-!
# Token kinds

A kind is a token without its value. Kinds are ordered alphabetically by the names that they have in
a rendered token stream.
-/

namespace CoolLexer

inductive Kind where
  | symbol (s : Symbol)
  | keyword (k : Keyword)
  | boolean
  | className
  | identifier
  | integer
  | string
  | illegal
  | endOfInput
deriving Repr, DecidableEq

namespace Kind

/-- The name of a kind in a rendered token stream. -/
def name : Kind → Text
  | symbol s => s.name
  | keyword k => k.name
  | boolean => "BOOL_LITERAL".toList
  | className => "CLASS_NAME".toList
  | identifier => "IDENT".toList
  | integer => "INT_LITERAL".toList
  | string => "STRING_LITERAL".toList
  | illegal => "ILLEGAL".toList
  | endOfInput => "END".toList

/-- All kinds, in the order of their names. -/
def all : List Kind :=
  [symbol .arrow, symbol .assign, symbol .atSign, boolean, keyword .caseWord, keyword .classWord,
    className, symbol .colon, symbol .comma, symbol .divide, symbol .dot, keyword .elseWord,
    endOfInput, symbol .equal, keyword .esacWord, keyword .fiWord, identifier, keyword .ifWord,
    illegal, keyword .inWord, keyword .inheritsWord, integer, keyword .isvoidWord,
    symbol .leftBrace, symbol .lessThan, symbol .lessEqual, keyword .letWord, keyword .loopWord,
    symbol .leftParen, symbol .minus, symbol .multiply, keyword .newWord, keyword .notWord,
    keyword .ofWord, symbol .plus, keyword .poolWord, symbol .rightBrace, symbol .rightParen,
    symbol .semicolon, string, keyword .thenWord, symbol .tilde, keyword .whileWord]

def ofName? (name : Text) : Option Kind := all.find? (·.name == name)

def index (kind : Kind) : Nat := all.idxOf kind

def hasValue : Kind → Bool
  | boolean | className | identifier | integer | string | illegal => true
  | symbol _ | keyword _ | endOfInput => false

/-- Whether tokens of this kind are keywords; `true` and `false` are literals. -/
def isKeyword : Kind → Bool
  | keyword _ => true
  | _ => false

/-- The kinds of a list in ascending order. -/
def sort (kinds : List Kind) : List Kind := kinds.mergeSort (·.index ≤ ·.index)

theorem mem_all (kind : Kind) : kind ∈ all := by
  cases kind with
  | symbol s => cases s <;> decide
  | keyword k => cases k <;> decide
  | _ => decide

theorem ofName?_name (kind : Kind) : ofName? kind.name = some kind := by
  have h : ∀ k ∈ all, ofName? k.name = some k := by decide
  exact h kind (mem_all kind)

end Kind

end CoolLexer
