import CoolLexer.Diagnostic.Basic
import CoolLexer.Token.Basic

/-!
# Token streams

A token stream is the sequence of tokens of one source, each with the span it was read from. A
scanned stream ends with its only end token.
-/

namespace CoolLexer

/-- A token with the span that it was read from. -/
structure LocatedToken where
  token : Token
  span : Span
deriving Repr, DecidableEq

structure TokenStream where
  located : Array LocatedToken := #[]
deriving Repr, DecidableEq

namespace TokenStream

/-- The stream of tokens whose place in a source is not known. -/
def ofTokens (tokens : List Token) : TokenStream :=
  ⟨(tokens.map fun token => ⟨token, Span.unknown⟩).toArray⟩

def push (stream : TokenStream) (token : LocatedToken) : TokenStream :=
  ⟨stream.located.push token⟩

def toList (stream : TokenStream) : List LocatedToken := stream.located.toList

def tokens (stream : TokenStream) : List Token := stream.toList.map (·.token)

def size (stream : TokenStream) : Nat := stream.located.size

/-- Whether there is no token at all, as in no scanned stream. -/
def isEmpty (stream : TokenStream) : Bool := stream.located.isEmpty

def get? (stream : TokenStream) (i : Nat) : Option LocatedToken := stream.located[i]?

/-- The last token; of an empty stream, the end token. -/
def last (stream : TokenStream) : Token :=
  match stream.located.back? with
  | some located => located.token
  | none => .endOfInput

/-- The lexical errors with the tokens that carry them. -/
def errors (stream : TokenStream) : List (LexicalError × LocatedToken) :=
  stream.toList.filterMap fun located => located.token.error?.map (·, located)

def errorCount (stream : TokenStream) : Nat := stream.tokens.countP Token.isIllegal

def hasErrors (stream : TokenStream) : Bool := stream.tokens.any Token.isIllegal

@[simp] theorem toList_empty : toList {} = [] := rfl

@[simp] theorem toList_push (stream : TokenStream) (token : LocatedToken) :
    (stream.push token).toList = stream.toList ++ [token] :=
  Array.toList_push

theorem toList_inj {stream stream' : TokenStream} :
    stream.toList = stream'.toList ↔ stream = stream' := by
  rw [toList, toList, Array.toList_inj, mk.injEq]

end TokenStream

end CoolLexer
