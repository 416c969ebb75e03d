import CoolLexer.Rendering.Basic
import CoolLexer.Rendering.Error

/-!
# Reading a rendering back

A value ends at the first closing parenthesis that ends the text, or that a separator follows and
after it nothing or the start of a token. A newline is read as a separator everywhere.
-/

namespace CoolLexer.Rendering

/-- The characters of which the names of kinds are made. -/
def isNameChar (c : Char) : Bool := c.isUpper || c == '_'

/-- Whether a text begins with the name of a kind that the text does not go on with. -/
def startsWithToken (sep : Separator) (t : Text) : Bool :=
  (Kind.ofName? (t.takeWhile isNameChar)).isSome &&
    (t.dropWhile isNameChar).head?.all fun c => c == '(' || sep.accepts c

/-- Whether a value may end in front of `t`. -/
def endsValue (sep : Separator) : Text → Bool
  | [] => true
  | c :: next => sep.accepts c && (next.isEmpty || startsWithToken sep next)

/-- A value, of which `read` has been read backwards, and the text after its parenthesis. -/
def closeValue? (sep : Separator) (read : Text) : Text → Option (Text × Text)
  | [] => none
  | c :: rest =>
      if c = ')' && endsValue sep rest then some (read.reverse, rest)
      else closeValue? sep (c :: read) rest

/-- The value of a token of the given kind, if the text has one, and the text after it. -/
def readValue (sep : Separator) (index : Nat) (kind : Kind) :
    Text → Except RenderingError (Option Text × Text)
  | '(' :: body =>
      if kind.hasValue then
        match closeValue? sep [] body with
        | some (value, rest) => .ok (some value, rest)
        | none => .error (.unterminatedValue index kind)
      else .error (.unexpectedValue index kind)
  | rest => .ok (none, rest)

/-- The text after the separator that follows a token; the last token may go without. -/
def readSeparator (sep : Separator) (index : Nat) : Text → Except RenderingError Text
  | [] => .ok []
  | c :: rest => if sep.accepts c then .ok rest else .error (.missingSeparator index)

/-- The token that a text starts with, and the text after its separator. -/
def readToken (sep : Separator) (index : Nat) (t : Text) : Except RenderingError (Token × Text) :=
  match Kind.ofName? (t.takeWhile isNameChar) with
  | none => .error (.unknownKind index (t.takeWhile fun c => !(c == '(' || sep.accepts c)))
  | some kind =>
      match readValue sep index kind (t.dropWhile isNameChar) with
      | .error e => .error e
      | .ok (value, rest) =>
          match Token.ofParts kind value with
          | .error e => .error (e.at index)
          | .ok token =>
              match readSeparator sep index rest with
              | .error e => .error e
              | .ok rest => .ok (token, rest)

private theorem closeValue?_shorter (sep : Separator) (read t : Text) {value rest : Text}
    (h : closeValue? sep read t = some (value, rest)) : rest.length < t.length := by
  induction t generalizing read with
  | nil => simp [closeValue?] at h
  | cons c t ih =>
      rw [closeValue?] at h
      split at h
      · simp_all
      · have := ih _ h
        simp only [List.length_cons]
        omega

private theorem readValue_le (sep : Separator) (index : Nat) (kind : Kind) (t : Text)
    {value : Option Text} {rest : Text} (h : readValue sep index kind t = .ok (value, rest)) :
    rest.length ≤ t.length := by
  unfold readValue at h
  split at h
  · split at h
    · split at h
      · next close =>
          have := closeValue?_shorter sep [] _ close
          simp_all only [Except.ok.injEq, Prod.mk.injEq, List.length_cons]
          omega
      · simp at h
    · simp at h
  · simp_all

private theorem readSeparator_le (sep : Separator) (index : Nat) (t : Text) {rest : Text}
    (h : readSeparator sep index t = .ok rest) : rest.length ≤ t.length := by
  unfold readSeparator at h
  split at h
  · simp_all
  · split at h
    · simp_all
    · simp at h

private theorem dropWhile_lt_of_kind (t : Text) {kind : Kind}
    (h : Kind.ofName? (t.takeWhile isNameChar) = some kind) :
    (t.dropWhile isNameChar).length < t.length := by
  have named : t.takeWhile isNameChar ≠ [] := by
    intro nil
    rw [nil, show Kind.ofName? [] = none by decide] at h
    cases h
  have split := congrArg List.length (List.takeWhile_append_dropWhile (p := isNameChar) (l := t))
  rw [List.length_append] at split
  have := List.length_pos_iff.mpr named
  omega

/-- Reading a token uses up text. -/
theorem readToken_shorter {sep : Separator} {index : Nat} {t : Text} {token : Token} {rest : Text}
    (h : readToken sep index t = .ok (token, rest)) : rest.length < t.length := by
  unfold readToken at h
  split at h
  · simp at h
  · next kind named =>
      split at h
      · simp at h
      · next value afterValue hv =>
          split at h
          · simp at h
          · split at h
            · simp at h
            · next token' rest' hs =>
                have := dropWhile_lt_of_kind t named
                have := readValue_le sep index kind _ hv
                have := readSeparator_le sep index _ hs
                simp_all only [Except.ok.injEq, Prod.mk.injEq]
                omega

/-- Reads the tokens that follow those `read` already. -/
def readTokensAfter (sep : Separator) (read : Array Token) (t : Text) :
    Except RenderingError (Array Token) :=
  if t.isEmpty then .error .missingEnd
  else
    match _ : readToken sep read.size t with
    | .error e => .error e
    | .ok (token, rest) =>
        if token = .endOfInput then
          if rest.isEmpty then .ok (read.push token) else .error .textAfterEnd
        else readTokensAfter sep (read.push token) rest
termination_by t.length
decreasing_by exact readToken_shorter ‹_›

end Rendering

def readTokens (sep : Separator) (t : Text) : Except RenderingError (List Token) :=
  match Rendering.readTokensAfter sep #[] t with
  | .ok tokens => .ok tokens.toList
  | .error e => .error e

/-- Reads the canonical rendering of a stream, with newlines. It tells no positions. -/
def TokenStream.ofRendering (t : Text) : Except RenderingError TokenStream :=
  match readTokens .newline t with
  | .ok tokens => .ok (TokenStream.ofTokens tokens)
  | .error e => .error e

end CoolLexer
