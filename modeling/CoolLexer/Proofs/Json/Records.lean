import CoolLexer.Json.Record
import CoolLexer.Proofs.Json.Reading
import CoolLexer.Proofs.Token.Parts
import Mathlib.Tactic.Tauto

/-!
# Token records lose nothing

The JSON text of a token stream is read back as an array of objects, one for each token, with the
name of its kind, its value, its line and its column. These tell the token.
-/

namespace CoolLexer

open Json (Takes Value readMember readValue)

/-- The members of the object that a record is written as. -/
def TokenRecord.members (record : TokenRecord) : List (Text × Value) :=
  [("kind".toList, .string record.kind),
    ("value".toList, record.value.elim .null .string),
    ("line".toList, .number record.line),
    ("column".toList, .number record.column)]

theorem TokenRecord.members_injective : Function.Injective TokenRecord.members := by
  rintro ⟨kind, value, line, column⟩ ⟨kind', value', line', column'⟩ h
  have hvalue : value.elim Value.null .string = value'.elim .null .string → value = value' := by
    cases value <;> cases value' <;> simp
  simp only [members, List.cons.injEq, Prod.mk.injEq, Value.string.injEq,
    Value.number.injEq, true_and, and_true] at h
  obtain ⟨hkind, hvalues, hline, hcolumn⟩ := h
  rw [hkind, hvalue hvalues, hline, hcolumn]

/-- A token that is written as a record can be told from it, and so can its place. -/
theorem LocatedToken.record_eq_iff (a b : LocatedToken) :
    a.record = b.record ↔
      a.token = b.token ∧ a.span.line = b.span.line ∧ a.span.column = b.span.column := by
  rw [record, record, TokenRecord.mk.injEq]
  constructor
  · rintro ⟨hname, hvalue, hline, hcolumn⟩
    exact ⟨Token.eq_of_kind_of_value? (Kind.eq_of_name hname) hvalue, hline, hcolumn⟩
  · rintro ⟨htoken, hline, hcolumn⟩
    rw [htoken, hline, hcolumn]
    exact ⟨rfl, rfl, rfl, rfl⟩

namespace TokenRecord

variable (depth : Nat) (record : TokenRecord)

theorem takes_value (value : Option Text) :
    Takes (readValue (depth + 1)) ((value.map Json.quote).getD "null".toList)
      (value.elim .null .string) := by
  cases value with
  | none => exact Json.takes_value_null depth
  | some value => exact Json.takes_value_quote depth value

/-- A field is read with its indentation and the blank behind the colon. -/
theorem takes_field {t : Text} {v : Value} (h : Takes (readValue (depth + 1)) t v) (name : Text) :
    Takes (readMember (readValue (depth + 1)))
      ("    ".toList ++ Json.quote name ++ ": ".toList ++ t) (name, v) := by
  have hvalue : Takes (readValue (depth + 1)) ([' '] ++ t) v :=
    h.blanks (Json.readValue_skipBlanks _) rfl
  have hindent : "    ".toList.all Json.isBlank = true := rfl
  have hmember := (Json.takes_member hvalue name).blanks
    (Json.readMember_skipBlanks (readValue (depth + 1))) hindent
  rw [List.append_assoc, List.append_assoc]
  exact hmember

theorem takes_fields :
    List.Forall₂ (Takes (readMember (readValue (depth + 1))))
      (record.fields.map fun (name, value) =>
        "    ".toList ++ Json.quote name ++ ": ".toList ++ value) record.members :=
  .cons (takes_field depth (Json.takes_value_quote depth record.kind) _)
    (.cons (takes_field depth (takes_value depth record.value) _)
      (.cons (takes_field depth (Json.takes_value_number depth record.line) _)
        (.cons (takes_field depth (Json.takes_value_number depth record.column) _) .nil)))

theorem takes_pretty : Takes (readValue (depth + 2)) record.pretty (.object record.members) := by
  have hindent : [' ', ' '].all Json.isBlank = true := rfl
  have hobject := Json.takes_object (depth + 1) (record.takes_fields depth) (List.cons_ne_nil _ _)
    hindent
  have hpretty : record.pretty = [' ', ' '] ++ "\x7b\n".toList ++
      ",\n".toList.intercalate (record.fields.map fun (name, value) =>
        "    ".toList ++ Json.quote name ++ ": ".toList ++ value) ++
      '\n' :: [' ', ' '] ++ ['\x7d'] := by
    simp [pretty]
  rw [hpretty]
  exact hobject

end TokenRecord

theorem takes_renderRecords (depth : Nat) (record : TokenRecord) (records : List TokenRecord) :
    Takes (readValue (depth + 3)) (renderRecords (record :: records))
      (.array ((record :: records).map fun record => .object record.members)) := by
  have hitems : List.Forall₂ (Takes (readValue (depth + 2)))
      ((record :: records).map TokenRecord.pretty)
      ((record :: records).map fun record => .object record.members) := by
    rw [List.forall₂_map_left_iff, List.forall₂_map_right_iff, List.forall₂_same]
    intro record _
    exact record.takes_pretty depth
  exact Json.takes_array (depth + 2) hitems (List.cons_ne_nil _ _)

theorem read?_renderRecords (records : List TokenRecord) :
    Json.read? (renderRecords records ++ ['\n']) =
      some (.array (records.map fun record => .object record.members)) := by
  cases records with
  | nil => rfl
  | cons record records =>
      -- The two brackets and the last newline alone give the depth that the records need.
      obtain ⟨depth, hdepth⟩ :
          ∃ depth, (renderRecords (record :: records) ++ ['\n']).length = depth + 3 :=
        Nat.exists_eq_add_of_le' (by simp [renderRecords])
      have harray := takes_renderRecords depth record records ['\n'] (Json.ends_cons (by decide) _)
      rw [Json.read?, hdepth, harray]
      rfl

theorem map_record_eq_iff (located others : List LocatedToken) :
    located.map LocatedToken.record = others.map LocatedToken.record ↔
      located.map (·.token) = others.map (·.token) ∧
      located.map (·.span.line) = others.map (·.span.line) ∧
      located.map (·.span.column) = others.map (·.span.column) := by
  induction located generalizing others with
  | nil => cases others <;> simp
  | cons first located ih =>
      cases others with
      | nil => simp
      | cons second others =>
          simp only [List.map_cons, List.cons.injEq, ih, LocatedToken.record_eq_iff]
          tauto

theorem renderJson_eq_iff (stream other : TokenStream) :
    stream.renderJson = other.renderJson ↔
      stream.toList.map LocatedToken.record = other.toList.map LocatedToken.record := by
  constructor
  · intro h
    have hread := congrArg Json.read? h
    rw [TokenStream.renderJson, TokenStream.renderJson, read?_renderRecords,
      read?_renderRecords] at hread
    have hmembers : Function.Injective fun record : TokenRecord => Value.object record.members :=
      fun _ _ hobject => TokenRecord.members_injective (Value.object.inj hobject)
    exact List.map_injective_iff.mpr hmembers (Value.array.inj (Option.some.inj hread))
  · intro h
    rw [TokenStream.renderJson, TokenStream.renderJson, h]

/-- The JSON text of a stream is read as an array of one object for each token. So two streams with
one text have the same tokens at the same lines and columns. -/
theorem renderJson_loses_nothing (stream : TokenStream) :
    Json.read? stream.renderJson = some (.array (stream.toList.map fun located =>
      .object [("kind".toList, .string located.token.kind.name),
        ("value".toList, located.token.value?.elim .null .string),
        ("line".toList, .number located.span.line),
        ("column".toList, .number located.span.column)])) ∧
    ∀ other : TokenStream, stream.renderJson = other.renderJson ↔
      stream.tokens = other.tokens ∧
      stream.toList.map (·.span.line) = other.toList.map (·.span.line) ∧
      stream.toList.map (·.span.column) = other.toList.map (·.span.column) := by
  constructor
  · rw [TokenStream.renderJson, read?_renderRecords, List.map_map]
    rfl
  · intro other
    rw [renderJson_eq_iff, map_record_eq_iff]
    rfl

end CoolLexer
