/-
# Written values are read back

What a value is written as, on one line or on several, is a JSON text, and so it is read back: as
the value itself, but for what JSON has no text for. A zero has no sign, and a number that is not
finite becomes `null`. Of members with one key, the first gives the place and the last the value.

* `normal` — the value that is read back.
* `isValue_compactChars`, `isValue_indentedChars` — written texts are texts of it.
* `parse?_compact` — the round trip.
-/

import Mathlib.Data.List.Forall2
import Wayside.Json.Writer
import Wayside.Proofs.Json.Reader
import Wayside.Proofs.Json.Record
import Wayside.Proofs.Text.Units

namespace Wayside.Json

open Numeric

/-! ### What is read back -/

mutual

/-- The value that is read from what a value is written as. -/
def normal : Json → Json
  | .number x => if x.isFinite then .number x.dropZeroSign else .null
  | .array items => .array (normalItems items)
  | .object members => ofMembers (normalMembers members)
  | json => json

/-- The items of an array, as they are read back. -/
def normalItems : List Json → List Json
  | [] => []
  | item :: rest => item.normal :: normalItems rest

/-- The members of an object, as they are read back. -/
def normalMembers : List (String × Json) → List (String × Json)
  | [] => []
  | (key, value) :: rest => (key, value.normal) :: normalMembers rest

end

/-! ### Strings and numbers -/

theorem unitOfHex?_control : ∀ n < 0x20,
    unitOfHex? '0' '0' (lowerHexDigit (n / 16)) (lowerHexDigit (n % 16)) = some (.ofNat n) := by
  decide

/-- A character is written as itself or as an escape of it. -/
theorem IsContent.escapedChar (c : Char) {s : List Char} {units : Text.Units}
    (behind : IsContent s units) :
    IsContent (escapedChar c ++ s) (Text.codeUnits c ++ units) := by
  unfold Json.escapedChar
  -- Seven characters have a mark of their own.
  iterate 7
    split
    · rename_i same
      exact .escape (by rw [same]; rfl) behind
  split
  · rename_i small
    have basic : Text.codeUnits c = [.ofNat c.toNat] := if_pos (Nat.lt_trans small (by decide))
    rw [basic]
    exact .unit (unitOfHex?_control c.toNat small) behind
  · rename_i notQuote notSlash _ _ _ _ _ large
    exact .plain notQuote notSlash large behind

theorem isContent_flatMap (s : List Char) :
    IsContent (s.flatMap Json.escapedChar) (s.flatMap Text.codeUnits) := by
  induction s with
  | nil => exact .nil
  | cons c s ih =>
    rw [List.flatMap_cons, List.flatMap_cons]
    exact ih.escapedChar c

theorem isString_quoted (value : String) : IsString (quoted value) value := by
  have isString := IsString.quotes (isContent_flatMap value.toList)
  rwa [← Text.utf16, Text.mend_utf16] at isString

/-- A sign and a spelling with no zero before other digits are a text of their decimal. -/
theorem isNumber_spelling (negative : Bool) {s : Spelling} (plain : s.Plain) (tight : s.Tight) :
    IsNumber (sign negative ++ s.chars) (s.decimal negative) :=
  .parts negative plain.whole_ne plain.whole_digits tight plain.isFraction s.isPower_powerPart

theorem isValue_numberChars (x : Binary64) :
    IsValue (numberChars x) (normal (.number x)) := by
  unfold numberChars normal
  split
  · rename_i finite
    obtain ⟨negative, s, plain, tight, written, nearest⟩ := Binary64.exists_spelling finite
    have isValue := IsValue.number (isNumber_spelling negative plain tight)
    rwa [nearest, ← written] at isValue
  · exact .null

theorem isValue_bool (value : Bool) :
    IsValue (if value then "true".toList else "false".toList) (.bool value) := by
  cases value with
  | true => exact .true
  | false => exact .false

/-! ### Arrays and objects -/

theorem blanks_nil : Blanks [] := nofun

theorem Blanks.append {gap gap' : List Char} (blanks : Blanks gap) (blanks' : Blanks gap') :
    Blanks (gap ++ gap') :=
  List.forall_mem_append.mpr ⟨blanks, blanks'⟩

section Joined

variable {α : Type} {IsPart IsPadded : List Char → α → Prop}
  {IsParts : List Char → List α → Prop} {gap gap' : List Char}

/-- Parts with a comma and a gap between them are parts with gaps around them. -/
theorem isParts_joined (last : ∀ {text part}, IsPadded text part → IsParts text [part])
    (cons : ∀ {text rest part parts}, IsPadded text part → IsParts rest parts →
      IsParts (text ++ ',' :: rest) (part :: parts))
    (padded : ∀ {text part behind}, IsPart text part → Blanks behind →
      IsPadded (gap ++ (text ++ behind)) part) (blanks' : Blanks gap')
    {text : List Char} {part : α} {texts : List (List Char)} {parts : List α}
    (isPart : IsPart text part) (each : List.Forall₂ IsPart texts parts) :
    IsParts (gap ++ (joined (',' :: gap) (text :: texts) ++ gap')) (part :: parts) := by
  induction each generalizing text part with
  | nil => exact last (padded isPart blanks')
  | @cons next nextPart texts parts isNext _ ih =>
    have rest := cons (padded isPart blanks_nil) (ih isNext)
    rw [List.append_nil, List.append_assoc] at rest
    rwa [joined, List.append_assoc, List.append_assoc]
    exact List.cons_ne_nil _ _

end Joined

section Brackets

variable {gap gap' : List Char} {texts : List (List Char)}

theorem isValue_array (blanks : Blanks gap) (blanks' : Blanks gap') {items : List Json}
    (each : List.Forall₂ IsValue texts items) :
    IsValue ('[' :: (gap ++ (joined (',' :: gap) texts ++ gap')) ++ [']']) (.array items) := by
  cases each with
  | nil => exact .emptyArray (blanks.append blanks')
  | cons isValue each =>
    exact .array (isParts_joined .last .cons (fun isValue => .padded blanks isValue) blanks'
      isValue each)

/-- A key with the value behind it, perhaps with blanks between. -/
def IsWrittenMember (text : List Char) (member : String × Json) : Prop :=
  ∃ between valueText, Blanks between ∧ IsValue valueText member.2 ∧
    text = quoted member.1 ++ ':' :: (between ++ valueText)

theorem IsWrittenMember.isMember {text behind : List Char} {member : String × Json}
    (written : IsWrittenMember text member) (blanks : Blanks gap) (blanks' : Blanks behind) :
    IsMember (gap ++ (text ++ behind)) member := by
  obtain ⟨between, valueText, blanks'', isValue, rfl⟩ := written
  have isMember := IsMember.colon blanks (isString_quoted member.1) blanks_nil
    (.padded blanks'' isValue blanks')
  rw [List.append_assoc, List.cons_append, List.append_assoc]
  exact isMember

theorem isValue_object (blanks : Blanks gap) (blanks' : Blanks gap')
    {members : List (String × Json)} (each : List.Forall₂ IsWrittenMember texts members) :
    IsValue ('{' :: (gap ++ (joined (',' :: gap) texts ++ gap')) ++ ['}']) (ofMembers members) := by
  cases each with
  | nil => exact .emptyObject (blanks.append blanks')
  | cons written each =>
    exact .object (isParts_joined .last .cons (fun written => written.isMember blanks) blanks'
      written each)

end Brackets

/-! ### Values on one line -/

mutual

theorem isValue_compactChars : ∀ json : Json, IsValue json.compactChars json.normal
  | .null => .null
  | .bool value => isValue_bool value
  | .number value => isValue_numberChars value
  | .string value => .string (isString_quoted value)
  | .array items => by
    have isValue := isValue_array blanks_nil blanks_nil (forall₂_compactItems items)
    rwa [List.nil_append, List.append_nil] at isValue
  | .object members => by
    have isValue := isValue_object blanks_nil blanks_nil (forall₂_compactMembers members)
    rwa [List.nil_append, List.append_nil] at isValue

theorem forall₂_compactItems : ∀ items : List Json,
    List.Forall₂ IsValue (compactItems items) (normalItems items)
  | [] => .nil
  | item :: rest => .cons (isValue_compactChars item) (forall₂_compactItems rest)

theorem forall₂_compactMembers : ∀ members : List (String × Json),
    List.Forall₂ IsWrittenMember (compactMembers members) (normalMembers members)
  | [] => .nil
  | (_, value) :: rest =>
    .cons ⟨[], _, blanks_nil, isValue_compactChars value, rfl⟩ (forall₂_compactMembers rest)

end

/-- A value is read from what it is written as on one line. -/
theorem parse?_compact (json : Json) : parse? json.compact = some json.normal := by
  have isText := IsText.padded blanks_nil (isValue_compactChars json) blanks_nil
  rw [List.nil_append, List.append_nil] at isText
  exact parse?_of_isText (by rwa [compact, String.toList_ofList])

/-! ### Values on several lines -/

theorem blanks_newline (level : Nat) : Blanks (newline level) := by
  intro c h
  rcases List.mem_cons.mp h with rfl | h
  · rfl
  · rw [(List.mem_replicate.mp h).2]
    rfl

theorem isValue_bracketedArray (level : Nat) {texts : List (List Char)} {items : List Json}
    (each : List.Forall₂ IsValue texts items) :
    IsValue (bracketed '[' ']' level texts) (.array items) := by
  cases each with
  | nil => exact .emptyArray blanks_nil
  | cons isValue each =>
    have isValue := isValue_array (blanks_newline (level + 1)) (blanks_newline level)
      (.cons isValue each)
    simpa [bracketed] using isValue

theorem isValue_bracketedObject (level : Nat) {texts : List (List Char)}
    {members : List (String × Json)} (each : List.Forall₂ IsWrittenMember texts members) :
    IsValue (bracketed '{' '}' level texts) (ofMembers members) := by
  cases each with
  | nil => exact .emptyObject blanks_nil
  | cons written each =>
    have isValue := isValue_object (blanks_newline (level + 1)) (blanks_newline level)
      (.cons written each)
    simpa [bracketed] using isValue

mutual

theorem isValue_indentedChars (level : Nat) :
    ∀ json : Json, IsValue (json.indentedChars level) json.normal
  | .array items => isValue_bracketedArray level (forall₂_indentedItems (level + 1) items)
  | .object members => isValue_bracketedObject level (forall₂_indentedMembers (level + 1) members)
  | .null => isValue_compactChars .null
  | .bool value => isValue_compactChars (.bool value)
  | .number value => isValue_compactChars (.number value)
  | .string value => isValue_compactChars (.string value)

theorem forall₂_indentedItems (level : Nat) : ∀ items : List Json,
    List.Forall₂ IsValue (indentedItems level items) (normalItems items)
  | [] => .nil
  | item :: rest => .cons (isValue_indentedChars level item) (forall₂_indentedItems level rest)

theorem forall₂_indentedMembers (level : Nat) : ∀ members : List (String × Json),
    List.Forall₂ IsWrittenMember (indentedMembers level members) (normalMembers members)
  | [] => .nil
  | (_, value) :: rest =>
    .cons ⟨[' '], _, List.forall_mem_singleton.mpr rfl, isValue_indentedChars level value, rfl⟩
      (forall₂_indentedMembers level rest)

end

/-! ### Members that are read back -/

theorem normalItems_eq_map (items : List Json) : normalItems items = items.map normal := by
  induction items with
  | nil => rfl
  | cons item rest ih => rw [normalItems, ih, List.map_cons]

theorem normalMembers_eq_map (members : List (String × Json)) :
    normalMembers members = members.map fun m => (m.1, m.2.normal) := by
  induction members with
  | nil => rfl
  | cons member rest ih => rw [normalMembers, ih, List.map_cons]

/-- An object with each key once has what was written for a key when it is read back. -/
theorem member?_normal {members : List (String × Json)} (distinct : (members.map Prod.fst).Nodup)
    (key : String) :
    (Json.object members).normal.member? key = (members.lookup key).map normal := by
  have same : (normalMembers members).map Prod.fst = members.map Prod.fst := by
    rw [normalMembers_eq_map, List.map_map]
    rfl
  have read := Record.get?_ofList (same ▸ distinct) key
  rw [normalMembers_eq_map, lookup_map] at read
  rw [normal, normalMembers_eq_map]
  exact read

end Wayside.Json
