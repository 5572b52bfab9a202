/-
# JSON texts are read as their values

The reader takes a document token by token, with the arrays and objects that are still open on a
stack. Each text of the grammar leads it from one state to another, and a text of a value leads
it behind the value, whatever is open.

* `Leads` — a text behind which a document is read that far.
* `IsText.leads` — the texts of values, by the rules of the grammar.
* `parse?_of_isText` — a JSON text is read as its value.
-/

import Wayside.Proofs.Json.Token

namespace Wayside.Json

open Numeric

/-! ### Reading on -/

/-- With a text behind it, a document is read from one state to another, whatever the text is
followed by. -/
def Leads (text : List Char) (p q : Partial) : Prop :=
  ∃ tokens : List Token, tokens.foldlM Partial.take p = some q ∧
    ∀ rest behind, Spelling.Stops rest → Cut rest behind → Cut (text ++ rest) (tokens ++ behind)

/-- A text of a value leads from where a value may start to behind the value. -/
def Denotes (text : List Char) (json : Json) : Prop :=
  ∀ frames, Leads text ⟨.value, frames⟩ ⟨.after json, frames⟩

/-- No number goes on into what a text starts with. -/
theorem stops_blanks {gap rest : List Char} (blanks : Blanks gap) (stops : Spelling.Stops rest) :
    Spelling.Stops (gap ++ rest) := by
  have apart : ∀ c ∈ [' ', '\t', '\n', '\r'],
      c.isDigit = false ∧ c ≠ '.' ∧ c ≠ 'e' ∧ c ≠ 'E' := by decide
  cases gap with
  | nil => exact stops
  | cons c gap =>
    have blank := blanks c List.mem_cons_self
    exact Spelling.stops_cons (apart c (by simpa [isGap, or_assoc] using blank)) _

namespace Leads

variable {text text' : List Char} {p q r : Partial}

theorem nil : Leads [] p p :=
  ⟨[], rfl, fun _ _ _ cut => cut⟩

theorem mark {c : Char} {token : Token} (solid : isGap c = false)
    (scan : ∀ rest, scanToken (c :: rest) = some (token, rest)) (take : p.take token = some q)
    (leads : Leads text q r) : Leads (c :: text) p r := by
  obtain ⟨tokens, read, cut⟩ := leads
  refine ⟨token :: tokens, ?_, fun rest behind stops cutRest =>
    .mark solid (scan _) (cut rest behind stops cutRest)⟩
  rw [List.foldlM_cons, take]
  exact read

theorem string {value : String} (isString : IsString text value)
    (take : p.take (.string value) = some q) (leads : Leads text' q r) :
    Leads (text ++ text') p r := by
  obtain ⟨tokens, read, cut⟩ := leads
  refine ⟨.string value :: tokens, ?_, fun rest behind stops cutRest => ?_⟩
  · rw [List.foldlM_cons, take]
    exact read
  · rw [List.append_assoc]
    exact .string isString (cut rest behind stops cutRest)

theorem gap {gap : List Char} (blanks : Blanks gap) (leads : Leads text p q) :
    Leads (gap ++ text) p q := by
  obtain ⟨tokens, read, cut⟩ := leads
  refine ⟨tokens, read, fun rest behind stops cutRest => ?_⟩
  rw [List.append_assoc]
  exact .gaps blanks (cut rest behind stops cutRest)

/-- One text after another, if a number cannot go on from the first into the second. -/
theorem append (first : Leads text p q)
    (stops : ∀ rest, Spelling.Stops rest → Spelling.Stops (text' ++ rest))
    (second : Leads text' q r) : Leads (text ++ text') p r := by
  obtain ⟨tokens, read, cut⟩ := first
  obtain ⟨tokens', read', cut'⟩ := second
  refine ⟨tokens ++ tokens', ?_, fun rest behind stopsRest cutRest => ?_⟩
  · rw [List.foldlM_append, read]
    exact read'
  · rw [List.append_assoc, List.append_assoc]
    exact cut _ _ (stops rest stopsRest) (cut' rest behind stopsRest cutRest)

/-- The first item of an array stands where the array might have ended. -/
theorem firstItem {json : Json} {frames frames' : List Frame}
    (leads : Leads text ⟨.value, .array [] :: frames⟩ ⟨.after json, frames'⟩) :
    Leads text ⟨.firstItem, frames⟩ ⟨.after json, frames'⟩ := by
  obtain ⟨tokens, read, cut⟩ := leads
  refine ⟨tokens, ?_, cut⟩
  cases tokens with
  | nil => cases read
  | cons token tokens =>
    rw [List.foldlM_cons] at read ⊢
    cases token with
    | closeArray => cases read
    | _ => exact read

/-- The first key of an object stands where the object might have ended. -/
theorem firstKey {json : Json} {frames frames' : List Frame}
    (leads : Leads text ⟨.key [], frames⟩ ⟨.after json, frames'⟩) :
    Leads text ⟨.firstKey, frames⟩ ⟨.after json, frames'⟩ := by
  obtain ⟨tokens, read, cut⟩ := leads
  refine ⟨tokens, ?_, cut⟩
  cases tokens with
  | nil => cases read
  | cons token tokens =>
    rw [List.foldlM_cons] at read ⊢
    cases token with
    | string key => exact read
    | _ => cases read

end Leads

/-! ### The rules of the grammar -/

theorem denotes_word {c : Char} {text : List Char} {json : Json} (solid : isGap c = false)
    (scan : ∀ rest, scanToken (c :: text ++ rest) = some (.atom json, rest)) :
    Denotes (c :: text) json :=
  fun _ => ⟨[.atom json], rfl, fun rest _ _ cut => .front solid (scan rest) cut⟩

theorem IsNumber.denotes {text : List Char} {d : Decimal} (isNumber : IsNumber text d) :
    Denotes text (.number d.nearest) :=
  fun _ => ⟨[_], rfl, fun _ _ stops cut => .number isNumber stops cut⟩

theorem IsString.denotes {text : List Char} {value : String} (isString : IsString text value) :
    Denotes text (.string value) :=
  fun _ => ⟨[_], rfl, fun _ _ _ cut => .string isString cut⟩

/-- No number goes on into a comma or a closing bracket. -/
theorem stops_mark {closing : Char}
    (stop : closing.isDigit = false ∧ closing ≠ '.' ∧ closing ≠ 'e' ∧ closing ≠ 'E')
    (text rest : List Char) (_ : Spelling.Stops rest) : Spelling.Stops (closing :: text ++ rest) :=
  Spelling.stops_cons stop _

mutual

/-- The text of a value leads behind the value. -/
theorem IsValue.leads {text : List Char} {json : Json} :
    IsValue text json → Denotes text json
  | .null => denotes_word rfl fun _ => rfl
  | .true => denotes_word rfl fun _ => rfl
  | .false => denotes_word rfl fun _ => rfl
  | .number isNumber => isNumber.denotes
  | .string isString => isString.denotes
  | .emptyArray blanks => fun _ =>
    .mark rfl (fun _ => rfl) rfl (.gap blanks (.mark rfl (fun _ => rfl) rfl .nil))
  | .array isItems => fun frames =>
    .mark rfl (fun _ => rfl) rfl (.firstItem (isItems.leads [] frames))
  | .emptyObject blanks => fun _ =>
    .mark rfl (fun _ => rfl) rfl (.gap blanks (.mark rfl (fun _ => rfl) rfl .nil))
  | .object isMembers => fun frames =>
    .mark rfl (fun _ => rfl) rfl (.firstKey (isMembers.leads [] frames))

/-- Blanks around a value are passed over. -/
theorem IsText.leads {text : List Char} {json : Json} :
    IsText text json → Denotes text json
  | .padded blanks isValue blanks' => fun frames => by
    have behind := Leads.gap blanks' (@Leads.nil ⟨.after json, frames⟩)
    rw [List.append_nil] at behind
    exact .gap blanks (.append (isValue.leads frames) (fun _ => stops_blanks blanks') behind)

/-- Items lead from where one is due behind the array. -/
theorem IsItems.leads {text : List Char} {items : List Json} :
    IsItems text items → ∀ before frames, Leads (text ++ [']']) ⟨.value, .array before :: frames⟩
      ⟨.after (.array (before.reverse ++ items)), frames⟩
  | .last isText => fun before frames => by
    rw [← List.reverse_cons]
    exact .append (isText.leads _) (stops_mark (by decide) [])
      (.mark rfl (fun _ => rfl) rfl .nil)
  | @IsItems.cons _ rest json items isText isItems => fun before frames => by
    have others := isItems.leads (json :: before) frames
    rw [List.reverse_cons, List.append_assoc, List.singleton_append] at others
    rw [List.append_assoc, List.cons_append]
    exact .append (isText.leads _) (stops_mark (by decide) _)
      (.mark rfl (fun _ => rfl) rfl others)

/-- A member leads from where a key is due behind its value. -/
theorem IsMember.leads {text : List Char} {member : String × Json} :
    IsMember text member → ∀ members frames, Leads text ⟨.key members, frames⟩
      ⟨.after member.2, .object members member.1 :: frames⟩
  | .colon blanks isString blanks' isText => fun _ _ =>
    .gap blanks (.string isString rfl (.gap blanks' (.mark rfl (fun _ => rfl) rfl
      (isText.leads _))))

/-- Members lead from where a key is due behind the object. -/
theorem IsMembers.leads {text : List Char} {members : List (String × Json)} :
    IsMembers text members → ∀ before frames, Leads (text ++ ['}']) ⟨.key before, frames⟩
      ⟨.after (ofMembers (before.reverse ++ members)), frames⟩
  | .last isMember => fun before frames => by
    rw [← List.reverse_cons]
    exact .append (isMember.leads _ _) (stops_mark (by decide) [])
      (.mark rfl (fun _ => rfl) rfl .nil)
  | @IsMembers.cons _ rest member members isMember isMembers => fun before frames => by
    have others := isMembers.leads (member :: before) frames
    rw [List.reverse_cons, List.append_assoc, List.singleton_append] at others
    rw [List.append_assoc, List.cons_append]
    exact .append (isMember.leads _ _) (stops_mark (by decide) _)
      (.mark rfl (fun _ => rfl) rfl others)

end

/-- A JSON text is read as its value. -/
theorem parse?_of_isText {text : String} {json : Json} (isText : IsText text.toList json) :
    parse? text = some json := by
  obtain ⟨tokens, read, cut⟩ := isText.leads []
  have cut := tokens?_of_cut (cut [] [] Spelling.stops_nil .nil)
  rw [List.append_nil, List.append_nil] at cut
  unfold parse? ofTokens?
  rw [cut]
  change (tokens.foldlM Partial.take ⟨.value, []⟩ >>= _) = _
  rw [read]
  rfl

end Wayside.Json
