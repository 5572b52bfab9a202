/-
# Records

A record maps keys to values and lists them in a fixed order: first the *index
keys*, which are the numerals `0` to `4294967294`, by their number, then all
other keys in the order in which they were first put in. The members of a JSON
object and the tags of an element are listed this way.

* `Record.insert`, `Record.ofList`, `Record.get?`.
* `ordered_insertMember` — putting a member in keeps the order.
-/

namespace Wayside.Json

/-- The number of an index key. -/
def indexKey? (key : String) : Option Nat :=
  let digits := key.toList
  if digits = ['0'] then some 0
  else if digits.all Char.isDigit && digits.length ≤ 10 && digits.head? ≠ some '0' &&
      digits ≠ [] then
    let n := digits.foldl (fun n c => 10 * n + (c.toNat - '0'.toNat)) 0
    if n < 4294967295 then some n else none
  else none

/-- A key is listed before another whichever was put in first: both are index
keys and its number is less, or only it is an index key. -/
def precedes (key other : String) : Bool :=
  match indexKey? key, indexKey? other with
  | some m, some n => m < n
  | some _, none => true
  | none, _ => false

/-- A list of members with its keys in order and each key once. -/
def Ordered {α : Type} (members : List (String × α)) : Prop :=
  members.Pairwise fun a b => a.1 ≠ b.1 ∧ precedes b.1 a.1 = false

/-- Members with one put in: over the old value of its key, or else behind all
members that come first. -/
def insertMember {α : Type} (key : String) (value : α) : List (String × α) → List (String × α)
  | [] => [(key, value)]
  | (k, v) :: rest =>
    if k = key then (key, value) :: rest
    else if precedes key k then (key, value) :: (k, v) :: rest
    else (k, v) :: insertMember key value rest

/-! ### The order of keys -/

theorem precedes_trans {a b c : String} (hab : precedes a b = true)
    (hbc : precedes c b = false) : precedes c a = false := by
  simp only [precedes] at *
  cases ha : indexKey? a <;> cases hb : indexKey? b <;> cases hc : indexKey? c <;>
    simp_all
  omega

theorem mem_insertMember {α : Type} {key : String} {value : α} {members : List (String × α)}
    {m : String × α} (h : m ∈ insertMember key value members) :
    m = (key, value) ∨ m ∈ members := by
  induction members with
  | nil => simp_all [insertMember]
  | cons head rest ih =>
    obtain ⟨k, v⟩ := head
    simp only [insertMember] at h
    split at h
    · rcases List.mem_cons.1 h with h | h
      · exact .inl h
      · exact .inr (List.mem_cons_of_mem _ h)
    · split at h
      · rcases List.mem_cons.1 h with h | h
        · exact .inl h
        · exact .inr h
      · rcases List.mem_cons.1 h with h | h
        · exact .inr (h ▸ List.mem_cons_self)
        · exact (ih h).imp id (List.mem_cons_of_mem _)

/-- Putting a member in keeps the order. -/
theorem ordered_insertMember {α : Type} (key : String) (value : α)
    {members : List (String × α)} (h : Ordered members) :
    Ordered (insertMember key value members) := by
  induction members with
  | nil => exact List.pairwise_singleton _ _
  | cons head rest ih =>
    obtain ⟨k, v⟩ := head
    have hcons := List.pairwise_cons.1 h
    simp only [insertMember]
    split
    · rename_i hk
      subst hk
      exact List.pairwise_cons.2 ⟨fun b hb => hcons.1 b hb, hcons.2⟩
    · rename_i hk
      split
      · rename_i hp
        refine List.pairwise_cons.2 ⟨fun b hb => ?_, h⟩
        rcases List.mem_cons.1 hb with rfl | hb
        · refine ⟨fun e => hk e.symm, ?_⟩
          simp only [precedes] at *
          cases hkey : indexKey? key <;> cases hk' : indexKey? k <;> simp_all
          omega
        · have hbk := hcons.1 b hb
          refine ⟨?_, precedes_trans hp hbk.2⟩
          intro e
          simp only at e
          rw [← e, hp] at hbk
          simp at hbk
      · rename_i hp
        refine List.pairwise_cons.2 ⟨fun b hb => ?_, ih hcons.2⟩
        rcases mem_insertMember hb with rfl | hb
        · exact ⟨hk, by simpa using hp⟩
        · exact hcons.1 b hb

/-! ### Records -/

/-- A record: members in order, each key once. -/
structure Record (α : Type) where
  members : List (String × α)
  ordered : Ordered members
  deriving DecidableEq

namespace Record

variable {α : Type}

/-- The record without members. -/
def empty : Record α := ⟨[], List.Pairwise.nil⟩

instance : Inhabited (Record α) := ⟨empty⟩

/-- A record with a member put in. -/
def insert (r : Record α) (key : String) (value : α) : Record α :=
  ⟨insertMember key value r.members, ordered_insertMember key value r.ordered⟩

/-- The record of some members; of two with one key the first gives the place and
the last the value. -/
def ofList (members : List (String × α)) : Record α :=
  members.foldl (fun r m => r.insert m.1 m.2) empty

/-- The value of a key. -/
def get? (r : Record α) (key : String) : Option α :=
  r.members.lookup key

/-- The keys, in order. -/
def keys (r : Record α) : List String :=
  r.members.map Prod.fst

/-- No members. -/
def isEmpty (r : Record α) : Bool :=
  r.members.isEmpty

end Record

end Wayside.Json
