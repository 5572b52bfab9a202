/-
# Looking up in records

What a record has for a key is the value that was put in last for it, wherever the key is
listed.

* `Record.get?_insert` — what is there after a member has been put in.
* `lookup_eq_some_iff` — with each key once, looking up is a matter of membership.
* `Record.get?_ofList` — the record of some members, each key once.
* `Extends` — members with others added to them; `Extends.get?_ofList`.
* `Record.ofList_members` — the members of a record make the record.
* `Record.map`, `Record.ofList_map` — a record with other values.
* `Record.ofList_perm` — the record of some members, each key once, has these members.
* `Record.members_perm` — records with the same values have the same members.
-/

import Mathlib.Data.List.Nodup
import Wayside.Json.Record

namespace Wayside.Json

variable {α : Type}

theorem lookup_member (key : String) (member : String × α) (rest : List (String × α)) :
    (member :: rest).lookup key = if key = member.1 then some member.2 else rest.lookup key := by
  rw [List.lookup_cons]
  by_cases here : key = member.1
  · simp [here]
  · simp [beq_false_of_ne here, here]

theorem lookup_insertMember (key : String) (value : α) (members : List (String × α))
    (other : String) :
    (insertMember key value members).lookup other =
      if other = key then some value else members.lookup other := by
  induction members with
  | nil => simp [insertMember, lookup_member]
  | cons member rest ih =>
    obtain ⟨k, v⟩ := member
    by_cases found : k = key
    · subst found
      by_cases same : other = k <;> simp [insertMember, lookup_member, same]
    · rw [insertMember, if_neg found]
      by_cases first : precedes key k = true
      · simp [first, lookup_member]
      · rw [if_neg first, lookup_member, ih, lookup_member]
        by_cases here : other = k
        · subst here
          simp [found]
        · simp [here]

theorem lookup_map {β : Type} (f : α → β) (members : List (String × α)) (key : String) :
    (members.map fun m => (m.1, f m.2)).lookup key = (members.lookup key).map f := by
  induction members with
  | nil => rfl
  | cons member rest ih =>
    rw [List.map_cons, lookup_member, lookup_member, ih]
    split <;> rfl

/-- With each key once, the value of a key is the one that is listed with it. -/
theorem lookup_eq_some_iff {members : List (String × α)} (distinct : (members.map Prod.fst).Nodup)
    {key : String} {value : α} : members.lookup key = some value ↔ (key, value) ∈ members := by
  induction members with
  | nil => simp
  | cons member rest ih =>
    obtain ⟨k, v⟩ := member
    obtain ⟨new, distinct⟩ := List.nodup_cons.mp distinct
    by_cases here : key = k
    · subst here
      have none : (key, value) ∉ rest := fun later => new (List.mem_map.mpr ⟨_, later, rfl⟩)
      simp [none, eq_comm]
    · simp [lookup_member, here, ih distinct]

/-- With each key once, it does not matter where a key is listed. -/
theorem lookup_perm {members members' : List (String × α)} (perm : members.Perm members')
    (distinct : (members.map Prod.fst).Nodup) (key : String) :
    members.lookup key = members'.lookup key := by
  have distinct' := (perm.map Prod.fst).nodup_iff.mp distinct
  ext value
  rw [lookup_eq_some_iff distinct, lookup_eq_some_iff distinct', perm.mem_iff]

/-- What is listed with a key, whenever it is listed, is the value of the key. -/
theorem lookup_eq_of_only {members : List (String × α)} {key : String} {value : α}
    (listed : (key, value) ∈ members) (only : ∀ m ∈ members, m.1 = key → m.2 = value) :
    members.lookup key = some value := by
  induction members with
  | nil => cases listed
  | cons member rest ih =>
    rw [lookup_member]
    split
    · rename_i here
      rw [only member List.mem_cons_self here.symm]
    · rename_i other
      refine ih ?_ fun m there => only m (List.mem_cons_of_mem _ there)
      exact (List.mem_cons.mp listed).resolve_left fun same => other (congrArg Prod.fst same)

/-- Members with any others added to them, at any place, under names that are not among the
given ones. -/
def Extends (names : List String) (base members : List (String × α)) : Prop :=
  ∃ extra, members.Perm (base ++ extra) ∧ ∀ m ∈ extra, m.1 ∉ names

/-! ### Looking up in records -/

namespace Record

@[simp]
theorem get?_insert (r : Record α) (key : String) (value : α) (other : String) :
    (r.insert key value).get? other = if other = key then some value else r.get? other :=
  lookup_insertMember key value r.members other

theorem get?_foldl_insert (members : List (String × α)) (r : Record α) (key : String) :
    (members.foldl (fun r m => r.insert m.1 m.2) r).get? key =
      (members.reverse.lookup key).or (r.get? key) := by
  induction members generalizing r with
  | nil => rfl
  | cons member rest ih =>
    obtain ⟨k, v⟩ := member
    rw [List.foldl_cons, ih, get?_insert, List.reverse_cons, List.lookup_append, Option.or_assoc]
    by_cases here : key = k <;> simp [lookup_member, here]

theorem get?_ofList_eq (members : List (String × α)) (key : String) :
    (ofList members).get? key = members.reverse.lookup key := by
  rw [ofList, get?_foldl_insert]
  exact Option.or_none

/-- The record of some members, each key once, has what they have. -/
theorem get?_ofList {members : List (String × α)} (distinct : (members.map Prod.fst).Nodup)
    (key : String) : (ofList members).get? key = members.lookup key := by
  rw [get?_ofList_eq, lookup_perm members.reverse_perm.symm distinct]

end Record

/-- Under the given names, members have what they had before others were added. -/
theorem Extends.get?_ofList {names : List String} {base members : List (String × α)}
    (extends_base : Extends names base members) (distinct : (base.map Prod.fst).Nodup)
    {key : String} (own : key ∈ names) :
    (Record.ofList members).get? key = base.lookup key := by
  obtain ⟨extra, perm, others⟩ := extends_base
  have from_base : ∀ m ∈ members.reverse, m.1 = key → m ∈ base := by
    rintro m listed rfl
    rcases List.mem_append.mp (perm.mem_iff.mp (List.mem_reverse.mp listed)) with kept | added
    · exact kept
    · exact absurd own (others m added)
  rw [Record.get?_ofList_eq]
  cases there : base.lookup key with
  | none =>
    rw [List.lookup_eq_none_iff] at there ⊢
    intro m listed
    rw [bne_iff_ne]
    intro here
    exact bne_iff_ne.mp (there m (from_base m listed here.symm)) here
  | some value =>
    have kept := (lookup_eq_some_iff distinct).mp there
    refine lookup_eq_of_only ?_ fun m listed here => ?_
    · exact List.mem_reverse.mpr (perm.mem_iff.mpr (List.mem_append_left _ kept))
    · have value_m : base.lookup key = some m.2 :=
        (lookup_eq_some_iff distinct).mpr (here ▸ from_base m listed here)
      rw [there] at value_m
      exact (Option.some.inj value_m).symm

/-! ### The members of a record -/

theorem insertMember_last {key : String} {value : α} {members : List (String × α)}
    (behind : ∀ m ∈ members, m.1 ≠ key ∧ precedes key m.1 = false) :
    insertMember key value members = members ++ [(key, value)] := by
  induction members with
  | nil => rfl
  | cons member rest ih =>
    obtain ⟨other, later⟩ := behind member List.mem_cons_self
    rw [insertMember, if_neg other, later, if_neg Bool.false_ne_true,
      ih fun m there => behind m (List.mem_cons_of_mem _ there)]
    rfl

namespace Record

theorem members_foldl_insert (members : List (String × α)) (r : Record α)
    (ordered : Ordered (r.members ++ members)) :
    (members.foldl (fun r m => r.insert m.1 m.2) r).members = r.members ++ members := by
  induction members generalizing r with
  | nil => exact (List.append_nil _).symm
  | cons member rest ih =>
    have behind : ∀ m ∈ r.members, m.1 ≠ member.1 ∧ precedes member.1 m.1 = false :=
      fun m there => (List.pairwise_append.mp ordered).2.2 m there member List.mem_cons_self
    have inserted : (r.insert member.1 member.2).members = r.members ++ [member] :=
      insertMember_last behind
    rw [List.foldl_cons, ih _ (by simpa [inserted] using ordered), inserted]
    simp

/-- The members of a record make the record. -/
theorem ofList_members (r : Record α) : ofList r.members = r := by
  have same : (ofList r.members).members = r.members :=
    members_foldl_insert r.members empty r.ordered
  generalize ofList r.members = s at same ⊢
  cases s
  cases r
  cases same
  rfl

theorem mem_of_mem_ofList {members : List (String × α)} {m : String × α}
    (listed : m ∈ (ofList members).members) : m ∈ members := by
  have from_either : ∀ (members : List (String × α)) (r : Record α),
      m ∈ (members.foldl (fun r m => r.insert m.1 m.2) r).members →
        m ∈ members ∨ m ∈ r.members := by
    intro members
    induction members with
    | nil => exact fun r listed => .inr listed
    | cons member rest ih =>
      intro r listed
      rcases ih _ listed with later | before
      · exact .inl (List.mem_cons_of_mem _ later)
      · rcases mem_insertMember before with rfl | before
        · exact .inl List.mem_cons_self
        · exact .inr before
  exact (from_either members empty listed).resolve_right List.not_mem_nil

/-- A record with something made of each of its values. -/
def map {β : Type} (f : α → β) (r : Record α) : Record β :=
  ⟨r.members.map fun m => (m.1, f m.2), by
    rw [Ordered, List.pairwise_map]
    exact r.ordered⟩

theorem eq_of_members {r r' : Record α} (same : r.members = r'.members) : r = r' := by
  cases r
  cases r'
  cases same
  rfl

variable {β : Type}

@[simp]
theorem get?_map (f : α → β) (r : Record α) (key : String) :
    (r.map f).get? key = (r.get? key).map f :=
  lookup_map f r.members key

theorem insert_map (f : α → β) (r : Record α) (key : String) (value : α) :
    (r.map f).insert key (f value) = (r.insert key value).map f := by
  have put : ∀ members : List (String × α),
      insertMember key (f value) (members.map fun m => (m.1, f m.2)) =
        (insertMember key value members).map fun m => (m.1, f m.2) := by
    intro members
    induction members with
    | nil => rfl
    | cons member rest ih =>
      simp only [List.map_cons, insertMember, ih]
      split
      · rfl
      · split <;> rfl
  exact eq_of_members (put r.members)

/-- The record of members with other values has these values. -/
theorem ofList_map (f : α → β) (members : List (String × α)) :
    ofList (members.map fun m => (m.1, f m.2)) = (ofList members).map f := by
  have from_any : ∀ r : Record α,
      (members.map fun m => (m.1, f m.2)).foldl (fun r m => r.insert m.1 m.2) (r.map f) =
        (members.foldl (fun r m => r.insert m.1 m.2) r).map f := by
    induction members with
    | nil => exact fun r => rfl
    | cons member rest ih =>
      intro r
      rw [List.map_cons, List.foldl_cons, insert_map]
      exact ih _
  exact from_any empty

/-! ### Records with the same values -/

theorem nodup_keys (r : Record α) : (r.members.map Prod.fst).Nodup :=
  List.pairwise_map.mpr (r.ordered.imp And.left)

/-- The record of some members, each key once, lists them, in some order. -/
theorem ofList_perm {members : List (String × α)} (distinct : (members.map Prod.fst).Nodup) :
    (ofList members).members.Perm members := by
  have listed : ∀ m, m ∈ (ofList members).members ↔ m ∈ members := by
    rintro ⟨key, value⟩
    rw [← lookup_eq_some_iff (ofList members).nodup_keys, ← lookup_eq_some_iff distinct]
    exact iff_of_eq (congrArg (· = some value) (get?_ofList distinct key))
  exact (List.perm_ext_iff_of_nodup (ofList members).nodup_keys.of_map distinct.of_map).mpr listed

/-- Records with the same values have the same members, in some order. -/
theorem members_perm {r r' : Record α} (same : ∀ key, r.get? key = r'.get? key) :
    r.members.Perm r'.members := by
  have listed : ∀ m, m ∈ r.members ↔ m ∈ r'.members := by
    rintro ⟨key, value⟩
    rw [← lookup_eq_some_iff r.nodup_keys, ← lookup_eq_some_iff r'.nodup_keys]
    exact iff_of_eq (congrArg (· = some value) (same key))
  exact (List.perm_ext_iff_of_nodup r.nodup_keys.of_map r'.nodup_keys.of_map).mpr listed

end Record

end Wayside.Json
