/-
# One route among the arguments

A list of arguments is cut into items: flags, each with the value behind it if it takes one, and
bare arguments, which are neither. What is asked for is put together item by item. The route is the
last bare argument, and all before it have to be empty: an empty argument does not count as a route
that is given already.

* `items`, `bareArguments` — the items of a list of arguments.
* `add_eq_ok_iff`, `foldlM_add_eq_ok_iff` — what one item and what all items ask for.
* `parseArguments_eq_ok_iff` — the lists of arguments that can be read, and as what.
* `items_flatMap_arguments`, `foldl_put_perm` — distinct flags and the route can be given in any
  order.
* `parseArguments_oneRoute` — reading arguments as a whole.
-/

import Mathlib.Data.List.Nodup
import Mathlib.Data.List.Pairwise
import Mathlib.Data.List.Perm.Basic
import Wayside.Cli.Command
import Wayside.Proofs.Outcome

namespace Wayside.Cli

open Numeric

/-! ### Items -/

/-- A part of a list of arguments. -/
inductive Item where
  | set (flag : ValueFlag) (value : String)
  /-- A flag at the end, with no value behind it. -/
  | unset (flag : ValueFlag)
  | force
  | noCache
  | help (flag : String)
  /-- An argument that is neither a flag nor the value of one. -/
  | bare (argument : String)
  deriving DecidableEq

/-- The item that an argument is which takes no value. -/
def Item.ofArgument (argument : String) : Item :=
  if argument = forceFlag then .force
  else if argument = noCacheFlag then .noCache
  else if helpFlags.contains argument then .help argument
  else .bare argument

/-- The items of a list of arguments. A flag that takes a value takes the argument behind it,
whatever that looks like. -/
def items : List String → List Item
  | [] => []
  | argument :: rest =>
    match ValueFlag.ofText? argument, rest with
    | .none, rest => .ofArgument argument :: items rest
    | some flag, [] => [.unset flag]
    | some flag, value :: rest => .set flag value :: items rest

/-- The arguments of an item. -/
def Item.arguments : Item → List String
  | .set flag value => [flag.text, value]
  | .unset flag => [flag.text]
  | .force => [forceFlag]
  | .noCache => [noCacheFlag]
  | .help flag => [flag]
  | .bare argument => [argument]

/-- The argument of a bare item. -/
def Item.bare? : Item → Option String
  | .bare argument => some argument
  | _ => none

/-- The flag that an item sets to a value. -/
def Item.flag? : Item → Option ValueFlag
  | .set flag _ => some flag
  | _ => none

/-- The arguments that are neither flags nor values of flags. -/
def bareArguments (arguments : List String) : List String :=
  (items arguments).filterMap Item.bare?

/-- The flags without a value. -/
def switches : List String := [forceFlag, noCacheFlag] ++ helpFlags

/-- The arguments that are flags wherever no value is due. -/
def flags : List String := ValueFlag.all.map ValueFlag.text ++ switches

theorem ValueFlag.text_of_ofText? {argument : String} {flag : ValueFlag}
    (found : ofText? argument = some flag) : flag.text = argument := by
  have same := List.find?_some found
  exact eq_of_beq same

theorem Item.arguments_ofArgument (argument : String) :
    (Item.ofArgument argument).arguments = [argument] := by
  unfold ofArgument
  split
  · rename_i same
    rw [same]; rfl
  · split
    · rename_i same
      rw [same]; rfl
    · split <;> rfl

/-- Each argument is in one item, and the items are in the order of the arguments. -/
theorem flatMap_arguments_items (arguments : List String) :
    (items arguments).flatMap Item.arguments = arguments := by
  fun_induction items arguments with
  | case1 => rfl
  | case2 argument rest _ ih =>
    rw [List.flatMap_cons, Item.arguments_ofArgument, ih]
    rfl
  | case3 argument flag found =>
    rw [List.flatMap_singleton, Item.arguments, ValueFlag.text_of_ofText? found]
  | case4 argument flag value rest found ih =>
    rw [List.flatMap_cons, ih, Item.arguments, ValueFlag.text_of_ofText? found]
    rfl

theorem Item.ofArgument_eq_bare_iff {argument other : String} :
    Item.ofArgument argument = .bare other ↔
      argument ∉ switches ∧ other = argument := by
  unfold ofArgument switches
  split
  · simp [*]
  · split
    · simp [*]
    · split
      · simp_all
      · simp_all [eq_comm]

theorem ValueFlag.ofText?_eq_none_iff {argument : String} :
    ofText? argument = none ↔ argument ∉ all.map text := by
  simp [ofText?, List.find?_eq_none]

/-- A bare argument is no flag. -/
theorem notMem_flags_of_mem_bareArguments {arguments : List String} {argument : String}
    (listed : argument ∈ bareArguments arguments) : argument ∉ flags := by
  unfold bareArguments at listed
  fun_induction items arguments with
  | case1 => cases listed
  | case2 first rest none ih =>
    cases item : Item.ofArgument first with
    | bare other =>
      obtain ⟨notSwitch, rfl⟩ := Item.ofArgument_eq_bare_iff.mp item
      have bare : Item.bare? (.bare other) = some other := rfl
      rw [item, List.filterMap_cons_some bare, List.mem_cons] at listed
      rcases listed with rfl | later
      · exact fun flag => (List.mem_append.mp flag).elim
          (ValueFlag.ofText?_eq_none_iff.mp none) notSwitch
      · exact ih later
    | _ =>
      rw [item, List.filterMap_cons_none rfl] at listed
      exact ih listed
  | case3 first flag found => cases listed
  | case4 first flag value rest found ih => exact ih listed

/-! ### One item more -/

/-- The number that a value is read as. -/
def numberOf (value : String) : Binary64 :=
  readNumeral (Text.trim value.toList)

/-- An item that can be asked for: a flag with a value, which is a positive number if one is
needed, or no flag that asks for help or starts like one that there is not. -/
def Item.Accepted : Item → Prop
  | .set .chunks value => (numberOf value).isFinite = true ∧ (numberOf value).isPositive = true
  | .set .radius value => (numberOf value).isFinite = true ∧ (numberOf value).isPositive = true
  | .set _ _ => True
  | .unset _ => False
  | .force => True
  | .noCache => True
  | .help _ => False
  | .bare argument => argument.toList.head? ≠ some '-'

/-- What is asked for with one item more, of which the last one counts. -/
def Arguments.put (a : Arguments) : Item → Arguments
  | .set .out value => { a with out := some value }
  | .set .chunks value => { a with chunks := numberOf value }
  | .set .radius value => { a with radius := some (numberOf value) }
  | .set .rules value => { a with rules := some value }
  | .set .classification value => { a with classification := some value }
  | .set .cacheDir value => { a with cacheDir := some value }
  | .set .endpoint value => { a with endpoint := some value }
  | .force => { a with force := true }
  | .noCache => { a with noCache := true }
  | .bare argument => { a with route := argument }
  | .unset _ => a
  | .help _ => a

/-- With an item taken in, if it can be. -/
def Arguments.add (a : Arguments) : Item → Except UsageError Arguments
  | .set flag value => a.set flag value
  | .unset flag => .error (.noValue flag)
  | .force => .ok { a with force := true }
  | .noCache => .ok { a with noCache := true }
  | .help _ => .error .help
  | .bare argument =>
    if argument.toList.head? == some '-' || a.route ≠ "" then .error (.unexpected argument)
    else .ok { a with route := argument }

variable {a b : Arguments}

theorem take_eq (a : Arguments) (argument : String) :
    a.take argument = a.add (.ofArgument argument) := by
  unfold Arguments.take Item.ofArgument
  split
  · rfl
  · split
    · rfl
    · split
      · rfl
      · rfl

/-- Arguments are taken in item by item. -/
theorem takeAll_eq (a : Arguments) (arguments : List String) :
    a.takeAll arguments = (items arguments).foldlM Arguments.add a := by
  fun_induction items arguments generalizing a with
  | case1 => rfl
  | case2 argument rest none ih =>
    unfold Arguments.takeAll
    rw [none, List.foldlM_cons, ← take_eq]
    exact bind_congr ih
  | case3 argument flag found =>
    unfold Arguments.takeAll
    rw [found]
    rfl
  | case4 argument flag value rest found ih =>
    unfold Arguments.takeAll
    rw [found, List.foldlM_cons]
    exact bind_congr ih

/-- A flag that needs a positive number sets what the number makes of the arguments. -/
theorem map_positiveNumber_eq_ok_iff {flag : ValueFlag} {value : String}
    {change : Binary64 → Arguments} :
    (positiveNumber flag value).map change = .ok b ↔
      ((numberOf value).isFinite = true ∧ (numberOf value).isPositive = true) ∧
        change (numberOf value) = b := by
  rw [positiveNumber, ← numberOf, ← Bool.and_eq_true]
  by_cases good : ((numberOf value).isFinite && (numberOf value).isPositive) = true
  · simp only [good, if_true, Except.map, Except.ok.injEq, true_and]
  · simp only [good, if_false, Except.map, reduceCtorEq, false_and]

/-- A flag can be set to a value that is accepted. -/
theorem set_eq_ok_iff {flag : ValueFlag} {value : String} :
    a.set flag value = .ok b ↔ (Item.set flag value).Accepted ∧ a.put (.set flag value) = b := by
  cases flag with
  | chunks => exact map_positiveNumber_eq_ok_iff
  | radius => exact map_positiveNumber_eq_ok_iff
  | _ => simp [Arguments.set, Item.Accepted, Arguments.put]

/-- An item can be taken in if it is accepted by itself and, if it is bare, no route is given. -/
theorem add_eq_ok_iff {item : Item} :
    a.add item = .ok b ↔
      item.Accepted ∧ (item.bare?.isSome = true → a.route = "") ∧ a.put item = b := by
  cases item with
  | set flag value => simp [Arguments.add, set_eq_ok_iff, Item.bare?]
  | unset flag => simp [Arguments.add, Item.Accepted]
  | force => simp [Arguments.add, Item.Accepted, Item.bare?, Arguments.put]
  | noCache => simp [Arguments.add, Item.Accepted, Item.bare?, Arguments.put]
  | help flag => simp [Arguments.add, Item.Accepted]
  | bare argument =>
    simp only [Arguments.add, Item.Accepted, Item.bare?, Arguments.put]
    split
    · rename_i refused
      simp only [Bool.or_eq_true, beq_iff_eq, decide_eq_true_eq] at refused
      constructor
      · exact nofun
      · rintro ⟨noFlag, free, -⟩
        exact (refused.resolve_left noFlag (free rfl)).elim
    · simp_all

/-- An item that is accepted is the first one of its arguments with others behind them. -/
theorem items_arguments_append {arguments : List String} {item : Item}
    (listed : item ∈ items arguments) (accepted : item.Accepted) (rest : List String) :
    items (item.arguments ++ rest) = item :: items rest := by
  fun_induction items arguments with
  | case1 => cases listed
  | case2 argument others none ih =>
    rcases List.mem_cons.mp listed with rfl | later
    · rw [Item.arguments_ofArgument, List.singleton_append, items]
      exact none
    · exact ih later
  | case3 argument flag found =>
    rw [List.mem_singleton.mp listed] at accepted
    exact accepted.elim
  | case4 argument flag value others found ih =>
    rcases List.mem_cons.mp listed with rfl | later
    · simp [Item.arguments, ValueFlag.text_of_ofText? found, items, found]
    · exact ih later

/-- Items that are accepted are those of their arguments, in any order and number. -/
theorem items_flatMap_arguments {arguments : List String} {list : List Item}
    (each : ∀ item ∈ list, item ∈ items arguments ∧ item.Accepted) :
    items (list.flatMap Item.arguments) = list := by
  induction list with
  | nil => rfl
  | cons item rest ih =>
    obtain ⟨⟨listed, accepted⟩, others⟩ := List.forall_mem_cons.mp each
    rw [List.flatMap_cons, items_arguments_append listed accepted, ih others]

/-! ### All items -/

/-- The route that is asked for with one item more. -/
theorem route_put (a : Arguments) (item : Item) :
    (a.put item).route = item.bare?.getD a.route := by
  cases item with
  | set flag value => cases flag <;> rfl
  | _ => rfl

/-- The route is the last bare argument. -/
theorem route_foldl_put (a : Arguments) (list : List Item) :
    (list.foldl Arguments.put a).route =
      (a.route :: list.filterMap Item.bare?).getLast (List.cons_ne_nil _ _) := by
  induction list generalizing a with
  | nil => rfl
  | cons item rest ih =>
    rw [List.foldl_cons, ih, route_put]
    cases bare : item.bare? with
    | none => simp [List.filterMap_cons_none bare]
    | some argument => simp [List.filterMap_cons_some bare]

/-- Items can be taken in one after another if each is accepted by itself and all routes but the
last are empty. -/
theorem foldlM_add_eq_ok_iff {list : List Item} :
    list.foldlM Arguments.add a = .ok b ↔
      (∀ item ∈ list, item.Accepted) ∧
        (∀ route ∈ (a.route :: list.filterMap Item.bare?).dropLast, route = "") ∧
        list.foldl Arguments.put a = b := by
  induction list generalizing a with
  | nil => simp [pure, Except.pure]
  | cons item rest ih =>
    rw [List.foldlM_cons, bind_eq_ok_iff]
    simp only [add_eq_ok_iff, ih, List.foldl_cons, List.forall_mem_cons]
    cases bare : item.bare? with
    | none =>
      rw [List.filterMap_cons_none bare]
      constructor
      · rintro ⟨c, ⟨accepted, -, rfl⟩, others, routes, asked⟩
        rw [route_put, bare, Option.getD_none] at routes
        exact ⟨⟨accepted, others⟩, routes, asked⟩
      · rintro ⟨⟨accepted, others⟩, routes, asked⟩
        refine ⟨_, ⟨accepted, nofun, rfl⟩, others, ?_, asked⟩
        rwa [route_put, bare, Option.getD_none]
    | some argument =>
      rw [List.filterMap_cons_some bare, List.dropLast_cons_of_ne_nil (List.cons_ne_nil _ _),
        List.forall_mem_cons]
      constructor
      · rintro ⟨c, ⟨accepted, free, rfl⟩, others, routes, asked⟩
        rw [route_put, bare, Option.getD_some] at routes
        exact ⟨⟨accepted, others⟩, ⟨free rfl, routes⟩, asked⟩
      · rintro ⟨⟨accepted, others⟩, ⟨free, routes⟩, asked⟩
        refine ⟨_, ⟨accepted, fun _ => free, rfl⟩, others, ?_, asked⟩
        rwa [route_put, bare, Option.getD_some]

/-! ### Whole lists -/

/-- All routes but the last are empty, and the last is not. -/
theorem emptyBefore_iff {routes : List String} {route : String} (given : route ≠ "") :
    ((∀ r ∈ ("" :: routes).dropLast, r = "") ∧
      ("" :: routes).getLast (List.cons_ne_nil _ _) = route) ↔
      ∃ n, routes = List.replicate n "" ++ [route] := by
  constructor
  · rintro ⟨empty, last⟩
    cases routes with
    | nil => exact absurd last.symm given
    | cons first rest =>
      have some : first :: rest ≠ [] := List.cons_ne_nil _ _
      rw [List.dropLast_cons_of_ne_nil some, List.forall_mem_cons] at empty
      rw [List.getLast_cons some] at last
      refine ⟨(first :: rest).dropLast.length, ?_⟩
      rw [← List.eq_replicate_iff.mpr ⟨rfl, empty.2⟩, ← last, List.dropLast_append_getLast]
  · rintro ⟨n, rfl⟩
    simp only [← List.cons_append, List.dropLast_concat, List.getLast_concat, and_true]
    exact List.forall_mem_cons.mpr ⟨rfl, fun _ => List.eq_of_mem_replicate⟩

/-- What has been taken in can be returned if it has a route and a whole number of chunks. -/
theorem parseArguments_eq_ok_iff_takeAll {arguments : List String} :
    parseArguments arguments = .ok a ↔
      Arguments.none.takeAll arguments = .ok a ∧ a.route ≠ "" ∧ a.chunks.toInt?.isSome = true := by
  unfold parseArguments
  cases Arguments.none.takeAll arguments with
  | error e => simp [bind, Except.bind]
  | ok b =>
    simp only [bind, Except.bind, pure, Except.pure, throw, throwThe, MonadExceptOf.throw]
    split
    · rename_i none
      refine ⟨nofun, ?_⟩
      rintro ⟨⟨⟩, given, -⟩
      exact absurd none given
    · rename_i given
      split
      · rename_i part
        refine ⟨nofun, ?_⟩
        rintro ⟨⟨⟩, -, whole⟩
        rw [Option.isNone_iff_eq_none.mp part] at whole
        cases whole
      · rename_i whole
        refine ⟨?_, And.left⟩
        rintro ⟨⟩
        exact ⟨rfl, given, by simpa [Option.isSome_iff_ne_none] using whole⟩

/-- The arguments that can be read: all items are accepted, all routes but the last are empty, and
the number of chunks is whole. Of a flag that is given twice the last value counts. -/
theorem parseArguments_eq_ok_iff {arguments : List String} :
    parseArguments arguments = .ok a ↔
      (∀ item ∈ items arguments, item.Accepted) ∧
        (∃ n, bareArguments arguments = List.replicate n "" ++ [a.route]) ∧ a.route ≠ "" ∧
        a.chunks.toInt?.isSome = true ∧ (items arguments).foldl Arguments.put .none = a := by
  rw [parseArguments_eq_ok_iff_takeAll, takeAll_eq, foldlM_add_eq_ok_iff]
  constructor
  · rintro ⟨⟨accepted, empty, rfl⟩, given, whole⟩
    exact ⟨accepted, (emptyBefore_iff given).mp ⟨empty, (route_foldl_put .none _).symm⟩, given,
      whole, rfl⟩
  · rintro ⟨accepted, routes, given, whole, asked⟩
    exact ⟨⟨accepted, ((emptyBefore_iff given).mpr routes).1, asked⟩, given, whole⟩

/-! ### Any order -/

/-- Two items that can change places: not one flag twice, and not two bare arguments. -/
def Item.Apart (x y : Item) : Prop :=
  (∀ flag, x.flag? = some flag → y.flag? ≠ some flag) ∧ (x.bare? = none ∨ y.bare? = none)

theorem put_comm {x y : Item} (apart : x.Apart y) (a : Arguments) :
    (a.put x).put y = (a.put y).put x := by
  obtain ⟨flags, bares⟩ := apart
  cases x with
  | set flag value =>
    cases y with
    | set other value' =>
      have differ : flag ≠ other := fun same => flags flag rfl (congrArg some same.symm)
      cases flag <;> cases other <;> first | exact absurd rfl differ | rfl
    | _ => cases flag <;> rfl
  | bare argument =>
    cases y with
    | set flag value => cases flag <;> rfl
    | bare other => exact absurd bares (by simp [Item.bare?])
    | _ => rfl
  | _ =>
    cases y with
    | set flag value => cases flag <;> rfl
    | _ => rfl

instance : Std.Symm Item.Apart where
  symm _ _ apart := ⟨fun flag first second => apart.1 flag second first, apart.2.symm⟩

/-- With distinct flags and at most one bare argument, all items can change places. -/
theorem pairwise_apart {list : List Item} (distinct : (list.filterMap Item.flag?).Nodup)
    (single : (list.filterMap Item.bare?).length ≤ 1) : list.Pairwise Item.Apart := by
  have noTwo : (list.filterMap Item.bare?).Pairwise fun _ _ => False := by
    generalize list.filterMap Item.bare? = bares at single
    match bares with
    | [] => exact .nil
    | [_] => exact List.pairwise_singleton _ _
  have flags := List.pairwise_filterMap.mp distinct
  have bares := List.pairwise_filterMap.mp noTwo
  refine (flags.and bares).imp fun {x y} ⟨differ, notBoth⟩ => ⟨fun flag hx hy => ?_, ?_⟩
  · exact differ flag hx flag hy rfl
  · cases hx : x.bare? with
    | none => exact .inl rfl
    | some argument => exact .inr (Option.eq_none_iff_forall_ne_some.mpr (notBoth argument hx))

/-- Distinct flags and at most one route ask for the same in any order. -/
theorem foldl_put_perm {list list' : List Item} (perm : list.Perm list')
    (distinct : (list.filterMap Item.flag?).Nodup)
    (single : (list.filterMap Item.bare?).length ≤ 1) (a : Arguments) :
    list.foldl Arguments.put a = list'.foldl Arguments.put a := by
  refine perm.foldl_eq' (fun x hx y hy b => ?_) a
  by_cases same : x = y
  · rw [same]
  · exact put_comm ((pairwise_apart distinct single).forall hx hy same) b

/-- The route is the only bare argument if none is empty. -/
theorem bareArguments_eq_singleton_iff {arguments : List String}
    (read : parseArguments arguments = .ok a) :
    bareArguments arguments = [a.route] ↔ "" ∉ bareArguments arguments := by
  obtain ⟨-, ⟨n, bares⟩, given, -⟩ := parseArguments_eq_ok_iff.mp read
  rw [bares]
  cases n with
  | zero => exact ⟨fun _ => by simpa using given.symm, fun _ => rfl⟩
  | succ n => simp [List.replicate_succ]

/-- Distinct flags and one route are read as the same in any order. -/
theorem parseArguments_perm {arguments : List String} {list : List Item}
    (read : parseArguments arguments = .ok a) (perm : (items arguments).Perm list)
    (distinct : ((items arguments).filterMap Item.flag?).Nodup)
    (given : "" ∉ bareArguments arguments) :
    parseArguments (list.flatMap Item.arguments) = .ok a := by
  have only := (bareArguments_eq_singleton_iff read).mpr given
  obtain ⟨accepted, routes, notEmpty, whole, asked⟩ := parseArguments_eq_ok_iff.mp read
  have cut : items (list.flatMap Item.arguments) = list :=
    items_flatMap_arguments fun item listed =>
      ⟨perm.mem_iff.mpr listed, accepted item (perm.mem_iff.mpr listed)⟩
  have bares : list.filterMap Item.bare? = bareArguments arguments := by
    have moved : (list.filterMap Item.bare?).Perm (bareArguments arguments) :=
      perm.symm.filterMap Item.bare?
    rw [only] at moved ⊢
    exact List.perm_singleton.mp moved
  have same := foldl_put_perm perm distinct (Nat.le_of_eq (congrArg List.length only)) .none
  rw [parseArguments_eq_ok_iff, bareArguments, cut, bares, ← same]
  exact ⟨fun item listed => accepted item (perm.mem_iff.mpr listed), routes, notEmpty, whole, asked⟩

/-! ### The command -/

/-- The command says how it is used, perhaps behind a reason, ends with 1 and does nothing else. -/
def EndsInUsage (s : Surroundings) (arguments : List String) : Prop :=
  ∃ reason, runCommand s arguments = ⟨1, [], reason ++ [usage], [], s.files⟩

theorem endsInUsage_of_error {arguments : List String} {e : UsageError}
    (refused : parseArguments arguments = .error e) (s : Surroundings) :
    EndsInUsage s arguments :=
  ⟨e.message.toList, by simp only [runCommand, refused]⟩

/-- Without a route that is the last bare argument and the only one that is not empty, the command
says how it is used. -/
theorem endsInUsage_of_noRoute {arguments : List String}
    (none : ∀ n route, bareArguments arguments = List.replicate n "" ++ [route] → route = "")
    (s : Surroundings) : EndsInUsage s arguments := by
  cases read : parseArguments arguments with
  | error e => exact endsInUsage_of_error read s
  | ok a =>
    obtain ⟨-, ⟨n, bares⟩, given, -⟩ := parseArguments_eq_ok_iff.mp read
    exact absurd (none n a.route bares) given

/-- **One route among the arguments.** Each argument is in one item, and no bare argument is a
flag. The arguments can be read exactly if all items are accepted, the number of chunks is whole
and there is a route, behind which there is no bare argument and before which there are none but
empty ones. So the route is the only bare argument exactly if none is empty, and with any other
bare arguments the command says how it is used. Distinct flags, each with its value, and the route
are read as the same in any order. -/
theorem parseArguments_oneRoute (arguments : List String) :
    (items arguments).flatMap Item.arguments = arguments ∧
    (∀ argument ∈ bareArguments arguments, argument ∉ flags) ∧
    (∀ a, parseArguments arguments = .ok a ↔
      (∀ item ∈ items arguments, item.Accepted) ∧
        (∃ n, bareArguments arguments = List.replicate n "" ++ [a.route]) ∧ a.route ≠ "" ∧
        a.chunks.toInt?.isSome = true ∧ (items arguments).foldl Arguments.put .none = a) ∧
    (∀ a, parseArguments arguments = .ok a →
      (bareArguments arguments = [a.route] ↔ "" ∉ bareArguments arguments)) ∧
    ((∀ n route, bareArguments arguments = List.replicate n "" ++ [route] → route = "") →
      ∀ s, EndsInUsage s arguments) ∧
    ∀ a, parseArguments arguments = .ok a → ∀ list, (items arguments).Perm list →
      ((items arguments).filterMap Item.flag?).Nodup → "" ∉ bareArguments arguments →
        parseArguments (list.flatMap Item.arguments) = .ok a := by
  exact ⟨flatMap_arguments_items arguments, fun _ => notMem_flags_of_mem_bareArguments,
    fun _ => parseArguments_eq_ok_iff, fun _ => bareArguments_eq_singleton_iff,
    endsInUsage_of_noRoute, fun _ read _ => parseArguments_perm read⟩

/-- Two bare arguments, of which the first is empty, are read as the second. -/
theorem parseArguments_emptyBeforeRoute :
    bareArguments ["", "route.gpx"] = ["", "route.gpx"] ∧
      parseArguments ["", "route.gpx"] = .ok { Arguments.none with route := "route.gpx" } := by
  decide +kernel

/-- A value that looks like a flag, and the same flags in another order. -/
theorem parseArguments_oneRoute_flagAsValue :
    let arguments := ["--out", "--force", "ride.gpx", "--radius", "50", "--no-cache"]
    let a : Arguments := { Arguments.none with
      route := "ride.gpx", out := some "--force", radius := some (.ofNat 50), noCache := true }
    parseArguments arguments = .ok a ∧
      bareArguments arguments = ["ride.gpx"] ∧ "" ∉ bareArguments arguments ∧
      ((items arguments).filterMap Item.flag?).Nodup ∧
      parseArguments ["--no-cache", "--radius", "50", "ride.gpx", "--out", "--force"] = .ok a ∧
      bareArguments ("early.gpx" :: arguments) = ["early.gpx", "ride.gpx"] ∧
      ∀ s, EndsInUsage s ("early.gpx" :: arguments) := by
  intro arguments a
  obtain ⟨-, -, -, single, -, order⟩ := parseArguments_oneRoute arguments
  obtain ⟨-, -, -, -, usage, -⟩ := parseArguments_oneRoute ("early.gpx" :: arguments)
  have read : parseArguments arguments = .ok a := by decide +kernel
  have only : bareArguments arguments = ["ride.gpx"] := by decide +kernel
  have given : "" ∉ bareArguments arguments := (single a read).mp only
  have distinct : ((items arguments).filterMap Item.flag?).Nodup := by decide +kernel
  have two : bareArguments ("early.gpx" :: arguments) = ["early.gpx", "ride.gpx"] := by
    decide +kernel
  have neither : ∀ n route, ["early.gpx", "ride.gpx"] = List.replicate n "" ++ [route] →
      route = "" := by
    intro n route same
    cases n with
    | zero => simp at same
    | succ n => simp [List.replicate_succ] at same
  exact ⟨read, only, given, distinct,
    order a read (items arguments).reverse (List.reverse_perm _).symm distinct given, two,
    usage (two ▸ neither)⟩

end Wayside.Cli
