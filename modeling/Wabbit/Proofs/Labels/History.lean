import Mathlib.Data.List.Induction
import Wabbit.Label.Ledger
import Wabbit.Proofs.Names.Fresh

/-!
Histories of ledgers. Which entries are the same label, and what a label is called, is told here from
the actions alone, without a ledger: from where an entry descends, and which action renamed its label
last. Main statements: in a history that only names what is there, each entry descends from exactly one
action, which makes its label; no label bears two names, and no two labels of a supply are made with
the same name.
-/

namespace Wabbit.Ledger

variable {history actions : List Action} {action : Action} {entry origin index : Nat} {name : String}

/-- Whether an action makes a label. -/
def Action.creates : Action → Bool
  | make _ | fresh _ => true
  | _ => false

/-- Whether an action adds an entry. -/
def Action.enters : Action → Bool
  | make _ | fresh _ | share _ => true
  | _ => false

theorem Action.enters_of_creates (creates : action.creates = true) : action.enters = true := by
  cases action with
  | make | fresh => rfl
  | _ => cases creates

/-- The supply that an action adds. -/
def Action.supply? : Action → Option LabelSupply
  | addSupply supply => some supply
  | _ => none

/-- The number of entries that have been made. -/
def entered (history : List Action) : Nat := history.countP Action.enters

/-- The supplies that have been added, each as it was then. -/
def added (history : List Action) : List LabelSupply := history.filterMap Action.supply?

/-- Whether all that an action names is there after a history. -/
def Action.Finds (history : List Action) : Action → Prop
  | .share entry | .rename entry _ | .describe entry | .name entry => entry < entered history
  | .same first second | .equal first second => first < entered history ∧ second < entered history
  | .fresh index => index < (added history).length
  | .make _ | .addSupply _ | .register => True

/-- Each action names only what is there after the actions before it. -/
def Formed (actions : List Action) : Prop :=
  ∀ before action after, actions = before ++ action :: after → action.Finds before

/-- At a position a label is made. -/
def Makes (actions : List Action) (origin : Nat) : Prop :=
  ∃ action, actions[origin]? = some action ∧ action.creates = true

/-- An entry descends from the action at a position: it was made there, or it shares the label of an
entry that descends from there. -/
inductive Descends : List Action → Nat → Nat → Prop where
  | made {history : List Action} {action : Action} (creates : action.creates = true) :
      Descends (history ++ [action]) (entered history) history.length
  | shared {history : List Action} {entry origin : Nat} (old : Descends history entry origin) :
      Descends (history ++ [.share entry]) (entered history) origin
  | kept {history : List Action} {action : Action} {entry origin : Nat}
      (old : Descends history entry origin) : Descends (history ++ [action]) entry origin

/-- The name with which an action makes a label. Labels of a supply are numbered in the order of their
making, whatever happens in between. -/
def Action.given? (history : List Action) : Action → Option String
  | make name => some name
  | fresh index => (added history)[index]?.map fun supply =>
      supply.stem ++ toString (supply.next + history.count (fresh index))
  | _ => none

theorem Action.creates_of_given? (given : action.given? history = some name) :
    action.creates = true := by
  cases action with
  | make | fresh => rfl
  | _ => cases given

/-- The name with which a label was made at a position. -/
def given? (actions : List Action) (origin : Nat) : Option String :=
  actions[origin]?.bind (Action.given? (actions.take origin))

/-- Whether an action gives another name to the label that descends from a position. -/
def Action.Renames (actions : List Action) (origin : Nat) (action : Action) : Prop :=
  ∃ entry name, action = .rename entry name ∧ Descends actions entry origin

/-- The label that descends from a position bears the name of the last action that renamed any of its
entries, and the name with which it was made if there is none. -/
inductive Bears (actions : List Action) (origin : Nat) (name : String) : Prop where
  | given (made : given? actions origin = some name)
      (untouched : ∀ action ∈ actions, ¬ action.Renames actions origin)
  | renamed {before after : List Action} {entry : Nat}
      (split : actions = before ++ .rename entry name :: after)
      (member : Descends actions entry origin)
      (last : ∀ action ∈ after, ¬ action.Renames actions origin)

/-! ### Histories of one more action -/

@[simp]
theorem entered_append_singleton (history : List Action) (action : Action) :
    entered (history ++ [action]) = entered history + if action.enters then 1 else 0 := by
  simp [entered, List.countP_append, List.countP_singleton]

@[simp]
theorem added_append_singleton (history : List Action) (action : Action) :
    added (history ++ [action]) = added history ++ action.supply?.toList := by
  cases action <;> simp [added, Action.supply?]

theorem entered_le_append (history : List Action) (action : Action) :
    entered history ≤ entered (history ++ [action]) := by
  rw [entered_append_singleton]
  exact Nat.le_add_right ..

theorem formed_nil : Formed [] := by
  intro before action after split
  cases before <;> cases split

theorem formed_append_singleton :
    Formed (history ++ [action]) ↔ Formed history ∧ action.Finds history := by
  constructor
  · intro formed
    refine ⟨fun before other after split => ?_, formed history action [] rfl⟩
    exact formed before other (after ++ [action]) (by simp [split])
  · rintro ⟨formed, finds⟩ before other after split
    rcases List.eq_nil_or_concat' after with rfl | ⟨after, last, rfl⟩
    · obtain ⟨rfl, same⟩ := List.append_inj' split rfl
      cases same
      exact finds
    · rw [← List.cons_append, ← List.append_assoc] at split
      exact formed before other after (List.append_inj' split rfl).1

/-- What an action finds stays there. -/
theorem Action.Finds.append_singleton (finds : action.Finds history) (later : Action) :
    action.Finds (history ++ [later]) := by
  have grows := entered_le_append history later
  cases action with
  | make | addSupply | register => trivial
  | share | rename | describe | name => exact Nat.lt_of_lt_of_le finds grows
  | same | equal =>
    exact ⟨Nat.lt_of_lt_of_le finds.1 grows, Nat.lt_of_lt_of_le finds.2 grows⟩
  | fresh index =>
    have inside : index < (added history).length := finds
    show index < (added (history ++ [later])).length
    rw [added_append_singleton, List.length_append]
    omega

theorem Formed.finds_of_mem (formed : Formed history) (member : action ∈ history) :
    action.Finds history := by
  induction history using List.reverseRecOn with
  | nil => cases member
  | append_singleton history later ih =>
    obtain ⟨formed, finds⟩ := formed_append_singleton.mp formed
    rcases List.mem_append.mp member with old | last
    · exact (ih formed old).append_singleton later
    · cases List.mem_singleton.mp last
      exact finds.append_singleton action

/-! ### Descent -/

theorem Makes.lt (makes : Makes history origin) : origin < history.length := by
  obtain ⟨action, here, -⟩ := makes
  exact (List.getElem?_eq_some_iff.mp here).1

theorem makes_append_singleton : Makes (history ++ [action]) origin ↔
    Makes history origin ∨ action.creates = true ∧ origin = history.length := by
  constructor
  · intro makes
    rcases Nat.lt_or_ge origin history.length with old | new
    · obtain ⟨other, here, creates⟩ := makes
      rw [List.getElem?_append_left old] at here
      exact .inl ⟨other, here, creates⟩
    · have last : origin = history.length := by
        have inside := makes.lt
        simp only [List.length_append, List.length_singleton] at inside
        omega
      obtain ⟨other, here, creates⟩ := makes
      subst last
      rw [List.getElem?_concat_length, Option.some.injEq] at here
      exact .inr ⟨here ▸ creates, rfl⟩
  · rintro (⟨other, here, creates⟩ | ⟨creates, rfl⟩)
    · have inside := (List.getElem?_eq_some_iff.mp here).1
      exact ⟨other, by rw [List.getElem?_append_left inside, here], creates⟩
    · exact ⟨action, List.getElem?_concat_length, creates⟩

namespace Descends

theorem entry_lt (descends : Descends history entry origin) : entry < entered history := by
  induction descends with
  | made creates => simp [Action.enters_of_creates creates]
  | shared => simp [Action.enters]
  | @kept history action _ _ _ ih => exact Nat.lt_of_lt_of_le ih (entered_le_append history action)

theorem origin_lt (descends : Descends history entry origin) : origin < history.length := by
  induction descends with
  | made => simp
  | shared _ ih => simp [Nat.lt_succ_of_lt ih]
  | kept _ ih => simp [Nat.lt_succ_of_lt ih]

/-- One more action leaves the old entries alone, and may enter one that it makes or shares. -/
theorem append_singleton_iff :
    Descends (history ++ [action]) entry origin ↔ Descends history entry origin ∨
      entry = entered history ∧ (action.creates = true ∧ origin = history.length ∨
        ∃ shared, action = .share shared ∧ Descends history shared origin) := by
  constructor
  · intro descends
    -- The history of each constructor is found again by what stands before the last action.
    generalize whole : history ++ [action] = longer at descends
    cases descends with
    | made creates =>
      obtain ⟨rfl, last⟩ := List.append_inj' whole rfl
      cases last
      exact .inr ⟨rfl, .inl ⟨creates, rfl⟩⟩
    | shared old =>
      obtain ⟨rfl, last⟩ := List.append_inj' whole rfl
      cases last
      exact .inr ⟨rfl, .inr ⟨_, rfl, old⟩⟩
    | kept old =>
      obtain ⟨rfl, -⟩ := List.append_inj' whole rfl
      exact .inl old
  · rintro (old | ⟨rfl, ⟨creates, rfl⟩ | ⟨shared, rfl, old⟩⟩)
    · exact .kept old
    · exact .made creates
    · exact .shared old

theorem of_append_singleton (descends : Descends (history ++ [action]) entry origin)
    (old : entry < entered history) : Descends history entry origin := by
  rcases append_singleton_iff.mp descends with before | ⟨own, -⟩
  · exact before
  · exact absurd old (own ▸ Nat.lt_irrefl _)

theorem makes (descends : Descends history entry origin) : Makes history origin := by
  induction descends with
  | @made history action creates => exact makes_append_singleton.mpr (.inr ⟨creates, rfl⟩)
  | shared _ ih => exact makes_append_singleton.mpr (.inl ih)
  | kept _ ih => exact makes_append_singleton.mpr (.inl ih)

/-- An entry descends from one action. -/
theorem unique {other : Nat} (first : Descends history entry origin)
    (second : Descends history entry other) : origin = other := by
  induction first with
  | made creates =>
    rcases append_singleton_iff.mp second with old | ⟨-, ⟨-, same⟩ | ⟨_, rfl, -⟩⟩
    · exact absurd old.entry_lt (Nat.lt_irrefl _)
    · exact same.symm
    · cases creates
  | shared _ ih =>
    rcases append_singleton_iff.mp second with old | ⟨-, ⟨creates, -⟩ | ⟨_, same, old⟩⟩
    · exact absurd old.entry_lt (Nat.lt_irrefl _)
    · cases creates
    · cases same
      exact ih old
  | kept old ih =>
    -- The entry is an old one, so `second` cannot speak of what the last action has entered.
    exact ih (second.of_append_singleton old.entry_lt)

/-- Every entry descends from somewhere. -/
theorem exists_of_lt (formed : Formed history) (old : entry < entered history) :
    ∃ origin, Descends history entry origin := by
  induction history using List.reverseRecOn generalizing entry with
  | nil => cases old
  | append_singleton history action ih =>
    obtain ⟨earlier, finds⟩ := formed_append_singleton.mp formed
    rcases Nat.lt_or_ge entry (entered history) with before | new
    · obtain ⟨origin, descends⟩ := ih earlier before
      exact ⟨origin, .kept descends⟩
    · have enters : action.enters = true := by
        by_contra quiet
        rw [entered_append_singleton, if_neg quiet] at old
        omega
      have own : entry = entered history := by
        rw [entered_append_singleton, if_pos enters] at old
        omega
      subst own
      cases action with
      | make | fresh => exact ⟨_, .made rfl⟩
      | share shared =>
        obtain ⟨origin, descends⟩ := ih earlier finds
        exact ⟨origin, .shared descends⟩
      | _ => cases enters

end Descends

/-! ### Places in a history -/

/-- An action finds what it names at its place in the history. -/
theorem Formed.finds (formed : Formed actions) {place : Nat} (here : actions[place]? = some action) :
    action.Finds (actions.take place) := by
  obtain ⟨inside, rfl⟩ := List.getElem?_eq_some_iff.mp here
  refine formed _ _ (actions.drop (place + 1)) ?_
  rw [List.getElem_cons_drop, List.take_append_drop]

/-- Of what was counted before two different places, there is less before the first. -/
theorem countP_take_lt (test : Action → Bool) {place later : Nat}
    (here : actions[place]? = some action) (counted : test action = true) (behind : place < later) :
    (actions.take place).countP test < (actions.take later).countP test := by
  have own : (actions.take (place + 1)).countP test = (actions.take place).countP test + 1 := by
    simp [List.take_add_one, here, counted]
  have rest : (actions.take (place + 1)).Sublist (actions.take later) :=
    List.take_sublist_take_left behind
  have grows : (actions.take (place + 1)).countP test ≤ (actions.take later).countP test :=
    rest.countP_le
  omega

theorem eq_of_countP_take_eq (test : Action → Bool) {place later : Nat} {other : Action}
    (here : actions[place]? = some action) (counted : test action = true)
    (there : actions[later]? = some other) (counted' : test other = true)
    (same : (actions.take place).countP test = (actions.take later).countP test) :
    place = later := by
  rcases Nat.lt_trichotomy place later with before | own | behind
  · exact absurd same (Nat.ne_of_lt (countP_take_lt test here counted before))
  · exact own
  · exact absurd same.symm (Nat.ne_of_lt (countP_take_lt test there counted' behind))

/-! ### Names -/

theorem given?_append_singleton (old : origin < history.length) :
    given? (history ++ [action]) origin = given? history origin := by
  rw [given?, given?, List.getElem?_append_left old, List.take_append_of_le_length (Nat.le_of_lt old)]

@[simp]
private theorem given?_length : given? (history ++ [action]) history.length = action.given? history := by
  simp [given?]

/-- A label of a supply is given the stem of the supply, as it was when it was added, and the number of
labels that were made of it before. -/
theorem given?_fresh (formed : Formed actions) (here : actions[origin]? = some (.fresh index)) :
    ∃ supply, (added actions)[index]? = some supply ∧ given? actions origin =
      some (supply.stem ++ toString (supply.next + (actions.take origin).count (.fresh index))) := by
  have inside := formed.finds here
  have earlier : added actions = added (actions.take origin) ++ added (actions.drop origin) := by
    rw [added, added, added, ← List.filterMap_append, List.take_append_drop]
  refine ⟨(added (actions.take origin))[index], ?_, ?_⟩
  · rw [earlier, List.getElem?_append_left inside]
    exact List.getElem?_eq_getElem inside
  · simp [given?, here, Action.given?, List.getElem?_eq_getElem inside]

/-- No two labels of a supply are made with the same name. -/
theorem given?_injective {first second : Nat} (formed : Formed actions)
    (here : actions[first]? = some (.fresh index)) (there : actions[second]? = some (.fresh index))
    (same : given? actions first = given? actions second) : first = second := by
  obtain ⟨supply, found, name⟩ := given?_fresh formed here
  obtain ⟨supply', found', name'⟩ := given?_fresh formed there
  cases found.symm.trans found'
  have texts := Option.some.inj (name.symm.trans (same.trans name'))
  have numbers := toString_injective ((String.append_right_inj _).mp texts)
  exact eq_of_countP_take_eq (· == .fresh index) here (beq_self_eq_true _) there
    (beq_self_eq_true _) (Nat.add_left_cancel numbers)

/-- An action that finds the entry it renames does so by its descent before the last action. -/
theorem Action.Renames.of_append_singleton {other : Action} (formed : Formed (history ++ [action]))
    (member : other ∈ history ++ [action]) (renames : other.Renames (history ++ [action]) origin) :
    other.Renames history origin := by
  obtain ⟨formed, finds⟩ := formed_append_singleton.mp formed
  obtain ⟨entry, name, rfl, descends⟩ := renames
  have old : entry < entered history := by
    rcases List.mem_append.mp member with before | last
    · exact formed.finds_of_mem before
    · cases List.mem_singleton.mp last
      exact finds
  exact ⟨entry, name, rfl, descends.of_append_singleton old⟩

namespace Bears

/-- A label that has just been made bears the name that it was given. -/
theorem made (formed : Formed (history ++ [action])) (own : action.given? history = some name) :
    Bears (history ++ [action]) history.length name := by
  refine .given (given?_length.trans own) fun other member renames => ?_
  obtain ⟨entry, -, -, descends⟩ := renames.of_append_singleton formed member
  exact Nat.lt_irrefl _ descends.origin_lt

/-- A label that has just been renamed bears its new name. -/
theorem rename (descends : Descends history entry origin) (name : String) :
    Bears (history ++ [.rename entry name]) origin name :=
  .renamed rfl (.kept descends) nofun

/-- What does not rename a label leaves its name. -/
theorem kept (formed : Formed (history ++ [action])) (old : origin < history.length)
    (bears : Bears history origin name) (untouched : ¬ action.Renames history origin) :
    Bears (history ++ [action]) origin name := by
  cases bears with
  | given made before =>
    refine .given ((given?_append_singleton old).trans made) fun other member renames => ?_
    have renamed := renames.of_append_singleton formed member
    rcases List.mem_append.mp member with inside | last
    · exact before other inside renamed
    · cases List.mem_singleton.mp last
      exact untouched renamed
  | @renamed front after entry split descends last =>
    refine .renamed (by rw [split, List.append_assoc, List.cons_append]) (.kept descends)
      fun other member renames => ?_
    have inside : other ∈ history ++ [action] := by
      rw [split]
      simp only [List.mem_append, List.mem_cons, List.not_mem_nil, or_false] at member ⊢
      tauto
    have renamed := renames.of_append_singleton formed inside
    rcases List.mem_append.mp member with behind | own
    · exact last other behind renamed
    · cases List.mem_singleton.mp own
      exact untouched renamed

/-- The last of two renamings, at whatever places they are found. -/
theorem last_unique {before after front back : List Action} {first second : Nat} {left right : String}
    (same : before ++ .rename first left :: after = front ++ .rename second right :: back)
    (member : Descends actions first origin) (member' : Descends actions second origin)
    (last : ∀ action ∈ after, ¬ action.Renames actions origin)
    (last' : ∀ action ∈ back, ¬ action.Renames actions origin) : left = right := by
  rcases List.append_eq_append_iff.mp same with ⟨middle, -, rest⟩ | ⟨middle, -, rest⟩
  · cases middle with
    | nil =>
      cases rest
      rfl
    | cons _ middle =>
      cases rest
      exact absurd ⟨second, right, rfl, member'⟩ (last _ (by simp))
  · cases middle with
    | nil =>
      cases rest
      rfl
    | cons _ middle =>
      cases rest
      exact absurd ⟨first, left, rfl, member⟩ (last' _ (by simp))

/-- A label bears one name. -/
theorem unique {left right : String} (first : Bears actions origin left)
    (second : Bears actions origin right) : left = right := by
  cases first with
  | given made untouched =>
    cases second with
    | given made' => exact Option.some.inj (made.symm.trans made')
    | @renamed _ _ entry split member =>
      exact absurd ⟨entry, right, rfl, member⟩ (untouched _ (by simp [split]))
  | @renamed _ _ entry split member last =>
    cases second with
    | given _ untouched => exact absurd ⟨entry, left, rfl, member⟩ (untouched _ (by simp [split]))
    | renamed split' member' last' =>
      exact last_unique (split.symm.trans split') member member' last last'

end Bears

end Wabbit.Ledger
