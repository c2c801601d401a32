import Wabbit.Proofs.Labels.History
import Wabbit.Proofs.Names.Blocks
import Wabbit.Proofs.Success

/-!
What a ledger shows of its labels. Main statement: after every history the ledger tells two entries
apart exactly if they descend from different actions, and shows of each the name that its label bears;
a renaming shows at all entries of one label and nowhere else, and each supply counts on its own.
-/

namespace Wabbit.Ledger

variable {history actions : List Action} {action : Action} {ledger next : Ledger} {labels : Labels}
  {entries : List Label} {supplies : List LabelSupply} {label : Label} {supply : LabelSupply}
  {answer : Answer} {entry origin index : Nat} {name : String}

/-- The label that is made at a position. -/
def labelFrom (history : List Action) (origin : Nat) : Label :=
  ⟨(history.take origin).countP Action.creates⟩

@[simp]
theorem labelFrom_length : labelFrom history history.length = ⟨history.countP Action.creates⟩ := by
  rw [labelFrom, List.take_length]

theorem labelFrom_append_singleton (within : origin ≤ history.length) :
    labelFrom (history ++ [action]) origin = labelFrom history origin := by
  rw [labelFrom, labelFrom, List.take_append_of_le_length within]

namespace Makes

theorem labelFrom_lt (makes : Makes history origin) :
    (labelFrom history origin).id < history.countP Action.creates := by
  obtain ⟨action, here, creates⟩ := makes
  have before := countP_take_lt _ here creates (List.getElem?_eq_some_iff.mp here).1
  rwa [List.take_length] at before

/-- Different positions make different labels. -/
theorem labelFrom_injective {other : Nat} (first : Makes history origin) (second : Makes history other)
    (same : labelFrom history origin = labelFrom history other) : origin = other := by
  obtain ⟨_, here, creates⟩ := first
  obtain ⟨_, there, creates'⟩ := second
  exact eq_of_countP_take_eq _ here creates there creates' (congrArg Label.id same)

end Makes

/-! ### Entries -/

/-- The entries are those of a history, each with the label that it descends from. -/
structure Enters (history : List Action) (entries : List Label) : Prop where
  length : entries.length = entered history
  label : ∀ entry origin, Descends history entry origin →
    entries[entry]? = some (labelFrom history origin)

namespace Enters

theorem nil : Enters [] [] where
  length := rfl
  label _ _ descends := absurd descends.origin_lt (Nat.not_lt_zero _)

/-- An action that adds no entry leaves the entries. -/
theorem quiet (enters : Enters history entries) (adds : action.enters = false) :
    Enters (history ++ [action]) entries := by
  refine ⟨by simp [enters.length, adds], fun entry origin descends => ?_⟩
  rcases Descends.append_singleton_iff.mp descends with old | ⟨-, ⟨creates, -⟩ | ⟨_, rfl, -⟩⟩
  · rw [enters.label _ _ old, labelFrom_append_singleton (Nat.le_of_lt old.origin_lt)]
  · cases adds.symm.trans (Action.enters_of_creates creates)
  · cases adds

/-- An action that adds an entry puts it behind the others, with the label that it descends from. -/
theorem add (enters : Enters history entries) (adds : action.enters = true)
    (descends : Descends (history ++ [action]) (entered history) origin) :
    Enters (history ++ [action]) (entries ++ [labelFrom (history ++ [action]) origin]) := by
  refine ⟨by simp [enters.length, adds], fun other elsewhere descends' => ?_⟩
  rcases Nat.lt_or_ge other (entered history) with before | new
  · have old := descends'.of_append_singleton before
    rw [List.getElem?_append_left (enters.length ▸ before), enters.label _ _ old,
      labelFrom_append_singleton (Nat.le_of_lt old.origin_lt)]
  · have last : other = entered history := by
      have inside := descends'.entry_lt
      simp only [entered_append_singleton, adds, if_true] at inside
      omega
    subst last
    rw [← descends.unique descends', ← enters.length, List.getElem?_concat_length]

private theorem create {id : Nat} (enters : Enters history entries) (creates : action.creates = true)
    (unused : id = history.countP Action.creates) :
    Enters (history ++ [action]) (entries ++ [⟨id⟩]) := by
  have own := enters.add (Action.enters_of_creates creates) (.made creates)
  rwa [labelFrom_append_singleton (Nat.le_refl _), labelFrom_length, ← unused] at own

private theorem share (enters : Enters history entries) (formed : Formed history)
    (found : entries[entry]? = some label) :
    Enters (history ++ [.share entry]) (entries ++ [label]) := by
  have there : entry < entered history :=
    enters.length ▸ (List.getElem?_eq_some_iff.mp found).1
  obtain ⟨origin, descends⟩ := Descends.exists_of_lt formed there
  have own := enters.add rfl (.shared descends)
  cases (enters.label _ _ descends).symm.trans found
  rwa [labelFrom_append_singleton (Nat.le_of_lt descends.origin_lt)] at own

end Enters

/-! ### Names -/

/-- The labels are those of a history, and each is called by the name that it bears. -/
structure Calls (history : List Action) (labels : Labels) : Prop where
  size : labels.names.size = history.countP Action.creates
  bears : ∀ origin, Makes history origin →
    Bears history origin (labels.nameOf (labelFrom history origin))

namespace Calls

theorem nil : Calls [] {} where
  size := rfl
  bears _ makes := absurd makes.lt (Nat.not_lt_zero _)

/-- An action that neither makes nor renames a label leaves all names. -/
theorem quiet (calls : Calls history labels) (formed : Formed (history ++ [action]))
    (creates : action.creates = false) (untouched : ∀ entry name, action ≠ .rename entry name) :
    Calls (history ++ [action]) labels := by
  refine ⟨by simp [calls.size, creates], fun origin makes => ?_⟩
  rcases makes_append_singleton.mp makes with old | ⟨made, -⟩
  · rw [labelFrom_append_singleton (Nat.le_of_lt old.lt)]
    refine (calls.bears _ old).kept formed old.lt ?_
    rintro ⟨entry, name, same, -⟩
    exact untouched entry name same
  · cases creates.symm.trans made

/-- An action that makes a label calls it by the name that it gives. -/
theorem create (calls : Calls history labels) (formed : Formed (history ++ [action]))
    (own : action.given? history = some name) :
    Calls (history ++ [action]) (labels.make name).2 := by
  have creates := Action.creates_of_given? own
  refine ⟨by simp [Labels.make, calls.size, creates], fun origin makes => ?_⟩
  rcases makes_append_singleton.mp makes with old | ⟨-, rfl⟩
  · have keeps := (labels.nameOf_make name _ (calls.size ▸ old.labelFrom_lt)).2
    rw [labelFrom_append_singleton (Nat.le_of_lt old.lt), keeps]
    refine (calls.bears _ old).kept formed old.lt ?_
    rintro ⟨_, _, rfl, -⟩
    cases creates
  · have new : (labels.make name).1 = labelFrom (history ++ [action]) history.length := by
      rw [labelFrom_append_singleton (Nat.le_refl _), labelFrom_length, ← calls.size]
      rfl
    rw [← new, labels.nameOf_make_self]
    exact .made formed own

/-- A renaming gives the name to the label that the entry descends from, and to no other. -/
theorem rename (calls : Calls history labels) (formed : Formed (history ++ [.rename entry name]))
    (descends : Descends history entry origin) :
    Calls (history ++ [.rename entry name]) (labels.rename (labelFrom history origin) name) := by
  refine ⟨by simp [calls.size, Action.creates], fun other makes => ?_⟩
  have old : Makes history other := by
    rcases makes_append_singleton.mp makes with before | ⟨creates, -⟩
    · exact before
    · cases creates
  have there := calls.size ▸ descends.makes.labelFrom_lt
  rw [labelFrom_append_singleton (Nat.le_of_lt old.lt), labels.nameOf_rename _ _ _ there]
  split
  · rename_i same
    cases old.labelFrom_injective descends.makes same
    exact .rename descends name
  · rename_i different
    refine (calls.bears _ old).kept formed old.lt ?_
    rintro ⟨_, _, ⟨⟩, elsewhere⟩
    exact different (congrArg _ (elsewhere.unique descends))

end Calls

/-! ### Supplies -/

/-- The supplies are those of a history, each less the names that were taken from it. -/
def Supplied (history : List Action) (supplies : List LabelSupply) : Prop :=
  ∀ index, supplies[index]? = (added history)[index]?.map fun first : LabelSupply =>
    { first with next := first.next + history.count (Action.fresh index) }

namespace Supplied

theorem nil : Supplied [] [] := fun _ => rfl

theorem length (supplied : Supplied history supplies) : supplies.length = (added history).length := by
  refine Nat.le_antisymm ?_ ?_
  · rw [← List.getElem?_eq_none_iff, supplied, List.getElem?_eq_none (Nat.le_refl _)]
    rfl
  · have none := supplied supplies.length
    rw [List.getElem?_eq_none (Nat.le_refl _)] at none
    exact List.getElem?_eq_none_iff.mp (Option.map_eq_none_iff.mp none.symm)

/-- An action that neither adds a supply nor takes from one leaves them. -/
theorem quiet (supplied : Supplied history supplies) (adds : action.supply? = none)
    (takes : ∀ index, action ≠ .fresh index) : Supplied (history ++ [action]) supplies := by
  intro index
  simp [supplied index, adds, List.count_append, takes index]

/-- From a supply that has just been added nothing has been taken. -/
theorem add (supplied : Supplied history supplies) (formed : Formed history) (supply : LabelSupply) :
    Supplied (history ++ [.addSupply supply]) (supplies ++ [supply]) := by
  intro index
  have untaken : (history ++ [Action.addSupply supply]).count (Action.fresh index) =
      history.count (Action.fresh index) := by simp [List.count_append]
  rw [added_append_singleton, untaken]
  rcases Nat.lt_trichotomy index (added history).length with old | rfl | outside
  · rw [List.getElem?_append_left (supplied.length ▸ old), List.getElem?_append_left old]
    exact supplied index
  · have none : history.count (Action.fresh (added history).length) = 0 :=
      List.count_eq_zero.mpr fun taken => Nat.lt_irrefl _ (formed.finds_of_mem taken)
    rw [none, ← supplied.length, List.getElem?_concat_length, supplied.length]
    simp [Action.supply?]
  · rw [List.getElem?_eq_none, List.getElem?_eq_none]
    · rfl
    · simpa [Action.supply?] using Nat.succ_le_of_lt outside
    · simpa [supplied.length] using Nat.succ_le_of_lt outside

/-- Taking a name counts one supply on, and no other. -/
theorem fresh (supplied : Supplied history supplies) (found : supplies[index]? = some supply) :
    Supplied (history ++ [.fresh index]) (supplies.set index supply.take.2) := by
  intro other
  have inside := (List.getElem?_eq_some_iff.mp found).1
  rw [List.getElem?_set]
  split
  · rename_i own
    subst own
    rw [supplied index] at found
    obtain ⟨first, there, rfl⟩ := Option.map_eq_some_iff.mp found
    simp [there, Action.supply?, LabelSupply.take, List.count_append, Nat.add_assoc]
  · rename_i different
    have apart : Action.fresh index ≠ .fresh other := fun same => different (Action.fresh.inj same)
    simp [supplied other, Action.supply?, List.count_append, apart]

/-- The name that a supply gives is its stem with the number of names that were taken from it. -/
theorem take_fst (supplied : Supplied history supplies) (found : supplies[index]? = some supply) :
    (Action.fresh index).given? history = some supply.take.1 := by
  rw [supplied index] at found
  obtain ⟨first, there, rfl⟩ := Option.map_eq_some_iff.mp found
  simp [Action.given?, there, LabelSupply.take]

end Supplied

/-! ### Runs -/

/-- The ledger is what a history leads to. -/
structure Follows (history : List Action) (ledger : Ledger) : Prop where
  formed : Formed history
  enters : Enters history ledger.entries
  calls : Calls history ledger.labels
  supplied : Supplied history ledger.supplies

theorem label_eq_ok_iff : ledger.label entry = .ok label ↔ ledger.entries[entry]? = some label := by
  unfold Ledger.label
  split
  · rename_i found
    rw [found, Except.ok.injEq, Option.some.injEq]
  · rename_i none
    simp [none]

namespace Follows

theorem nil : Follows [] {} := ⟨formed_nil, .nil, .nil, .nil⟩

theorem label_of_lt (follows : Follows history ledger) (there : entry < entered history) :
    ∃ label, ledger.label entry = .ok label :=
  ⟨_, label_eq_ok_iff.mpr (List.getElem?_eq_getElem (follows.enters.length ▸ there))⟩

private theorem lt_of_label (follows : Follows history ledger) (found : ledger.label entry = .ok label) :
    entry < entered history :=
  follows.enters.length ▸ (List.getElem?_eq_some_iff.mp (label_eq_ok_iff.mp found)).1

/-- An action can be carried out exactly if it finds what it names. -/
theorem step_succeeds_iff (follows : Follows history ledger) (action : Action) :
    (∃ answer next, ledger.step action = .ok (answer, next)) ↔ action.Finds history := by
  constructor
  · rintro ⟨answer, next, done⟩
    cases action with
    | make | addSupply | register => trivial
    | share entry | describe entry | name entry | rename entry name =>
      obtain ⟨label, found, -⟩ := Success.bind_eq_ok.mp done
      exact follows.lt_of_label found
    | same first second | equal first second =>
      obtain ⟨left, found, done⟩ := Success.bind_eq_ok.mp done
      obtain ⟨right, found', -⟩ := Success.bind_eq_ok.mp done
      exact ⟨follows.lt_of_label found, follows.lt_of_label found'⟩
    | fresh index =>
      simp only [step] at done
      split at done
      · cases done
      · rename_i supply found
        have inside := (List.getElem?_eq_some_iff.mp found).1
        rwa [follows.supplied.length] at inside
  · intro finds
    cases action with
    | make | addSupply | register => exact ⟨_, _, rfl⟩
    | share entry | describe entry | name entry | rename entry name =>
      obtain ⟨label, found⟩ := follows.label_of_lt finds
      exact ⟨_, _, Success.bind_eq_ok.mpr ⟨label, found, rfl⟩⟩
    | same first second | equal first second =>
      obtain ⟨left, found⟩ := follows.label_of_lt finds.1
      obtain ⟨right, found'⟩ := follows.label_of_lt finds.2
      exact ⟨_, _, Success.bind_eq_ok.mpr ⟨left, found, Success.bind_eq_ok.mpr ⟨right, found', rfl⟩⟩⟩
    | fresh index =>
      have inside : index < ledger.supplies.length := by
        rw [follows.supplied.length]
        exact finds
      simp only [step, List.getElem?_eq_getElem inside]
      exact ⟨_, _, rfl⟩

/-- What is only asked for leads on to the same labels and supplies. -/
theorem quiet (follows : Follows history ledger) (formed : Formed (history ++ [action]))
    (adds : action.enters = false) (supply : action.supply? = none)
    (untouched : ∀ entry name, action ≠ .rename entry name) (registers : Nat) :
    Follows (history ++ [action]) { ledger with registers } where
  formed := formed
  enters := follows.enters.quiet adds
  calls := by
    refine follows.calls.quiet formed (Bool.eq_false_iff.mpr fun creates => ?_) untouched
    cases adds.symm.trans (Action.enters_of_creates creates)
  supplied := by
    refine follows.supplied.quiet supply ?_
    rintro index rfl
    cases adds

/-- Carrying out an action leads on to the history with this action behind it. -/
theorem step (follows : Follows history ledger)
    (done : ledger.step action = .ok (answer, next)) : Follows (history ++ [action]) next := by
  have finds := (follows.step_succeeds_iff action).mp ⟨answer, next, done⟩
  have formed := formed_append_singleton.mpr ⟨follows.formed, finds⟩
  cases action with
  | make name =>
    cases done
    exact ⟨formed, follows.enters.create rfl follows.calls.size, follows.calls.create formed rfl,
      follows.supplied.quiet rfl nofun⟩
  | fresh index =>
    simp only [Ledger.step] at done
    split at done
    · cases done
    · rename_i supply found
      cases done
      have own := follows.supplied.take_fst found
      exact ⟨formed, follows.enters.create rfl follows.calls.size, follows.calls.create formed own,
        follows.supplied.fresh found⟩
  | share entry =>
    obtain ⟨label, found, done⟩ := Success.bind_eq_ok.mp done
    cases done
    exact ⟨formed, follows.enters.share follows.formed (label_eq_ok_iff.mp found),
      follows.calls.quiet formed rfl nofun, follows.supplied.quiet rfl nofun⟩
  | rename entry name =>
    obtain ⟨label, found, done⟩ := Success.bind_eq_ok.mp done
    cases done
    obtain ⟨origin, descends⟩ := Descends.exists_of_lt follows.formed finds
    cases (follows.enters.label _ _ descends).symm.trans (label_eq_ok_iff.mp found)
    exact ⟨formed, follows.enters.quiet rfl, follows.calls.rename formed descends,
      follows.supplied.quiet rfl nofun⟩
  | addSupply supply =>
    cases done
    exact ⟨formed, follows.enters.quiet rfl, follows.calls.quiet formed rfl nofun,
      follows.supplied.add follows.formed supply⟩
  | same first second | equal first second =>
    obtain ⟨_, -, done⟩ := Success.bind_eq_ok.mp done
    obtain ⟨_, -, done⟩ := Success.bind_eq_ok.mp done
    cases done
    exact follows.quiet formed rfl rfl nofun _
  | describe entry | name entry =>
    obtain ⟨_, -, done⟩ := Success.bind_eq_ok.mp done
    cases done
    exact follows.quiet formed rfl rfl nofun _
  | register =>
    cases done
    exact follows.quiet formed rfl rfl nofun _

end Follows

theorem run_append_singleton : run (history ++ [action]) = .ok next ↔
    ∃ ledger answer, run history = .ok ledger ∧ ledger.step action = .ok (answer, next) := by
  simp only [run, List.foldlM_append, List.foldlM_cons, List.foldlM_nil, Success.bind_eq_ok,
    Success.pure_eq_ok, Prod.exists]
  constructor
  · rintro ⟨ledger, first, _, ⟨answer, _, last, rfl⟩, rfl⟩
    exact ⟨ledger, answer, first, last⟩
  · rintro ⟨ledger, answer, first, last⟩
    exact ⟨ledger, first, _, ⟨answer, next, last, rfl⟩, rfl⟩

/-- Every run leads to a ledger that follows its history. -/
theorem follows_of_run (done : run actions = .ok ledger) : Follows actions ledger := by
  induction actions using List.reverseRecOn generalizing ledger with
  | nil =>
    cases done
    exact .nil
  | append_singleton history action ih =>
    obtain ⟨before, answer, done, last⟩ := run_append_singleton.mp done
    exact (ih done).step last

/-- A run comes to its end exactly if each action names only what is there. -/
theorem run_succeeds_iff : (∃ ledger, run actions = .ok ledger) ↔ Formed actions := by
  constructor
  · rintro ⟨ledger, done⟩
    exact (follows_of_run done).formed
  · intro formed
    induction actions using List.reverseRecOn with
    | nil => exact ⟨_, rfl⟩
    | append_singleton history action ih =>
      obtain ⟨earlier, finds⟩ := formed_append_singleton.mp formed
      obtain ⟨ledger, done⟩ := ih earlier
      obtain ⟨answer, next, last⟩ := ((follows_of_run done).step_succeeds_iff action).mpr finds
      exact ⟨next, run_append_singleton.mpr ⟨ledger, answer, done, last⟩⟩

/-! ### What a ledger shows -/

namespace Follows

theorem length_names (follows : Follows history ledger) :
    ledger.names.length = entered history := by
  rw [names, List.length_map, follows.enters.length]

/-- An entry shows the name that its label bears. -/
theorem shows (follows : Follows history ledger) (descends : Descends history entry origin) :
    ∃ name, ledger.names[entry]? = some name ∧ Bears history origin name := by
  refine ⟨_, ?_, follows.calls.bears origin descends.makes⟩
  rw [names, List.getElem?_map, follows.enters.label _ _ descends]
  rfl

theorem getElem?_names_eq_some_iff (follows : Follows history ledger)
    (descends : Descends history entry origin) :
    ledger.names[entry]? = some name ↔ Bears history origin name := by
  obtain ⟨shown, found, bears⟩ := follows.shows descends
  rw [found, Option.some.injEq]
  constructor
  · rintro rfl
    exact bears
  · exact bears.unique

/-- What does not rename a label changes nothing of what its entries show. -/
theorem getElem?_names_of_not_renames (follows : Follows history ledger)
    (behind : Follows (history ++ [action]) next) (descends : Descends history entry origin)
    (untouched : ¬ action.Renames history origin) : next.names[entry]? = ledger.names[entry]? := by
  obtain ⟨shown, found, bears⟩ := follows.shows descends
  rw [found, behind.getElem?_names_eq_some_iff (.kept descends)]
  exact bears.kept behind.formed descends.origin_lt untouched

/-- Whether two entries are the same label is whether they descend from one action. -/
theorem step_same (follows : Follows history ledger) {first second : Nat}
    (there : first < entered history) (there' : second < entered history) :
    ∃ truth, ledger.step (.same first second) = .ok (.truth truth, ledger) ∧
      (truth = true ↔ ∃ origin, Descends history first origin ∧ Descends history second origin) := by
  obtain ⟨origin, descends⟩ := Descends.exists_of_lt follows.formed there
  obtain ⟨elsewhere, descends'⟩ := Descends.exists_of_lt follows.formed there'
  have found := label_eq_ok_iff.mpr (follows.enters.label _ _ descends)
  have found' := label_eq_ok_iff.mpr (follows.enters.label _ _ descends')
  refine ⟨decide (labelFrom history origin = labelFrom history elsewhere), ?_, ?_⟩
  · rw [Ledger.step, found, found']
    rfl
  · rw [decide_eq_true_iff]
    constructor
    · intro same
      cases descends.makes.labelFrom_injective descends'.makes same
      exact ⟨origin, descends, descends'⟩
    · rintro ⟨both, shared, shared'⟩
      rw [descends.unique shared, descends'.unique shared']

/-- A renaming shows at all entries of the label, and at no others. -/
theorem step_rename (follows : Follows history ledger) (there : entry < entered history)
    (name : String) : ∃ next, ledger.step (.rename entry name) = .ok (.nothing, next) ∧
      ∀ other,
        ((∃ origin, Descends history entry origin ∧ Descends history other origin) →
          next.names[other]? = some name) ∧
        ((¬ ∃ origin, Descends history entry origin ∧ Descends history other origin) →
          next.names[other]? = ledger.names[other]?) := by
  obtain ⟨label, found⟩ := follows.label_of_lt there
  have done : ∃ next, ledger.step (.rename entry name) = .ok (.nothing, next) :=
    ⟨_, Success.bind_eq_ok.mpr ⟨label, found, rfl⟩⟩
  obtain ⟨next, done⟩ := done
  refine ⟨next, done, fun other => ⟨?_, fun apart => ?_⟩⟩
  · rintro ⟨origin, own, descends⟩
    exact ((follows.step done).getElem?_names_eq_some_iff (.kept descends)).mpr (.rename own name)
  · have behind := follows.step done
    rcases Nat.lt_or_ge other (entered history) with inside | outside
    · obtain ⟨origin, descends⟩ := Descends.exists_of_lt follows.formed inside
      refine follows.getElem?_names_of_not_renames behind descends ?_
      rintro ⟨_, _, ⟨⟩, own⟩
      exact apart ⟨origin, own, descends⟩
    · rw [List.getElem?_eq_none, List.getElem?_eq_none]
      · rwa [follows.length_names]
      · simpa [behind.length_names, Action.enters] using outside

/-- A label that an action makes shows behind the others, which show what they did. -/
theorem names_step (follows : Follows history ledger)
    (done : ledger.step action = .ok (answer, next)) (own : action.given? history = some name) :
    next.names = ledger.names ++ [name] := by
  have behind := follows.step done
  have creates := Action.creates_of_given? own
  refine List.ext_getElem? fun entry => ?_
  rcases Nat.lt_trichotomy entry (entered history) with old | rfl | outside
  · obtain ⟨origin, descends⟩ := Descends.exists_of_lt follows.formed old
    rw [List.getElem?_append_left (follows.length_names ▸ old)]
    refine follows.getElem?_names_of_not_renames behind descends ?_
    rintro ⟨_, _, rfl, -⟩
    cases creates
  · rw [← follows.length_names, List.getElem?_concat_length, follows.length_names,
      behind.getElem?_names_eq_some_iff (.made creates)]
    exact .made behind.formed own
  · rw [List.getElem?_eq_none, List.getElem?_eq_none]
    · simpa [follows.length_names] using Nat.succ_le_of_lt outside
    · simpa [behind.length_names, Action.enters_of_creates creates] using Nat.succ_le_of_lt outside

/-- A supply that was added gives its stem, with the number of labels that were made from it. -/
theorem step_fresh (follows : Follows history ledger) (there : (added history)[index]? = some supply) :
    ∃ next, ledger.step (.fresh index) = .ok (.nothing, next) ∧ next.names = ledger.names ++
      [supply.stem ++ toString (supply.next + history.count (Action.fresh index))] := by
  have found := follows.supplied index
  rw [there] at found
  have done : ∃ next, ledger.step (.fresh index) = .ok (.nothing, next) := by
    simp only [Ledger.step, found]
    exact ⟨_, rfl⟩
  obtain ⟨next, done⟩ := done
  exact ⟨next, done, follows.names_step done (by simp [Action.given?, there])⟩

end Follows

/-- What the actions that led to a ledger say about it. Every entry descends from one action, and two
entries are the same label exactly if they descend from the same one. An entry shows the name that was
given last to any entry of its label, or else the name with which the label was made; so a renaming
shows at all entries of one label and at no others. A label of a supply is made with the stem of the
supply and its number, which only the labels made of this supply before have counted on; so no two
labels of a supply are made with the same name. -/
structure IsShared (actions : List Action) (ledger : Ledger) : Prop where
  length : ledger.names.length = entered actions
  origin : ∀ entry, entry < entered actions → ∃! origin, Descends actions entry origin
  same : ∀ first second, first < entered actions → second < entered actions →
    ∃ truth, ledger.step (.same first second) = .ok (.truth truth, ledger) ∧
      (truth = true ↔ ∃ origin, Descends actions first origin ∧ Descends actions second origin)
  shows : ∀ entry origin name, Descends actions entry origin →
    (ledger.names[entry]? = some name ↔ Bears actions origin name)
  rename : ∀ entry name, entry < entered actions →
    ∃ next, ledger.step (.rename entry name) = .ok (.nothing, next) ∧ ∀ other,
      ((∃ origin, Descends actions entry origin ∧ Descends actions other origin) →
        next.names[other]? = some name) ∧
      ((¬ ∃ origin, Descends actions entry origin ∧ Descends actions other origin) →
        next.names[other]? = ledger.names[other]?)
  fresh : ∀ index supply, (added actions)[index]? = some supply →
    ∃ next, ledger.step (.fresh index) = .ok (.nothing, next) ∧ next.names = ledger.names ++
      [supply.stem ++ toString (supply.next + actions.count (Action.fresh index))]
  given : ∀ index origin, actions[origin]? = some (.fresh index) →
    ∃ supply, (added actions)[index]? = some supply ∧ given? actions origin =
      some (supply.stem ++ toString (supply.next + (actions.take origin).count (Action.fresh index)))
  distinct : ∀ index first second, actions[first]? = some (.fresh index) →
    actions[second]? = some (.fresh index) →
    given? actions first = given? actions second → first = second

private theorem Follows.isShared {actions : List Action} {ledger : Ledger}
    (follows : Follows actions ledger) :
    IsShared actions ledger where
  length := follows.length_names
  origin entry there := by
    obtain ⟨origin, descends⟩ := Descends.exists_of_lt follows.formed there
    exact ⟨origin, descends, fun _ other => other.unique descends⟩
  same _ _ := follows.step_same
  shows _ _ _ := follows.getElem?_names_eq_some_iff
  rename _ name there := follows.step_rename there name
  fresh _ _ := follows.step_fresh
  given _ _ := given?_fresh follows.formed
  distinct _ _ _ := given?_injective follows.formed

/-- Carrying out actions comes to its end exactly if each names only what is there. Then the names of
labels are shared and numbered as the actions say. -/
theorem run_shares_labels (actions : List Action) :
    ((∃ ledger, run actions = .ok ledger) ↔ Formed actions) ∧
      ∀ ledger, run actions = .ok ledger → IsShared actions ledger :=
  ⟨run_succeeds_iff, fun _ done => (follows_of_run done).isShared⟩

/-- Two supplies in turn, a label that is renamed through an entry that shares it twice removed, and
three labels that bear one name. -/
theorem run_shares_labels_renamed :
    let actions : List Action :=
      [.make "a", .share 0, .addSupply { stem := "B" }, .addSupply {}, .fresh 0, .rename 1 "L0",
        .fresh 1, .share 2, .share 4, .rename 4 "x", .fresh 0, .make "L0"]
    ∃ ledger, run actions = .ok ledger ∧
      ledger.names = ["L0", "L0", "x", "L0", "x", "x", "B1", "L0"] ∧
      (∃ origin, Descends actions 2 origin ∧ Descends actions 5 origin ∧ Bears actions origin "x") ∧
      (¬ ∃ origin, Descends actions 0 origin ∧ Descends actions 3 origin) ∧
      (∃ next, ledger.step (.rename 5 "y") = .ok (.nothing, next) ∧
        next.names[2]? = some "y" ∧ next.names[3]? = some "L0") ∧
      ∃ next, ledger.step (.fresh 0) = .ok (.nothing, next) ∧ next.names = ledger.names ++ ["B2"] := by
  intro actions
  obtain ⟨ledger, done, names, twice, alike, other⟩ : ∃ ledger, run actions = .ok ledger ∧
      ledger.names = ["L0", "L0", "x", "L0", "x", "x", "B1", "L0"] ∧
      ledger.step (.same 2 5) = .ok (.truth true, ledger) ∧
      ledger.step (.same 0 3) = .ok (.truth false, ledger) ∧
      ledger.step (.same 5 3) = .ok (.truth false, ledger) :=
    ⟨_, rfl, by decide +kernel, rfl, rfl, rfl⟩
  have shared := (run_shares_labels actions).2 ledger done
  have share {first second : Nat} {truth : Bool} (left : first < 8) (right : second < 8)
      (answer : ledger.step (.same first second) = .ok (.truth truth, ledger)) : truth = true ↔
        ∃ origin, Descends actions first origin ∧ Descends actions second origin := by
    obtain ⟨_, answered, exactly⟩ := shared.same first second left right
    cases answer.symm.trans answered
    exact exactly
  obtain ⟨origin, descends, descends'⟩ := (share (by decide) (by decide) twice).mp rfl
  have apart := (share (by decide) (by decide) alike).not.mp Bool.false_ne_true
  have outside := (share (by decide) (by decide) other).not.mp Bool.false_ne_true
  obtain ⟨next, renamed, shown⟩ := shared.rename 5 "y" (by decide)
  refine ⟨ledger, done, names, ⟨origin, descends, descends', ?_⟩, apart, ⟨next, renamed, ?_, ?_⟩, ?_⟩
  · exact (shared.shows 2 origin "x" descends).mp (by rw [names]; rfl)
  · exact (shown 2).1 ⟨origin, descends', descends⟩
  · rw [(shown 3).2 outside, names]
    rfl
  · have number : "B" ++ toString (0 + actions.count (Action.fresh 0)) = "B2" := by decide +kernel
    rw [← number]
    exact shared.fresh 0 { stem := "B" } rfl

end Wabbit.Ledger
