import Wabbit.Proofs.Names.Fresh
import Wabbit.Proofs.Names.Resolution

/-!
The search for the names of variables. Main statement: the loop that looks for a free name ends, with
the name itself or the least number that makes it free, and takes just that name; so all names that
are found one after the other in a function are distinct.
-/

namespace Wabbit.Ast

/-- The loop that looks for a free name, from a candidate and its number to the name that is found. -/
inductive Searches (taken : List String) (name : String) : String → Nat → String → Prop where
  | stop {slot : String} {n : Nat} (free : IsFree taken slot) : Searches taken name slot n slot
  | next {slot result : String} {n : Nat} (occupied : ¬ IsFree taken slot)
      (rest : Searches taken name (numbered name (n + 1)) (n + 1) result) :
      Searches taken name slot n result

section Search

variable {taken : List String} {name : String}

private theorem Searches.unique {slot first second : String} {n : Nat}
    (left : Searches taken name slot n first) (right : Searches taken name slot n second) :
    first = second := by
  induction left with
  | stop free =>
    cases right with
    | stop => rfl
    | next occupied => exact absurd free occupied
  | next occupied _ ih =>
    cases right with
    | stop free => exact absurd free occupied
    | next _ rest => exact ih rest

/-- From any candidate the loop gets to the next number with which the name is free. -/
theorem searches_numbered {n k : Nat} (free : IsFree taken (numbered name k)) (later : n ≤ k)
    (before : ∀ j, n ≤ j → j < k → ¬ IsFree taken (numbered name j)) :
    Searches taken name (numbered name n) n (numbered name k) := by
  obtain ⟨steps, distance⟩ := Nat.exists_eq_add_of_le later
  induction steps generalizing n with
  | zero =>
    cases distance
    exact .stop free
  | succ steps ih =>
    refine .next (before n (Nat.le_refl n) (by omega)) (ih (by omega) ?_ (by omega))
    exact fun j later => before j (by omega)

private theorem searches_freshSlot (taken : List String) (name : String) :
    Searches taken name name 0 (freshSlot taken name) := by
  rcases freshSlot_cases taken name with ⟨free, same⟩ | ⟨occupied, k, positive, free, before, same⟩
  · rw [same]
    exact .stop free
  · rw [same]
    exact .next occupied (searches_numbered free positive before)

/-- The loop ends with the free name. -/
theorem searches_iff {result : String} :
    Searches taken name name 0 result ↔ result = freshSlot taken name := by
  constructor
  · intro found
    exact found.unique (searches_freshSlot taken name)
  · rintro rfl
    exact searches_freshSlot taken name

end Search

/-! ### Sequences of declarations -/

/-- The names of variables that are declared one after the other. -/
def freshSlots (taken : List String) : List String → List String
  | [] => []
  | name :: rest => freshSlot taken name :: freshSlots (freshSlot taken name :: taken) rest

theorem freshSlots_append (taken front back : List String) :
    freshSlots taken (front ++ back) =
      freshSlots taken front ++ freshSlots ((freshSlots taken front).reverse ++ taken) back := by
  induction front generalizing taken with
  | nil => rfl
  | cons name rest ih => simp [freshSlots, ih]

/-- Each name is free when it is given, so no name is given twice. -/
theorem freshSlots_nodup (taken names : List String) :
    (freshSlots taken names).Nodup ∧ ∀ slot ∈ freshSlots taken names, IsFree taken slot := by
  induction names generalizing taken with
  | nil => exact ⟨List.nodup_nil, nofun⟩
  | cons name rest ih =>
    obtain ⟨distinct, free⟩ := ih (freshSlot taken name :: taken)
    refine ⟨List.nodup_cons.mpr ⟨fun again => ?_, distinct⟩, List.forall_mem_cons.mpr ⟨?_, ?_⟩⟩
    · exact (free _ again).unused List.mem_cons_self
    · exact freshSlot_isFree taken name
    · intro slot member
      obtain ⟨unused, noEntry, noLabel⟩ := free slot member
      exact ⟨fun old => unused (List.mem_cons_of_mem _ old), noEntry, noLabel⟩

/-- Declarations of the given names get free slots one after the other, which are taken behind them,
and no others. -/
structure Supplies (before after names slots : List String) : Prop where
  given : slots = freshSlots before names
  taken : after = slots.reverse ++ before

namespace Supplies

theorem none (taken : List String) : Supplies taken taken [] [] := ⟨rfl, rfl⟩

theorem append {before middle after front back slots slots' : List String}
    (first : Supplies before middle front slots) (second : Supplies middle after back slots') :
    Supplies before after (front ++ back) (slots ++ slots') where
  given := by rw [freshSlots_append, ← first.given, ← first.taken, ← second.given]
  taken := by simp [second.taken, first.taken]

theorem declare (scope : Scope) (depth : Depth) (name : Name) :
    Supplies scope.slots (scope.declare depth name).2.slots
      (if depth = .nested then [name.text] else [])
      (if depth = .nested then [(scope.declare depth name).1.text] else []) := by
  cases depth with
  | topLevel => exact .none scope.slots
  | nested => exact ⟨rfl, rfl⟩

private theorem declareAll (scope : Scope) (names : List Name) :
    Supplies scope.slots (scope.declareAll names).2.slots (names.map Name.text)
      ((scope.declareAll names).1.map Symbol.text) := by
  induction names generalizing scope with
  | nil => exact .none scope.slots
  | cons name rest ih => exact (declare scope .nested name).append (ih (scope.declare .nested name).2)

end Supplies

namespace Stmt

variable {ν : Type} {negation : Prop} [Named ν]

mutual

/-- The names that a statement declares on the stack, those of functions among them, in their
order. What is declared inside of a function is on another stack. -/
def stacked (depth : Depth) : Stmt ν False negation → List String
  | declare name | function name _ _ => if depth = .nested then [Named.text name] else []
  | ifElse _ ifTrue ifFalse => allStacked .nested ifTrue ++ allStacked .nested ifFalse
  | loop _ body => allStacked .nested body
  | _ => []

def allStacked (depth : Depth) : List (Stmt ν False negation) → List String
  | [] => []
  | s :: rest => s.stacked depth ++ allStacked depth rest

end

mutual

theorem resolve_supplies {s : Stmt Name False negation} {scope : Scope} {depth : Depth}
    {out : Stmt Symbol False negation × Scope} (done : (s.resolve scope depth).result = .ok out) :
    Supplies scope.slots out.2.slots (s.stacked depth) (out.1.stacked depth) := by
  cases s with
  | declare name =>
    cases done
    exact .declare scope depth name
  | define allowed name value => exact allowed.elim
  | ifElse condition ifTrue ifFalse =>
    cases resolve_inv done with
    | ifElse test first second =>
      exact (resolveAll_supplies first).append (resolveAll_supplies second)
  | loop condition body =>
    cases resolve_inv done with
    | loop test round => exact resolveAll_supplies round
  | function name parameters body =>
    cases resolve_inv done with
    | function round => exact .declare scope depth name
  | _ =>
    cases resolve_inv done
    exact .none scope.slots

/-- Statements take a free name for each variable that they declare. -/
theorem resolveAll_supplies {stmts : List (Stmt Name False negation)} {scope : Scope} {depth : Depth}
    {out : List (Stmt Symbol False negation) × Scope}
    (done : (resolveAll scope depth stmts).result = .ok out) :
    Supplies scope.slots out.2.slots (allStacked depth stmts) (allStacked depth out.1) := by
  cases stmts with
  | nil =>
    cases done
    exact .none scope.slots
  | cons s rest =>
    obtain ⟨s', rest', middle, behind, own, others, rfl⟩ := resolveAll_cons done
    exact (resolve_supplies own).append (resolveAll_supplies others)

end

/-- The parameters and variables of a function get free names one after the other, where none are
taken at first. -/
theorem resolve_function {f : Name} {parameters : List Name} {body : List (Stmt Name False negation)}
    {scope : Scope} {depth : Depth} {out : Stmt Symbol False negation × Scope}
    (done : ((function f parameters body).resolve scope depth).result = .ok out) :
    ∃ symbol parameters' body', out.1 = .function symbol parameters' body' ∧
      parameters'.map Symbol.text ++ allStacked .nested body' =
        freshSlots [] (parameters.map Name.text ++ allStacked .nested body) := by
  cases resolve_inv done with
  | function round =>
    have front := Supplies.declareAll { (scope.declare depth f).2 with slots := [] } parameters
    exact ⟨_, _, _, rfl, (front.append (resolveAll_supplies round)).given⟩

end Stmt

/-- The text that a name gets among taken ones: the name itself if it is free, or else the one with
the least number that is. It is the one result of the loop that looks for it. -/
structure IsLeastFree (slots : List String) (text found : String) : Prop where
  loop : ∀ result, Searches slots text text 0 result ↔ result = found
  least : IsFree slots text ∧ found = text ∨ ¬ IsFree slots text ∧ ∃ k, 1 ≤ k ∧
    IsFree slots (numbered text k) ∧ (∀ j, 1 ≤ j → j < k → ¬ IsFree slots (numbered text j)) ∧
    found = numbered text k

/-- The names that declarations on the stack get one after the other were free before and are distinct.
A sequence of statements takes them in its order, and nothing else; a function takes one for each of its
parameters and then for what it declares, beginning with none. -/
structure SuppliesInOrder (negation : Prop) (scope : Scope) : Prop where
  distinct : ∀ names, (freshSlots scope.slots names).Nodup ∧
    ∀ slot ∈ freshSlots scope.slots names, IsFree scope.slots slot
  statements : ∀ depth (stmts : List (Stmt Name False negation)) out,
    (Stmt.resolveAll scope depth stmts).result = .ok out →
    Stmt.allStacked depth out.1 = freshSlots scope.slots (Stmt.allStacked depth stmts) ∧
      out.2.slots = (Stmt.allStacked depth out.1).reverse ++ scope.slots
  function : ∀ depth f parameters (body : List (Stmt Name False negation)) out,
    ((Stmt.function f parameters body).resolve scope depth).result = .ok out →
    ∃ symbol parameters' body', out.1 = .function symbol parameters' body' ∧
      parameters'.map Symbol.text ++ Stmt.allStacked .nested body' =
        freshSlots [] (parameters.map Name.text ++ Stmt.allStacked .nested body) ∧
      (parameters'.map Symbol.text ++ Stmt.allStacked .nested body').Nodup

private theorem freshSlot_isLeastFree (slots : List String) (text : String) :
    IsLeastFree slots text (freshSlot slots text) :=
  ⟨fun _ => searches_iff, freshSlot_cases slots text⟩

private theorem suppliesInOrder (negation : Prop) (scope : Scope) : SuppliesInOrder negation scope where
  distinct := freshSlots_nodup scope.slots
  statements depth stmts out done := by
    obtain ⟨given, taken⟩ := Stmt.resolveAll_supplies done
    exact ⟨given, taken⟩
  function depth f parameters body out done := by
    obtain ⟨symbol, parameters', body', same, given⟩ := Stmt.resolve_function done
    refine ⟨symbol, parameters', body', same, given, ?_⟩
    rw [given]
    exact (freshSlots_nodup [] _).1

/-- The loop that looks for a free name ends, with one result: the name itself if it is free, or else
the one with the least number that is. A declaration takes this name and nothing else. Names that are
found one after the other were free before and are distinct; so are all names on the stack that a
sequence of statements declares, and those of a function with its parameters. -/
theorem declare_takes_least_free {negation : Prop} (scope : Scope) (name : Name) :
    let found := freshSlot scope.slots name.text
    IsLeastFree scope.slots name.text found ∧
      (scope.declare .nested name).1 = .stack found name.kind ∧
      (scope.declare .nested name).2.slots = found :: scope.slots ∧
      SuppliesInOrder negation scope :=
  ⟨freshSlot_isLeastFree _ _, rfl, rfl, suppliesInOrder negation scope⟩

/-- A name that is taken with its first number, and a function with a parameter that is named like a
block and one that looks like a name with a number. -/
theorem declare_takes_least_free_numbered :
    let x : Name := ⟨"x", .integer⟩
    let f : Stmt Name False True :=
      .function ⟨"f", .integer⟩ [⟨"L0", .integer⟩, x, ⟨"x.1", .float⟩] [.declare x]
    Searches ["x.1", "x"] "x" "x" 0 "x.2" ∧ ∃ out, (f.resolve {} .topLevel).result = .ok out ∧
      ∃ symbol parameters body, out.1 = .function symbol parameters body ∧
        parameters.map Symbol.text ++ Stmt.allStacked .nested body = ["L0.1", "x", "x.1", "x.2"] := by
  intro x f
  obtain ⟨found, -⟩ := @declare_takes_least_free True { slots := ["x.1", "x"] } x
  have second : "x.2" = freshSlot ["x.1", "x"] "x" := by decide +kernel
  have resolves : ∃ out, (f.resolve {} .topLevel).result = .ok out := ⟨_, rfl⟩
  obtain ⟨out, done⟩ := resolves
  refine ⟨(found.loop "x.2").mpr second, out, done, ?_⟩
  obtain ⟨-, -, -, supplies⟩ := @declare_takes_least_free True {} x
  obtain ⟨symbol, parameters, body, same, given, -⟩ := supplies.function _ _ _ _ _ done
  refine ⟨symbol, parameters, body, same, given.trans ?_⟩
  decide +kernel

end Wabbit.Ast
