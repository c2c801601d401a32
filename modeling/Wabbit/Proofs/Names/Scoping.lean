import Wabbit.Proofs.Names.Slots
import Wabbit.Proofs.Names.Visible

/-!
Scoping by blocks. Going through a program one comes past the beginnings and ends of its blocks, past
declarations, and past names that are used. Main statement: the resolution of names gives every
variable of a function a name of its own, and every name that is used the symbol of the latest
declaration before it in a block that is still open.
-/

namespace Wabbit.Ast

/-- What one comes past when going through a program. -/
inductive Landmark (ν : Type) where
  /-- A block begins. -/
  | enter
  /-- A block ends. -/
  | leave
  | declare (name : ν)
  /-- A name is read, assigned or called. -/
  | use (name : ν)
  deriving DecidableEq, Repr

namespace Landmark

variable {ν μ : Type}

/-- The landmark with another name. -/
def map (f : ν → μ) : Landmark ν → Landmark μ
  | enter => .enter
  | leave => .leave
  | declare name => .declare (f name)
  | use name => .use (f name)

/-- The landmarks of a block. -/
def block (inner : List (Landmark ν)) : List (Landmark ν) := .enter :: (inner ++ [.leave])

/-- The number of blocks that are open behind some landmarks, the latest first. -/
def openBlocks : List (Landmark ν) → Nat
  | [] => 0
  | enter :: past => openBlocks past + 1
  | leave :: past => openBlocks past - 1
  | declare _ :: past | use _ :: past => openBlocks past

/-- The symbol of the latest declaration of a text among some landmarks, the latest first. What
belongs to blocks that are closed is passed over; their number is counted on the way back. -/
def declared? (text : String) : Nat → List (Landmark (Name × Symbol)) → Option Symbol
  | _, [] => none
  | closed, leave :: past => declared? text (closed + 1) past
  | 0, enter :: past => declared? text 0 past
  | closed + 1, enter :: past => declared? text closed past
  | 0, declare (name, symbol) :: past =>
    if name.text = text then some symbol else declared? text 0 past
  | closed + 1, declare _ :: past => declared? text (closed + 1) past
  | closed, use _ :: past => declared? text closed past

/-- What a name refers to behind some landmarks, the latest first. Without a declaration it is taken
for a global one. -/
def referent (past : List (Landmark (Name × Symbol))) (name : Name) : Symbol :=
  (declared? name.text 0 past).getD (.global name.text name.kind)

/-- A name that is used has the symbol that it refers to, and a declaration has a global symbol at the
top level and one on the stack in a block. -/
def IsRight (past : List (Landmark (Name × Symbol))) : Landmark (Name × Symbol) → Prop
  | use (name, symbol) => symbol = referent past name
  | declare (name, symbol) =>
    if openBlocks past = 0 then symbol = .global name.text name.kind
    else ∃ slot, symbol = .stack slot name.kind
  | _ => True

/-- All of some landmarks have the right symbols, where others lie behind. -/
def AllRight : (past landmarks : List (Landmark (Name × Symbol))) → Prop
  | _, [] => True
  | past, landmark :: rest => landmark.IsRight past ∧ AllRight (landmark :: past) rest

theorem allRight_append {past front back : List (Landmark (Name × Symbol))} :
    AllRight past (front ++ back) ↔
      AllRight past front ∧ AllRight (front.reverse ++ past) back := by
  induction front generalizing past with
  | nil => simp [AllRight]
  | cons landmark rest ih => simp [AllRight, ih, and_assoc]

/-- Landmarks that open and close blocks evenly, so that they are passed over in a closed block. -/
structure Balanced (trace : List (Landmark (Name × Symbol))) : Prop where
  passed : ∀ text closed past,
    declared? text (closed + 1) (trace.reverse ++ past) = declared? text (closed + 1) past
  level : ∀ past, openBlocks (trace.reverse ++ past) = openBlocks past

namespace Balanced

variable {front back : List (Landmark (Name × Symbol))}

theorem nil : Balanced [] := ⟨fun _ _ _ => rfl, fun _ => rfl⟩

private theorem declare (pair : Name × Symbol) : Balanced [.declare pair] :=
  ⟨fun _ _ _ => rfl, fun _ => rfl⟩

private theorem use (pair : Name × Symbol) : Balanced [.use pair] := ⟨fun _ _ _ => rfl, fun _ => rfl⟩

theorem append (first : Balanced front) (second : Balanced back) : Balanced (front ++ back) where
  passed text closed past := by
    rw [List.reverse_append, List.append_assoc, second.passed, first.passed]
  level past := by rw [List.reverse_append, List.append_assoc, second.level, first.level]

theorem reverse_block (inner past : List (Landmark (Name × Symbol))) :
    (Landmark.block inner).reverse ++ past = .leave :: (inner.reverse ++ .enter :: past) := by
  simp [Landmark.block]

private theorem block (balanced : Balanced front) : Balanced (Landmark.block front) where
  passed text closed past := by
    rw [reverse_block, declared?, balanced.passed]
    rfl
  level past := by
    rw [reverse_block, openBlocks, balanced.level]
    rfl

end Balanced

/-- A name refers to the declaration right before it if that is one of the name. -/
theorem referent_declare (past : List (Landmark (Name × Symbol))) (name : Name) (symbol : Symbol)
    (other : Name) : referent (.declare (name, symbol) :: past) other =
      if other.text = name.text then symbol else referent past other := by
  by_cases same : other.text = name.text
  · simp [referent, declared?, same]
  · simp [referent, declared?, same, Ne.symm same]

/-- Behind a block names refer to what they refer to before it. -/
theorem referent_block {inner : List (Landmark (Name × Symbol))} (balanced : Balanced inner)
    (past : List (Landmark (Name × Symbol))) (name : Name) :
    referent ((block inner).reverse ++ past) name = referent past name := by
  unfold referent
  rw [Balanced.reverse_block, declared?, balanced.passed]
  rfl

end Landmark

namespace Stmt

variable {ν : Type} {negation : Prop}

open Landmark

mutual

/-- The landmarks of a statement, in the order of the text. The target of an assignment comes before
its value, and a function before its arguments. -/
def landmarks : Stmt ν False negation → List (Landmark ν)
  | declare name => [.declare name]
  | define allowed _ _ => allowed.elim
  | assign name value => .use name :: value.names.map .use
  | print value | ret value | eval value => value.names.map .use
  | ifElse condition ifTrue ifFalse =>
    condition.toExpr.names.map .use ++ (block (allLandmarks ifTrue) ++ block (allLandmarks ifFalse))
  | loop condition body => condition.toExpr.names.map .use ++ block (allLandmarks body)
  | function name parameters body =>
    .declare name :: block (parameters.map .declare ++ allLandmarks body)

def allLandmarks : List (Stmt ν False negation) → List (Landmark ν)
  | [] => []
  | s :: rest => s.landmarks ++ allLandmarks rest

end

end Stmt

/-! ### What is visible -/

namespace Visible

open Landmark

/-- What is visible at a place is what names refer to behind the landmarks before it. -/
structure Agrees (visible : Visible) (depth : Depth) (past : List (Landmark (Name × Symbol))) :
    Prop where
  refers : ∀ name, visible.binding name = referent past name
  level : openBlocks past = 0 ↔ depth = .topLevel
  outside : depth = .topLevel → visible.locals = []

/-- From what is visible before some landmarks to what is visible behind them, with the right symbol
for each of their names. -/
def Follows (visible : Visible) (depth : Depth) (names : List (Landmark Name))
    (symbols : List (Landmark Symbol)) (behind : Visible) : Prop :=
  ∀ past, visible.Agrees depth past → ∃ trace, trace.map (Landmark.map Prod.fst) = names ∧
    trace.map (Landmark.map Prod.snd) = symbols ∧ Balanced trace ∧ AllRight past trace ∧
    behind.Agrees depth (trace.reverse ++ past)

/-- A declaration at the top level changes what its own name refers to and nothing else, if nothing
on the stack is visible. -/
theorem binding_declare_topLevel {visible : Visible} (outside : visible.locals = []) (name : Name)
    (symbol : Symbol) (other : Name) :
    (visible.declare .topLevel name symbol).binding other =
      if other.text = name.text then symbol else visible.binding other := by
  by_cases same : other.text = name.text
  · simp [binding, declare, same, outside]
  · have different : (other.text == name.text) = false := beq_eq_false_iff_ne.mpr same
    simp [binding, declare, same, outside, List.lookup_cons, different]

namespace Follows

variable {visible middle behind : Visible} {depth : Depth} {names names' : List (Landmark Name)}
  {symbols symbols' : List (Landmark Symbol)}

theorem nil (visible : Visible) (depth : Depth) : Follows visible depth [] [] visible :=
  fun _ agrees => ⟨[], rfl, rfl, .nil, trivial, agrees⟩

theorem append (first : Follows visible depth names symbols middle)
    (second : Follows middle depth names' symbols' behind) :
    Follows visible depth (names ++ names') (symbols ++ symbols') behind := by
  intro past agrees
  obtain ⟨front, rfl, rfl, balanced, right, agrees⟩ := first past agrees
  obtain ⟨back, rfl, rfl, later, right', agrees⟩ := second _ agrees
  refine ⟨front ++ back, List.map_append, List.map_append, balanced.append later,
    allRight_append.mpr ⟨right, right'⟩, ?_⟩
  rw [List.reverse_append, List.append_assoc]
  exact agrees

theorem use (visible : Visible) (depth : Depth) (name : Name) :
    Follows visible depth [.use name] [.use (visible.binding name)] visible := by
  intro past agrees
  exact ⟨[.use (name, visible.binding name)], rfl, rfl, .use _, ⟨agrees.refers name, trivial⟩,
    ⟨agrees.refers, agrees.level, agrees.outside⟩⟩

private theorem uses (visible : Visible) (depth : Depth) (names : List Name) :
    Follows visible depth (names.map .use) ((names.map visible.binding).map .use) visible := by
  induction names with
  | nil => exact .nil visible depth
  | cons name rest ih => exact (use visible depth name).append ih

/-- A block leaves behind what is visible before it. -/
theorem block {start inner : Visible} (inside : Follows start .nested names symbols inner)
    (begins : start = visible) (ends : behind = visible) :
    Follows visible depth (Landmark.block names) (Landmark.block symbols) behind := by
  rw [begins] at inside
  rw [ends]
  intro past agrees
  have entered : visible.Agrees .nested (.enter :: past) :=
    ⟨agrees.refers, by simp [openBlocks], by simp⟩
  obtain ⟨trace, rfl, rfl, balanced, right, -⟩ := inside _ entered
  refine ⟨Landmark.block trace, by simp [Landmark.block, Landmark.map],
    by simp [Landmark.block, Landmark.map], balanced.block, ?_, ?_⟩
  · exact ⟨trivial, allRight_append.mpr ⟨right, trivial, trivial⟩⟩
  · refine ⟨fun name => ?_, ?_, agrees.outside⟩
    · rw [referent_block balanced]
      exact agrees.refers name
    · rw [balanced.block.level]
      exact agrees.level

end Follows

end Visible

namespace Scope

open Visible Landmark

theorem follows_declare (scope : Scope) (depth : Depth) (name : Name) :
    Follows scope.visible depth [.declare name] [.declare (scope.declare depth name).1]
      (scope.declare depth name).2.visible := by
  intro past agrees
  refine ⟨[.declare (name, (scope.declare depth name).1)], rfl, rfl, .declare _, ⟨?_, trivial⟩, ?_⟩
  · cases depth with
    | topLevel => simp [IsRight, agrees.level.mpr rfl, Scope.declare]
    | nested =>
      have inside : openBlocks past ≠ 0 := by simp [agrees.level]
      exact (if_neg inside).mpr ⟨_, rfl⟩
  · have refers (other : Name) : (scope.declare depth name).2.visible.binding other =
        if other.text = name.text then (scope.declare depth name).1
        else scope.visible.binding other := by
      rw [visible_declare]
      cases depth with
      | topLevel => exact binding_declare_topLevel (agrees.outside rfl) ..
      | nested => exact binding_declare ..
    refine ⟨fun other => ?_, agrees.level, ?_⟩
    · rw [refers, agrees.refers]
      exact (referent_declare past name _ other).symm
    · rintro rfl
      exact agrees.outside rfl

/-- Parameters are declared one after the other. -/
theorem follows_declareAll (scope : Scope) (names : List Name) :
    Follows scope.visible .nested (names.map .declare) ((scope.declareAll names).1.map .declare)
      (scope.declareAll names).2.visible := by
  induction names generalizing scope with
  | nil => exact .nil _ _
  | cons name rest ih => exact (scope.follows_declare .nested name).append (ih _)

end Scope

namespace Stmt

variable {negation : Prop}

open Visible

mutual

theorem resolve_follows {s : Stmt Name False negation} {scope : Scope} {depth : Depth}
    {out : Stmt Symbol False negation × Scope} (done : (s.resolve scope depth).result = .ok out) :
    Follows scope.visible depth s.landmarks out.1.landmarks out.2.visible := by
  cases s with
  | declare name =>
    cases done
    exact scope.follows_declare depth name
  | define allowed name value => exact allowed.elim
  | assign name value =>
    cases resolve_inv done with
    | assign target own =>
      cases (scope.result_lookup name).symm.trans target
      rw [landmarks, landmarks, Expr.names_resolve own]
      exact (Follows.use _ depth name).append (.uses _ _ _)
  | print value =>
    cases resolve_inv done with
    | print own =>
      rw [landmarks, landmarks, Expr.names_resolve own]
      exact .uses _ _ _
  | ret value =>
    cases resolve_inv done with
    | ret own =>
      rw [landmarks, landmarks, Expr.names_resolve own]
      exact .uses _ _ _
  | eval value =>
    cases resolve_inv done with
    | eval own =>
      rw [landmarks, landmarks, Expr.names_resolve own]
      exact .uses _ _ _
  | ifElse condition ifTrue ifFalse =>
    cases resolve_inv done with
    | ifElse test first second =>
      rw [landmarks, landmarks, Condition.names_resolve test]
      exact (Follows.uses _ _ _).append (((resolveAll_follows first).block rfl rfl).append
        ((resolveAll_follows second).block rfl rfl))
  | loop condition body =>
    cases resolve_inv done with
    | loop test round =>
      rw [landmarks, landmarks, Condition.names_resolve test]
      exact (Follows.uses _ _ _).append ((resolveAll_follows round).block rfl rfl)
  | function name parameters body =>
    cases resolve_inv done with
    | function round =>
      have inner := (Scope.follows_declareAll _ parameters).append (resolveAll_follows round)
      exact (scope.follows_declare depth name).append (inner.block rfl rfl)

/-- The symbols of resolved statements are those that their names refer to. -/
theorem resolveAll_follows {stmts : List (Stmt Name False negation)} {scope : Scope} {depth : Depth}
    {out : List (Stmt Symbol False negation) × Scope}
    (done : (resolveAll scope depth stmts).result = .ok out) :
    Follows scope.visible depth (allLandmarks stmts) (allLandmarks out.1) out.2.visible := by
  cases stmts with
  | nil =>
    cases done
    exact .nil _ _
  | cons s rest =>
    obtain ⟨s', rest', middle, behind, own, others, rfl⟩ := resolveAll_cons done
    exact (resolve_follows own).append (resolveAll_follows others)

end

end Stmt

open Landmark in
/-- A trace of a program: its blocks, and each declared or used name with the symbol that it gets, in
the order of the text. A name that is used gets the symbol of the latest declaration before it in a
block that is still open, or the global symbol if there is none; a declaration is global exactly
outside of all blocks. -/
structure Script.IsTrace (script : Split) (resolved : Resolved)
    (trace : List (Landmark (Name × Symbol))) : Prop where
  names : trace.map (Landmark.map Prod.fst) = Stmt.allLandmarks script
  symbols : trace.map (Landmark.map Prod.snd) = Stmt.allLandmarks resolved
  used : ∀ front name symbol back, trace = front ++ .use (name, symbol) :: back →
    symbol = referent front.reverse name
  declared : ∀ front name symbol back, trace = front ++ .declare (name, symbol) :: back →
    if openBlocks front.reverse = 0 then symbol = .global name.text name.kind
    else ∃ slot, symbol = .stack slot name.kind

open Landmark in
/-- When names are resolved, the parameters and variables of each function get different names, and
every name that is used gets the symbol of the latest declaration before it in a block that is still
open, or the global symbol if there is none. -/
theorem Script.resolve_scopes {script : Split} {resolved : Resolved}
    (done : script.resolve.result = .ok resolved) :
    (∀ f ∈ (Items.ofScript resolved).functions,
      (f.parameters.map Symbol.text ++ Stmt.allSlots f.body).Nodup) ∧
    ∃ trace, Script.IsTrace script resolved trace := by
  refine ⟨Items.ofScript_nodup done, ?_⟩
  obtain ⟨⟨_, scope⟩, own, last⟩ := Success.result_bind_eq_ok.mp done
  cases last
  have start : ({} : Scope).visible.Agrees .topLevel [] :=
    ⟨fun _ => rfl, by simp [openBlocks], fun _ => rfl⟩
  obtain ⟨trace, names, symbols, -, right, -⟩ := Stmt.resolveAll_follows own [] start
  have each {front back : List (Landmark (Name × Symbol))} {landmark : Landmark (Name × Symbol)}
      (parts : trace = front ++ landmark :: back) : landmark.IsRight front.reverse := by
    rw [parts, allRight_append, List.append_nil] at right
    exact right.2.1
  exact ⟨trace, names, symbols, fun _ _ _ _ parts => each parts, fun _ _ _ _ parts => each parts⟩

open Landmark in
/-- A global variable, a parameter and variables in a branch and in a loop, all of one name. -/
theorem Script.resolve_scopes_shadowing :
    let source := "var x = 1; func f(x int) int \x7b if x < 1 \x7b var x = 2; \x7d" ++
      " else \x7b print x; \x7d return x; \x7d while x < 3 \x7b var x = 4; \x7d print f(x);"
    let outer := Symbol.global "x" .integer
    let f := Symbol.global "f" .integer
    let first := Symbol.stack "x" .integer
    let second := Symbol.stack "x.1" .integer
    ∃ script resolved, frontEnd source = .ok script ∧
      script.split.resolve.result = .ok resolved ∧
      Stmt.allLandmarks resolved = [.declare outer, .use outer, .declare f] ++
        block ([.declare first, .use first] ++ block [.declare second, .use second] ++
          block [.use first] ++ [.use first]) ++
        [.use outer] ++ block [.declare first, .use first] ++ [.use f, .use outer] ∧
      (∀ f ∈ (Items.ofScript resolved).functions,
        (f.parameters.map Symbol.text ++ Stmt.allSlots f.body).Nodup) ∧
      ∃ trace, Script.IsTrace script.split resolved trace := by
  intro source outer f first second
  have run : ((frontEnd source).toOption.bind fun script =>
      script.split.resolve.result.toOption).map Stmt.allLandmarks =
      some ([.declare outer, .use outer, .declare f] ++
        block ([.declare first, .use first] ++ block [.declare second, .use second] ++
          block [.use first] ++ [.use first]) ++
        [.use outer] ++ block [.declare first, .use first] ++ [.use f, .use outer]) := by
    decide +kernel
  obtain ⟨resolved, chain, landmarks⟩ := Option.map_eq_some_iff.mp run
  obtain ⟨script, accepted, done⟩ := Option.bind_eq_some_iff.mp chain
  have done := Success.toOption_eq_some.mp done
  exact ⟨script, resolved, Success.toOption_eq_some.mp accepted, done, landmarks,
    Script.resolve_scopes done⟩

end Wabbit.Ast
