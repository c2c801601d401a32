import Wabbit.Proofs.Names.Declared
import Wabbit.Proofs.Outline.Functions
import Wabbit.Proofs.References.Binding

/-!
Calls and the functions that they call. The type checker knows a function by its name, and so does
the code that is emitted for a call, but in between the name is resolved like any other, and may turn
out to be a variable. Main statement: every call of a compiled program has the header of one of its
functions exactly if every call of the bound program has. That is so if all names have the kinds of
the declarations that are visible, and no variable has the name of a function.
-/

namespace Wabbit

open Ast

/-- Every call among some references has the header of a function among some definitions. -/
def CallsMet (exports : List Export) (references : List Reference) : Prop :=
  ∀ header, .call header ∈ references → .function header ∈ exports

namespace CallsMet

instance (exports : List Export) (references : List Reference) :
    Decidable (CallsMet exports references) :=
  decidable_of_iff (∀ header ∈ references.filterMap Reference.call?, .function header ∈ exports)
    (forall_congr' fun _ => imp_congr_left Reference.mem_filterMap_call?)

variable {exports : List Export} {front back : List Reference}

theorem nil : CallsMet exports [] := nofun

theorem append (first : CallsMet exports front) (second : CallsMet exports back) :
    CallsMet exports (front ++ back) := by
  intro header member
  rcases List.mem_append.mp member with inside | inside
  · exact first header inside
  · exact second header inside

/-- A variable is no call. -/
theorem symbol (symbol : Symbol) : CallsMet exports symbol.references := by
  intro header member
  unfold Symbol.references at member
  split at member
  · simp at member
  · cases member

end CallsMet

/-! ### What is known of functions -/

/-- All functions with a known signature are among some, and where one of them is named, it is visible
and defined with this signature. -/
def Known (functions : List String) (exports : List Export) (scope : Scope)
    (signatures : List (String × List Kind)) : Prop :=
  ∀ function parameters, signatures.lookup function = some parameters → function ∈ functions ∧
    ∀ name : Name, name.text = function → .function ⟨(scope.visible.binding name).text, parameters,
      (scope.visible.binding name).kind⟩ ∈ exports

namespace Known

variable {functions : List String} {exports : List Export} {scope : Scope} {depth : Depth}
  {signatures : List (String × List Kind)}

private theorem start : Known functions exports scope [] := nofun

/-- A variable that is no namesake of a function hides none. -/
theorem declare (known : Known functions exports scope signatures)
    (outside : depth = .topLevel → scope.locals = []) {name : Name}
    (apart : name.text ∉ functions) :
    Known functions exports (scope.declare depth name).2 signatures := by
  intro function parameters found
  obtain ⟨inside, defined⟩ := known function parameters found
  refine ⟨inside, fun other same => ?_⟩
  have different : other.text ≠ name.text := by
    intro clash
    rw [← clash, same] at apart
    exact apart inside
  rw [Scope.binding_declare outside, if_neg different]
  exact defined other same

private theorem declareAll (known : Known functions exports scope signatures) {names : List Name}
    (apart : ∀ text ∈ names.map Name.text, text ∉ functions) :
    Known functions exports (scope.declareAll names).2 signatures := by
  induction names generalizing scope with
  | nil => exact known
  | cons name rest ih =>
    obtain ⟨own, others⟩ := List.forall_mem_cons.mp apart
    have inside : Depth.nested = .topLevel → scope.locals = [] := by simp
    exact ih (known.declare inside own) others

/-- Behind a function that is defined it is known, also where it takes the name of another one. -/
theorem define (known : Known functions exports scope signatures)
    (outside : depth = .topLevel → scope.locals = []) {name : Name} {parameters : List Kind}
    (listed : name.text ∈ functions)
    (exported : .function ⟨(scope.declare depth name).1.text, parameters,
      (scope.declare depth name).1.kind⟩ ∈ exports) :
    Known functions exports (scope.declare depth name).2
      ((name.text, parameters) :: signatures) := by
  intro function parameters' found
  rw [List.lookup_cons] at found
  by_cases same : function = name.text
  · subst same
    rw [beq_self_eq_true] at found
    cases found
    refine ⟨listed, fun other named => ?_⟩
    rw [Scope.binding_declare outside, if_pos named]
    exact exported
  · rw [beq_eq_false_iff_ne.mpr same] at found
    obtain ⟨inside, defined⟩ := known function parameters' found
    refine ⟨inside, fun other named => ?_⟩
    rw [Scope.binding_declare outside, if_neg (named ▸ same)]
    exact defined other named

end Known

/-! ### Typed expressions -/

namespace Typing

section Expressions

variable {functions : List String} {exports : List Export} {scope : Scope} {context : Context}

mutual

/-- All calls of an expression are to known functions. -/
theorem calls_checkExpr {e : Source.Expr} {typed : Expr Name True}
    (done : checkExpr context e = .ok typed)
    (known : Known functions exports scope context.signatures)
    (agree : ∀ name ∈ typed.names, scope.kinds.admits name = true) :
    CallsMet exports (typed.rename scope.visible.binding).references := by
  cases e with
  | int value span | float value span =>
    cases checkExpr_inv done
    exact .nil
  | var text span =>
    cases checkExpr_inv done
    exact .symbol _
  | neg inner span =>
    cases checkExpr_inv done with
    | neg own =>
      rw [Expr.rename, Expr.references]
      exact calls_checkExpr own known agree
  | binary op left right span =>
    cases checkExpr_inv done with
    | arith first second same | compare first second =>
      rw [Expr.names, List.forall_mem_append] at agree
      rw [Expr.rename, Expr.references]
      exact .append (calls_checkExpr first known agree.1) (calls_checkExpr second known agree.2)
  | call function arguments span =>
    cases checkExpr_inv done with
    | @call _ kind _ _ _ others signature callee =>
      -- The checker finds the function by its name alone, the code by what the name is bound to.
      obtain ⟨inner, kinds⟩ := calls_checkExprs others known
        fun name member => agree name (List.mem_cons_of_mem _ member)
      have defined := (known function _ signature).2 ⟨function, kind⟩ rfl
      rw [Expr.rename, Expr.references, kinds]
      refine inner.append fun header member => ?_
      cases List.mem_singleton.mp member
      exact defined

theorem calls_checkExprs {es : List Source.Expr} {typed : List (Expr Name True)}
    (done : List.Forall₂ (checkExpr context · = .ok ·) es typed)
    (known : Known functions exports scope context.signatures)
    (agree : ∀ name ∈ Expr.allNames typed, scope.kinds.admits name = true) :
    CallsMet exports (Expr.allReferences (Expr.renameAll scope.visible.binding typed)) ∧
      (Expr.renameAll scope.visible.binding typed).map Expr.kind = typed.map Expr.kind := by
  cases es with
  | nil =>
    cases done
    exact ⟨.nil, rfl⟩
  | cons e rest =>
    cases done with
    | @cons _ e' _ rest' own others =>
      obtain ⟨here, later⟩ := List.forall_mem_append.mp agree
      obtain ⟨inner, kept⟩ := calls_checkExprs others known later
      have kind : (e'.rename scope.visible.binding).kind = e'.kind :=
        Expr.kind_rename fun n member => (scope.kind_binding_iff n).mpr (here n member)
      refine ⟨.append (calls_checkExpr own known here) inner, ?_⟩
      rw [Expr.renameAll, List.map_cons, kind, kept, List.map_cons]

end

end Expressions

end Typing

/-! ### Typed statements -/

namespace Ast.Stmt

variable {ν : Type} {initializers negation : Prop}

private theorem allFunctions_eq_flatMap (stmts : List (Stmt ν initializers negation)) :
    allFunctions stmts = stmts.flatMap functions := by
  induction stmts with
  | nil => rfl
  | cons s rest ih => rw [allFunctions, ih, List.flatMap_cons]

/-- The functions of a statement that do not stand at the top level. -/
def misplaced (depth : Depth) (s : Stmt ν initializers negation) : List ν :=
  match depth with
  | .topLevel => s.innerFunctions
  | .nested => s.functions

private theorem misplaced_ifElse (depth : Depth) (condition : Condition ν negation)
    (ifTrue ifFalse : List (Stmt ν initializers negation)) :
    (ifElse condition ifTrue ifFalse).misplaced depth =
      allFunctions ifTrue ++ allFunctions ifFalse := by
  cases depth <;> rfl

private theorem misplaced_loop (depth : Depth) (condition : Condition ν negation)
    (body : List (Stmt ν initializers negation)) :
    (loop condition body).misplaced depth = allFunctions body := by
  cases depth <;> rfl

/-- The statement has names of the kinds that are visible and its variables are no namesakes of
functions. Its own functions stand at the top level, where they are known and defined. -/
structure Fits (functions : List String) (exports : List Export) (scope : Scope) (depth : Depth)
    (s : Stmt Name initializers negation) : Prop where
  outside : depth = .topLevel → scope.locals = []
  agree : s.agrees scope.kinds = true
  apart : ∀ text ∈ s.declared, text ∉ functions
  listed : ∀ name ∈ s.functions, name.text ∈ functions
  alone : (s.bound scope depth).1.misplaced depth = []
  exported : depth = .topLevel → ∀ e ∈ (s.bound scope depth).1.export?, e ∈ exports

structure AllFit (functions : List String) (exports : List Export) (scope : Scope) (depth : Depth)
    (stmts : List (Stmt Name initializers negation)) : Prop where
  outside : depth = .topLevel → scope.locals = []
  agree : allAgree scope.kinds stmts = true
  apart : ∀ text ∈ allDeclared stmts, text ∉ functions
  listed : ∀ name ∈ allFunctions stmts, name.text ∈ functions
  alone : (allBound scope depth stmts).1.flatMap (misplaced depth) = []
  exported : depth = .topLevel → ∀ e ∈ (allBound scope depth stmts).1.filterMap export?, e ∈ exports

namespace AllFit

variable {functions : List String} {exports : List Export} {scope : Scope} {depth : Depth}

theorem cons {s : Stmt Name initializers negation} {rest : List (Stmt Name initializers negation)}
    (all : AllFit functions exports scope depth (s :: rest)) :
    Fits functions exports scope depth s ∧
      AllFit functions exports (s.bound scope depth).2 depth rest := by
  obtain ⟨outside, agree, apart, listed, alone, exported⟩ := all
  rw [allAgree, Bool.and_eq_true] at agree
  rw [allDeclared, List.forall_mem_append] at apart
  rw [allFunctions, List.forall_mem_append] at listed
  rw [allBound, List.flatMap_cons, List.append_eq_nil_iff] at alone
  simp only [allBound, forall_mem_filterMap_cons] at exported
  refine ⟨⟨outside, agree.1, apart.1, listed.1, alone.1, fun top => (exported top).1⟩, ?_⟩
  exact ⟨locals_bound outside, kinds_bound outside ▸ agree.2, apart.2, listed.2, alone.2,
    fun top => (exported top).2⟩

/-- Statements inside of others define no functions. -/
theorem nested {stmts : List (Stmt Name initializers negation)}
    (agree : allAgree scope.kinds stmts = true) (apart : ∀ text ∈ allDeclared stmts, text ∉ functions)
    (listed : ∀ name ∈ allFunctions stmts, name.text ∈ functions)
    (alone : allFunctions (allBound scope .nested stmts).1 = []) :
    AllFit functions exports scope .nested stmts where
  outside := by simp
  agree := agree
  apart := apart
  listed := listed
  alone := by
    rw [← alone, allFunctions_eq_flatMap]
    rfl
  exported := by simp

end AllFit

end Ast.Stmt

namespace Typing

variable {functions : List String} {exports : List Export}

/-- The calls are met, and as much is known behind them. Nothing is learned inside of a block. -/
structure Meets (functions : List String) (exports : List Export) (depth : Depth)
    (before : Context) (references : List Reference) (scope : Scope) (behind : Context) : Prop where
  calls : CallsMet exports references
  known : Known functions exports scope behind.signatures
  nested : depth = .nested → behind.signatures = before.signatures

/-- The calls of a block are met, if enough is known in front of it and its statements fit. -/
def BlockMeets (functions : List String) (exports : List Export) (scope : Scope) (before : Context)
    (block : List (Stmt Name True True)) (behind : Context) : Prop :=
  Known functions exports scope before.signatures →
    Stmt.AllFit functions exports scope .nested block →
    Meets functions exports .nested before (Stmt.allReferences (Stmt.allBound scope .nested block).1)
      (Stmt.allBound scope .nested block).2 behind

section Blocks

variable {context : Context} {scope : Scope} {depth : Depth}

/-- Signatures outlive a block and declarations do not, but a block without functions adds none. -/
theorem meets_ifElse {test : Source.Expr} {condition : Condition Name True}
    {ifTrue ifFalse : List (Stmt Name True True)} {middle behind : Context}
    (tested : checkExpr context test = .ok condition.toExpr)
    (known : Known functions exports scope context.signatures)
    (fits : (Stmt.ifElse condition ifTrue ifFalse).Fits functions exports scope depth)
    (first : BlockMeets functions exports scope context ifTrue middle)
    (second : BlockMeets functions exports (scope.leave (Stmt.allBound scope .nested ifTrue).2) middle
      ifFalse behind) :
    Meets functions exports depth context
      ((Stmt.ifElse condition ifTrue ifFalse).bound scope depth).1.references
      ((Stmt.ifElse condition ifTrue ifFalse).bound scope depth).2 behind := by
  obtain ⟨-, agree, apart, listed, alone, -⟩ := fits
  rw [Stmt.agrees, Bool.and_eq_true, Bool.and_eq_true] at agree
  rw [Stmt.declared, List.forall_mem_append] at apart
  rw [Stmt.functions, List.forall_mem_append] at listed
  rw [Stmt.bound, Stmt.misplaced_ifElse, List.append_eq_nil_iff] at alone
  have left := first known (.nested agree.1.2 apart.1 listed.1 alone.1)
  have still : Known functions exports (scope.leave (Stmt.allBound scope .nested ifTrue).2)
      middle.signatures := left.nested rfl ▸ known
  have right := second still (.nested agree.2 apart.2 listed.2 alone.2)
  have test_calls := calls_checkExpr tested known (List.all_eq_true.mp agree.1.1)
  constructor
  · exact .append test_calls (left.calls.append right.calls)
  · exact right.nested rfl ▸ still
  · intro _
    exact (right.nested rfl).trans (left.nested rfl)

private theorem meets_loop {test : Source.Expr} {condition : Condition Name True}
    {body : List (Stmt Name True True)} {behind : Context}
    (tested : checkExpr context test = .ok condition.toExpr)
    (known : Known functions exports scope context.signatures)
    (fits : (Stmt.loop condition body).Fits functions exports scope depth)
    (round : BlockMeets functions exports scope context body behind) :
    Meets functions exports depth context
      ((Stmt.loop condition body).bound scope depth).1.references
      ((Stmt.loop condition body).bound scope depth).2 behind := by
  obtain ⟨-, agree, apart, listed, alone, -⟩ := fits
  rw [Stmt.agrees, Bool.and_eq_true] at agree
  rw [Stmt.bound, Stmt.misplaced_loop] at alone
  have inside := round known (.nested agree.2 apart listed alone)
  have test_calls := calls_checkExpr tested known (List.all_eq_true.mp agree.1)
  constructor
  · exact .append test_calls inside.calls
  · exact inside.nested rfl ▸ known
  · intro _
    exact inside.nested rfl

/-- The function is known in its own body, and hides an earlier one of its name from there on. -/
theorem meets_function {text : String} {kind : Kind} {parameters : List (String × Kind)}
    {result : Option Kind} {body : List (Stmt Name True True)} {inner behind : Context}
    (known : Known functions exports scope context.signatures)
    (fits : (Stmt.function ⟨text, kind⟩ (parameters.map fun p => (⟨p.1, p.2⟩ : Name)) body).Fits
      functions exports scope depth)
    (round : ∀ inside : Scope,
      BlockMeets functions exports inside (context.enter text parameters result) body inner)
    (signatures : behind.signatures = inner.signatures) :
    Meets functions exports depth context
      ((Stmt.function ⟨text, kind⟩ (parameters.map fun p => (⟨p.1, p.2⟩ : Name)) body).bound scope
        depth).1.references
      ((Stmt.function ⟨text, kind⟩ (parameters.map fun p => (⟨p.1, p.2⟩ : Name)) body).bound scope
        depth).2 behind := by
  obtain ⟨outside, agree, apart, listed, alone, exported⟩ := fits
  cases depth with
  | nested => cases alone
  | topLevel =>
    rw [Stmt.declared, List.forall_mem_append] at apart
    rw [Stmt.functions, List.forall_mem_cons] at listed
    rw [Stmt.agrees, ← Scope.kinds_function outside] at agree
    have signature : (parameters.map fun p => (⟨p.1, p.2⟩ : Name)).map Name.kind =
        parameters.map Prod.snd := List.map_map
    have defined := exported rfl _ rfl
    rw [Scope.map_kind_declareAll, signature] at defined
    have own := known.define outside listed.1 defined
    let name : Name := ⟨text, kind⟩
    have fresh : Known functions exports { (scope.declare .topLevel name).2 with slots := [] }
        (context.enter text parameters result).signatures := own
    have inside := round _ (fresh.declareAll apart.1) (.nested agree apart.2 listed.2 alone)
    have same : behind.signatures = (context.enter text parameters result).signatures :=
      signatures.trans (inside.nested rfl)
    exact ⟨inside.calls, same ▸ own, nofun⟩

end Blocks

mutual

/-- All calls of a statement are met. -/
theorem meets_checkStmt {s : Source.Stmt} {context : Context} {scope : Scope} {depth : Depth}
    {out : Stmt Name True True × Context} (done : checkStmt context s = .ok out)
    (known : Known functions exports scope context.signatures)
    (fits : out.1.Fits functions exports scope depth) :
    Meets functions exports depth context (out.1.bound scope depth).1.references
      (out.1.bound scope depth).2 out.2 := by
  cases s with
  | declare ident kind span =>
    cases checkStmt_inv done
    have own := fits.apart ident.name (List.mem_singleton_self _)
    exact ⟨.nil, known.declare fits.outside own, fun _ => rfl⟩
  | define ident annotation value span =>
    cases checkStmt_inv done with
    | @define _ _ _ value' _ own annotated =>
      have behind : Known functions exports (scope.declare depth ⟨ident.name, value'.kind⟩).2
          context.signatures :=
        known.declare fits.outside (fits.apart ident.name (List.mem_singleton_self _))
      have agree := List.all_eq_true.mp fits.agree
      rw [← Scope.kinds_declare fits.outside] at agree
      exact ⟨.append (calls_checkExpr own behind agree) (.symbol _), behind, fun _ => rfl⟩
  | assign ident value span =>
    have agree := fits.agree
    cases checkStmt_inv done with
    | introduce own unknown | assign own listed =>
      rw [Stmt.agrees, Bool.and_eq_true, List.all_eq_true] at agree
      exact ⟨.append (calls_checkExpr own known agree.2) (.symbol _), known, fun _ => rfl⟩
  | print value span =>
    cases checkStmt_inv done with
    | print own =>
      exact ⟨calls_checkExpr own known (List.all_eq_true.mp fits.agree), known, fun _ => rfl⟩
  | eval value span =>
    cases checkStmt_inv done with
    | eval own =>
      exact ⟨calls_checkExpr own known (List.all_eq_true.mp fits.agree), known, fun _ => rfl⟩
  | ret value span =>
    cases checkStmt_inv done with
    | ret own =>
      exact ⟨calls_checkExpr own known (List.all_eq_true.mp fits.agree), known, fun _ => rfl⟩
  | ifElse test ifTrue ifFalse span =>
    cases checkStmt_inv done with
    | ifElse tested first second =>
      exact meets_ifElse tested known fits (meets_checkBlock first) (meets_checkBlock second)
  | loop test body span =>
    cases checkStmt_inv done with
    | loop tested round => exact meets_loop tested known fits (meets_checkBlock round)
  | function ident parameters result body span =>
    cases checkStmt_inv done with
    | function round returned =>
      exact meets_function known fits (fun _ => meets_checkBlock round) rfl

theorem meets_checkBlock {stmts : List Source.Stmt} {context : Context} {scope : Scope}
    {depth : Depth} {out : List (Stmt Name True True) × Context}
    (done : checkBlock context stmts = .ok out)
    (known : Known functions exports scope context.signatures)
    (fit : Stmt.AllFit functions exports scope depth out.1) :
    Meets functions exports depth context (Stmt.allReferences (Stmt.allBound scope depth out.1).1)
      (Stmt.allBound scope depth out.1).2 out.2 := by
  cases stmts with
  | nil =>
    cases done
    exact ⟨.nil, known, fun _ => rfl⟩
  | cons s rest =>
    obtain ⟨s', rest', middle, behind, own, others, rfl⟩ := checkBlock_cons done
    obtain ⟨here, later⟩ := fit.cons
    have first := meets_checkStmt own known here
    have second := meets_checkBlock others first.known later
    exact ⟨first.calls.append second.calls, second.known,
      fun inside => (second.nested inside).trans (first.nested inside)⟩

end

end Typing

/-! ### Programs -/

namespace Ast.Script

/-- No variable or parameter of a program has the name of a function. -/
def IsApart (script : Parsed) : Prop :=
  ∀ text ∈ Stmt.allDeclared script, text ∉ (Stmt.allFunctions script).map Name.text

instance (script : Parsed) : Decidable script.IsApart :=
  inferInstanceAs (Decidable (∀ text ∈ Stmt.allDeclared script,
    text ∉ (Stmt.allFunctions script).map Name.text))

end Ast.Script

/-- The calls of an accepted program are met once it is bound, if the kinds of its names agree with
the declarations and no variable hides a function. -/
theorem callsMet_bound {source : String} {script : Parsed} (accepted : frontEnd source = .ok script)
    (alone : script.bound.innerFunctions = []) (agree : script.agrees = true)
    (apart : script.IsApart) : CallsMet script.bound.exports script.bound.references := by
  obtain ⟨program, -, typed⟩ := frontEnd_eq_ok.mp accepted
  obtain ⟨context, checked, -⟩ := Typing.check_eq_ok.mp typed
  have fit : Stmt.AllFit ((Stmt.allFunctions script).map Name.text) script.bound.exports {} .topLevel
      script :=
    { outside := fun _ => rfl
      agree
      apart
      listed := fun name member => List.mem_map_of_mem member
      alone
      exported := fun _ e member => List.mem_append_left _ member }
  exact (Typing.meets_checkBlock checked .start fit).calls

/-- Every call of a compiled program has the header of one of its functions exactly if every call of
the bound program has. That is so if all names have the kinds of the declarations that are visible and
no variable or parameter has the name of a function. -/
theorem compiled_calls_iff {options : Options} {source : String} {script : Parsed}
    {compiled : Compiled} (accepted : frontEnd source = .ok script)
    (done : (compile options script).result = .ok compiled) :
    (CallsMet compiled.program.exports compiled.program.references ↔
        CallsMet script.bound.exports script.bound.references) ∧
      (script.agrees = true → script.IsApart →
        CallsMet compiled.program.exports compiled.program.references) := by
  obtain ⟨exports, references, alone⟩ := compile_bound done
  have same : CallsMet compiled.program.exports compiled.program.references ↔
      CallsMet script.bound.exports script.bound.references := by
    rw [exports]
    exact forall_congr' fun header => imp_congr_left (references _)
  exact ⟨same, fun agree apart => same.mpr (callsMet_bound accepted alone agree apart)⟩

/-- A function that calls itself with arguments of different kinds, and a second one of the same
name. -/
theorem compiled_calls_iff_recursive :
    let source := "func f(n int, x float) float \x7b return f(n - 1, x); \x7d" ++
      " func f(n int) int \x7b return n; \x7d print f(4);"
    ∃ script compiled, frontEnd source = .ok script ∧ (compile {} script).result = .ok compiled ∧
      compiled.program.references.filterMap Reference.call? =
        [⟨"f", [.integer, .float], .float⟩, ⟨"f", [.integer], .integer⟩] ∧
      CallsMet compiled.program.exports compiled.program.references := by
  intro source
  have run : ((frontEnd source).toOption.bind fun script =>
      (compile {} script).result.toOption.map fun compiled => (script.agrees,
        decide script.IsApart, compiled.program.references.filterMap Reference.call?)) =
      some (true, true, [⟨"f", [.integer, .float], .float⟩, ⟨"f", [.integer], .integer⟩]) := by
    decide +kernel
  obtain ⟨script, compiled, accepted, done, seen⟩ := exists_compiled run
  simp only [Prod.mk.injEq, decide_eq_true_eq] at seen
  obtain ⟨agree, apart, calls⟩ := seen
  exact ⟨script, compiled, accepted, done, calls, (compiled_calls_iff accepted done).2 agree apart⟩

/-- A variable hides the function of its name from the code but not from the type checker, and what is
called is the variable. -/
theorem call_of_variable :
    let source := "func f() int \x7b return 1; \x7d" ++
      " func g(f int) int \x7b var f = 2; return f(); \x7d print g(3);"
    ∃ script compiled, frontEnd source = .ok script ∧ (compile {} script).result = .ok compiled ∧
      .call ⟨"f.1", [], .integer⟩ ∈ compiled.program.references ∧
      (∀ f ∈ compiled.program.functions, f.name.text ≠ "f.1") ∧
      ¬ CallsMet compiled.program.exports compiled.program.references := by
  intro source
  have run : ((frontEnd source).toOption.bind fun script =>
      (compile {} script).result.toOption.map fun compiled => decide
        (.call ⟨"f.1", [], .integer⟩ ∈ compiled.program.references ∧
          (∀ f ∈ compiled.program.functions, f.name.text ≠ "f.1") ∧
          ¬ CallsMet compiled.program.exports compiled.program.references)) = some true := by
    decide +kernel
  obtain ⟨script, compiled, accepted, done, seen⟩ := exists_compiled run
  exact ⟨script, compiled, accepted, done, of_decide_eq_true seen⟩

end Wabbit
