import Wabbit.Proofs.Outline.Functions
import Wabbit.Proofs.References.Binding

/-!
Which global variables are defined. A name that has no declaration is taken for a global variable, and
nothing keeps two declarations at the top level from having one name, so the compiled program need
not be closed. Main statement: the definitions of a compiled program have different names exactly if
those of the source text have and none of them is reserved, and what the program reads or writes is
one of its global variables with the same kind, unless it is the name of a function, or stands where
no declaration of it is visible.
-/

namespace Wabbit

open Ast

/-- The name of something that is defined, with the kind of the variable or of the function's
result. -/
def Export.name : Export → Name
  | global name => name
  | function header => ⟨header.name, header.result⟩

namespace Items

variable {β : Type}

/-- The names of all that an emitted program declares or defines. -/
def definitions (program : Items β) : List String :=
  Prototype.all.map Prototype.name ++ program.exports.map fun e => e.name.text

/-- No name is defined twice, and all that is read or written is a global variable of the program. -/
def IsClosed (program : Items Tac.Block) : Prop :=
  program.definitions.Nodup ∧
    ∀ name, .access name ∈ program.references → .global name ∈ program.exports

instance (program : Items Tac.Block) : Decidable program.IsClosed :=
  decidable_of_iff (program.definitions.Nodup ∧
      ∀ name ∈ program.references.filterMap Reference.access?, .global name ∈ program.exports)
    (and_congr_right' (forall_congr' fun _ => imp_congr_left Reference.mem_filterMap_access?))

end Items

/-! ### Names of definitions -/

namespace Ast

variable {initializers negation : Prop}

/-- The name that a statement of the top level defines. -/
def Stmt.defined? : Stmt Name initializers negation → Option String
  | .declare name | .define _ name _ | .function name _ _ => some name.text
  | _ => none

/-- The names that are defined at the top level of a program. -/
def Script.topLevelNames (script : Script Name initializers negation) : List String :=
  script.filterMap Stmt.defined?

private theorem Stmt.text_export? (s : Stmt Name initializers negation) (scope : Scope) :
    (s.bound scope .topLevel).1.export?.map (fun e => e.name.text) = s.defined? := by
  cases s <;> rfl

private theorem Stmt.texts_exports (stmts : List (Stmt Name initializers negation)) (scope : Scope) :
    ((allBound scope .topLevel stmts).1.filterMap export?).map (fun e => e.name.text) =
      stmts.filterMap defined? := by
  induction stmts generalizing scope with
  | nil => rfl
  | cons s rest ih =>
    rw [allBound, List.map_filterMap, List.filterMap_cons, text_export?, ← List.map_filterMap, ih,
      List.filterMap_cons]

end Ast

/-- The names that every emitted program declares or defines. -/
def reservedNames : List String := Prototype.all.map Prototype.name ++ [Items.entryPoint]

/-- A compiled program defines one item for every definition of the source text, and its main
function. -/
theorem compile_definitions {options : Options} {script : Parsed} {compiled : Compiled}
    (done : (compile options script).result = .ok compiled) :
    compiled.program.definitions =
      Prototype.all.map Prototype.name ++ (script.topLevelNames ++ [Items.entryPoint]) := by
  rw [Items.definitions, (compile_bound done).1, Script.exports, List.map_append, Script.bound,
    Stmt.texts_exports]
  rfl

/-- Definitions have different names if those of the source text have, and none is reserved. -/
theorem nodup_definitions_iff (names : List String) :
    (Prototype.all.map Prototype.name ++ (names ++ [Items.entryPoint])).Nodup ↔
      names.Nodup ∧ ∀ name ∈ names, name ∉ reservedNames := by
  have same : (Prototype.all.map Prototype.name ++ (names ++ [Items.entryPoint])).Perm
      (reservedNames ++ names) := by
    rw [reservedNames, List.append_assoc]
    exact List.perm_append_comm.append_left _
  have distinct : reservedNames.Nodup := by decide
  rw [same.nodup_iff, List.nodup_append']
  constructor
  · rintro ⟨-, own, apart⟩
    exact ⟨own, fun name member reserved => apart reserved member⟩
  · rintro ⟨own, apart⟩
    exact ⟨distinct, own, fun name reserved member => apart name member reserved⟩

/-! ### Names without a declaration -/

namespace Ast

variable {initializers negation : Prop}

/-- Whether no declaration of the name is visible. -/
def Kinds.misses (kinds : Kinds) (name : Name) : Bool := (kinds.lookup name.text).isNone

namespace Stmt

mutual

/-- The names of a statement that stand where no declaration of them is visible. A declaration is
visible in its own value. -/
def undeclared (kinds : Kinds) : Stmt Name initializers negation → List Name
  | declare _ => []
  | define _ name value => value.names.filter (kinds.declare name).misses
  | assign name value => (value.names ++ [name]).filter kinds.misses
  | print value | ret value | eval value => value.names.filter kinds.misses
  | ifElse condition ifTrue ifFalse => condition.toExpr.names.filter kinds.misses ++
    (allUndeclared kinds ifTrue ++ allUndeclared kinds ifFalse)
  | loop condition body => condition.toExpr.names.filter kinds.misses ++ allUndeclared kinds body
  | function name parameters body =>
    allUndeclared ((kinds.declare name).declareAll parameters) body

def allUndeclared (kinds : Kinds) : List (Stmt Name initializers negation) → List Name
  | [] => []
  | s :: rest => s.undeclared kinds ++ allUndeclared (s.kindsBehind kinds) rest

end

end Stmt

/-- The names of a program that stand where no declaration of them is visible. -/
def Script.undeclared (script : Script Name initializers negation) : List Name :=
  Stmt.allUndeclared [] script

end Ast

/-! ### References of bound programs -/

/-- Every global variable that is read or written is among some definitions, or undeclared. -/
def Covered (defined undeclared : List Name) (references : List Reference) : Prop :=
  ∀ name, .access name ∈ references → name ∈ defined ∨ name ∈ undeclared

namespace Covered

variable {defined undeclared undeclared' : List Name} {front back : List Reference}

theorem nil : Covered defined undeclared [] := nofun

private theorem call (header : Header) : Covered defined undeclared [.call header] := by
  intro name member
  cases List.mem_singleton.mp member

theorem mono (covered : Covered defined undeclared front) (more : undeclared ⊆ undeclared') :
    Covered defined undeclared' front :=
  fun name member => (covered name member).imp_right fun missed => more missed

theorem append (first : Covered defined undeclared front)
    (second : Covered defined undeclared' back) :
    Covered defined (undeclared ++ undeclared') (front ++ back) := by
  intro name member
  rcases List.mem_append.mp member with inside | inside
  · exact (first.mono (List.subset_append_left ..)) name inside
  · exact (second.mono (List.subset_append_right ..)) name inside

end Covered

namespace Ast

variable {initializers negation : Prop} {defined : List Name}

namespace Scope

/-- All visible global declarations are among some names, and all others are on the stack. -/
structure Backed (defined : List Name) (scope : Scope) : Prop where
  locals : ∀ entry ∈ scope.locals, entry.2.storage = .stack
  globals : ∀ symbol ∈ scope.globals, symbol.name ∈ defined

variable {scope : Scope}

namespace Backed

theorem declare (backed : scope.Backed defined) {depth : Depth} {name : Name}
    (own : depth = .topLevel → name ∈ defined) : (scope.declare depth name).2.Backed defined := by
  cases depth with
  | topLevel => exact ⟨backed.locals, List.forall_mem_cons.mpr ⟨own rfl, backed.globals⟩⟩
  | nested => exact ⟨List.forall_mem_cons.mpr ⟨rfl, backed.locals⟩, backed.globals⟩

private theorem declareAll (backed : scope.Backed defined) (names : List Name) :
    (scope.declareAll names).2.Backed defined := by
  induction names generalizing scope with
  | nil => exact backed
  | cons name rest ih =>
    have inside : Depth.nested = .topLevel → name ∈ defined := by simp
    exact ih (backed.declare inside)

/-- A name refers to something on the stack or to a definition, or no declaration is visible. -/
theorem binding (backed : scope.Backed defined) (name : Name) :
    Covered defined ([name].filter scope.kinds.misses)
      (scope.visible.binding name).references := by
  intro other member
  have global : (scope.visible.binding name).storage = .global ∧
      other = (scope.visible.binding name).name := by
    unfold Symbol.references at member
    split at member
    · exact ⟨‹_›, Reference.access.inj (List.mem_singleton.mp member)⟩
    · cases member
  obtain ⟨global, rfl⟩ := global
  unfold Visible.binding at global ⊢
  cases inner : scope.visible.locals.lookup name.text with
  | some symbol =>
    -- Only a declaration of the top level can be global; the others are on the stack.
    rw [inner] at global
    obtain ⟨front, back, parts, -⟩ := List.lookup_eq_some_iff.mp inner
    have stack := backed.locals (name.text, symbol) (by
      change _ ∈ scope.visible.locals
      simp [parts])
    cases global.symm.trans stack
  | none =>
    rw [Scope.lookup_globals]
    cases outer : scope.globals.find? fun symbol => symbol.text = name.text with
    | some symbol => exact .inl (backed.globals symbol (List.mem_of_find?_eq_some outer))
    | none =>
      have missing : scope.kinds.misses name = true := by
        rw [Kinds.misses, Scope.lookup_kinds, inner, Scope.lookup_globals, outer]
        rfl
      exact .inr (List.mem_filter.mpr ⟨List.mem_singleton_self name, missing⟩)

end Backed

end Scope

namespace Expr

variable {scope : Scope}

mutual

theorem covered_rename (backed : scope.Backed defined) (e : Expr Name negation) :
    Covered defined (e.names.filter scope.kinds.misses)
      (e.rename scope.visible.binding).references := by
  cases e with
  | name n => exact backed.binding n
  | arith op left right | compare op left right =>
    rw [names, List.filter_append, rename, references]
    exact (covered_rename backed left).append (covered_rename backed right)
  | call function arguments =>
    rw [names, rename, references, ← List.append_nil (List.filter _ _)]
    refine .append ((covered_renameAll backed arguments).mono ?_) (.call _)
    exact List.filter_subset _ (List.subset_cons_self ..)
  | neg allowed inner =>
    rw [names, rename, references]
    exact covered_rename backed inner
  | _ => exact .nil

theorem covered_renameAll (backed : scope.Backed defined) (es : List (Expr Name negation)) :
    Covered defined ((allNames es).filter scope.kinds.misses)
      (allReferences (renameAll scope.visible.binding es)) := by
  cases es with
  | nil => exact .nil
  | cons e rest =>
    rw [allNames, List.filter_append]
    exact (covered_rename backed e).append (covered_renameAll backed rest)

end

end Expr

namespace Stmt

/-- Behind a statement, all global declarations are still among the names, if its own is. -/
theorem backed_bound {s : Stmt Name initializers negation} {scope : Scope} {depth : Depth}
    (backed : scope.Backed defined)
    (exported : depth = .topLevel → ∀ e ∈ (s.bound scope depth).1.export?, e.name ∈ defined) :
    (s.bound scope depth).2.Backed defined := by
  cases s with
  | declare name | define _ name _ | function name _ _ =>
    refine backed.declare ?_
    rintro rfl
    exact exported rfl _ rfl
  | _ => exact ⟨backed.locals, backed.globals⟩

mutual

/-- All that a statement reads or writes is on the stack or defined, or stands where no declaration
of it is visible. -/
theorem covered_bound {s : Stmt Name initializers negation} {scope : Scope} {depth : Depth}
    (outside : depth = .topLevel → scope.locals = []) (backed : scope.Backed defined)
    (exported : depth = .topLevel → ∀ e ∈ (s.bound scope depth).1.export?, e.name ∈ defined) :
    Covered defined (s.undeclared scope.kinds) (s.bound scope depth).1.references := by
  have behind := backed_bound backed exported
  cases s with
  | declare name => exact .nil
  | define allowed name value =>
    -- The variable itself is visible right behind its declaration, so that it is never missed.
    have visible : [name].filter (scope.kinds.declare name).misses = [] := by
      simp [Kinds.misses, Kinds.declare]
    have own := behind.binding name
    have inner := Expr.covered_rename behind value
    simp only [bound, Scope.kinds_declare outside, Scope.binding_declare outside, if_true,
      visible] at own inner
    rw [undeclared, ← List.append_nil (List.filter _ _)]
    exact inner.append own
  | assign name value =>
    rw [undeclared, List.filter_append]
    exact (Expr.covered_rename backed value).append (backed.binding name)
  | print value | ret value | eval value => exact Expr.covered_rename backed value
  | ifElse condition ifTrue ifFalse =>
    have left := covered_allBound ifTrue scope .nested nofun backed nofun
    have later : (scope.leave (allBound scope .nested ifTrue).2).Backed defined :=
      ⟨backed.locals, backed.globals⟩
    have right := covered_allBound ifFalse _ .nested nofun later nofun
    exact (Expr.covered_rename backed condition.toExpr).append (left.append right)
  | loop condition body =>
    have round := covered_allBound body scope .nested nofun backed nofun
    exact (Expr.covered_rename backed condition.toExpr).append round
  | function name parameters body =>
    have inner : Scope.Backed defined { (scope.declare depth name).2 with slots := [] } :=
      ⟨behind.locals, behind.globals⟩
    have round := covered_allBound body _ .nested nofun (inner.declareAll parameters) nofun
    rw [Scope.kinds_function outside] at round
    exact round

theorem covered_allBound (stmts : List (Stmt Name initializers negation)) (scope : Scope)
    (depth : Depth) (outside : depth = .topLevel → scope.locals = []) (backed : scope.Backed defined)
    (exported : depth = .topLevel →
      ∀ e ∈ (allBound scope depth stmts).1.filterMap export?, e.name ∈ defined) :
    Covered defined (allUndeclared scope.kinds stmts)
      (allReferences (allBound scope depth stmts).1) := by
  cases stmts with
  | nil => exact .nil
  | cons s rest =>
    simp only [allBound, forall_mem_filterMap_cons] at exported
    have first := covered_bound outside backed fun top => (exported top).1
    have later := backed_bound backed fun top => (exported top).1
    have second := covered_allBound rest _ depth (locals_bound outside) later fun top => (exported top).2
    rw [kinds_bound outside] at second
    exact first.append second

end

end Stmt

end Ast

/-! ### Compiled programs -/

/-- The definitions of a compiled program have different names exactly if those of the source text
have, and none of them is reserved. All that the program reads or writes is one of its global
variables with this kind, or has the name of a function, or stands in the source text where no
declaration of it is visible. -/
theorem compiled_definitions_and_accesses {options : Options} {script : Parsed} {compiled : Compiled}
    (done : (compile options script).result = .ok compiled) :
    (compiled.program.definitions.Nodup ↔
        script.topLevelNames.Nodup ∧ ∀ name ∈ script.topLevelNames, name ∉ reservedNames) ∧
      ∀ name, .access name ∈ compiled.program.references →
        .global name ∈ compiled.program.exports ∨
        (∃ parameters, .function ⟨name.text, parameters, name.kind⟩ ∈ compiled.program.exports) ∨
        name ∈ script.undeclared := by
  refine ⟨by rw [compile_definitions done, nodup_definitions_iff], fun name member => ?_⟩
  obtain ⟨exports, references, -⟩ := compile_bound done
  rw [exports]
  have backed : ({} : Scope).Backed (script.bound.exports.map Export.name) := ⟨nofun, nofun⟩
  have covered := Stmt.covered_allBound script {} .topLevel (fun _ => rfl) backed
    fun _ e inside => List.mem_map_of_mem (List.mem_append_left _ inside)
  rcases covered name ((references _).mp member) with found | missed
  · obtain ⟨e, inside, rfl⟩ := List.mem_map.mp found
    cases e with
    | global name => exact .inl inside
    | function header => exact .inr (.inl ⟨_, inside⟩)
  · exact .inr (.inr missed)

/-- Global variables of both kinds that a function reads and writes. All of them are declared. -/
theorem compiled_definitions_and_accesses_shared :
    let source := "var x = 1; var y float; func f(n int) float \x7b x = x + n; return y; \x7d" ++
      " y = 2.5; print f(x);"
    ∃ script compiled, frontEnd source = .ok script ∧ (compile {} script).result = .ok compiled ∧
      script.topLevelNames = ["x", "y", "f"] ∧ script.undeclared = [] ∧
      compiled.program.definitions.Nodup ∧
      .access ⟨"y", .float⟩ ∈ compiled.program.references ∧
      (.global ⟨"y", .float⟩ ∈ compiled.program.exports ∨
        ∃ parameters, .function ⟨"y", parameters, .float⟩ ∈ compiled.program.exports) := by
  intro source
  have run : ((frontEnd source).toOption.bind fun script =>
      (compile {} script).result.toOption.map fun compiled => decide
        (script.topLevelNames = ["x", "y", "f"] ∧ script.undeclared = [] ∧
          .access ⟨"y", .float⟩ ∈ compiled.program.references)) = some true := by
    decide +kernel
  obtain ⟨script, compiled, accepted, done, seen⟩ := exists_compiled run
  obtain ⟨names, declared, member⟩ := of_decide_eq_true seen
  obtain ⟨distinct, closed⟩ := compiled_definitions_and_accesses done
  refine ⟨script, compiled, accepted, done, names, declared, distinct.mpr ?_, member, ?_⟩
  · rw [names]
    decide
  · have found := closed _ member
    rw [declared] at found
    simpa using found

/-- Programs that are not closed: a variable is declared twice, a function has the name of the main
function, a variable is never declared, and a function is read like a variable. -/
theorem compiled_not_closed :
    ["var x = 1; var x = 2; print x;", "func main() int \x7b return 1; \x7d", "x = 1; print x;",
        "func f() int \x7b return 1; \x7d print f;"].Forall fun source =>
      ∃ script compiled, frontEnd source = .ok script ∧ (compile {} script).result = .ok compiled ∧
        ¬ compiled.program.IsClosed := by
  refine List.forall_iff_forall_mem.mpr fun source member => ?_
  have run : ((frontEnd source).toOption.bind fun script =>
      (compile {} script).result.toOption.map fun compiled =>
        decide (¬ compiled.program.IsClosed)) = some true := by
    revert source
    decide +kernel
  obtain ⟨script, compiled, accepted, done, seen⟩ := exists_compiled run
  exact ⟨script, compiled, accepted, done, of_decide_eq_true seen⟩

end Wabbit
