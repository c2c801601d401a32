import Wabbit.Proofs.Outline.Functions
import Wabbit.Proofs.References.Trees

/-!
References on their way from statements to blocks of three address code. No step adds or drops any,
and the kinds of the arguments of a call stay those of the expressions that they come from.
-/

namespace Wabbit

open Ast Stack

/-! ### Nested statements -/

namespace Stack.Nested

variable {α : Type}

mutual

/-- The references of a nested statement, where the code of its leaves is given. -/
def references (code : α → List Instr) : Nested α → List Reference
  | leaf x => referencesOf (code x)
  | ifElse condition ifTrue ifFalse =>
    referencesOf condition.instrs ++ (allReferences code ifTrue ++ allReferences code ifFalse)
  | loop condition body => referencesOf condition.instrs ++ allReferences code body
  | function _ _ body => allReferences code body

def allReferences (code : α → List Instr) : List (Nested α) → List Reference
  | [] => []
  | s :: rest => s.references code ++ allReferences code rest

end

end Stack.Nested

namespace Ast.Stmt

variable {negation : Prop}

mutual

/-- A statement keeps its references when it becomes code. -/
theorem references_lower {s : Stmt Symbol False negation} {plain : Stmt Symbol False False}
    {t : Nested Straight} (subtracted : s.subtract = .ok plain)
    (straightened : plain.lower.straighten = .ok t) : t.references id = s.references := by
  cases s with
  | define allowed symbol value => exact allowed.elim
  | declare symbol =>
    cases lower_inv subtracted straightened
    rfl
  | ifElse condition ifTrue ifFalse =>
    cases lower_inv subtracted straightened with
    | ifElse test first first' second second' =>
      simp only [Nested.references, references, allReferences_lower first first',
        allReferences_lower second second', Expr.code, Expr.referencesOf_instrs,
        Condition.references_subtract test]
  | loop condition body =>
    cases lower_inv subtracted straightened with
    | loop test round round' =>
      simp only [Nested.references, references, allReferences_lower round round', Expr.code,
        Expr.referencesOf_instrs, Condition.references_subtract test]
  | function name parameters body =>
    cases lower_inv subtracted straightened with
    | function round round' => rw [Nested.references, allReferences_lower round round', references]
  | _ =>
    cases lower_inv subtracted straightened
    rename_i own
    simp [Nested.references, references, Expr.references_subtract own, referencesFrom,
      Instr.references]

theorem allReferences_lower {stmts : List (Stmt Symbol False negation)}
    {plain : List (Stmt Symbol False False)} {stmts' : List (Nested Straight)}
    (subtracted : subtractAll stmts = .ok plain)
    (straightened : Nested.straightenAll (lowerAll plain) = .ok stmts') :
    Nested.allReferences id stmts' = allReferences stmts := by
  cases stmts with
  | nil =>
    cases subtracted
    cases straightened
    rfl
  | cons s rest =>
    obtain ⟨s', t, rest', ts, own, own', others, others', rfl⟩ := lowerAll_cons subtracted straightened
    simp only [Nested.allReferences, allReferences, references_lower own own',
      allReferences_lower others others']

end

end Ast.Stmt

namespace Stack.Nested

private theorem allReferences_joinRun (instrs : Straight) {stmts : List (Nested Straight)}
    (leaves : ∀ leaf ∈ allLeaves stmts, isLeafCode leaf = true) :
    allReferences id (joinRun instrs stmts) = referencesOf instrs ++ allReferences id stmts := by
  rcases joinRun_cases instrs stmts with same | ⟨-, next, rest, rfl, same⟩
  · rw [same]
    rfl
  · have known := (Bool.and_eq_true_iff.mp (leaves next (by simp [allLeaves, Nested.leaves]))).2
    simp only [same, allReferences, references, id_eq, referencesOf_append instrs known,
      List.append_assoc]

/-- Joining leaves into runs keeps their references, because no leaf takes anything from the stack
that it has not put there. -/
theorem allReferences_joinAllRuns {stmts : List (Nested Straight)}
    (leaves : ∀ leaf ∈ allLeaves stmts, isLeafCode leaf = true) :
    allReferences id (joinAllRuns stmts) = allReferences id stmts := by
  induction stmts using inductionAll with
  | nil => rfl
  | leaf instrs rest ih =>
    have others : ∀ leaf ∈ allLeaves rest, isLeafCode leaf = true :=
      fun leaf member => leaves leaf (List.mem_cons_of_mem _ member)
    rw [joinAllRuns, allReferences_joinRun _ (allLeaves_joinAllRuns
      (fun _ _ => isLeafCode_append) others), ih others]
    rfl
  | ifElse condition ifTrue ifFalse rest first second ih =>
    simp only [allLeaves, Nested.leaves, List.forall_mem_append] at leaves
    simp only [joinAllRuns, joinRuns, allReferences, references, first leaves.1.1,
      second leaves.1.2, ih leaves.2]
  | loop condition body rest inner ih | function name parameters body rest inner ih =>
    simp only [allLeaves, Nested.leaves, List.forall_mem_append] at leaves
    simp only [joinAllRuns, joinRuns, allReferences, references, inner leaves.1, ih leaves.2]

private theorem allReferences_labelAll (stmts : List (Nested Straight)) (l : Labelling) :
    allReferences Block.instrs ((labelAll stmts).run l).1 = allReferences id stmts := by
  induction stmts using inductionAll generalizing l with
  | nil => rfl
  | leaf instrs rest ih => exact congrArg (referencesOf instrs ++ ·) (ih _)
  | ifElse condition ifTrue ifFalse rest first second ih =>
    have arms := congrArg₂ (· ++ ·) (first l) (second ((labelAll ifTrue).run l).2)
    exact congrArg₂ (referencesOf condition.instrs ++ · ++ ·) arms (ih _)
  | loop condition body rest inner ih =>
    exact congrArg₂ (referencesOf condition.instrs ++ · ++ ·) (inner l) (ih _)
  | function name parameters body rest inner ih => exact congrArg₂ (· ++ ·) (inner l) (ih _)

end Stack.Nested

/-! ### Blocks -/

/-- The references of some blocks. -/
def Stack.blockReferences (blocks : List Block) : List Reference :=
  blocks.flatMap fun block => referencesOf block.instrs

namespace Flow

private theorem referencesOf_closeBlock (block : Block) (next : Label) :
    referencesOf (closeBlock block next).instrs = referencesOf block.instrs := by
  unfold closeBlock
  split
  · rfl
  · rw [referencesOf_append _ rfl]
    exact List.append_nil _

private theorem referencesOf_test (label : Label) (condition : Code) (ifTrue ifFalse : Label) :
    referencesOf (test label condition ifTrue ifFalse).instrs = referencesOf condition.instrs := by
  rw [test, referencesOf, referencesFrom_append]
  exact List.append_nil _

/-- Blocks have the references of the statements that they are laid out from. -/
theorem LaidOut.references {next : Label} {stmts : List (Nested Block)} {linked : Linked}
    (laid : LaidOut next stmts linked) :
    blockReferences linked.blocks = Nested.allReferences Block.instrs stmts := by
  induction laid with
  | nil => rfl
  | pass label => rfl
  | leaf block others ih =>
    simp only [blockReferences, List.flatMap_cons] at ih ⊢
    rw [referencesOf_closeBlock, ih]
    rfl
  | branch label others first second ih ih₁ ih₂ =>
    simp only [blockReferences, List.flatMap_cons, List.flatMap_append, List.cons_append] at *
    rw [referencesOf_test, ih, ih₁, ih₂]
    simp only [Nested.allReferences, Nested.references, List.append_assoc]
  | loop label others round ih ih₁ =>
    simp only [blockReferences, List.flatMap_cons, List.flatMap_append, List.cons_append] at *
    rw [referencesOf_test, ih, ih₁]
    simp only [Nested.allReferences, Nested.references, List.append_assoc]

end Flow

/-! ### Three address code -/

namespace Tac

/-- The references of using the variable at an address as one of the given kind. -/
def Address.references (kind : Kind) : Address → List Reference
  | slot _ => []
  | global name => [.access ⟨name, kind⟩]

/-- The references of an instruction. -/
def Instr.references : Instr → List Reference
  | load _ kind address | store kind _ address => address.references kind
  | call _ function kind arguments => [.call ⟨function, arguments.map Prod.fst, kind⟩]
  | _ => []

/-- The references of some instructions. -/
def referencesOf (instrs : List Instr) : List Reference := instrs.flatMap Instr.references

@[simp]
theorem referencesOf_append (front back : List Instr) :
    referencesOf (front ++ back) = referencesOf front ++ referencesOf back := List.flatMap_append

@[simp]
theorem referencesOf_cons (i : Instr) (rest : List Instr) :
    referencesOf (i :: rest) = i.references ++ referencesOf rest := List.flatMap_cons

@[simp]
theorem referencesOf_nil : referencesOf [] = [] := rfl

private theorem Address.references_ofSymbol (symbol : Symbol) :
    (Address.ofSymbol symbol).references symbol.kind = symbol.references := by
  obtain ⟨text, kind, storage⟩ := symbol
  cases storage <;> rfl

namespace Step

variable {m m' : Machine} {code : List Instr}

theorem references_materialize {value : Value} {kind : Kind} {operand : Operand}
    (done : materialize value kind m = some (operand, code, m')) : referencesOf code = [] := by
  unfold materialize at done
  split at done <;> cases done <;> rfl

theorem references_pop {value : Value} (done : pop m = some (value, code, m')) :
    referencesOf code = [] := by
  obtain ⟨rfl, -⟩ := pop_inv done
  rfl

theorem references_popAs {kind : Kind} {operand : Operand}
    (done : popAs kind m = some (operand, code, m')) : referencesOf code = [] := by
  obtain ⟨value, front, m₁, back, popped, made, rfl⟩ := bind_eq_some.mp done
  rw [referencesOf_append, references_pop popped, references_materialize made]
  rfl

/-- Arguments are made in the kinds of their values. -/
theorem references_arguments {values : List Value} {operands : List (Kind × Operand)}
    (done : arguments values m = some (operands, code, m')) :
    referencesOf code = [] ∧ operands.map Prod.fst = values.map Value.kind := by
  induction values generalizing m code operands with
  | nil =>
    cases done
    exact ⟨rfl, rfl⟩
  | cons value rest ih =>
    obtain ⟨operand, front, m₁, back, made, later, rfl⟩ := bind_eq_some.mp done
    obtain ⟨others, middle, m₂, last, recursive, final, rfl⟩ := bind_eq_some.mp later
    cases final
    simp [references_materialize made, ih recursive]

private theorem references_binary {op : Operator} {kind : Kind} {result : Register}
    (done : binary op kind m = some (result, code, m')) : referencesOf code = [] := by
  obtain ⟨right, front, m₁, rest, first, later, rfl⟩ := bind_eq_some.mp done
  obtain ⟨left, middle, m₂, back, second, last, rfl⟩ := bind_eq_some.mp later
  cases last
  simp [references_popAs first, references_popAs second, Instr.references]

private theorem references_condition {value : Value} {operand : Operand}
    (done : condition value m = some (operand, code, m')) : referencesOf code = [] := by
  cases value <;> cases done <;> rfl

end Step

/-- The simulated stack knows the kinds of its entries, so what is generated for an instruction has
its references. -/
theorem references_generateInstr {i : Stack.Instr} {m m' : Machine} {code : List Instr}
    (done : generateInstr i m = some ((), code, m')) :
    referencesOf code = i.references ((m.stack.map Value.kind).take i.takes) ∧
      m'.stack.map Value.kind = i.kinds ++ (m.stack.map Value.kind).drop i.takes := by
  cases i with
  | push value => cases value <;> cases done <;> exact ⟨rfl, rfl⟩
  | load symbol =>
    cases done
    exact ⟨(List.append_nil _).trans (Address.references_ofSymbol symbol), rfl⟩
  | arith op kind | compare op kind =>
    obtain ⟨result, front, m₁, back, first, last, rfl⟩ := Step.bind_eq_some.mp done
    cases last
    obtain ⟨right, left, stack⟩ := Step.stack_binary first
    rw [stack, List.append_nil, Step.references_binary first]
    exact ⟨rfl, rfl⟩
  | call function count kind =>
    obtain ⟨values, front, m₁, back, popped, later, rfl⟩ := Step.bind_eq_some.mp done
    obtain ⟨operands, code, m₂, back, made, last, rfl⟩ := Step.bind_eq_some.mp later
    cases last
    obtain ⟨-, rfl, rfl, rfl⟩ := Step.popMany_inv popped
    obtain ⟨none, kinds⟩ := Step.references_arguments made
    constructor
    · simp [none, kinds, Instr.references, Stack.Instr.references, Stack.Instr.takes, List.map_take]
    · simp [Step.stack_arguments made, Value.kind, Stack.Instr.kinds, Stack.Instr.takes]
  | goto label | slot name =>
    cases done
    exact ⟨rfl, rfl⟩
  | branch ifTrue ifFalse =>
    obtain ⟨v, front, m₁, back, popped, later, rfl⟩ := Step.bind_eq_some.mp done
    obtain ⟨operand, middle, m₂, back, made, last, rfl⟩ := Step.bind_eq_some.mp later
    cases last
    simp [Step.stack_pop popped, Step.stack_condition made, Step.references_pop popped,
      Step.references_condition made, Instr.references, Stack.Instr.references, Stack.Instr.kinds,
      Stack.Instr.takes]
  | store symbol =>
    obtain ⟨operand, front, m₁, back, popped, last, rfl⟩ := Step.bind_eq_some.mp done
    cases last
    obtain ⟨v, stack⟩ := Step.stack_popAs popped
    simp [stack, Step.references_popAs popped, Instr.references, Address.references_ofSymbol,
      Stack.Instr.references, Stack.Instr.kinds, Stack.Instr.takes]
  | print kind | ret kind =>
    obtain ⟨operand, front, m₁, back, popped, last, rfl⟩ := Step.bind_eq_some.mp done
    cases last
    obtain ⟨v, stack⟩ := Step.stack_popAs popped
    simp [stack, Step.references_popAs popped, Instr.references, Stack.Instr.references,
      Stack.Instr.kinds, Stack.Instr.takes]

private theorem references_generateInstrs {instrs : List Stack.Instr} {m m' : Machine}
    {code : List Instr}
    (done : generateInstrs m instrs = .ok (code, m')) :
    referencesOf code = Stack.referencesFrom (m.stack.map Value.kind) instrs := by
  induction instrs generalizing m code with
  | nil =>
    cases done
    rfl
  | cons i rest ih =>
    obtain ⟨front, m₁, back, first, recursive, rfl⟩ := generateInstrs_cons done
    obtain ⟨own, kinds⟩ := references_generateInstr first
    rw [referencesOf_append, own, ih recursive, kinds, Stack.referencesFrom]

/-- The references of some blocks. -/
def blockReferences (blocks : List Block) : List Reference :=
  blocks.flatMap fun block => referencesOf block.instrs

/-- Generated blocks have the references of the blocks that they are made from. -/
theorem references_generateBlocks {blocks : List Stack.Block} {blocks' : List Block} {n n' : Nat}
    (done : (generateBlocks blocks).run n = .ok (blocks', n')) :
    blockReferences blocks' = Stack.blockReferences blocks := by
  have each : blocks'.map (fun block => referencesOf block.instrs) =
      blocks.map fun block => Stack.referencesFrom [] block.instrs := by
    refine map_generateBlocks (fun own => ?_) done
    obtain ⟨-, m, -, generated⟩ := generateBlock_inv own
    exact references_generateInstrs generated
  exact congrArg List.flatten each

/-- Copying arguments to the stack uses nothing global. -/
theorem referencesOf_spill (parameters : List Symbol) :
    referencesOf (parameters.flatMap spill) = [] := by
  induction parameters with
  | nil => rfl
  | cons parameter rest ih =>
    rw [List.flatMap_cons, referencesOf_append, ih]
    rfl

end Tac

/-- A block that copies the arguments changes neither the header of a function nor its references. -/
theorem FunDef.references_withEntryBlock (f : FunDef Tac.Block) (labels : Labels) :
    (f.withEntryBlock.run labels).1.header = f.header ∧
      Tac.blockReferences (f.withEntryBlock.run labels).1.body = Tac.blockReferences f.body := by
  obtain ⟨name, parameters, body⟩ := f
  cases parameters with
  | nil => exact ⟨rfl, rfl⟩
  | cons parameter others =>
    cases body with
    | nil => exact ⟨rfl, rfl⟩
    | cons first rest =>
      have kinds : ((parameter :: others).map Tac.incoming).map Symbol.kind =
          (parameter :: others).map Symbol.kind := by
        rw [List.map_map]
        rfl
      have entry : Tac.referencesOf ((parameter :: others).flatMap Tac.spill ++
          [.jump first.label]) = [] := by
        rw [Tac.referencesOf_append, Tac.referencesOf_spill]
        rfl
      exact ⟨congrArg (Header.mk name.text · name.kind) kinds,
        congrArg (· ++ Tac.blockReferences (first :: rest)) entry⟩

/-! ### Programs -/

/-- A return that is added uses nothing global. -/
theorem FunDef.references_ensureReturn {negation : Prop} (f : FunDef (Stmt Symbol False negation)) :
    Stmt.allReferences f.ensureReturn.body = Stmt.allReferences f.body ∧
      Stmt.allFunctions f.ensureReturn.body = Stmt.allFunctions f.body := by
  unfold ensureReturn
  split
  · exact ⟨rfl, rfl⟩
  · constructor
    · simp [FunDef.withBody, Stmt.allReferences_eq_flatMap, Stmt.references]
    · simp [FunDef.withBody, Stmt.allFunctions_append, Stmt.allFunctions, Stmt.functions]

/-- What sound statements are lowered to, once it is known. -/
theorem Ast.Stmt.lowers_of_sound {negation : Prop} {stmts : List (Stmt Symbol False negation)}
    {plain : List (Stmt Symbol False False)} {straight : List (Nested Straight)}
    (sound : allSound .nested stmts = true) (subtracts : subtractAll stmts = .ok plain)
    (straightens : Nested.straightenAll (lowerAll plain) = .ok straight) :
    List.Forall₂ Lowers stmts straight := by
  obtain ⟨plain', straight', same, same', lowers⟩ := lowerAll_succeeds sound
  cases same.symm.trans subtracts
  cases same'.symm.trans straightens
  exact lowers

/-- A function keeps its header and its references when it is compiled, and there is no function
inside it. -/
structure FunDef.Becomes (f : FunDef (Stmt Symbol False True)) (g : FunDef Tac.Block) : Prop where
  header : g.header = f.header
  references : Tac.blockReferences g.body = Stmt.allReferences f.body
  alone : Stmt.allFunctions f.body = []

namespace Items

/-- The references of a compiled program. -/
def references (program : Items Tac.Block) : List Reference :=
  program.functions.flatMap fun f => Tac.blockReferences f.body

end Items

/-- Every function of a compiled program has come from one of the resolved program. -/
theorem compile_becomes {options : Options} {script : Parsed} {compiled : Compiled}
    (done : (compile options script).result = .ok compiled) :
    ∃ folded resolved, script.fold = .ok folded ∧ folded.split.resolve.result = .ok resolved ∧
      Items.Related FunDef.Becomes (Items.ofScript resolved) compiled.program := by
  obtain ⟨folded, resolved, _, _, _, fold, resolve, sound, -, related⟩ := compile_steps done
  refine ⟨folded, resolved, fold, resolve, related.imp ?_⟩
  rintro f member _ - ⟨h, labels, steps, -, -, rfl⟩
  obtain ⟨-, out, laid, same⟩ := Flow.linkFunction_laidOut steps.links ⟨0⟩
  have blocks : steps.blocks = out.blocks := congrArg FunDef.body same
  obtain ⟨entered, received⟩ := h.references_withEntryBlock labels
  obtain ⟨returns, inside⟩ := f.references_ensureReturn
  have lowers := Stmt.lowers_of_sound (sound f member) steps.subtracts steps.straightens
  refine ⟨?_, ?_, ?_⟩
  · rw [entered, FunDef.header, FunDef.header, steps.name, steps.parameters]
  · calc Tac.blockReferences (h.withEntryBlock.run labels).1.body
      _ = Tac.blockReferences h.body := received
      _ = blockReferences out.blocks := blocks ▸ Tac.references_generateBlocks steps.generates
      _ = Nested.allReferences id (Nested.joinAllRuns steps.straight) :=
        laid.references.trans (Nested.allReferences_labelAll _ steps.labelling)
      _ = Nested.allReferences id steps.straight :=
        Nested.allReferences_joinAllRuns (Stmt.allLeaves_lowers lowers)
      _ = Stmt.allReferences f.ensureReturn.body :=
        Stmt.allReferences_lower steps.subtracts steps.straightens
      _ = Stmt.allReferences f.body := returns
  · rw [← inside, ← Stmt.allFunctions_lowers lowers, ← Nested.allFunctions_joinAllRuns,
      ← Nested.allFunctions_labelAll _ steps.labelling]
    exact laid.allFunctions_eq_nil

end Wabbit
