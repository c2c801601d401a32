import Wabbit.Proofs.Flow.Simulation

/-!
Linked programs do what the nested statements do that they were made from. Main statement: a function
finishes with the same result, store and trace, or does not finish, before and after its branches
and loops are dissolved into blocks.
-/

namespace Wabbit

open Stack

/-- Whether a function may be linked: its leaves are straight and take nothing from the stack that
they have not put there, its conditions have no terminators, no function stands inside it, and its
last statement is a leaf that returns. -/
def FunDef.isLinkable (f : FunDef (Nested Straight)) : Bool :=
  Nested.allProper isLeafCode f.body && Nested.isClosed id f.body

namespace Flow

variable {w : World}

/-- Goes through at most the given number of blocks, from the first one on. -/
def runBlocks (w : World) (blocks : List Block) (steps : Nat) (s : w.State) :
    Option (Number × w.State) :=
  match blocks with
  | [] => none
  | first :: _ => follow w blocks steps first.label s

/-- Control enters statements by the first of their blocks. -/
theorem LaidOut.head_label {next : Label} {stmts : List (Nested Block)} {linked : Linked}
    (laid : LaidOut next stmts linked) (some : stmts ≠ []) :
    ∃ first rest, linked.blocks = first :: rest ∧ first.label = linked.entry := by
  cases laid with
  | nil => exact absurd rfl some
  | pass label => exact absurd rfl some
  | leaf block others => exact ⟨_, _, rfl, label_closeBlock block _⟩
  | branch label others first second => exact ⟨_, _, rfl, rfl⟩
  | loop label others round => exact ⟨_, _, rfl, rfl⟩

/-- Statements, the last of which returns, do not come to their end in another way. -/
theorem Runs.not_done {stmts : List (Nested Block)} {s t : w.State}
    (runs : Runs w Block.instrs stmts s .done t)
    (proper : Nested.allProper (fun block => isLeafCode block.instrs) stmts = true)
    (closed : Nested.isClosed Block.instrs stmts = true) : False := by
  generalize isDone : Ending.done = ending at runs
  induction runs with
  | nil => simp [Nested.isClosed] at closed
  | @leaf _ _ s _ _ _ ran runs ih =>
    simp only [Nested.allProper, Nested.isProper, Bool.and_eq_true] at proper
    rcases Nested.isClosed_cons_inv closed with ⟨block, same, terminated⟩ | closed
    · cases same
      rcases isStraight_cases (isStraight_of_isLeafCode proper.1) with ⟨running, -⟩ | ⟨-, returning⟩
      · simp [terminated] at running
      · obtain ⟨front, kind, parts, plain⟩ := returning
        have exits := (run_returning plain kind (⟨[], s⟩ : Frame w)).1
        rw [← parts] at exits
        exact exits (congrArg Prod.fst ran)
    · exact ih proper.2 closed isDone
  | branch decided arm runs ih₁ ih | leave decided runs ih =>
    rcases Nested.isClosed_cons_inv closed with ⟨block, same, -⟩ | closed
    · cases same
    · exact ih (Bool.and_eq_true_iff.mp proper).2 closed isDone
  | again decided round runs ih₁ ih => exact ih proper closed isDone
  | _ => cases isDone

/-- A linked function does what its statements do. -/
theorem linkFunction_runs_iff {f : FunDef (Nested Block)} {g : FunDef Block} {l l' : Labelling}
    (done : (linkFunction f).run l = .ok (g, l'))
    (proper : Nested.allProper (fun block => isLeafCode block.instrs) f.body = true)
    (distinct : (g.body.map Block.label).Nodup) (s : w.State) (value : Number) (t : w.State) :
    Runs w Block.instrs f.body s (.returned value) t ↔
      ∃ steps, runBlocks w g.body steps s = some (value, t) := by
  -- Nothing leads behind the final block, so any label may stand for what follows it.
  obtain ⟨closed, linked, laid, rfl⟩ := linkFunction_laidOut done ⟨0⟩
  have installed : Installed linked.blocks ⟨0⟩ f.body linked := ⟨laid, .of_nodup distinct, proper⟩
  have start (steps : Nat) : runBlocks w (f.withBody linked.blocks).body steps s =
      follow w linked.blocks steps linked.entry s := by
    have some : f.body ≠ [] := by
      rintro none
      simp [none, Nested.isClosed] at closed
    obtain ⟨first, rest, blocks, entry⟩ := laid.head_label some
    simp only [FunDef.withBody, runBlocks, blocks, entry]
  simp only [start]
  constructor
  · intro runs
    exact @Runs.follow _ _ _ _ _ _ _ _ _ 0 runs installed rfl
  · rintro ⟨steps, followed⟩
    obtain ⟨ending, u, runs, rest⟩ := runs_of_follow installed followed
    cases ending with
    | done => exact (runs.not_done proper closed).elim
    | returned =>
      cases rest
      exact runs

end Flow

namespace Items

private theorem labelled_proper {f : FunDef (Nested Straight)} (linkable : f.isLinkable = true)
    (l : Labelling) :
    Nested.allProper (fun block => isLeafCode block.instrs)
        ((Nested.labelAll (Nested.joinAllRuns f.body)).run l).1 = true ∧
      Nested.isClosed Block.instrs ((Nested.labelAll (Nested.joinAllRuns f.body)).run l).1 = true := by
  obtain ⟨proper, closed⟩ := Bool.and_eq_true_iff.mp linkable
  refine ⟨labelAll_allProper (joinAllRuns_proper proper) l, ?_⟩
  rw [labelAll_isClosed]
  exact joinAllRuns_isClosed closed

/-- Grouping and linking succeed on every program whose functions may be linked, and every function
returns the same value in the same state as before, or does not return, wherever it starts. -/
theorem linked_runs_iff {program : Items (Nested Straight)}
    (linkable : ∀ f ∈ program.functions, f.isLinkable = true) (l : Labelling) :
    ∃ linked l',
      (program.groupBlocks.run l).1.link.run (program.groupBlocks.run l).2 = .ok (linked, l') ∧
      Items.Related (fun f g => g.name = f.name ∧ g.parameters = f.parameters ∧
        ∀ (w : World) (s : w.State) (value : Number) (t : w.State),
          Flow.Runs w id f.body s (.returned value) t ↔
            ∃ steps, Flow.runBlocks w g.body steps s = some (value, t)) program linked := by
  have grouped := related_groupBlocks program l
  have proper (f : FunDef (Nested Straight)) (inside : f ∈ program.functions) (m : Labelling) :=
    labelled_proper (linkable f inside) m
  have each : ∀ g ∈ (program.groupBlocks.run l).1.functions, ∀ l,
      ∃ h l', (Flow.linkFunction g).run l = .ok (h, l') := by
    intro g member
    obtain ⟨f, inside, m, rfl⟩ := grouped.exists_left member
    exact Flow.linkFunction_succeeds (proper f inside m).1 (proper f inside m).2
  obtain ⟨linked, l', done⟩ := mapFunctionsM_succeeds each (program.groupBlocks.run l).2
  refine ⟨linked, l', done, ?_⟩
  have distinct : linked.blockLabels.Nodup := (link_groupBlocks_makes done).nodup
  refine (grouped.trans (related_mapFunctionsM done)).imp ?_
  rintro f inside h present ⟨g, ⟨m, rfl⟩, l, l', own⟩
  obtain ⟨before, last, blocks, -, -, -, header⟩ := Flow.linkFunction_inv own
  have unique : (h.body.map Block.label).Nodup := (List.nodup_flatMap.mp distinct).1 h present
  refine ⟨by rw [header]; rfl, by rw [header]; rfl, fun w s value t => ?_⟩
  have body := (Bool.and_eq_true_iff.mp (linkable f inside)).1
  have same := (Flow.joinAllRuns_same body).trans (Flow.labelAll_same (w := w) _ m)
  rw [same.runs_iff]
  exact Flow.linkFunction_runs_iff own (proper f inside m).1 unique s value t

/-- A function with a loop, a branch with an empty arm, values that stay on the stack, and code behind
a return. -/
theorem linked_runs_iff_countdown :
    let x : Ast.Symbol := .stack "x" .integer
    let isPositive : Code := ⟨[.load x, .push (.int 0), .compare .greater .integer], .integer⟩
    let isOdd : Code := ⟨[.load x], .integer⟩
    let f : FunDef (Nested Straight) := ⟨.global "f" .integer, [], [
      .leaf [.slot ⟨"x", .integer⟩],
      .leaf [.push (.int 3), .store x],
      .loop isPositive [
        .ifElse isOdd [] [.leaf [.load x, .print .integer], .leaf [.load x, .ret .integer],
          .leaf [.push (.int 9), .print .integer]],
        .leaf [.call "g" 0 .integer],
        .leaf [.load x, .push (.int 1), .arith .sub .integer, .store x]],
      .leaf [.push (.int 0), .ret .integer]]⟩
    f.isLinkable = true ∧ ∃ linked l',
      ((Items.groupBlocks [.function f]).run {}).1.link.run
        ((Items.groupBlocks [.function f]).run {}).2 = .ok (linked, l') ∧
      Items.Related (fun f g => g.name = f.name ∧ g.parameters = f.parameters ∧
        ∀ (w : World) (s : w.State) (value : Number) (t : w.State),
          Flow.Runs w id f.body s (.returned value) t ↔
            ∃ steps, Flow.runBlocks w g.body steps s = some (value, t)) [.function f] linked := by
  refine ⟨by decide, linked_runs_iff (fun f member => ?_) {}⟩
  rw [List.mem_singleton.mp member]
  decide

end Items

end Wabbit
