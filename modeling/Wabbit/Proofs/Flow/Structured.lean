import Wabbit.Proofs.Stack.Running
import Wabbit.Proofs.Stack.Runs

/-!
Nested statements at work, with every leaf and every condition on an empty operand stack. Joining
neighbouring leaves into runs, and giving the runs labels, changes nothing about what they do.
-/

namespace Wabbit.Flow

open Stack

/-- How statements end. -/
inductive Ending where
  /-- Behind the last statement. -/
  | done
  | returned (value : Number)

variable {α β : Type}

/-- Statements, the leaves of which stand for the given code, lead from one state to another. A
branch runs one of its arms; a loop tests its condition again after every round. -/
inductive Runs (w : World) (code : α → List Instr) :
    List (Nested α) → w.State → Ending → w.State → Prop where
  | nil {s : w.State} : Runs w code [] s .done s
  | leaf {x stmts s t u ending} (ran : runAlone w (code x) s = (.next, t))
      (rest : Runs w code stmts t ending u) : Runs w code (.leaf x :: stmts) s ending u
  | returns {x stmts s t value} (ran : runAlone w (code x) s = (.returned value, t)) :
      Runs w code (.leaf x :: stmts) s (.returned value) t
  | branch {condition ifTrue ifFalse stmts s t u v holds ending}
      (decided : condition.decide w s = some (holds, t))
      (arm : Runs w code (if holds then ifTrue else ifFalse) t .done u)
      (rest : Runs w code stmts u ending v) :
      Runs w code (.ifElse condition ifTrue ifFalse :: stmts) s ending v
  | branchReturns {condition ifTrue ifFalse stmts s t u holds value}
      (decided : condition.decide w s = some (holds, t))
      (arm : Runs w code (if holds then ifTrue else ifFalse) t (.returned value) u) :
      Runs w code (.ifElse condition ifTrue ifFalse :: stmts) s (.returned value) u
  | leave {condition body stmts s t u ending} (decided : condition.decide w s = some (false, t))
      (rest : Runs w code stmts t ending u) : Runs w code (.loop condition body :: stmts) s ending u
  | again {condition body stmts s t u v ending} (decided : condition.decide w s = some (true, t))
      (round : Runs w code body t .done u)
      (rest : Runs w code (.loop condition body :: stmts) u ending v) :
      Runs w code (.loop condition body :: stmts) s ending v
  | loopReturns {condition body stmts s t u value}
      (decided : condition.decide w s = some (true, t))
      (round : Runs w code body t (.returned value) u) :
      Runs w code (.loop condition body :: stmts) s (.returned value) u

/-- All that some statements do others do as well. -/
def Covered (w : World) (code : α → List Instr) (code' : β → List Instr) (stmts : List (Nested α))
    (stmts' : List (Nested β)) : Prop :=
  ∀ s ending t, Runs w code stmts s ending t → Runs w code' stmts' s ending t

section Congruence

variable {w : World} {code : α → List Instr} {code' : β → List Instr}
  {stmts arm₁ arm₂ body : List (Nested α)} {stmts' arm₁' arm₂' body' : List (Nested β)}

private theorem Covered.leaf {x : α} {x' : β} (same : code x = code' x')
    (rest : Covered w code code' stmts stmts') :
    Covered w code code' (.leaf x :: stmts) (.leaf x' :: stmts') := by
  intro s ending t runs
  cases runs with
  | leaf ran runs => exact .leaf (same ▸ ran) (rest _ _ _ runs)
  | returns ran => exact .returns (same ▸ ran)

private theorem Covered.branch (condition : Code) (first : Covered w code code' arm₁ arm₁')
    (second : Covered w code code' arm₂ arm₂') (rest : Covered w code code' stmts stmts') :
    Covered w code code' (.ifElse condition arm₁ arm₂ :: stmts)
      (.ifElse condition arm₁' arm₂' :: stmts') := by
  have arms (holds : Bool) : Covered w code code' (if holds then arm₁ else arm₂)
      (if holds then arm₁' else arm₂') := by
    cases holds
    · exact second
    · exact first
  intro s ending t runs
  cases runs with
  | branch decided arm runs => exact .branch decided (arms _ _ _ _ arm) (rest _ _ _ runs)
  | branchReturns decided arm => exact .branchReturns decided (arms _ _ _ _ arm)

private theorem Covered.loop (condition : Code) (inner : Covered w code code' body body')
    (rest : Covered w code code' stmts stmts') :
    Covered w code code' (.loop condition body :: stmts) (.loop condition body' :: stmts') := by
  intro s ending t runs
  generalize whole : Nested.loop condition body :: stmts = looping at runs
  induction runs with
  | leave decided runs =>
    cases whole
    exact .leave decided (rest _ _ _ runs)
  | again decided round _ _ ih =>
    cases whole
    exact .again decided (inner _ _ _ round) (ih rfl)
  | loopReturns decided round =>
    cases whole
    exact .loopReturns decided (inner _ _ _ round)
  | _ => cases whole

end Congruence

/-- Statements that do the same. -/
def Same (w : World) (code : α → List Instr) (code' : β → List Instr) (stmts : List (Nested α))
    (stmts' : List (Nested β)) : Prop :=
  Covered w code code' stmts stmts' ∧ Covered w code' code stmts' stmts

namespace Same

variable {w : World} {code : α → List Instr} {code' : β → List Instr}
  {stmts arm₁ arm₂ body : List (Nested α)} {stmts' arm₁' arm₂' body' : List (Nested β)}

theorem runs_iff (same : Same w code code' stmts stmts') (s : w.State) (ending : Ending)
    (t : w.State) : Runs w code stmts s ending t ↔ Runs w code' stmts' s ending t :=
  ⟨same.1 s ending t, same.2 s ending t⟩

theorem refl (stmts : List (Nested α)) : Same w code code stmts stmts :=
  ⟨fun _ _ _ => id, fun _ _ _ => id⟩

theorem trans {γ : Type} {code'' : γ → List Instr} {stmts'' : List (Nested γ)}
    (left : Same w code code' stmts stmts') (right : Same w code' code'' stmts' stmts'') :
    Same w code code'' stmts stmts'' :=
  ⟨fun s e t runs => right.1 s e t (left.1 s e t runs),
    fun s e t runs => left.2 s e t (right.2 s e t runs)⟩

theorem nil : Same w code code' [] [] := by
  constructor <;> intro s ending t runs <;> cases runs <;> exact .nil

theorem leaf {x : α} {x' : β} (equal : code x = code' x') (rest : Same w code code' stmts stmts') :
    Same w code code' (.leaf x :: stmts) (.leaf x' :: stmts') :=
  ⟨rest.1.leaf equal, rest.2.leaf equal.symm⟩

theorem branch (condition : Code) (first : Same w code code' arm₁ arm₁')
    (second : Same w code code' arm₂ arm₂') (rest : Same w code code' stmts stmts') :
    Same w code code' (.ifElse condition arm₁ arm₂ :: stmts)
      (.ifElse condition arm₁' arm₂' :: stmts') :=
  ⟨first.1.branch condition second.1 rest.1, first.2.branch condition second.2 rest.2⟩

theorem loop (condition : Code) (inner : Same w code code' body body')
    (rest : Same w code code' stmts stmts') :
    Same w code code' (.loop condition body :: stmts) (.loop condition body' :: stmts') :=
  ⟨inner.1.loop condition rest.1, inner.2.loop condition rest.2⟩

/-- There is no running a function that stands inside another one. -/
theorem function (name name' : Ast.Symbol) (parameters parameters' : List Ast.Symbol) :
    Same w code code' (.function name parameters body :: stmts)
      (.function name' parameters' body' :: stmts') :=
  ⟨nofun, nofun⟩

end Same

end Wabbit.Flow

namespace Wabbit.Stack

/-- Whether an instruction leads to a label. -/
def Instr.jumps : Instr → Bool
  | goto _ => true
  | branch _ _ => true
  | _ => false

/-- Whether some instructions hold no jump, and a return at their end only. -/
def isStraight (instrs : List Instr) : Bool :=
  !instrs.any Instr.jumps && !instrs.dropLast.any Instr.isTerminator

/-- Whether some code has no terminator at all. -/
def Code.isPlain (code : Code) : Bool := !code.instrs.any Instr.isTerminator

/-- Straight code runs on to what follows it, or it ends in a return. -/
theorem isStraight_cases {instrs : List Instr} (straight : isStraight instrs = true) :
    (isTerminated instrs = false ∧ ∀ i ∈ instrs, i.isTerminator = false) ∨
      (isTerminated instrs = true ∧ ∃ front kind, instrs = front ++ [.ret kind] ∧
        ∀ i ∈ front, i.isTerminator = false) := by
  rcases List.eq_nil_or_concat instrs with rfl | ⟨front, last, rfl⟩
  · exact .inl ⟨rfl, nofun⟩
  · simp only [isStraight, List.concat_eq_append, List.dropLast_concat, Bool.and_eq_true,
      Bool.not_eq_true', List.any_eq_false, Bool.not_eq_true] at straight
    obtain ⟨jumpless, plain⟩ := straight
    have stays := jumpless last (by simp)
    rw [List.concat_eq_append, isTerminated_append_singleton]
    cases final : last.isTerminator with
    | false =>
      refine .inl ⟨rfl, fun i member => ?_⟩
      rcases List.mem_append.mp member with earlier | own
      · exact plain i earlier
      · rw [List.mem_singleton.mp own]
        exact final
    | true =>
      refine .inr ⟨rfl, front, ?_⟩
      cases last <;> simp_all [Instr.jumps, Instr.isTerminator]

/-- Plain code in front of straight code is straight. -/
theorem isStraight_append {front back : List Instr} (plain : ∀ i ∈ front, i.isTerminator = false)
    (straight : isStraight back = true) : isStraight (front ++ back) = true := by
  have jumpless (i : Instr) (member : i ∈ front) : i.jumps = false := by
    have := plain i member
    cases i <;> simp_all [Instr.jumps, Instr.isTerminator]
  cases back with
  | nil =>
    have shorter : ∀ i ∈ front.dropLast, i.isTerminator = false :=
      fun i member => plain i (List.dropLast_subset _ member)
    simp_all [isStraight]
  | cons i rest =>
    rw [isStraight, List.dropLast_append_of_ne_nil (by simp)]
    simp_all [isStraight]

/-- Whether some instructions may stand in a leaf: they are straight, and they take nothing from the
stack that they have not put there. -/
def isLeafCode (instrs : Straight) : Bool := isStraight instrs && (heightAfter 0 instrs).isSome

theorem isStraight_of_isLeafCode {instrs : Straight} (proper : isLeafCode instrs = true) :
    isStraight instrs = true :=
  (Bool.and_eq_true_iff.mp proper).1

theorem isLeafCode_append {front back : Straight} (first : isLeafCode front = true)
    (open' : isTerminated front = false) (second : isLeafCode back = true) :
    isLeafCode (front ++ back) = true := by
  simp only [isLeafCode, Bool.and_eq_true, Option.isSome_iff_exists] at first second ⊢
  obtain ⟨straight, middle, known⟩ := first
  obtain ⟨straight', final, known'⟩ := second
  rcases isStraight_cases straight with ⟨-, plain⟩ | ⟨closed, -⟩
  · have higher := heightAfter_add known' middle
    rw [Nat.zero_add] at higher
    exact ⟨isStraight_append plain straight', _, heightAfter_append known higher⟩
  · simp [open'] at closed

namespace Nested

variable {α : Type}

mutual

/-- Whether a statement holds no function, proper leaves and conditions without terminators. -/
def isProper (proper : α → Bool) : Nested α → Bool
  | leaf x => proper x
  | ifElse condition ifTrue ifFalse =>
    condition.isPlain && allProper proper ifTrue && allProper proper ifFalse
  | loop condition body => condition.isPlain && allProper proper body
  | function _ _ _ => false

def allProper (proper : α → Bool) : List (Nested α) → Bool
  | [] => true
  | s :: rest => s.isProper proper && allProper proper rest

end

theorem allProper_append (proper : α → Bool) (front back : List (Nested α)) :
    allProper proper (front ++ back) = (allProper proper front && allProper proper back) := by
  induction front with
  | nil => rfl
  | cons s rest ih => simp [allProper, ih, Bool.and_assoc]

/-- Whether the last of some statements is a leaf that does not run on. -/
def isClosed (code : α → List Instr) (stmts : List (Nested α)) : Bool :=
  match stmts.getLast? with
  | some (.leaf x) => isTerminated (code x)
  | _ => false

@[simp]
theorem isClosed_cons_cons (code : α → List Instr) (first second : Nested α)
    (rest : List (Nested α)) :
    isClosed code (first :: second :: rest) = isClosed code (second :: rest) := by
  simp [isClosed]

@[simp]
theorem isClosed_singleton (code : α → List Instr) (x : α) :
    isClosed code [.leaf x] = isTerminated (code x) := rfl

theorem isClosed_cons {code : α → List Instr} {rest : List (Nested α)} (first : Nested α)
    (closed : isClosed code rest = true) : isClosed code (first :: rest) = true := by
  cases rest with
  | nil => simp [isClosed] at closed
  | cons second rest => simpa using closed

theorem isClosed_cons_inv {code : α → List Instr} {first : Nested α} {rest : List (Nested α)}
    (closed : isClosed code (first :: rest) = true) :
    (∃ x, first = .leaf x ∧ isTerminated (code x) = true) ∨ isClosed code rest = true := by
  cases rest with
  | nil =>
    cases first with
    | leaf x => exact .inl ⟨x, rfl, closed⟩
    | _ => simp [isClosed] at closed
  | cons second rest => exact .inr (by simpa using closed)

end Nested

private theorem joinRun_proper {instrs : Straight} {rest : List (Nested Straight)}
    (proper : isLeafCode instrs = true) (others : Nested.allProper isLeafCode rest = true) :
    Nested.allProper isLeafCode (joinRun instrs rest) = true := by
  rcases joinRun_cases instrs rest with same | ⟨running, next, rest, rfl, same⟩
  · simp [same, Nested.allProper, Nested.isProper, proper, others]
  · simp only [Nested.allProper, Nested.isProper, Bool.and_eq_true] at others
    have joined := isLeafCode_append proper running others.1
    simp [same, Nested.allProper, Nested.isProper, joined, others]

/-- Joining leaves into runs leaves them proper. -/
theorem joinAllRuns_proper {stmts : List (Nested Straight)}
    (proper : Nested.allProper isLeafCode stmts = true) :
    Nested.allProper isLeafCode (Nested.joinAllRuns stmts) = true := by
  induction stmts using Nested.inductionAll with
  | nil => rfl
  | leaf instrs rest ih =>
    simp only [Nested.allProper, Nested.isProper, Bool.and_eq_true] at proper
    exact joinRun_proper proper.1 (ih proper.2)
  | ifElse condition ifTrue ifFalse rest first second ih =>
    simp only [Nested.allProper, Nested.isProper, Bool.and_eq_true] at proper
    obtain ⟨⟨⟨plain, proper₁⟩, proper₂⟩, others⟩ := proper
    simp [Nested.joinAllRuns, Nested.joinRuns, Nested.allProper, Nested.isProper, plain,
      first proper₁, second proper₂, ih others]
  | loop condition body rest inner ih =>
    simp only [Nested.allProper, Nested.isProper, Bool.and_eq_true] at proper
    obtain ⟨⟨plain, proper⟩, others⟩ := proper
    simp [Nested.joinAllRuns, Nested.joinRuns, Nested.allProper, Nested.isProper, plain,
      inner proper, ih others]
  | function name parameters body rest _ _ => simp [Nested.allProper, Nested.isProper] at proper

private theorem joinRun_isClosed (instrs : Straight) {rest : List (Nested Straight)}
    (closed : Nested.isClosed id rest = true) :
    Nested.isClosed id (joinRun instrs rest) = true := by
  rcases joinRun_cases instrs rest with same | ⟨-, next, rest, rfl, same⟩
  · rw [same]
    exact Nested.isClosed_cons _ closed
  · rw [same]
    cases rest with
    | nil =>
      obtain ⟨i, last, final⟩ : ∃ i, next.getLast? = some i ∧ i.isTerminator = true := by
        simpa [isTerminated, Option.any_eq_true] using closed
      simp [isTerminated, last, final]
    | cons second rest => simpa using closed

/-- The final leaf of a body stays one, though others may be joined to it. -/
theorem joinAllRuns_isClosed {stmts : List (Nested Straight)}
    (closed : Nested.isClosed id stmts = true) :
    Nested.isClosed id (Nested.joinAllRuns stmts) = true := by
  induction stmts with
  | nil => simp [Nested.isClosed] at closed
  | cons first rest ih =>
    cases rest with
    | nil =>
      cases first with
      | leaf instrs => exact closed
      | _ => simp [Nested.isClosed] at closed
    | cons second rest =>
      have behind := ih (by simpa using closed)
      cases first with
      | leaf instrs => exact joinRun_isClosed instrs behind
      | _ => exact Nested.isClosed_cons _ behind

theorem labelAll_isClosed (stmts : List (Nested Straight)) (labelling : Labelling) :
    Nested.isClosed Block.instrs ((Nested.labelAll stmts).run labelling).1 =
      Nested.isClosed id stmts := by
  induction stmts generalizing labelling with
  | nil => rfl
  | cons first rest ih =>
    cases rest with
    | nil => cases first <;> rfl
    | cons second rest =>
      rw [Nested.isClosed_cons_cons, ← ih (first.label.run labelling).2]
      rfl

theorem labelAll_allProper {proper : Straight → Bool} {stmts : List (Nested Straight)}
    (all : Nested.allProper proper stmts = true) (labelling : Labelling) :
    Nested.allProper (fun block => proper block.instrs)
      ((Nested.labelAll stmts).run labelling).1 = true := by
  induction stmts using Nested.inductionAll generalizing labelling with
  | nil => rfl
  | leaf instrs rest ih =>
    obtain ⟨own, others⟩ := Bool.and_eq_true_iff.mp all
    exact Bool.and_eq_true_iff.mpr ⟨own, ih others _⟩
  | ifElse condition ifTrue ifFalse rest first second ih =>
    obtain ⟨own, others⟩ := Bool.and_eq_true_iff.mp all
    obtain ⟨own, inner₂⟩ := Bool.and_eq_true_iff.mp own
    obtain ⟨plain, inner₁⟩ := Bool.and_eq_true_iff.mp own
    refine Bool.and_eq_true_iff.mpr ⟨Bool.and_eq_true_iff.mpr ⟨?_, second inner₂ _⟩, ih others _⟩
    exact Bool.and_eq_true_iff.mpr ⟨plain, first inner₁ labelling⟩
  | loop condition body rest inner ih =>
    obtain ⟨own, others⟩ := Bool.and_eq_true_iff.mp all
    obtain ⟨plain, own⟩ := Bool.and_eq_true_iff.mp own
    exact Bool.and_eq_true_iff.mpr ⟨Bool.and_eq_true_iff.mpr ⟨plain, inner own labelling⟩,
      ih others _⟩
  | function name parameters body rest _ _ => cases all

end Wabbit.Stack

namespace Wabbit.Flow

open Stack

variable {w : World}

/-- Two leaves, of which the first one runs on, do what they do when they are joined. -/
theorem Same.joined {front back : Straight} (rest : List (Nested Straight))
    (plain : ∀ i ∈ front, i.isTerminator = false) (proper : isLeafCode back = true) :
    Same w id id (.leaf front :: .leaf back :: rest) (.leaf (front ++ back) :: rest) := by
  simp only [isLeafCode, Bool.and_eq_true, Option.isSome_iff_exists] at proper
  obtain ⟨-, final, known⟩ := proper
  constructor
  · intro s ending u runs
    have joined := runAlone_append front known s
    cases runs with
    | leaf ran runs =>
      cases runs with
      | leaf ran' runs => exact .leaf (by simp_all) runs
      | returns ran' => exact .returns (by simp_all)
    | returns ran => exact .returns (by simp_all)
  · intro s ending u runs
    have joined := runAlone_append front known s
    have exits := run_plain plain (⟨[], s⟩ : Frame w)
    rcases ran : runAlone w front s with ⟨exit, t⟩
    have exit_eq : (run w front ⟨[], s⟩).1 = exit := congrArg Prod.fst ran
    rw [exit_eq] at exits
    rw [ran] at joined
    rcases exits with rfl | rfl | rfl
    · cases runs with
      | leaf ran' runs => exact .leaf ran (.leaf (joined.symm.trans ran') runs)
      | returns ran' => exact .leaf ran (.returns (joined.symm.trans ran'))
    all_goals
      cases runs with
      | leaf ran' runs => simp_all
      | returns ran' => simp_all

private theorem joinRun_same {instrs : Straight} {rest : List (Nested Straight)}
    (proper : isLeafCode instrs = true) (others : Nested.allProper isLeafCode rest = true) :
    Same w id id (.leaf instrs :: rest) (joinRun instrs rest) := by
  rcases joinRun_cases instrs rest with same | ⟨running, next, rest, rfl, same⟩
  · rw [same]
    exact Same.refl _
  · rw [same]
    simp only [Nested.allProper, Nested.isProper, Bool.and_eq_true] at others
    rcases isStraight_cases (isStraight_of_isLeafCode proper) with ⟨-, plain⟩ | ⟨closed, -⟩
    · exact Same.joined rest plain others.1
    · exact absurd closed (Bool.eq_false_iff.mp running)

/-- Joining leaves into runs changes nothing about what statements do. -/
theorem joinAllRuns_same {stmts : List (Nested Straight)}
    (proper : Nested.allProper isLeafCode stmts = true) :
    Same w id id stmts (Nested.joinAllRuns stmts) := by
  induction stmts using Nested.inductionAll with
  | nil => exact Same.refl []
  | leaf instrs rest ih =>
    simp only [Nested.allProper, Nested.isProper, Bool.and_eq_true] at proper
    have joined := joinRun_same (w := w) proper.1 (joinAllRuns_proper proper.2)
    exact ((ih proper.2).leaf rfl).trans joined
  | ifElse condition ifTrue ifFalse rest first second ih =>
    simp only [Nested.allProper, Nested.isProper, Bool.and_eq_true] at proper
    obtain ⟨⟨⟨-, proper₁⟩, proper₂⟩, others⟩ := proper
    exact Same.branch condition (first proper₁) (second proper₂) (ih others)
  | loop condition body rest inner ih =>
    simp only [Nested.allProper, Nested.isProper, Bool.and_eq_true] at proper
    obtain ⟨⟨-, proper⟩, others⟩ := proper
    exact Same.loop condition (inner proper) (ih others)
  | function name parameters body rest _ _ => simp [Nested.allProper, Nested.isProper] at proper

/-- Labels change nothing about what statements do. -/
theorem labelAll_same (stmts : List (Nested Straight)) (labelling : Labelling) :
    Same w id Block.instrs stmts ((Nested.labelAll stmts).run labelling).1 := by
  induction stmts using Nested.inductionAll generalizing labelling with
  | nil => exact Same.nil
  | leaf instrs rest ih => exact Same.leaf rfl (ih _)
  | ifElse condition ifTrue ifFalse rest first second ih =>
    exact Same.branch condition (first _) (second _) (ih _)
  | loop condition body rest inner ih => exact Same.loop condition (inner _) (ih _)
  | function name parameters body rest _ _ => exact Same.function name name parameters parameters

end Wabbit.Flow
