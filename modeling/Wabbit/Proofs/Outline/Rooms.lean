import Wabbit.Proofs.Flow.Linking
import Wabbit.Proofs.Outline.Functions
import Wabbit.Proofs.Outline.Scoped

/-!
Room for the variables of compiled functions. Main statement: whatever variable on the stack a
function uses, there is one instruction that makes room for it, with the same kind, and it is executed
before the use on every way from the first block.
-/

namespace Wabbit

open Ast Stack

namespace Mark

/-- The variable that room is made for. -/
def room? : Mark → Option Name
  | room name => some name
  | _ => none

/-- Whatever is used has room before the marks or among them. -/
def Provides (known : List Name) (marks : List Mark) : Prop :=
  ∀ name, access name ∈ marks → name ∈ known ∨ room name ∈ marks

private theorem subset_roomsBehind (known : List Name) (marks : List Mark) :
    known ⊆ roomsBehind known marks :=
  fun _ member => mem_roomsBehind.mpr (.inl member)

variable {known known' : List Name} {front back : List Mark}

theorem Provides.append (first : Provides known front)
    (second : Provides (roomsBehind known front) back) : Provides known (front ++ back) := by
  intro name used
  simp only [List.mem_append] at used ⊢
  rcases used with inside | inside
  · exact (first name inside).imp_right .inl
  · rcases second name inside with early | late
    · exact (mem_roomsBehind.mp early).imp_right .inl
    · exact .inr (.inr late)

theorem Provides.both (first : Provides known front) (second : Provides known back) :
    Provides known (front ++ back) :=
  first.append fun name used =>
    (second name used).imp_left fun member => subset_roomsBehind known front member

theorem provides_lead (known : List Name) (targets : List Label) :
    Provides known [lead targets] := by
  intro name used
  simp at used

theorem Covers.provides {marks : List Mark} (covers : Covers known marks) :
    Provides known marks := by
  intro name used
  obtain ⟨front, back, rfl⟩ := List.append_of_mem used
  have early : name ∈ roomsBehind known front := (walks_append.mp covers).2.1
  exact (mem_roomsBehind.mp early).imp_right (List.mem_append_left _)

end Mark

/-! ### Ways through blocks -/

namespace Sketch

/-- For a number of blocks from a label on, whatever is used has room, where the known variables have
room at the label. -/
def Safe (blocks : List Sketch) : Nat → Label → List Name → Prop
  | 0, _, _ => True
  | steps + 1, label, known =>
    ∀ block ∈ blocks, block.label = label → Mark.Walks (Safe blocks steps) known block.marks

/-- The marks of some blocks, in their order. -/
def allMarks (blocks : List Sketch) : List Mark := blocks.flatMap marks

/-- The variables that some blocks make room for. -/
def allRooms (blocks : List Sketch) : List Name := (allMarks blocks).filterMap Mark.room?

variable {blocks : List Sketch} {steps : Nat} {label : Label} {known known' : List Name}

theorem Safe.mono (safe : Safe blocks steps label known) (more : known ⊆ known') :
    Safe blocks steps label known' := by
  induction steps generalizing label known known' with
  | zero => trivial
  | succ steps ih =>
    intro block inside same
    exact (safe block inside same).mono more fun _ _ _ later grows => ih later grows

private theorem Safe.pred (safe : Safe blocks (steps + 1) label known) :
    Safe blocks steps label known := by
  induction steps generalizing label known with
  | zero => trivial
  | succ steps ih =>
    intro block inside same
    exact (safe block inside same).mono (List.Subset.refl known) fun _ _ _ later grows =>
      (ih later).mono grows

private theorem safe_of_unused (unused : ∀ block ∈ blocks, block.label ≠ label) :
    Safe blocks steps label known := by
  cases steps with
  | zero => trivial
  | succ steps => exact fun block inside same => absurd same (unused block inside)

end Sketch

namespace Stack

theorem lead_not_mem_marksOf {instrs : List Instr} (plain : ∀ i ∈ instrs, i.isTerminator = false)
    (targets : List Label) : .lead targets ∉ marksOf instrs := by
  intro member
  obtain ⟨i, inside, own⟩ := List.mem_flatMap.mp member
  have running := plain i inside
  cases i with
  | load symbol => cases Symbol.eq_access_of_mem_marks own
  | store symbol => cases Symbol.eq_access_of_mem_marks own
  | _ => simp_all [Instr.marks, Instr.isTerminator]

private theorem lead_not_mem_straight {instrs : List Instr} (straight : isStraight instrs = true)
    (targets : List Label) : .lead targets ∉ marksOf instrs := by
  rcases isStraight_cases straight with ⟨-, plain⟩ | ⟨-, front, kind, rfl, plain⟩
  · exact lead_not_mem_marksOf plain targets
  · simpa [Instr.marks] using lead_not_mem_marksOf plain targets

end Stack

namespace Flow

open Outline Sketch

/-- Whatever has the label of one of some blocks is that block in outline. -/
def Settled (blocks : List Sketch) (part : List Block) : Prop :=
  ∀ block ∈ part, ∀ other ∈ blocks, other.label = block.label → other = block.sketch

private theorem Settled.mono {blocks : List Sketch} {part part' : List Block}
    (settled : Settled blocks part)
    (inside : part' ⊆ part) : Settled blocks part' :=
  fun block member => settled block (inside member)

private theorem Settled.walks {blocks : List Sketch} {part : List Block} (settled : Settled blocks part)
    (block : Block) (inside : block ∈ part) {known : List Name} {steps : Nat}
    (walks : ∀ fewer, steps = fewer + 1 → Mark.Walks (Safe blocks fewer) known block.sketch.marks) :
    Safe blocks steps block.label known := by
  cases steps with
  | zero => trivial
  | succ fewer =>
    intro other present same
    rw [settled block inside other present same]
    exact walks fewer rfl

variable {blocks : List Sketch} {known : List Name} {steps : Nat}

/-- The block of a leaf goes on with the variables that have room behind the leaf. -/
theorem walks_closeBlock {block : Block} {next : Label} (straight : isStraight block.instrs = true)
    (covers : Mark.Covers known (marksOf block.instrs))
    (behind : Safe blocks steps next (Mark.roomsBehind known (marksOf block.instrs))) :
    Mark.Walks (Safe blocks steps) known (closeBlock block next).sketch.marks := by
  have own : Mark.Walks (Safe blocks steps) known (marksOf block.instrs) :=
    covers.walks (lead_not_mem_straight straight)
  unfold closeBlock
  split
  · exact own
  · simpa [Block.sketch, Mark.walks_append, Instr.marks, Mark.Walks, own] using behind

private theorem walks_test {condition : Code} {label ifTrue ifFalse : Label}
    (plain : condition.isPlain = true)
    (covers : Mark.Covers known (marksOf condition.instrs))
    (first : Safe blocks steps ifTrue known) (second : Safe blocks steps ifFalse known) :
    Mark.Walks (Safe blocks steps) known (test label condition ifTrue ifFalse).sketch.marks := by
  have running : ∀ i ∈ condition.instrs, i.isTerminator = false := by
    simpa [Code.isPlain] using plain
  have own : Mark.Walks (Safe blocks steps) known (marksOf condition.instrs) :=
    covers.walks (lead_not_mem_marksOf running)
  have more : known ⊆ Mark.roomsBehind known (marksOf condition.instrs) :=
    fun name member => Mark.mem_roomsBehind.mpr (.inl member)
  simp [Block.sketch, test, Mark.walks_append, Instr.marks, Mark.Walks, own, first.mono more,
    second.mono more]

/-- From scoped statements on, whatever is used has room, if that holds from what follows them on. -/
theorem LaidOut.safe {next : Label} {stmts : List (Nested Block)} {linked : Linked}
    (laid : LaidOut next stmts linked) (straight : AllStraight stmts)
    (settled : Settled blocks linked.blocks)
    (covered : AllScoped known (Nested.outlineAll Block.instrs stmts))
    (behind : Safe blocks steps next known) : Safe blocks steps linked.entry known := by
  induction laid generalizing known steps with
  | nil => exact behind
  | @pass next label =>
    refine settled.walks ⟨label, [.goto next]⟩ List.mem_cons_self ?_
    rintro fewer rfl
    simpa [Block.sketch, Instr.marks, Mark.Walks] using behind.pred
  | @leaf next stmts rest block others ih =>
    obtain ⟨plain, straight⟩ := allStraight_leaf straight
    rw [← label_closeBlock block rest.entry]
    refine settled.walks _ List.mem_cons_self ?_
    rintro fewer rfl
    have later := settled.mono (List.subset_cons_self ..)
    refine walks_closeBlock plain covered.1 (ih straight later covered.2 ?_)
    exact behind.pred.mono fun name member => Mark.mem_roomsBehind.mpr (.inl member)
  | @branch next stmts rest condition ifTrue ifFalse arm₁ arm₂ label others first second ih ih₁ ih₂ =>
    obtain ⟨plain, straight₁, straight₂, straight⟩ := allStraight_branch straight
    obtain ⟨⟨covers, covered₁, covered₂⟩, covered⟩ := covered
    refine settled.walks (test label condition arm₁.entry arm₂.entry) List.mem_cons_self ?_
    rintro fewer rfl
    have after := ih straight (settled.mono fun _ inside => by simp [inside]) covered behind.pred
    have safe₁ := ih₁ straight₁ (settled.mono fun _ inside => by simp [inside]) covered₁ after
    have safe₂ := ih₂ straight₂ (settled.mono fun _ inside => by simp [inside]) covered₂ after
    exact walks_test plain covers safe₁ safe₂
  | @loop next stmts rest condition body inner label others round ih ih₁ =>
    obtain ⟨plain, straight₁, straight⟩ := allStraight_loop straight
    obtain ⟨⟨covers, covered₁⟩, covered⟩ := covered
    -- Each round makes the way shorter, so the number of blocks carries the induction.
    induction steps with
    | zero => trivial
    | succ steps again =>
      refine settled.walks (test label condition inner.entry rest.entry) List.mem_cons_self ?_
      rintro fewer same
      cases same
      have after := ih straight (settled.mono fun _ inside => by simp [inside]) covered behind.pred
      have inside := ih₁ straight₁ (settled.mono fun _ inside => by simp [inside]) covered₁
        (again behind.pred)
      exact walks_test plain covers inside after

private theorem provides_closeBlock {block : Block} (next : Label)
    (covers : Mark.Covers known (marksOf block.instrs)) :
    Mark.Provides known (closeBlock block next).sketch.marks := by
  unfold closeBlock
  split
  · exact covers.provides
  · simpa [Block.sketch, Instr.marks] using covers.provides.both (Mark.provides_lead _ [next])

private theorem roomsBehind_closeBlock (block : Block) (next : Label) :
    Mark.roomsBehind known (closeBlock block next).sketch.marks =
      Mark.roomsBehind known (marksOf block.instrs) := by
  unfold closeBlock
  split
  · rfl
  · simp [Block.sketch, Instr.marks, Mark.roomsBehind_append, Mark.roomsBehind]

private theorem provides_test {condition : Code} (label ifTrue ifFalse : Label)
    (covers : Mark.Covers known (marksOf condition.instrs)) :
    Mark.Provides known (test label condition ifTrue ifFalse).sketch.marks := by
  simpa [Block.sketch, test, Instr.marks] using
    covers.provides.both (Mark.provides_lead _ [ifTrue, ifFalse])

/-- Also behind a return, whatever scoped statements use has room somewhere. -/
theorem LaidOut.provides {next : Label} {stmts : List (Nested Block)} {linked : Linked}
    (laid : LaidOut next stmts linked)
    (covered : AllScoped known (Nested.outlineAll Block.instrs stmts)) :
    Mark.Provides known (Sketch.allMarks (linked.blocks.map Block.sketch)) := by
  induction laid generalizing known with
  | nil => exact nofun
  | pass label => exact Mark.provides_lead known _
  | @leaf next stmts rest block others ih =>
    refine (provides_closeBlock rest.entry covered.1).append ?_
    rw [roomsBehind_closeBlock]
    exact ih covered.2
  | @branch next stmts rest condition ifTrue ifFalse arm₁ arm₂ label others first second ih ih₁ ih₂ =>
    obtain ⟨⟨covers, covered₁, covered₂⟩, covered⟩ := covered
    have arms := (ih₁ covered₁).both (ih₂ covered₂)
    have all := (provides_test label arm₁.entry arm₂.entry covers).both (arms.both (ih covered))
    simpa [Sketch.allMarks] using all
  | @loop next stmts rest condition body inner label others round ih ih₁ =>
    obtain ⟨⟨covers, covered₁⟩, covered⟩ := covered
    have all := (provides_test label inner.entry rest.entry covers).both
      ((ih₁ covered₁).both (ih covered))
    simpa [Sketch.allMarks] using all

end Flow

/-! ### Compiled functions -/

namespace Stack

private theorem Instr.rooms_marks (i : Instr) :
    (i.marks.filterMap Mark.room?).map Name.text = i.slot?.toList := by
  have none (symbol : Symbol) : symbol.marks.filterMap Mark.room? = [] := by
    refine List.filterMap_eq_nil_iff.mpr fun mark member => ?_
    rw [Symbol.eq_access_of_mem_marks member]
    rfl
  cases i <;> simp [marks, slot?, Mark.room?, none]

private theorem allRooms_sketch (blocks : List Block) :
    (Sketch.allRooms (blocks.map Block.sketch)).map Name.text = blockSlots blocks := by
  have own (instrs : List Instr) :
      ((marksOf instrs).filterMap Mark.room?).map Name.text = slotsOf instrs := by
    induction instrs with
    | nil => rfl
    | cons i rest ih =>
      rw [marksOf_cons, List.filterMap_append, List.map_append, ih, Instr.rooms_marks, slotsOf_cons]
  induction blocks with
  | nil => rfl
  | cons block rest ih =>
    rw [blockSlots_cons, ← own, ← ih]
    simp [Sketch.allRooms, Sketch.allMarks, Block.sketch]

end Stack

namespace Tac

private theorem rooms_receives (parameters : List Symbol) :
    ((receives parameters).filterMap Mark.room?).map Name.text = parameters.map Symbol.text := by
  induction parameters with
  | nil => rfl
  | cons parameter rest ih => exact congrArg (parameter.text :: ·) ih

theorem covers_receives (parameters : List Symbol) (known : List Name) :
    Mark.Covers known (receives parameters) := by
  induction parameters generalizing known with
  | nil => trivial
  | cons parameter rest ih => exact ⟨List.mem_cons_self, ih _⟩

private theorem lead_not_mem_receives (parameters : List Symbol) (targets : List Label) :
    .lead targets ∉ receives parameters := by
  simp [receives]

theorem subset_roomsBehind_receives (parameters : List Symbol) :
    parameters.map Symbol.name ⊆ Mark.roomsBehind [] (receives parameters) := by
  intro name member
  obtain ⟨parameter, inside, rfl⟩ := List.mem_map.mp member
  refine Mark.mem_roomsBehind.mpr (.inr (List.mem_flatMap.mpr ⟨parameter, inside, ?_⟩))
  exact List.mem_cons_self

/-- A block that receives arguments goes on with room for all of them. -/
theorem walks_receives {blocks : List Sketch} {steps : Nat} {label : Label}
    {parameters : List Symbol}
    (safe : Sketch.Safe blocks steps label (parameters.map Symbol.name)) :
    Mark.Walks (Sketch.Safe blocks steps) [] (receives parameters ++ [.lead [label]]) := by
  have own : Mark.Walks (Sketch.Safe blocks steps) [] (receives parameters) :=
    (covers_receives parameters []).walks (lead_not_mem_receives parameters)
  refine Mark.walks_append.mpr ⟨own, List.forall_mem_singleton.mpr ?_, trivial⟩
  exact safe.mono (subset_roomsBehind_receives parameters)

end Tac

theorem Outline.allScoped_append {known : List Name} {front back : List Outline}
    (first : AllScoped known front) (second : ∀ known, AllScoped known back) :
    AllScoped known (front ++ back) := by
  induction front generalizing known with
  | nil => exact second known
  | cons s rest ih => exact ⟨first.1, ih first.2⟩

theorem Ast.Stmt.outlineAll_append (front back : List (Stmt Symbol False True)) :
    outlineAll (front ++ back) = outlineAll front ++ outlineAll back := by
  induction front with
  | nil => rfl
  | cons s rest ih => simp only [List.cons_append, outlineAll, ih]

private theorem Ast.Stmt.allScoped_ensureReturn {f : FunDef (Stmt Symbol False True)} {known : List Name}
    (covered : Outline.AllScoped known (outlineAll f.body)) :
    Outline.AllScoped known (outlineAll f.ensureReturn.body) := by
  unfold FunDef.ensureReturn
  split
  · exact covered
  · rw [FunDef.withBody, outlineAll_append]
    refine Outline.allScoped_append covered fun known => ⟨?_, trivial⟩
    cases f.name.kind <;> trivial

namespace FunDef.Passage

variable {f : FunDef (Stmt Symbol False True)} {g : FunDef Tac.Block} (passage : f.Passage g)
include passage

theorem allScoped_grouped
    (covered : Outline.AllScoped (f.parameters.map Symbol.name) (Stmt.outlineAll f.body)) :
    Outline.AllScoped (f.parameters.map Symbol.name)
      (Nested.outlineAll Block.instrs passage.grouped) := by
  obtain ⟨labelled, straightened⟩ := passage.outlines
  rw [labelled, allScoped_joinAllRuns, straightened]
  exact Stmt.allScoped_ensureReturn covered

/-- All labels in outline. -/
theorem settled : Flow.Settled (g.body.map Tac.Block.sketch) passage.linked := by
  have own : Flow.Settled (passage.linked.map Block.sketch) passage.linked := by
    intro block inside other present same
    obtain ⟨twin, member, rfl⟩ := List.mem_map.mp present
    rw [List.inj_on_of_nodup_map passage.distinct member inside same]
  rcases passage.receives with ⟨-, same⟩ | ⟨entry, first, rest, -, -, fresh, same⟩
  · rw [same]
    exact own
  · rw [same]
    intro block inside other present label
    rcases List.mem_cons.mp present with rfl | present
    · exact absurd label.symm (fresh _ (List.mem_map_of_mem inside))
    · exact own block inside other present label

section Scoped

variable (covered : Outline.AllScoped (f.parameters.map Symbol.name) (Stmt.outlineAll f.body))
include covered

private theorem safe_linked : ∃ first rest, passage.linked = first :: rest ∧
    ∀ steps, Sketch.Safe (g.body.map Tac.Block.sketch) steps first.label
      (f.parameters.map Symbol.name) := by
  -- Nothing leads behind the final block, so a label that no block has may stand for what follows.
  obtain ⟨next, apart⟩ := Label.exists_unused (g.body.map Tac.Block.label)
  obtain ⟨closed, linked, laid, same⟩ := Flow.linkFunction_laidOut passage.links next
  have blocks : passage.linked = linked.blocks := congrArg FunDef.body same
  have some : passage.grouped ≠ [] := by
    rintro none
    simp [none, Nested.isClosed] at closed
  obtain ⟨first, rest, parts, entry⟩ := laid.head_label some
  refine ⟨first, rest, blocks.trans parts, fun steps => ?_⟩
  rw [entry]
  refine laid.safe passage.isStraight (blocks ▸ passage.settled)
    (passage.allScoped_grouped covered) (Sketch.safe_of_unused ?_)
  refine List.forall_mem_map.mpr fun block inside same => apart ?_
  exact same ▸ List.mem_map_of_mem inside

/-- From the first block on, whatever is used has room. -/
theorem safe : ∃ first rest, g.body.map Tac.Block.sketch = first :: rest ∧
    ∀ steps, Sketch.Safe (g.body.map Tac.Block.sketch) steps first.label [] := by
  obtain ⟨first, rest, blocks, safe⟩ := passage.safe_linked covered
  rcases passage.receives with ⟨none, same⟩ | ⟨entry, start, others, -, parts, fresh, same⟩
  · rw [none] at safe
    refine ⟨first.sketch, rest.map Block.sketch, ?_, safe⟩
    rw [same, blocks, List.map_cons]
  · rw [blocks] at parts
    obtain ⟨rfl, -⟩ := List.cons.inj parts
    refine ⟨_, _, same, fun steps => ?_⟩
    cases steps with
    | zero => trivial
    | succ steps =>
      intro block inside label
      rw [same] at inside
      rcases List.mem_cons.mp inside with rfl | inside
      · exact Tac.walks_receives (safe steps)
      · exact absurd label (fresh block inside)

/-- Whatever is used has room somewhere. -/
theorem provides : Mark.Provides [] (Sketch.allMarks (g.body.map Tac.Block.sketch)) := by
  obtain ⟨-, linked, laid, same⟩ := Flow.linkFunction_laidOut passage.links ⟨0⟩
  have blocks : passage.linked = linked.blocks := congrArg FunDef.body same
  have inside := laid.provides (passage.allScoped_grouped covered)
  rw [← blocks] at inside
  rcases passage.receives with ⟨none, same⟩ | ⟨entry, start, others, -, -, -, same⟩
  · rw [same]
    rw [none] at inside
    exact inside
  · have received := ((Tac.covers_receives f.parameters []).provides).both (Mark.provides_lead [] [start.label])
    rw [same]
    refine received.append fun name used => (inside name used).imp_left fun member => ?_
    rw [Mark.roomsBehind_append]
    exact Tac.subset_roomsBehind_receives f.parameters member

end Scoped

theorem body_ne_nil : g.body ≠ [] := by
  intro none
  obtain ⟨before, last, out, -, -, -, ends⟩ := Flow.linkFunction_inv passage.links
  have blocks : passage.linked = out.blocks ++ [last] := congrArg FunDef.body ends
  rcases passage.receives with ⟨-, same⟩ | ⟨entry, start, others, -, -, -, same⟩
  · simp [none, blocks] at same
  · simp [none] at same

private theorem slots_linked : blockSlots passage.linked = Stmt.allSlots f.body := by
  obtain ⟨-, linked, laid, same⟩ := Flow.linkFunction_laidOut passage.links ⟨0⟩
  have blocks : passage.linked = linked.blocks := congrArg FunDef.body same
  have lowered := Nested.slots_straightenAll passage.straightens
  rw [Stmt.slots_lowerAll, Stmt.allSlots_subtractAll passage.subtracts,
    f.ensureReturn_sameSlots.slots] at lowered
  rw [blocks, laid.slots, ← lowered, passage.groups, Nested.slots_labelAll,
    Nested.slots_joinAllRuns]

/-- Room is made for the parameters and for what the statements declare. -/
theorem rooms_names : (Sketch.allRooms (g.body.map Tac.Block.sketch)).map Name.text =
    f.parameters.map Symbol.text ++ Stmt.allSlots f.body := by
  have inside := allRooms_sketch passage.linked
  rw [passage.slots_linked] at inside
  rcases passage.receives with ⟨none, same⟩ | ⟨entry, start, others, -, -, -, same⟩
  · rw [same, none, inside]
    rfl
  · rw [same, ← inside, ← Tac.rooms_receives]
    simp [Sketch.allRooms, Sketch.allMarks, List.filterMap_cons, Mark.room?]

end FunDef.Passage

/-! ### Instructions -/

namespace Tac

/-- The variable that an instruction makes room for. -/
def Instr.room? : Instr → Option Name
  | alloca name kind => some ⟨name, kind⟩
  | _ => none

/-- The variable on the stack that an instruction reads or writes, with the kind it is used as. -/
def Instr.used? : Instr → Option Name
  | load _ kind (.slot name) | store kind _ (.slot name) => some ⟨name, kind⟩
  | _ => none

/-- A way from the first of some blocks to another one, with the instructions executed on it. -/
inductive Reaches (blocks : List Block) : List Instr → Block → Prop where
  | start {first} (isFirst : blocks.head? = some first) : Reaches blocks [] first
  | step {executed block front i back next} (reached : Reaches blocks executed block)
      (parts : block.instrs = front ++ i :: back) (inside : next ∈ blocks)
      (leads : next.label ∈ i.targets) : Reaches blocks (executed ++ (front ++ [i])) next

theorem Instr.marks_of_used {i : Instr} {name : Name} (used : i.used? = some name) :
    i.marks = [.access name] := by
  cases i with
  | load result kind address => cases address <;> simp_all [used?, marks, Address.marks]
  | store kind value address => cases address <;> simp_all [used?, marks, Address.marks]
  | _ => cases used

private theorem Instr.marks_of_targets {i : Instr} {label : Label} (leads : label ∈ i.targets) :
    i.marks = [.lead i.targets] := by
  cases i with
  | jump | branch => rfl
  | _ => cases leads

private theorem Instr.rooms_marks (i : Instr) : i.marks.filterMap Mark.room? = i.room?.toList := by
  cases i with
  | load result kind address => cases address <;> rfl
  | store kind value address => cases address <;> rfl
  | _ => rfl

private theorem Instr.room_mem_marks {i : Instr} {name : Name} :
    .room name ∈ i.marks ↔ i = .alloca name.text name.kind := by
  obtain ⟨text, kind⟩ := name
  cases i with
  | load result kind address => cases address <;> simp [marks, Address.marks]
  | store kind value address => cases address <;> simp [marks, Address.marks]
  | alloca name kind => simp [marks, eq_comm]
  | _ => simp [marks]

private theorem room_mem_marksOf {name : Name} {instrs : List Instr} :
    .room name ∈ marksOf instrs ↔ .alloca name.text name.kind ∈ instrs := by
  simp [marksOf, Instr.room_mem_marks]

namespace Reaches

variable {blocks : List Block} {executed : List Instr} {block : Block}
  (start : ∀ first ∈ blocks.head?, ∀ steps,
    Sketch.Safe (blocks.map Block.sketch) steps first.label [])
include start

private theorem safe (reached : Reaches blocks executed block) : block ∈ blocks ∧
    ∀ steps, Sketch.Safe (blocks.map Block.sketch) steps block.label
      (Mark.roomsBehind [] (marksOf executed)) := by
  induction reached with
  | start isFirst => exact ⟨List.mem_of_head? isFirst, start _ isFirst⟩
  | @step executed block front i back next reached parts inside leads ih =>
    refine ⟨inside, fun steps => ?_⟩
    have walks := ih.2 (steps + 1) block.sketch (List.mem_map_of_mem ih.1) rfl
    rw [Block.sketch, parts, marksOf_append, marksOf_cons, Instr.marks_of_targets leads] at walks
    have later := (Mark.walks_append.mp walks).2.1 _ leads
    rw [marksOf_append, marksOf_append, Mark.roomsBehind_append, Mark.roomsBehind_append, marksOf_cons, Instr.marks_of_targets leads]
    exact later

/-- What is used in a block has room from the way there or from the instructions before. -/
theorem hasRoom (reached : Reaches blocks executed block) {front back : List Instr} {i : Instr} {name : Name}
    (parts : block.instrs = front ++ i :: back) (used : i.used? = some name) :
    .alloca name.text name.kind ∈ executed ++ front := by
  obtain ⟨inside, safe⟩ := reached.safe start
  have walks := safe 1 block.sketch (List.mem_map_of_mem inside) rfl
  rw [Block.sketch, parts, marksOf_append, marksOf_cons, Instr.marks_of_used used] at walks
  have has := (Mark.walks_append.mp walks).2.1
  rw [← Mark.roomsBehind_append, ← marksOf_append] at has
  simpa [Mark.mem_roomsBehind, room_mem_marksOf] using has

end Reaches

end Tac

/-- The variables that a function makes room for. -/
def FunDef.rooms (f : FunDef Tac.Block) : List Name :=
  (f.body.flatMap Tac.Block.instrs).filterMap Tac.Instr.room?

private theorem FunDef.allRooms_sketch (f : FunDef Tac.Block) :
    Sketch.allRooms (f.body.map Tac.Block.sketch) = f.rooms := by
  have own (instrs : List Tac.Instr) :
      (Tac.marksOf instrs).filterMap Mark.room? = instrs.filterMap Tac.Instr.room? := by
    induction instrs with
    | nil => rfl
    | cons i rest ih =>
      rw [Tac.marksOf_cons, List.filterMap_append, ih, Tac.Instr.rooms_marks, List.filterMap_cons]
      cases i.room? <;> rfl
  rw [rooms, ← own]
  simp [Sketch.allRooms, Sketch.allMarks, Tac.marksOf, List.flatMap_assoc, List.flatMap_map, Tac.Block.sketch]

/-- Of names with different texts, only one has the text of a given one. -/
theorem filter_text_eq {names : List Name} (distinct : (names.map Name.text).Nodup) {name : Name}
    (member : name ∈ names) : names.filter (fun other => other.text = name.text) = [name] :=
  filter_key_eq distinct member

/-- Parameters have room in the block that receives them. -/
theorem compiled_receives {options : Options} {script : Parsed} {compiled : Compiled}
    (done : (compile options script).result = .ok compiled) :
    ∀ f ∈ compiled.program.functions, ∀ parameter ∈ f.parameters, ∃ first rest name,
      f.body = first :: rest ∧ compiled.labels.nameOf first.label = Label.entryName ∧
      parameter.text = (Register.argument name).name ∧
      .alloca name parameter.kind ∈ first.instrs := by
  obtain ⟨folded, resolved, plain, straight, linked, labelling, generated, fold, resolve, subtract,
    straighten, link, generate, last⟩ := compile_inv done
  obtain ⟨-, entered⟩ := generated.withEntryBlocks_entered (linked.relabel labelling.labels)
  rw [← last] at entered
  intro g member parameter inside
  obtain ⟨f, -, receives⟩ := entered.exists_left member
  rcases receives with ⟨rfl, none | empty⟩ | ⟨entry, first, -, named, rfl⟩
  · rw [none] at inside
    cases inside
  · obtain ⟨_, _, _, _, related⟩ := compile_passage done
    obtain ⟨_, -, ⟨passage⟩⟩ := related.exists_left member
    exact absurd empty passage.body_ne_nil
  · obtain ⟨own, present, rfl⟩ := List.mem_map.mp inside
    refine ⟨_, _, own.text, rfl, named, rfl, List.mem_append_left _ ?_⟩
    exact List.mem_flatMap.mpr ⟨own, present, List.mem_cons_self⟩

/-- A function makes room for what it uses: for each variable on its stack that an instruction uses
there is one instruction that makes room, with the kind that the variable is used as, and it is executed
on every way to the use. Parameters have room in a first block that receives them. -/
structure FunDef.MakesRoom (labels : Labels) (f : FunDef Tac.Block) : Prop where
  once : ∀ block ∈ f.body, ∀ i ∈ block.instrs, ∀ name, i.used? = some name →
    f.rooms.filter (fun other => other.text = name.text) = [name]
  before : ∀ block ∈ f.body, ∀ front i back name, block.instrs = front ++ i :: back →
    i.used? = some name → ∀ executed, Tac.Reaches f.body executed block →
      .alloca name.text name.kind ∈ executed ++ front
  received : ∀ parameter ∈ f.parameters, ∃ first rest name, f.body = first :: rest ∧
    labels.nameOf first.label = Label.entryName ∧ parameter.text = (Register.argument name).name ∧
    .alloca name parameter.kind ∈ first.instrs

/-- Whatever variable on its stack a compiled function uses, it makes room for it once, with the kind
that it is used as, and on every way to the use before it. Parameters have room in a first block that
receives them. -/
theorem compiled_makes_room {options : Options} {script : Parsed} {compiled : Compiled}
    (done : (compile options script).result = .ok compiled) :
    ∀ f ∈ compiled.program.functions, f.MakesRoom compiled.labels := by
  obtain ⟨folded, resolved, fold, resolve, related⟩ := compile_passage done
  intro g member
  obtain ⟨f, inside, ⟨passage⟩⟩ := related.exists_left member
  have covered := Items.ofScript_scoped resolve f inside
  refine ⟨?_, ?_, compiled_receives done g member⟩
  · have distinct := Items.ofScript_nodup resolve f inside
    rw [← passage.rooms_names, g.allRooms_sketch] at distinct
    intro block own i inside name used
    have marked : .access name ∈ Sketch.allMarks (g.body.map Tac.Block.sketch) := by
      refine List.mem_flatMap.mpr ⟨block.sketch, List.mem_map_of_mem own, ?_⟩
      refine List.mem_flatMap.mpr ⟨i, inside, ?_⟩
      simp [Tac.Instr.marks_of_used used]
    have somewhere := (passage.provides covered name marked).resolve_left List.not_mem_nil
    refine filter_text_eq distinct ?_
    rw [← g.allRooms_sketch]
    exact List.mem_filterMap.mpr ⟨_, somewhere, rfl⟩
  · obtain ⟨first, rest, blocks, safe⟩ := passage.safe covered
    intro block own front i back name parts used executed reached
    refine reached.hasRoom ?_ parts used
    intro start isFirst
    have same : start.sketch = first := by
      have head := congrArg List.head? blocks
      rw [List.head?_map, Option.mem_def.mp isFirst] at head
      exact Option.some_inj.mp head
    rw [← same] at safe
    exact safe

/-- A parameter and a variable of the same name, used in a loop and in both arms of a branch. -/
theorem compiled_makes_room_shared :
    let source := "func f(x int) int \x7b while x < 9 \x7b var x = 2; if x < 3 \x7b var y = 1.5;" ++
      " print y; \x7d else \x7b var y = 2.5; print y; \x7d \x7d return x; print x; \x7d"
    ∃ script compiled, frontEnd source = .ok script ∧ (compile {} script).result = .ok compiled ∧
      compiled.program.functions.map FunDef.rooms =
        [[⟨"x", .integer⟩, ⟨"x.1", .integer⟩, ⟨"y", .float⟩, ⟨"y.1", .float⟩], []] ∧
      ∀ f ∈ compiled.program.functions, f.MakesRoom compiled.labels := by
  intro source
  have run : ((frontEnd source).toOption.bind fun script =>
      (compile {} script).result.toOption.map
        fun compiled => compiled.program.functions.map FunDef.rooms) =
      some [[⟨"x", .integer⟩, ⟨"x.1", .integer⟩, ⟨"y", .float⟩, ⟨"y.1", .float⟩], []] := by
    decide +kernel
  obtain ⟨script, compiled, accepted, done, rooms⟩ := exists_compiled run
  exact ⟨script, compiled, accepted, done, rooms, compiled_makes_room done⟩

end Wabbit
