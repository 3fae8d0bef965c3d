import Mathlib.Data.List.Basic
import Mathlib.Data.Nat.Notation

/-!
# Computations that ask once

A computation asks questions of an environment, which may fail, and whose answers may depend on
what was asked before. The computation keeps the answers and asks no question twice
(`askOnce`).

A program over any monad with errors can be read as such a computation, or as one in `Except`
where the answers are given. A `Simulation` is a relation between the two readings that every
program keeps. There are two. A computation that succeeds gives what the program gives with the
answers that it ended with (`told`), and it has asked nothing twice. Where answers do not depend
on what was asked before, the computation gives what the program gives with the environment
itself (`constant`).
-/

set_option autoImplicit false

namespace OAuthRelay.Memo

variable {Question Answer Error α β : Type}

/-! ## Programs with errors -/

section Programs

variable {m : Type → Type} [Monad m] [MonadExceptOf Error m]

/-- Something that needs no environment. -/
def lift : Except Error α → m α
  | .ok value => pure value
  | .error error => throw error

/-- Changes an error on its way. -/
def mapError (change : Error → Error) (x : m α) :
    m α := tryCatch x fun error => throw (change error)

end Programs

@[simp] theorem lift_except (x : Except Error α) : (lift x : Except Error α) = x := by
  cases x <;> rfl

theorem mapError_eq_ok {change : Error → Error} {x : Except Error α} {value : α} :
    mapError change x = .ok value ↔ x = .ok value := by
  cases x with
  | ok => rfl
  | error =>
      simp only [reduceCtorEq, iff_false]
      exact nofun

theorem bind_eq_ok {x : Except Error α} {f : α → Except Error β} {value : β} :
    (x >>= f) = .ok value ↔ ∃ a, x = .ok a ∧ f a = .ok value := by
  cases x with
  | ok a => simp [bind, Except.bind]
  | error => simp [bind, Except.bind]

/-! ## Asking -/

/-- The answers so far, and the questions asked, the last one first. -/
structure Table (Question Answer : Type) where
  answers : List (Question × Answer)
  asked : List Question

/-- A computation with a table. An error leaves the table as it is. -/
abbrev Asks (Question Answer Error : Type) := ExceptT Error (StateM (Table Question Answer))

/-- An environment: its answer to a question after others. -/
abbrev Oracle (Question Answer Error : Type) := List Question → Question → Except Error Answer

/-- Answers do not depend on what was asked before. -/
def Oracle.Constant (oracle : Oracle Question Answer Error) : Prop :=
  ∀ asked question, oracle asked question = oracle [] question

/-- What a computation ends with. -/
def Asks.run (x : Asks Question Answer Error α) (table : Table Question Answer) :
    Except Error α × Table Question Answer :=
  StateT.run (ExceptT.run x) table

section Laws

variable {table : Table Question Answer}

theorem run_bind (x : Asks Question Answer Error α) (f : α → Asks Question Answer Error β) :
    (x >>= f).run table =
      match x.run table with
      | (.ok a, table') => (f a).run table'
      | (.error error, table') => (.error error, table') := by
  simp only [Asks.run, ExceptT.run_bind, StateT.run_bind]
  cases same : StateT.run (ExceptT.run x) table with
  | mk result table' => cases result <;> rfl

theorem run_lift (x : Except Error α) :
    (lift x : Asks Question Answer Error α).run table = (x, table) := by
  cases x <;> rfl

theorem run_mapError (change : Error → Error) (x : Asks Question Answer Error α) :
    (mapError change x).run table =
      match x.run table with
      | (.ok a, table') => (.ok a, table')
      | (.error error, table') => (.error (change error), table') := by
  simp only [Asks.run, mapError, ExceptT.run_tryCatch, StateT.run_bind]
  cases same : StateT.run (ExceptT.run x) table with
  | mk result table' => cases result <;> rfl

end Laws

section AskOnce

variable [DecidableEq Question]

/-- Asks the environment, unless the answer is known. -/
def askOnce (oracle : Oracle Question Answer Error) (question : Question) :
    Asks Question Answer Error Answer := do
  let table ← get
  match table.answers.lookup question with
  | some answer => pure answer
  | none =>
      set { table with asked := question :: table.asked }
      let answer ← lift (oracle table.asked question)
      modify fun table => { table with answers := (question, answer) :: table.answers }
      pure answer

theorem run_askOnce (oracle : Oracle Question Answer Error) (question : Question)
    (table : Table Question Answer) :
    (askOnce oracle question).run table =
      match table.answers.lookup question with
      | some answer => (.ok answer, table)
      | none =>
          match oracle table.asked question with
          | .ok answer => (.ok answer,
              ⟨(question, answer) :: table.answers, question :: table.asked⟩)
          | .error error => (.error error, { table with asked := question :: table.asked }) := by
  have start : (get : Asks Question Answer Error _).run table = (.ok table, table) := rfl
  simp only [askOnce, run_bind, start]
  cases table.answers.lookup question with
  | some answer => rfl
  | none =>
      have marked : (set { table with asked := question :: table.asked } :
          Asks Question Answer Error PUnit).run table =
        (.ok ⟨⟩, { table with asked := question :: table.asked }) := rfl
      simp only [run_bind, marked, run_lift]
      cases oracle table.asked question with
      | ok answer => rfl
      | error => rfl

/-- Every question was asked once, and answered. -/
structure Table.Known (table : Table Question Answer) : Prop where
  once : table.asked.Nodup
  answered : ∀ question ∈ table.asked, table.answers.lookup question ≠ none

/-- The later table has the answers of the earlier one. -/
def Table.Le (table table' : Table Question Answer) : Prop :=
  ∀ question answer, table.answers.lookup question = some answer →
    table'.answers.lookup question = some answer

/-- The answers are the environment's. -/
def Table.From (table : Table Question Answer) (oracle : Oracle Question Answer Error) : Prop :=
  ∀ question answer, table.answers.lookup question = some answer →
    oracle [] question = .ok answer

theorem Table.known_empty : (⟨[], []⟩ : Table Question Answer).Known :=
  ⟨List.nodup_nil, nofun⟩

theorem Table.from_empty (oracle : Oracle Question Answer Error) :
    (⟨[], []⟩ : Table Question Answer).From oracle := nofun

end AskOnce

/-! ## Simulations -/

/-- A relation between the two readings of a program that every program keeps. -/
structure Simulation
    (Rel : ∀ {α : Type}, Asks Question Answer Error α → Except Error α → Prop) : Prop where
  lift : ∀ {α : Type} (x : Except Error α), Rel (Memo.lift x) (Memo.lift x)
  bind : ∀ {α β : Type} {x : Asks Question Answer Error α} {y : Except Error α}
    {f : α → Asks Question Answer Error β} {g : α → Except Error β},
    Rel x y → (∀ a, Rel (f a) (g a)) → Rel (x >>= f) (y >>= g)
  mapError : ∀ {α : Type} (change : Error → Error) {x : Asks Question Answer Error α}
    {y : Except Error α}, Rel x y → Rel (Memo.mapError change x) (Memo.mapError change y)

section Simulations

variable [DecidableEq Question]

theorem Table.Le.trans {a b c : Table Question Answer} (ab : a.Le b) (bc : b.Le c) : a.Le c :=
  fun question answer found => bc question answer (ab question answer found)

/-- A computation that succeeds gives what the program gives with the answers that it ended with;
a failed one has asked nothing twice either. -/
def Told (last : Table Question Answer) (x : Asks Question Answer Error α) (y : Except Error α) :
    Prop :=
  ∀ table : Table Question Answer, table.Known →
    match x.run table with
    | (.ok a, table') => table'.Known ∧ table.Le table' ∧ (table'.Le last → y = .ok a)
    | (.error _, table') => table'.asked.Nodup

/-- With the environment itself, a program gives the same. -/
def Same (oracle : Oracle Question Answer Error) (x : Asks Question Answer Error α)
    (y : Except Error α) : Prop :=
  ∀ table : Table Question Answer, table.From oracle →
    (x.run table).1 = y ∧ (x.run table).2.From oracle

theorem told (last : Table Question Answer) :
    Simulation fun {α} (x : Asks Question Answer Error α) y => Told last x y where
  lift x table known := by
    rw [run_lift, lift_except]
    cases x with
    | ok a => exact ⟨known, fun _ _ found => found, fun _ => rfl⟩
    | error => exact known.once
  bind {α β x y f g} left right table known := by
    have first := left table known
    rw [run_bind]
    cases reached : x.run table with
    | mk result table₁ =>
        rw [reached] at first
        cases result with
        | error => exact first
        | ok a =>
            obtain ⟨known₁, le₁, same₁⟩ := first
            have second := right a table₁ known₁
            dsimp only
            cases reached' : (f a).run table₁ with
            | mk result' table₂ =>
                rw [reached'] at second
                cases result' with
                | error => exact second
                | ok b =>
                    obtain ⟨known₂, le₂, same₂⟩ := second
                    refine ⟨known₂, le₁.trans le₂, fun inside => ?_⟩
                    rw [same₁ (le₂.trans inside)]
                    exact same₂ inside
  mapError {α} change {x y} inner table known := by
    have first := inner table known
    rw [run_mapError]
    cases reached : x.run table with
    | mk result table' =>
        rw [reached] at first
        cases result with
        | error => exact first
        | ok a =>
            obtain ⟨known', le, same⟩ := first
            exact ⟨known', le, fun inside => mapError_eq_ok.mpr (same inside)⟩

theorem same (oracle : Oracle Question Answer Error) :
    Simulation fun {α} (x : Asks Question Answer Error α) y => Same oracle x y where
  lift x table known := by
    rw [run_lift, lift_except]
    exact ⟨rfl, known⟩
  bind {α β x y f g} left right table known := by
    obtain ⟨rfl, known₁⟩ := left table known
    rw [run_bind]
    cases reached : x.run table with
    | mk result table₁ =>
        rw [reached] at known₁
        cases result with
        | error => exact ⟨rfl, known₁⟩
        | ok a => exact right a table₁ known₁
  mapError {α} change {x y} inner table known := by
    obtain ⟨rfl, known'⟩ := inner table known
    rw [run_mapError]
    cases reached : x.run table with
    | mk result table' =>
        rw [reached] at known'
        cases result with
        | error => exact ⟨rfl, known'⟩
        | ok a => exact ⟨rfl, known'⟩

/-- The answer of a table, and an error where it has none. -/
def Table.answer (table : Table Question Answer) (unknown : Error) (question : Question) :
    Except Error Answer :=
  match table.answers.lookup question with
  | some answer => .ok answer
  | none => .error unknown

theorem Table.answer_eq_ok {table : Table Question Answer} {unknown : Error} {question : Question}
    {answer : Answer} :
    table.answer unknown question = .ok answer ↔ table.answers.lookup question = some answer := by
  unfold Table.answer
  cases table.answers.lookup question <;> simp

omit [DecidableEq Question] in
theorem lookup_cons_of_ne [BEq Question] [LawfulBEq Question] {question other : Question}
    (ne : other ≠ question) (answer : Answer) (answers : List (Question × Answer)) :
    ((question, answer) :: answers).lookup other = answers.lookup other := by
  rw [List.lookup_cons, beq_false_of_ne ne]

/-- **What is asked once is answered by the last table.** -/
theorem told_askOnce (last : Table Question Answer) (oracle : Oracle Question Answer Error)
    (unknown : Error) (question : Question) :
    Told last (askOnce oracle question) (last.answer unknown question) := by
  intro table known
  rw [run_askOnce]
  cases found : table.answers.lookup question with
  | some answer =>
      exact ⟨known, fun _ _ found => found,
        fun inside => Table.answer_eq_ok.mpr (inside question answer found)⟩
  | none =>
      have new : question ∉ table.asked := fun asked => known.answered question asked found
      have once : (question :: table.asked).Nodup := List.nodup_cons.mpr ⟨new, known.once⟩
      cases oracle table.asked question with
      | error => exact once
      | ok answer =>
          have le : table.Le ⟨(question, answer) :: table.answers, question :: table.asked⟩ := by
            intro other answer' found'
            rw [lookup_cons_of_ne (fun same => by rw [same, found] at found'; cases found')]
            exact found'
          refine ⟨⟨once, fun other member => ?_⟩, le, fun inside => ?_⟩
          · rcases List.mem_cons.mp member with rfl | older
            · rw [List.lookup_cons_self]
              exact Option.some_ne_none _
            · obtain ⟨answer', found'⟩ := Option.ne_none_iff_exists'.mp (known.answered other older)
              rw [le other answer' found']
              exact Option.some_ne_none _
          · exact Table.answer_eq_ok.mpr (inside question answer List.lookup_cons_self)

/-- **Where answers do not change, asking once is as good as asking again.** -/
theorem same_askOnce {oracle : Oracle Question Answer Error} (constant : oracle.Constant)
    (question : Question) : Same oracle (askOnce oracle question) (oracle [] question) := by
  intro table known
  rw [run_askOnce]
  cases found : table.answers.lookup question with
  | some answer => exact ⟨(known question answer found).symm, known⟩
  | none =>
      rw [constant table.asked question]
      cases answered : oracle [] question with
      | error => exact ⟨rfl, known⟩
      | ok answer =>
          refine ⟨rfl, fun other answer' found' => ?_⟩
          by_cases same : other = question
          · subst same
            rw [List.lookup_cons_self] at found'
            cases found'
            exact answered
          · rw [lookup_cons_of_ne same] at found'
            exact known other answer' found'

end Simulations

end OAuthRelay.Memo
