import Scriptlet.Proofs.Eval.Outcome

/-!
# Evaluation as a machine with a stack

The order in which a program does things can be written down without recursion: as a list of
instructions for a machine that keeps values on a stack.  An operator stands behind the code of its
operands, and a write behind the code of the value that is written.  `Program.code` translates
programs in this way, and `Machine.run` runs the code.  The machine stops at the first instruction
that fails, with the store as it is then.  The main result says that programs and their code agree,
in the value, in the error and in the store that is left.

`Machine.Performs` says that a piece of code does what a computation does, whatever code comes
behind it.  There is a lemma for single instructions and one for sequences, and then one for each
part of a program.
-/

namespace Scriptlet

/-! ## The machine -/

/-- The instructions of a machine with a stack of values. -/
inductive Instruction where
  /-- Pushes a value. -/
  | push (value : Value)
  /-- Pushes the value of a name. -/
  | load (name : String)
  /-- Assigns the top value to a name; the value stays on the stack. -/
  | store (name : String)
  /-- Declares a name with the top value, which stays on the stack. -/
  | declare (name : String) (constant : Bool)
  /-- Takes two operands off, the right one first, and pushes what the operator gives for them. -/
  | apply (op : Operator)
  /-- Takes off one value for each key, the last one first, and pushes a new object with these
  properties. -/
  | object (keys : List String)
  /-- Takes the top value off. -/
  | drop
  /-- Fails. -/
  | fail (error : RuntimeError)

namespace Machine

/-- Why the machine stops in the middle of its code. -/
inductive Halt where
  /-- An instruction fails. -/
  | failed (error : RuntimeError)
  /-- There are too few values on the stack. -/
  | underflow

/-- Writes the top value, which stays on the stack. -/
def writeTop (stack : List Value) (write : Value → Except RuntimeError Store) :
    Except Halt (List Value × Store) :=
  match stack with
  | [] => .error .underflow
  | v :: _ =>
    match write v with
    | .ok t => .ok (stack, t)
    | .error err => .error (.failed err)

/-- One instruction, in the scope `e`: the stack and the store that it leaves. -/
def step (e : ScopeId) (stack : List Value) (s : Store) :
    Instruction → Except Halt (List Value × Store)
  | .push v => .ok (v :: stack, s)
  | .load name =>
    match s.lookup e name with
    | .ok v => .ok (v :: stack, s)
    | .error err => .error (.failed err)
  | .store name => writeTop stack fun v => s.assign e name v
  | .declare name constant => writeTop stack fun v => s.declare e name v constant
  | .apply op =>
    match stack with
    | y :: x :: stack => .ok (op.onValues x y :: stack, s)
    | _ => .error .underflow
  | .object keys =>
    if stack.length < keys.length then .error .underflow
    else
      let properties := keys.zip (stack.take keys.length).reverse
      .ok (.object s.objects.next :: stack.drop keys.length, s.addObject (.ofList properties))
  | .drop =>
    match stack with
    | _ :: stack => .ok (stack, s)
    | [] => .error .underflow
  | .fail err => .error (.failed err)

/-- Runs code in the scope `e`.  An instruction that does not go well ends the run, and what was
done before stays done. -/
def run (e : ScopeId) : List Instruction → List Value → Store → Except Halt (List Value) × Store
  | [], stack, s => (.ok stack, s)
  | i :: code, stack, s =>
    match step e stack s i with
    | .ok (stack', s') => run e code stack' s'
    | .error halt => (.error halt, s)

end Machine

/-! ## Code -/

mutual

/-- The code of an expression, which leaves its value on the stack.  What cannot be evaluated fails
in front of the code of its parts. -/
def Expr.code : Expr → List Instruction
  | .number x => [.push (.number x)]
  | .null => [.push .null]
  | .name n => [.load n]
  | .binary op left right => left.code ++ (right.code ++ [.apply op])
  | .assign target value =>
    match target.name? with
    | none => .fail (.notAssignable target.kind) :: (target.code ++ value.code)
    | some n => value.code ++ [.store n]
  | .object ps => propertiesCode ps ++ [.object (ps.map Property.key)]
  | .dot object property => .fail (.notEvaluable .member) :: (object.code ++ property.code)
  | .index object property => .fail (.notEvaluable .member) :: (object.code ++ property.code)
  | .call callee args => .fail (.notEvaluable .call) :: (callee.code ++ argumentsCode args)

/-- The code of properties, which leaves a value for each of them on the stack. -/
def propertiesCode : List Property → List Instruction
  | [] => []
  | .shorthand key :: ps => .load key :: propertiesCode ps
  | .pair _ value :: ps => value.code ++ propertiesCode ps

/-- The code of arguments. -/
def argumentsCode : List Expr → List Instruction
  | [] => []
  | x :: xs => x.code ++ argumentsCode xs

end

/-- The code of a statement, which leaves its value on the stack. -/
def Statement.code : Statement → List Instruction
  | .expr x => x.code
  | .declaration name constant value =>
    (match value with
      | some x => x.code
      | none => [.push .null]) ++ [.declare name constant]

/-- The code of statements: each of them replaces the value of the one before it. -/
def statementsCode : List Statement → List Instruction
  | [] => []
  | stmt :: stmts => .drop :: (stmt.code ++ statementsCode stmts)

/-- The code of a program, which leaves the value of the last statement, or null, on the stack. -/
def Program.code (p : Program) : List Instruction :=
  .push .null :: statementsCode p.body

/-! ## Code that does what a computation does -/

namespace Machine

variable {α β : Type} {e : ScopeId}

/-- What the machine makes of the outcome of a computation: it goes on with the code `rest` and the
stack `leaves a`, or stops. -/
def goOn (e : ScopeId) (rest : List Instruction) (leaves : α → List Value) :
    Except RuntimeError α × Store → Except Halt (List Value) × Store
  | (.ok a, s) => run e rest (leaves a) s
  | (.error err, s) => (.error (.failed err), s)

/-- On the given stack, the code does what the computation `x` does, and leaves the stack
`leaves a` if that gives `a`. -/
def Performs (e : ScopeId) (code : List Instruction) (stack : List Value) (x : Eval α)
    (leaves : α → List Value) : Prop :=
  ∀ rest s, run e (code ++ rest) stack s = goOn e rest leaves (x.outcome s)

/-- Pushing a value is giving it. -/
lemma performs_push (v : Value) (stack : List Value) :
    Performs e [.push v] stack (pure v) (· :: stack) :=
  fun _ _ => rfl

/-- No code gives what is on the stack already. -/
lemma performs_pure (a : α) (leaves : α → List Value) : Performs e [] (leaves a) (pure a) leaves :=
  fun _ _ => rfl

/-- Nothing behind an instruction that fails matters. -/
lemma performs_fail (err : RuntimeError) (code : List Instruction) (stack : List Value)
    (leaves : α → List Value) : Performs e (.fail err :: code) stack (throw err) leaves :=
  fun _ _ => rfl

/-- The right operand was pushed last. -/
lemma performs_apply (op : Operator) (x y : Value) (stack : List Value) :
    Performs e [.apply op] (y :: x :: stack) (pure (op.onValues x y)) (· :: stack) :=
  fun _ _ => rfl

/-- Loading a name is looking it up. -/
lemma performs_load (name : String) (stack : List Value) :
    Performs e [.load name] stack (Eval.read fun s => s.lookup e name) (· :: stack) := by
  intro rest s
  rw [List.singleton_append, run, step, Eval.outcome_read]
  cases s.lookup e name <;> rfl

/-- The two instructions that write do so with the value on top. -/
lemma performs_write {i : Instruction} {f : Value → Store → Except RuntimeError Store}
    (hi : ∀ stack s, step e stack s i = writeTop stack fun v => f v s) (v : Value)
    (stack : List Value) :
    Performs e [i] (v :: stack) (do Eval.change (f v); pure v) (· :: stack) := by
  intro rest s
  rw [List.singleton_append, run, hi, writeTop, Eval.outcome_bind, Eval.outcome_change]
  cases f v s <;> rfl

/-- An object is made of the values on top, the last of which was pushed last. -/
lemma performs_object {keys : List String} {values : List Value}
    (h : values.length = keys.length) (stack : List Value) :
    Performs e [.object keys] (values.reverse ++ stack)
      (Eval.newObject (.ofList (keys.zip values))) (· :: stack) := by
  intro rest s
  have hlength : values.reverse.length = keys.length := by rw [List.length_reverse, h]
  have henough : ¬ (values.reverse ++ stack).length < keys.length := by
    rw [List.length_append, hlength]
    omega
  rw [List.singleton_append, run, step, if_neg henough, ← hlength, List.take_left, List.drop_left,
    List.reverse_reverse]
  rfl

/-- The code of a part, and then the code of what goes on with the value of that part. -/
lemma Performs.bind {code code' : List Instruction} {stack : List Value} {x : Eval α}
    {f : α → Eval β} {leaves : α → List Value} {leaves' : β → List Value}
    (hx : Performs e code stack x leaves) (hf : ∀ a, Performs e code' (leaves a) (f a) leaves') :
    Performs e (code ++ code') stack (x >>= f) leaves' := by
  intro rest s
  rw [List.append_assoc, hx, Eval.outcome_bind]
  cases x.outcome s with
  | mk r t =>
    cases r with
    | ok a => exact hf a rest t
    | error err => rfl

end Machine

/-! ## The code of a program does what the program does -/

open Machine

/-- A value more on the stack is a key more in the table. -/
lemma Table.ofList_zip_concat {keys : List String} {values : List Value}
    (h : values.length = keys.length) (key : String) (v : Value) :
    Table.ofList ((keys ++ [key]).zip (values ++ [v])) =
      (Table.ofList (keys.zip values)).insert key v := by
  rw [List.zip_append h.symm, Table.ofList, List.foldl_append]
  rfl

variable {e : ScopeId}

mutual

/-- The code of an expression pushes its value, or stops with its error in the same store. -/
lemma Expr.performs (x : Expr) (stack : List Value) :
    Performs e x.code stack (x.eval e) (· :: stack) := by
  cases x with
  | number v =>
    rw [Expr.code, Expr.eval]
    exact performs_push (.number v) stack
  | null =>
    rw [Expr.code, Expr.eval]
    exact performs_push .null stack
  | name n =>
    rw [Expr.code, Expr.eval]
    exact performs_load n stack
  | binary op left right =>
    rw [Expr.code, Expr.eval]
    refine (left.performs stack).bind fun x => ?_
    exact (right.performs (x :: stack)).bind fun y => performs_apply op x y stack
  | assign target value =>
    rw [Expr.code, Expr.eval]
    cases target.name? with
    | none => exact performs_fail _ _ stack _
    | some n =>
      refine (value.performs stack).bind fun v => ?_
      exact performs_write (f := fun v s => s.assign e n v) (fun _ _ => rfl) v stack
  | object ps =>
    rw [Expr.code, Expr.eval]
    exact performs_properties [] [] rfl ps stack
  | dot object property =>
    rw [Expr.code, Expr.eval]
    exact performs_fail _ _ stack _
  | index object property =>
    rw [Expr.code, Expr.eval]
    exact performs_fail _ _ stack _
  | call callee args =>
    rw [Expr.code, Expr.eval]
    exact performs_fail _ _ stack _

/-- Some properties were evaluated, and their values are on the stack; the others are evaluated now,
and then the object is made of all of them. -/
lemma performs_properties (keys : List String) (values : List Value)
    (h : values.length = keys.length) (ps : List Property) (stack : List Value) :
    Performs e (propertiesCode ps ++ [.object (keys ++ ps.map Property.key)])
      (values.reverse ++ stack)
      (evalProperties e (.ofList (keys.zip values)) ps >>= Eval.newObject) (· :: stack) := by
  -- One more value is on the stack, and its property is in the table.
  have hnext : ∀ (key : String) (v : Value), (values ++ [v]).length = (keys ++ [key]).length := by
    simp [h]
  match ps with
  | [] =>
    rw [propertiesCode, evalProperties, List.map_nil, List.append_nil, pure_bind]
    exact performs_object h stack
  | .shorthand key :: ps =>
    rw [propertiesCode, evalProperties, bind_assoc, List.map_cons, List.append_cons keys]
    refine (performs_load key _).bind fun v => ?_
    have hrest := performs_properties _ _ (hnext key v) ps stack
    rwa [Table.ofList_zip_concat h, List.reverse_concat] at hrest
  | .pair key value :: ps =>
    rw [propertiesCode, evalProperties, bind_assoc, List.map_cons, List.append_cons keys,
      List.append_assoc]
    refine (value.performs _).bind fun v => ?_
    have hrest := performs_properties _ _ (hnext key v) ps stack
    rwa [Table.ofList_zip_concat h, List.reverse_concat] at hrest

end

/-- The code of a statement pushes its value, or stops with its error in the same store. -/
lemma Statement.performs (stmt : Statement) (stack : List Value) :
    Performs e stmt.code stack (stmt.eval e) (· :: stack) := by
  cases stmt with
  | expr x => exact x.performs stack
  | declaration name constant value =>
    have hdeclare : ∀ v : Value, Performs e [.declare name constant] (v :: stack)
        (do Eval.change fun s => s.declare e name v constant; pure v) (· :: stack) :=
      fun v => performs_write (f := fun v s => s.declare e name v constant) (fun _ _ => rfl) v stack
    cases value with
    | none =>
      rw [Statement.code, Statement.eval]
      exact (performs_push .null stack).bind hdeclare
    | some x =>
      rw [Statement.code, Statement.eval]
      exact (x.performs stack).bind hdeclare

/-- The value of the statements before is on the stack. -/
lemma statements_perform (stmts : List Statement) (last : Value) (stack : List Value) :
    Performs e (statementsCode stmts) (last :: stack) (evalStatements e last stmts)
      (· :: stack) := by
  induction stmts generalizing last with
  | nil => exact performs_pure last (· :: stack)
  | cons stmt stmts ih =>
    have hrun : Performs e (stmt.code ++ statementsCode stmts) stack
        (evalStatements e last (stmt :: stmts)) (· :: stack) :=
      (stmt.performs stack).bind fun v => ih v
    -- The value of the statement before is dropped first.
    exact fun rest s => hrun rest s

/-- A program and its code agree: the machine leaves the value of the program on its stack, or stops
with the error of the program, and in both cases the store is the one that the program leaves. -/
theorem Machine.run_code (p : Program) (e : ScopeId) (s : Store) :
    run e p.code [] s =
      match (p.eval e).outcome s with
      | (.ok v, t) => (.ok [v], t)
      | (.error err, t) => (.error (.failed err), t) := by
  have hrun : run e p.code [] s = run e (statementsCode p.body ++ []) [.null] s := by
    rw [List.append_nil]
    rfl
  rw [hrun, statements_perform p.body .null []]
  change goOn e [] _ ((p.eval e).outcome s) = _
  cases (p.eval e).outcome s with
  | mk r t => cases r <;> rfl

end Scriptlet
