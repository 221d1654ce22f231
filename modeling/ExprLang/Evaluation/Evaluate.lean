import ExprLang.Evaluation.Interpreter

/-!
# Evaluation

An expression is evaluated in an environment and gives a value and the environment to go on with, which has the bindings that the
expression made in front. A name is a value until an operand is needed; then it is resolved in the environment that its own evaluation
left.

`step` says for each kind of expression how it is evaluated with the help of an evaluator for its parts, and `evaluate` ties the knot:
the evaluator for the parts is `evaluate` with one step less. A loop may take as many turns as there are steps left.
-/

namespace ExprLang

namespace Evaluation

variable {σ : Type}

/-- Evaluates expressions in environments. -/
abbrev Evaluator (σ : Type) := Expression → Environment → Evaluation σ Evaluated

/-- Evaluates an expression whose value is needed, for a purpose named by `context`. -/
def operand (eval : Evaluator σ) (e : Expression) (env : Environment) (context : String) : Evaluation σ Evaluated := do
  let r ← eval e env
  return ⟨← resolve r.value r.env context, r.env⟩

/-- Evaluates expressions one after the other, each in the environment that the one before left. -/
def sequence (eval : Evaluator σ) : List Expression → Evaluated → Evaluation σ Evaluated
  | [], last => return last
  | e :: rest, last => do sequence eval rest (← eval e last.env)

/-- Evaluates arguments one after the other. -/
def arguments (eval : Evaluator σ) : List Expression → Environment → Evaluation σ (List Value × Environment)
  | [], env => return ([], env)
  | e :: rest, env => do
    let r ← operand eval e env "Call"
    let (values, env) ← arguments eval rest r.env
    return (r.value :: values, env)

/-- Evaluates the fields of a record one after the other. -/
def fields (eval : Evaluator σ) : List (String × Expression) → Environment →
    Evaluation σ (List (String × Value) × Environment)
  | [], env => return ([], env)
  | (name, e) :: rest, env => do
    let r ← operand eval e env "Object"
    let (values, env) ← fields eval rest r.env
    return ((name, r.value) :: values, env)

/-- Ends a call or a block: a return ends a call with its value, and whatever the end, cells are given back. -/
def finishCall (reclamation : Reclamation) (mark : Mark) (body : Evaluation σ Evaluated) : Evaluation σ Value := fun m =>
  match body m with
  | .ok _ m => .ok .void (m.reclaim reclamation mark)
  | .error (.returned value) m => .ok value (m.reclaim reclamation mark)
  | .error interrupt m => .error interrupt (m.reclaim reclamation mark)

/-- Calls a function: its parameters are bound to the arguments in front of an environment, and its body is evaluated there. -/
def invoke (reclamation : Reclamation) (eval : Evaluator σ) (literal : FunctionLiteral) (values : List Value)
    (env : Environment) : Evaluation σ Value := do
  if literal.parameters.length ≠ values.length then fail (.wrongArity literal.parameters.length values.length)
  let mark := (← get).mark
  let frame ← bindAll env (literal.parameters.zip values)
  finishCall reclamation mark (eval literal.body frame)

/-- The literal to call and the environment to call it in: that of the caller, unless it is a closure. -/
def callee (value : Value) (env : Environment) : Evaluation σ (FunctionLiteral × Environment) := do
  match value with
  | .function literal => return (literal, env)
  | .closure number =>
    match (← get).closures[number]? with
    | some closure => return (closure.literal, closure.env)
    | none => fail (.notCallable value.typeName)
  | value => fail (.notCallable value.typeName)

/-- Evaluates the body as long as the condition holds, each time in the environment left by what came before. -/
def loop (eval : Evaluator σ) (condition body : Expression) : (turns : Nat) → Environment → Evaluation σ Evaluated
  | 0, _ => throw .exhausted
  | turns + 1, env => do
    let test ← operand eval condition env "While"
    if ← ofExcept (test.value.expectBool "While") then
      let r ← eval body test.env
      loop eval condition body turns r.env
    else return ⟨.void, test.env⟩

/-- The name and the cell that an evaluated target stands for. -/
def target (r : Evaluated) : Evaluation σ (String × Nat) :=
  match r.value with
  | .id name =>
    match r.env.find? name with
    | some slot => return (name, slot)
    | none => fail (.unbound name "Assign")
  | value => fail (.notAssignable value.typeName)

/-- Evaluates an operator between two operands. -/
def binary (eval : Evaluator σ) (left : Expression) (op : Operator) (right : Expression) (env : Environment) :
    Evaluation σ Evaluated := do
  let l ← operand eval left env op.name
  match op with
  | .arithmetic o =>
    let r ← operand eval right l.env op.name
    return ⟨← ofExcept (o.apply l.value r.value), r.env⟩
  | .comparison o =>
    let r ← operand eval right l.env op.name
    return ⟨.bool (← ofExcept (o.apply l.value r.value)), r.env⟩
  | .stringEqual =>
    let r ← operand eval right l.env op.name
    return ⟨.bool (← ofExcept (Value.compareStrings op (· == ·) l.value r.value)), r.env⟩
  | .stringLess =>
    let r ← operand eval right l.env op.name
    return ⟨.bool (← ofExcept (Value.compareStrings op (· < ·) l.value r.value)), r.env⟩
  | .and =>
    if ← ofExcept (l.value.expectBool op.name) then
      let r ← operand eval right l.env op.name
      return ⟨.bool (← ofExcept (r.value.expectBool op.name)), r.env⟩
    else return ⟨.bool false, l.env⟩
  | .or =>
    if ← ofExcept (l.value.expectBool op.name) then return ⟨.bool true, l.env⟩
    else
      let r ← operand eval right l.env op.name
      return ⟨.bool (← ofExcept (r.value.expectBool op.name)), r.env⟩

/-- Evaluates an expression, its parts with the evaluator `eval`, and loops for at most so many turns. -/
def step [Sink σ] (reclamation : Reclamation) (eval : Evaluator σ) (turns : Nat) (e : Expression) (env : Environment) :
    Evaluation σ Evaluated := do
  match e with
  | .integer v => return ⟨.int v, env⟩
  | .float v => return ⟨.float v, env⟩
  | .boolean v => return ⟨.bool v, env⟩
  | .string v => return ⟨.string v, env⟩
  | .identifier name => return ⟨.id name, env⟩
  | .void => return ⟨.void, env⟩
  | .varDecl name => return ⟨.id name, ← bind env name .void⟩
  | .funcDecl name f => return ⟨.id name, ← bind env name (.function f)⟩
  | .function f => return ⟨.function f, env⟩
  | .closure f => return ⟨← capture f env, env⟩
  | .scope body =>
    let mark := (← get).mark
    let r ← eval body env
    let value ← resolve r.value r.env "Scope"
    modify (·.reclaim reclamation mark)
    return ⟨value, env⟩
  | .sequence es => sequence eval es ⟨.void, env⟩
  | .not a =>
    let r ← operand eval a env "Not"
    return ⟨.bool (!(← ofExcept (r.value.expectBool "Not"))), env⟩
  | .binary a op b => binary eval a op b env
  | .assign place a =>
    let place ← eval place env
    let (name, slot) ← target place
    let r ← operand eval a place.env "Assign"
    recapture r.value r.env
    store name slot r.value
    return ⟨.id name, r.env⟩
  | .call f as =>
    let f ← operand eval f env "Call"
    let (values, site) ← arguments eval as f.env
    let (literal, base) ← callee f.value site
    return ⟨← invoke reclamation eval literal values base, site⟩
  | .conditional a b c =>
    let test ← operand eval a env "If"
    if ← ofExcept (test.value.expectBool "If") then eval b test.env
    else
      match c with
      | some c => eval c test.env
      | none => return ⟨.void, test.env⟩
  | .loop a b => loop eval a b turns env
  | .ret a =>
    let r ← operand eval a env "Return"
    throw (.returned r.value)
  | .print a =>
    let r ← operand eval a env "Print"
    printLine r.value.text
    return ⟨.void, r.env⟩
  | .isType a name =>
    let r ← operand eval a env "IsType"
    return ⟨.bool (r.value.typeName == name), r.env⟩
  | .stringLength a =>
    let r ← operand eval a env "StringLength"
    return ⟨← ofExcept r.value.stringLength, r.env⟩
  | .substring a b c =>
    let a ← operand eval a env "Substring"
    let b ← operand eval b a.env "Substring"
    let c ← operand eval c b.env "Substring"
    return ⟨← ofExcept (a.value.substring b.value c.value), c.env⟩
  | .object fs =>
    let (values, env) ← fields eval fs env
    return ⟨Value.ofFields values, env⟩
  | .field a name =>
    let r ← operand eval a env "Field"
    return ⟨← ofExcept (r.value.field name), r.env⟩

end Evaluation

/-- Evaluates an expression in an environment, expressions inside one another at most `steps` deep. -/
def evaluate {σ : Type} [Sink σ] (reclamation : Reclamation) : (steps : Nat) → Evaluation.Evaluator σ
  | 0, _, _ => throw .exhausted
  | steps + 1, e, env => Evaluation.step reclamation (evaluate reclamation steps) steps e env

/-- Evaluates a whole program, beginning with no names, and resolves its value. A return that no call takes is an error. -/
def run {σ : Type} [Sink σ] (reclamation : Reclamation) (steps : Nat) (program : Expression) : Evaluation σ Value := fun m =>
  match evaluate reclamation steps program Environment.empty m with
  | .ok r m => Evaluation.resolve r.value r.env program.kind m
  | .error (.returned _) m => .error (.failed .returnOutsideFunction) m
  | .error interrupt m => .error interrupt m

end ExprLang
