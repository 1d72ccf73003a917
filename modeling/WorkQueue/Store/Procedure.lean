import WorkQueue.Store.Call

/-! # Procedures

What a caller does is a sequence of store calls and of changes to the caller's own state. A
procedure stops before each of them, so several procedures can be interleaved call by call;
`run` carries one out without interruption.
-/

namespace WorkQueue

/-- A procedure of a caller with local state `S` that ends with a value of type `α`. -/
inductive Procedure (S α : Type) : Type where
  | done (value : α)
  /-- Make a call and go on with its reply. -/
  | call (c : Call) (next : c.Reply → Procedure S α)
  /-- Change the local state and go on with the state before the change. -/
  | update (f : S → S) (next : S → Procedure S α)

namespace Procedure

variable {S α β σ : Type}

def bind (p : Procedure S α) (f : α → Procedure S β) : Procedure S β :=
  match p with
  | done value => f value
  | call c next => .call c fun r => (next r).bind f
  | update g next => .update g fun s => (next s).bind f

instance : Monad (Procedure S) where
  pure := done
  bind := bind

theorem bind_done (p : Procedure S α) : p.bind done = p := by
  induction p with
  | done value => rfl
  | call c next ih => exact congrArg (call c) (funext ih)
  | update g next ih => exact congrArg (update g) (funext ih)

theorem bind_assoc {γ : Type} (p : Procedure S α) (f : α → Procedure S β) (g : β → Procedure S γ) :
    (p.bind f).bind g = p.bind fun value => (f value).bind g := by
  induction p with
  | done value => rfl
  | call c next ih => exact congrArg (call c) (funext ih)
  | update h next ih => exact congrArg (update h) (funext ih)

instance : LawfulMonad (Procedure S) :=
  .mk' (Procedure S) bind_done (fun _ _ => rfl) bind_assoc

/-- Make one call. -/
def ask (c : Call) : Procedure S c.Reply := .call c done

/-- The local state. -/
def read : Procedure S S := .update id done

/-- Change the local state; the value is the state before. -/
def modify (f : S → S) : Procedure S S := .update f done

/-- Carry a procedure out on a store that answers with `answer`. -/
def run (answer : σ → (c : Call) → c.Reply × σ) : Procedure S α → σ → S → α × σ × S
  | done value, store, s => (value, store, s)
  | call c next, store, s =>
    let (reply, store) := answer store c
    (next reply).run answer store s
  | update f next, store, s => (next s).run answer store (f s)

theorem run_bind (answer : σ → (c : Call) → c.Reply × σ) (p : Procedure S α)
    (f : α → Procedure S β) (store : σ) (s : S) :
    (p >>= f).run answer store s =
      (f (p.run answer store s).1).run answer (p.run answer store s).2.1
        (p.run answer store s).2.2 := by
  change (p.bind f).run answer store s = _
  induction p generalizing store s with
  | done value => rfl
  | call c next ih => exact ih _ _ _
  | update g next ih => exact ih _ _ _

theorem run_ask (answer : σ → (c : Call) → c.Reply × σ) (c : Call) (store : σ) (s : S) :
    (ask c).run answer store s = ((answer store c).1, (answer store c).2, s) := rfl

theorem run_ask_bind {answer : σ → (c : Call) → c.Reply × σ} {c : Call} {reply : c.Reply}
    {store store' : σ} (h : answer store c = (reply, store')) (f : c.Reply → Procedure S β)
    (s : S) :
    (ask c >>= f).run answer store s = (f reply).run answer store' s := by
  rw [run_bind, run_ask, h]

theorem run_read (answer : σ → (c : Call) → c.Reply × σ) (store : σ) (s : S) :
    read.run answer store s = (s, store, s) := rfl

/-- Carry out the first step of a procedure; a finished one stays as it is. -/
def step (answer : σ → (c : Call) → c.Reply × σ) : Procedure S α → σ → S → Procedure S α × σ × S
  | done value, store, s => (done value, store, s)
  | call c next, store, s =>
    let (reply, store) := answer store c
    (next reply, store, s)
  | update f next, store, s => (next s, store, f s)

end Procedure

end WorkQueue
