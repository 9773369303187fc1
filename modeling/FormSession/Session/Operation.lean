import FormSession.Session.GroupRows

/-! # Operations

What a host can ask of a session, as data, and what it is told in return. -/

namespace FormSession

/-- An operation of a session. -/
inductive Operation where
  | start
  | classify
  /-- Applies the classification applied last to every row again. -/
  | reapply
  | apply (m : Classification) (force : Bool)
  | write (e : FormEdit)
  | clear
  | discard
  | flush
  | navigate (step : String)
  | save
  | addRow (group : String)
  | removeRow (group : String) (index : Nat)
  | resetGroup (group : String)

/-- What an operation tells in return. -/
inductive Reply where
  | done
  /-- The published update, if there was one. -/
  | update (u : Option Update)
  | batches (n : Nat)
  | committed (fields : List String)
  /-- Whether a row was added or removed. -/
  | accepted (b : Bool)
  deriving DecidableEq

namespace Operation

variable {η σ : Type}

/-- What an operation does, and what it replies. -/
def action [EditHook η] [Sink σ] (form : Form) : Operation → Action η σ Reply
  | .start => do Action.start form; return .done
  | .classify => do Action.classify form; return .done
  | .reapply => do Action.reapply form; return .done
  | .apply m force => do Action.apply form m force; return .done
  | .write e => return .update (← Action.write form e)
  | .clear => return .update (← Action.clear form)
  | .discard => return .update (← Action.discard form)
  | .flush => return .batches (← Action.flush form)
  | .navigate step => do Action.navigate form step; return .done
  | .save => return .committed (← Action.save form)
  | .addRow group => return .accepted (← Action.addRow form group)
  | .removeRow group index => return .accepted (← Action.removeRow form group index)
  | .resetGroup group => do Action.resetGroup form group; return .done

/-- Carries an operation out on a session, with a receiver of its events. Tells the reply or the error,
    and the run with what was done. -/
def perform [EditHook η] [Sink σ] (form : Form) (op : Operation) (s : Session η) (sink : σ) :
    Except SessionError Reply × Run η σ :=
  (op.action form).perform ⟨s, sink, []⟩

end Operation

end FormSession
