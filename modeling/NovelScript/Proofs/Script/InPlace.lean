import NovelScript.Script

/-!
Imports that change a script in place. After an error one goes on with what the script then is, and
it is what it was: a failed import has changed nothing (`runOn_perform`).
-/

namespace NovelScript

inductive ImportCall where
  | messages (text : String)
  | strings (text : String)
  deriving DecidableEq, Repr

/-- A step that may change a script and fail. What it has changed by then stays changed. -/
abbrev InPlace := ExceptT ScriptError (StateM Script)

namespace InPlace

def runOn {α : Type} (step : InPlace α) (s : Script) : Except ScriptError α × Script :=
  (ExceptT.run step).run s

/-- The references are looked for before the first change. -/
def commit (c : Container) : InPlace Unit := do
  let refs ← ofExcept ((c.references (← get).names).mapError .decode)
  modify fun s ↦ { s with container := c }
  modify fun s ↦ { s with references := refs }

def importMessages (text : String) : InPlace Unit := do
  let s ← get
  let edits ← ofExcept ((TextSheet.readMessages text s.container.messages.size).mapError .sheet)
  let texts ← ofExcept (s.editedMessages edits)
  let c ← ofExcept ((s.container.repackMessages texts).mapError .packing)
  commit c

def importStrings (text : String) : InPlace Unit := do
  let s ← get
  let known := Std.TreeSet.ofList (s.strings.map Prod.fst)
  let edits ← ofExcept ((TextSheet.readStrings text known).mapError .sheet)
  let strings := s.references.strings
  let c ← ofExcept ((s.container.repackStrings strings (s.editedStrings edits)).mapError .packing)
  commit c

def perform : ImportCall → InPlace Unit
  | .messages text => importMessages text
  | .strings text => importStrings text

/-- The script after some imports, each of which may have failed. -/
def after (s : Script) (calls : List ImportCall) : Script :=
  calls.foldl (fun s call ↦ ((perform call).runOn s).2) s

/-- The outcome of an import that gives a new script or leaves the old one as it is. -/
def settled (s : Script) : Except ScriptError Script → Except ScriptError Unit × Script
  | .ok s' => (.ok (), s')
  | .error e => (.error e, s)

variable {s : Script}

theorem runOn_get_bind {α : Type} {k : Script → InPlace α} :
    (get >>= k : InPlace α).runOn s = (k s).runOn s := rfl

/-- Steps that only compute something change nothing when they fail. -/
theorem runOn_ofExcept_bind {α : Type} {x : Except ScriptError α} {k : α → InPlace Unit}
    {k' : α → Except ScriptError Script} (h : ∀ a, (k a).runOn s = settled s (k' a)) :
    (ofExcept x >>= k : InPlace Unit).runOn s = settled s (x >>= k') := by
  cases x with
  | error e => rfl
  | ok a => exact h a

theorem runOn_commit (c : Container) : (commit c).runOn s = settled s (s.commit c) := by
  rw [commit, runOn_get_bind]
  exact runOn_ofExcept_bind fun refs ↦ rfl

end InPlace

def ImportCall.apply (s : Script) : ImportCall → Except ScriptError Script
  | .messages text => s.importMessages text
  | .strings text => s.importStrings text

namespace InPlace

/-- In place and by value an import does the same, and a failed one nothing. -/
theorem runOn_perform (call : ImportCall) (s : Script) :
    (perform call).runOn s = settled s (call.apply s) := by
  cases call with
  | messages text =>
    rw [perform, importMessages, runOn_get_bind]
    exact runOn_ofExcept_bind fun edits ↦ runOn_ofExcept_bind fun texts ↦
      runOn_ofExcept_bind fun c ↦ runOn_commit c
  | strings text =>
    rw [perform, importStrings, runOn_get_bind]
    exact runOn_ofExcept_bind fun edits ↦ runOn_ofExcept_bind fun c ↦ runOn_commit c

theorem after_cons (s : Script) (call : ImportCall) (calls : List ImportCall) :
    after s (call :: calls) = after (settled s (call.apply s)).2 calls := by
  rw [after, List.foldl_cons, runOn_perform]
  rfl

end InPlace

end NovelScript
